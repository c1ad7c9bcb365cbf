import PromScrape.Proofs.ParserLines

set_option autoImplicit false

/-! # Reads of the text parser

The parser over reads that may abort is the parser: every read that it makes is there. -/

namespace PromScrape

open Utf8 (utf8Bytes)

theorem parse_checked (body : String) (defaultTimestampMs : Int64) (honorTimestamps : Bool) :
    (Access.checked false (utf8Bytes body)).parse (utf8Bytes body).length defaultTimestampMs
        honorTimestamps = parse body defaultTimestampMs honorTimestamps := by
  rw [parse_eq]
  exact (Access.reads_checked _).parse_eq defaultTimestampMs honorTimestamps

/-- **The parser reads only what is there.** No index and no slice is out of bounds, and the slices
but for the windows in which a closing quote is looked for start and end on character boundaries; so
`str_from` never falls back and `utf8_from` never fails. -/
theorem parse_reads_in_bounds (body : String) (defaultTimestampMs : Int64) (honorTimestamps : Bool) :
    (Access.checked false (utf8Bytes body)).parse (utf8Bytes body).length defaultTimestampMs
        honorTimestamps = parse body defaultTimestampMs honorTimestamps ∧
      parse body defaultTimestampMs honorTimestamps ≠ .error .panic ∧
      ∀ lineNo, parse body defaultTimestampMs honorTimestamps ≠
        parseError lineNo .invalidBoundary := by
  refine ⟨parse_checked body defaultTimestampMs honorTimestamps, ?_⟩
  have hverdict := parseLines_verdict defaultTimestampMs honorTimestamps 0
    ((bodyLines body.toList).map dropCr)
  rw [← parse_eq] at hverdict
  generalize parse body defaultTimestampMs honorTimestamps = result at hverdict ⊢
  generalize (bodyLines body.toList).map dropCr = lines at hverdict
  cases hverdict with
  | accepted series _ => simp [parseError]
  | rejected after _ hline =>
      have hkind := hline.kind_ne
      simp [parseError, hkind]

/-- Past an escaped character of several bytes the window starts inside the character. -/
theorem window_insideCharacter :
    ¬ ∀ (body : String) (defaultTimestampMs : Int64) (honorTimestamps : Bool),
      (Access.checked true (utf8Bytes body)).parse (utf8Bytes body).length defaultTimestampMs
        honorTimestamps ≠ .error .panic :=
  fun h => h "m\x7ba=\"\\é\"\x7d 1" 0 true rfl

end PromScrape
