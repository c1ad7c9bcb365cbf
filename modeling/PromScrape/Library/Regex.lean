import Mathlib

set_option autoImplicit false

/-! # A documented fragment of regular expressions

Patterns built of literal characters and `.*`, written as a user writes them (`print`), with the
language the syntax documents for them (`Lang`): a character that is no metacharacter matches
itself, `.` matches every character except a newline, `*` repeats, juxtaposition concatenates.

An `Engine` is whatever compiles and runs patterns; `Engine.Documented` is what its documentation
promises for this fragment — anchoring, capture group 1, expansion of a template — and nothing about
any other pattern. The last section builds an engine for the fragment itself, so that the promises
are known to be satisfiable. -/

namespace Regex

/-- Characters with a special meaning in a pattern. -/
def metaChars : List Char :=
  ['.', '^', '$', '*', '+', '?', '(', ')', '[', ']', '{', '}', '|', '\\']

/-! ## Patterns -/

/-- A literal character, or `.*`. -/
inductive Piece where
  | char (c : Char)
  | anyStar
deriving DecidableEq, Repr

def Piece.print : Piece → List Char
  | .char c => [c]
  | .anyStar => ['.', '*']

/-- The pattern text. -/
def print (p : List Piece) : List Char := p.flatMap Piece.print

@[simp] theorem print_nil : print [] = [] := rfl

@[simp] theorem print_cons (x : Piece) (p : List Piece) : print (x :: p) = x.print ++ print p := rfl

@[simp] theorem print_append (p q : List Piece) : print (p ++ q) = print p ++ print q :=
  List.flatMap_append ..

/-- Literal characters are no metacharacters. -/
def WellFormed (p : List Piece) : Prop := ∀ c, .char c ∈ p → c ∉ metaChars

/-- The strings a pattern matches as a whole. -/
def Lang : List Piece → List Char → Prop
  | [], w => w = []
  | .char c :: p, w => ∃ v, Lang p v ∧ w = c :: v
  | .anyStar :: p, w => ∃ u v, '\n' ∉ u ∧ Lang p v ∧ w = u ++ v

/-- A literal text as a pattern. -/
def literal (cs : List Char) : List Piece := cs.map .char

@[simp] theorem print_literal (cs : List Char) : print (literal cs) = cs := by
  induction cs with
  | nil => rfl
  | cons c rest ih => simpa [literal, Piece.print] using ih

theorem wellFormed_literal {cs : List Char} (h : ∀ c ∈ cs, c ∉ metaChars) :
    WellFormed (literal cs) := by
  intro c hc
  obtain ⟨d, hd, heq⟩ := List.mem_map.1 hc
  exact Piece.char.inj heq ▸ h d hd

theorem lang_literal_append (cs : List Char) (p : List Piece) (w : List Char) :
    Lang (literal cs ++ p) w ↔ ∃ v, Lang p v ∧ w = cs ++ v := by
  induction cs generalizing w with
  | nil => simp [literal]
  | cons c rest ih =>
      constructor
      · rintro ⟨u, hu, rfl⟩
        obtain ⟨v, hv, rfl⟩ := (ih u).1 hu
        exact ⟨v, hv, rfl⟩
      · rintro ⟨v, hv, rfl⟩
        exact ⟨rest ++ v, (ih _).2 ⟨v, hv, rfl⟩, rfl⟩

/-- Literals match themselves. -/
theorem lang_literal (cs w : List Char) : Lang (literal cs) w ↔ w = cs := by
  have h := lang_literal_append cs [] w
  rw [List.append_nil] at h
  rw [h]
  simp [Lang]

/-- `.*` matches whatever has no newline. -/
theorem lang_anyStar (w : List Char) : Lang [.anyStar] w ↔ '\n' ∉ w := by
  simp [Lang]

/-! ## Engines -/

/-- A regex engine, as its clients see it. -/
structure Engine where
  Compiled : Type
  Captures : Type
  compile : String → Option Compiled
  isMatch : Compiled → String → Bool
  captures : Compiled → String → Option Captures
  /-- Substitute group references in a template. -/
  expand : Captures → String → String

/-- A pattern that must match the whole text. -/
def anchor (pattern : String) : String := "^(?:" ++ pattern ++ ")$"

/-- What an engine's documentation promises for the fragment. -/
structure Engine.Documented (E : Engine) : Prop where
  isMatch_eq : ∀ re text, E.isMatch re text = (E.captures re text).isSome
  isMatch_anchored : ∀ p re text, WellFormed p → E.compile (anchor (String.ofList (print p))) = some re →
    (E.isMatch re text = true ↔ Lang p text.toList)
  isMatch_group : ∀ p re text, WellFormed p →
    E.compile (anchor (String.ofList ('(' :: print p ++ [')']))) = some re →
    (E.isMatch re text = true ↔ Lang p text.toList)
  /-- Group 1 of `^(?:(p))$` is the whole text. -/
  expand_group : ∀ p re text caps, WellFormed p →
    E.compile (anchor (String.ofList ('(' :: print p ++ [')']))) = some re →
    E.captures re text = some caps → E.expand caps "$1" = text ∧ E.expand caps "${1}" = text
  expand_plain : ∀ caps template, '$' ∉ template.toList → E.expand caps template = template

/-! ## An engine for the fragment -/

def parsePieces : List Char → Option (List Piece)
  | [] => some []
  | '.' :: '*' :: rest => (parsePieces rest).map (.anyStar :: ·)
  | c :: rest => if c ∈ metaChars then none else (parsePieces rest).map (.char c :: ·)

theorem parsePieces_print {p : List Piece} (hp : WellFormed p) : parsePieces (print p) = some p := by
  induction p with
  | nil => rfl
  | cons x rest ih =>
      have hrest : WellFormed rest := fun c hc => hp c (List.mem_cons_of_mem _ hc)
      cases x with
      | anyStar =>
          show (parsePieces (print rest)).map _ = _
          rw [ih hrest]
          rfl
      | char c =>
          have hc := hp c (List.mem_cons_self ..)
          have hdot : c ≠ '.' := by
            rintro rfl
            exact hc (by decide)
          rw [print_cons, Piece.print, List.singleton_append, parsePieces, if_neg hc, ih hrest]
          · rfl
          · intro _ h
            exact absurd h hdot

/-- Match a whole text. -/
def matchPieces : List Piece → List Char → Bool
  | [], cs => cs.isEmpty
  | .char c :: p, cs => cs.head? == some c && matchPieces p cs.tail
  | .anyStar :: p, cs =>
      (List.range (cs.length + 1)).any (fun k => !(cs.take k).contains '\n' && matchPieces p (cs.drop k))

theorem matchPieces_iff (p : List Piece) (cs : List Char) : matchPieces p cs = true ↔ Lang p cs := by
  induction p generalizing cs with
  | nil => simp [matchPieces, Lang]
  | cons x rest ih =>
      cases x with
      | char c =>
          cases cs with
          | nil => simp [matchPieces, Lang]
          | cons d tail =>
              simp only [matchPieces, Lang, List.head?_cons, List.tail_cons, Bool.and_eq_true,
                beq_iff_eq, Option.some.injEq, ih, List.cons.injEq]
              constructor
              · rintro ⟨rfl, h⟩
                exact ⟨tail, h, rfl, rfl⟩
              · rintro ⟨v, h, rfl, rfl⟩
                exact ⟨rfl, h⟩
      | anyStar =>
          simp only [matchPieces, Lang, List.any_eq_true, List.mem_range, Bool.and_eq_true,
            Bool.not_eq_true', ih]
          constructor
          · rintro ⟨k, -, hk, h⟩
            exact ⟨cs.take k, cs.drop k, by simpa using hk, h, (List.take_append_drop k cs).symm⟩
          · rintro ⟨u, v, hu, h, rfl⟩
            exact ⟨u.length, by simp only [List.length_append]; omega, by simpa using hu,
              by simpa using h⟩

/-- Split `(pieces)` or `pieces`; the flag says whether there is a group. -/
def parseBody (body : List Char) : Option (Bool × List Piece) :=
  let inner := body.tail.dropLast
  if body = '(' :: inner ++ [')'] then (parsePieces inner).map (true, ·)
  else (parsePieces body).map (false, ·)

def parseAnchored (cs : List Char) : Option (Bool × List Piece) :=
  let body := (cs.drop 4).dropLast.dropLast
  if cs = ['^', '(', '?', ':'] ++ body ++ [')', '$'] then parseBody body else none

theorem parseAnchored_anchor (body : List Char) :
    parseAnchored (anchor (String.ofList body)).toList = parseBody body := by
  have hlist : (anchor (String.ofList body)).toList = ['^', '(', '?', ':'] ++ body ++ [')', '$'] := by
    simp [anchor]
  have hbody : ((['^', '(', '?', ':'] ++ body ++ [')', '$']).drop 4).dropLast.dropLast = body := by
    have hdrop : (['^', '(', '?', ':'] ++ body ++ [')', '$']).drop 4 = body ++ [')', '$'] := rfl
    rw [hdrop, List.append_cons, List.dropLast_concat, List.dropLast_concat]
  rw [parseAnchored, hlist, hbody, if_pos rfl]

theorem parseBody_group {p : List Piece} (hp : WellFormed p) :
    parseBody ('(' :: print p ++ [')']) = some (true, p) := by
  simp [parseBody, parsePieces_print hp]

theorem parseBody_plain {p : List Piece} (hp : WellFormed p) : parseBody (print p) = some (false, p) := by
  have hne : ∀ tail, print p ≠ '(' :: tail := by
    intro tail h
    cases p with
    | nil => cases h
    | cons x rest =>
        cases x with
        | anyStar => cases h
        | char c =>
            obtain ⟨rfl, -⟩ := List.cons.inj h
            exact hp _ (List.mem_cons_self ..) (by decide)
  have hgroup : ¬ print p = '(' :: (print p).tail.dropLast ++ [')'] := hne _
  rw [parseBody, if_neg hgroup, parsePieces_print hp]
  rfl

/-- Compiles anchored patterns of the fragment, grouped or not, and nothing else. -/
def fragmentEngine : Engine where
  Compiled := Bool × List Piece
  Captures := Bool × String
  compile := fun pattern => parseAnchored pattern.toList
  isMatch := fun re text => matchPieces re.2 text.toList
  captures := fun re text => if matchPieces re.2 text.toList then some (re.1, text) else none
  expand := fun caps template =>
    if template = "$1" ∨ template = "${1}" then (if caps.1 then caps.2 else "") else template

theorem compile_plain {p : List Piece} (hp : WellFormed p) :
    fragmentEngine.compile (anchor (String.ofList (print p))) = some (false, p) :=
  (parseAnchored_anchor _).trans (parseBody_plain hp)

theorem compile_group {p : List Piece} (hp : WellFormed p) :
    fragmentEngine.compile (anchor (String.ofList ('(' :: print p ++ [')']))) = some (true, p) :=
  (parseAnchored_anchor _).trans (parseBody_group hp)

theorem fragmentEngine_documented : fragmentEngine.Documented where
  isMatch_eq := by
    intro re text
    simp only [fragmentEngine]
    cases matchPieces re.2 text.toList <;> rfl
  isMatch_anchored := by
    intro p re text hp hre
    obtain rfl := Option.some.inj ((compile_plain hp).symm.trans hre)
    exact matchPieces_iff p text.toList
  isMatch_group := by
    intro p re text hp hre
    obtain rfl := Option.some.inj ((compile_group hp).symm.trans hre)
    exact matchPieces_iff p text.toList
  expand_group := by
    intro p re text caps hp hre hcaps
    obtain rfl := Option.some.inj ((compile_group hp).symm.trans hre)
    have hcaps' : caps = (true, text) := by
      simp only [fragmentEngine] at hcaps
      split at hcaps
      · exact (Option.some.inj hcaps).symm
      · cases hcaps
    subst hcaps'
    exact ⟨rfl, rfl⟩
  expand_plain := by
    intro caps template hplain
    have h1 : template ≠ "$1" := by
      rintro rfl
      exact hplain (by decide)
    have h2 : template ≠ "${1}" := by
      rintro rfl
      exact hplain (by decide)
    exact if_neg (by simp [h1, h2])

end Regex
