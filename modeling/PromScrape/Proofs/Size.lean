import PromScrape.Spec.Size
import PromScrape.Library.Keyed

set_option autoImplicit false

/-! # The size parser reads the grammar, up to nineteen fraction digits

The loop takes off one component in each turn and adds its bytes with the fraction cut after 19
digits. That is the component's exact size unless the digits cut off reach the next whole byte, which
they can for every unit of a mebibyte and more. -/

namespace PromScrape

open PromSize

/-! ## The bytes of a component -/

theorem unit_pos {unit : List Char × Nat} (h : unit ∈ units) : 0 < unit.2 := by
  have hall : ∀ unit ∈ units, 0 < unit.2 := by decide
  exact hall unit h

namespace SizeComponent

variable (c : SizeComponent)

theorem whole_isDigit : ∀ d ∈ c.whole, d.isDigit = true := fun d hd =>
  c.decimal d (List.mem_append_left _ hd)

theorem fractionDigits_isDigit : ∀ d ∈ c.fractionDigits, d.isDigit = true := fun d hd =>
  c.decimal d (List.mem_append_right _ hd)

/-- Whole part and fraction apart. -/
theorem bytes_eq :
    c.bytes = Nat.ofDigitChars 10 c.whole 0 * c.unit.2 +
      c.fractionNumerator c.fractionDigits.length / 10 ^ c.fractionDigits.length := by
  rw [bytes, fractionNumerator, List.take_length, Nat.ofDigitChars_append,
    Nat.ofDigitChars_eq_ofDigitChars_zero, Nat.add_mul, Nat.mul_assoc, Nat.add_comm,
    Nat.add_mul_div_left _ _ (Nat.pow_pos (by norm_num)), Nat.add_comm]

@[simp] theorem dropTail_whole : c.dropTail.whole = c.whole := rfl

@[simp] theorem dropTail_unit : c.dropTail.unit = c.unit := rfl

@[simp] theorem dropTail_fractionDigits : c.dropTail.fractionDigits = c.fractionDigits.take 19 := by
  have hmap : (c.fraction.map (·.take 19)).getD [] = (c.fraction.getD []).take 19 := by
    cases c.fraction with
    | none => rfl
    | some f => rfl
  exact hmap

/-- What is left without the digits past the 19th. -/
theorem dropTail_bytes_eq :
    c.dropTail.bytes = Nat.ofDigitChars 10 c.whole 0 * c.unit.2 +
      c.fractionNumerator 19 / 10 ^ (c.fractionDigits.take 19).length := by
  rw [bytes_eq, fractionNumerator, dropTail_fractionDigits, List.take_length]
  rfl

/-- The share of the first 19 fraction digits, in whole bytes, is no more than that of all. -/
theorem share_le :
    c.fractionNumerator 19 / 10 ^ (c.fractionDigits.take 19).length ≤
      c.fractionNumerator c.fractionDigits.length / 10 ^ c.fractionDigits.length := by
  have hdigits := Numerals.ofDigitChars_append_zero (c.fractionDigits.take 19)
    (c.fractionDigits.drop 19)
  have hlength := congrArg List.length (List.take_append_drop 19 c.fractionDigits)
  rw [List.take_append_drop] at hdigits
  rw [List.length_append] at hlength
  rw [Nat.le_div_iff_mul_le (Nat.pow_pos (by norm_num))]
  have hshare := Nat.div_mul_le_self (c.fractionNumerator 19) (10 ^ (c.fractionDigits.take 19).length)
  calc c.fractionNumerator 19 / 10 ^ (c.fractionDigits.take 19).length * 10 ^ c.fractionDigits.length
      = c.fractionNumerator 19 / 10 ^ (c.fractionDigits.take 19).length *
          10 ^ (c.fractionDigits.take 19).length * 10 ^ (c.fractionDigits.drop 19).length := by
        rw [← hlength, Nat.pow_add, Nat.mul_assoc]
    _ ≤ c.fractionNumerator 19 * 10 ^ (c.fractionDigits.drop 19).length :=
        Nat.mul_le_mul_right _ hshare
    _ = Nat.ofDigitChars 10 (c.fractionDigits.take 19) 0 *
          10 ^ (c.fractionDigits.drop 19).length * c.unit.2 := by
        rw [fractionNumerator, Nat.mul_right_comm]
    _ ≤ c.fractionNumerator c.fractionDigits.length := by
        rw [fractionNumerator, List.take_length, hdigits]
        exact Nat.mul_le_mul_right _ (Nat.le_add_right _ _)

/-- The digits cut off matter exactly when they carry into the whole bytes. -/
theorem carriedByTail_iff : c.CarriedByTail ↔ c.dropTail.bytes < c.bytes := by
  rw [dropTail_bytes_eq, bytes_eq, Nat.add_lt_add_iff_left]
  constructor
  · rintro ⟨n, hlow, hhigh⟩
    exact lt_of_lt_of_le ((Nat.div_lt_iff_lt_mul (Nat.pow_pos (by norm_num))).mpr hlow)
      ((Nat.le_div_iff_mul_le (Nat.pow_pos (by norm_num))).mpr hhigh)
  · intro hlt
    exact ⟨_, (Nat.div_lt_iff_lt_mul (Nat.pow_pos (by norm_num))).mp hlt,
      Nat.div_mul_le_self _ _⟩

theorem dropTail_bytes_le : c.dropTail.bytes ≤ c.bytes := by
  rw [dropTail_bytes_eq, bytes_eq]
  exact Nat.add_le_add_left c.share_le _

/-- A component starts with a digit or a point. -/
theorem text_head :
    ∃ d ds, c.text = d :: ds ∧ isUnitChar d = false := by
  have hdigit : ∀ d, d.isDigit = true → isUnitChar d = false := fun d hd => by simp [isUnitChar, hd]
  cases hwhole : c.whole with
  | cons d ds =>
      refine ⟨d, ds ++ (c.fraction.elim [] ('.' :: ·) ++ c.unit.1), ?_, hdigit d ?_⟩
      · rw [text, hwhole, List.cons_append]
      · exact c.whole_isDigit d (by rw [hwhole]; exact List.mem_cons_self)
  | nil =>
      have hne := c.nonempty
      rw [hwhole] at hne
      cases hfraction : c.fraction with
      | none => simp [hfraction] at hne
      | some f =>
          refine ⟨'.', f ++ c.unit.1, ?_, by decide⟩
          rw [text, hwhole, hfraction]
          rfl

end SizeComponent

theorem totalBytes_cons (c : SizeComponent) (components : List SizeComponent) :
    totalBytes (c :: components) = c.bytes + totalBytes components := by
  rw [totalBytes, List.map_cons, List.sum_cons, totalBytes]

/-- Cutting the fractions loses nothing, or something for some component. -/
theorem totalBytes_dropTail (components : List SizeComponent) :
    totalBytes (components.map SizeComponent.dropTail) ≤ totalBytes components ∧
      (totalBytes (components.map SizeComponent.dropTail) = totalBytes components ↔
        ∀ c ∈ components, ¬ c.CarriedByTail) := by
  induction components with
  | nil => simp [totalBytes]
  | cons c components ih =>
      obtain ⟨hle, hiff⟩ := ih
      have hc := c.dropTail_bytes_le
      rw [List.map_cons, totalBytes_cons, totalBytes_cons, List.forall_mem_cons, ← hiff,
        c.carriedByTail_iff]
      exact ⟨by omega, by omega⟩

end PromScrape

namespace PromScrape.PromSize

/-! ## The bytes that the loop adds -/

theorem checked_bind {a b : Nat} {f : Nat → Option Nat} (hf : f a = checked b) (hle : a ≤ b) :
    (checked a).bind f = checked b := by
  by_cases ha : a < 2 ^ 64
  · rw [checked, if_pos ha, Option.bind_some, hf]
  · rw [checked, if_neg ha, Option.bind_none, checked, if_neg (by omega)]

theorem u64FromDigits_eq {digits : List Char} (hne : digits ≠ [])
    (h : ∀ c ∈ digits, c.isDigit = true) :
    PromDuration.u64FromDigits digits = checked (Nat.ofDigitChars 10 digits 0) := by
  rw [PromDuration.u64FromDigits, Numerals.digits?, if_pos ⟨hne, List.all_eq_true.mpr h⟩, checked]
  by_cases hlt : Nat.ofDigitChars 10 digits 0 < 2 ^ 64
  · rw [if_pos hlt, Option.filter_some_pos (by simpa using hlt)]
  · rw [if_neg hlt, Option.filter_some_neg (by simpa using hlt)]

theorem wholeBytes_eq {whole : List Char} (h : ∀ c ∈ whole, c.isDigit = true) {unit : Nat}
    (hunit : 0 < unit) :
    wholeBytes whole unit = checked (Nat.ofDigitChars 10 whole 0 * unit) := by
  rw [wholeBytes]
  split
  · next hnil =>
      subst hnil
      rw [Nat.ofDigitChars_nil, Nat.zero_mul]
      rfl
  · next hne =>
      rw [u64FromDigits_eq hne h]
      exact checked_bind rfl (Nat.le_mul_of_pos_right _ hunit)

/-- Nineteen digits are a `u64`, so only the sum can overflow. -/
theorem addFraction_eq {fraction : List Char} (h : ∀ c ∈ fraction, c.isDigit = true)
    (hne : fraction ≠ []) (component unit : Nat) :
    addFraction component fraction unit =
      checked (component +
        Nat.ofDigitChars 10 (fraction.take 19) 0 * unit / 10 ^ (fraction.take 19).length) := by
  have htake : ∀ c ∈ fraction.take 19, c.isDigit = true := fun c hc => h c (List.mem_of_mem_take hc)
  have hlt := Numerals.ofDigitChars_lt htake
  have hpow : 10 ^ (fraction.take 19).length ≤ 10 ^ 19 :=
    Nat.pow_le_pow_right (by norm_num) (List.length_take_le _ _)
  rw [addFraction, if_neg hne]
  dsimp only
  rw [u64FromDigits_eq (by simpa using hne) htake, checked, if_pos (by omega), Option.bind_some]
  exact checked_bind rfl (Nat.le_add_left _ _)

/-- **What one turn of the loop adds**: the component's bytes, its fraction cut after 19 digits. -/
theorem component_eq (c : SizeComponent) :
    (wholeBytes c.whole c.unit.2).bind (addFraction · c.fractionDigits c.unit.2) =
      checked c.dropTail.bytes := by
  rw [wholeBytes_eq c.whole_isDigit (unit_pos c.unit_mem), c.dropTail_bytes_eq]
  by_cases hnil : c.fractionDigits = []
  · have hnone : ∀ n, addFraction n c.fractionDigits c.unit.2 = some n := fun n => if_pos hnil
    have hbind : (checked (Nat.ofDigitChars 10 c.whole 0 * c.unit.2)).bind
        (addFraction · c.fractionDigits c.unit.2) =
          (checked (Nat.ofDigitChars 10 c.whole 0 * c.unit.2)).bind some :=
      congrArg _ (funext hnone)
    rw [hbind, Option.bind_fun_some, SizeComponent.fractionNumerator, hnil]
    simp
  · exact checked_bind (addFraction_eq c.fractionDigits_isDigit hnil _ _) (Nat.le_add_right _ _)

/-! ## Splitting off a component -/

/-- A text after which a unit is complete: nothing, or a number. -/
def AtComponent (cs : List Char) : Prop := ∀ d ∈ cs.head?, isUnitChar d = false

theorem bytesPerUnit_iff {unit : List Char} {n : Nat} :
    bytesPerUnit unit = some n ↔ (unit, n) ∈ units := by
  have hunique : Keyed.Unique Prod.fst units := by
    rw [Keyed.Unique]
    decide
  rw [bytesPerUnit, Option.map_eq_some_iff]
  constructor
  · rintro ⟨⟨name, m⟩, hfind, rfl⟩
    obtain ⟨hmem, rfl⟩ := hunique.find?_eq_some_iff.mp hfind
    exact hmem
  · intro hmem
    exact ⟨(unit, n), hunique.find?_eq_some_iff.mpr ⟨hmem, rfl⟩, rfl⟩

/-- A unit starts with neither a digit nor a point, and contains none. -/
theorem unit_facts {unit : List Char × Nat} (h : unit ∈ units) :
    (∃ d ds, unit.1 = d :: ds ∧ d.isDigit = false ∧ d ≠ '.') ∧
      ∀ d ∈ unit.1, isUnitChar d = true := by
  have hall : ∀ unit ∈ units, (unit.1.head?.any fun d => !d.isDigit && d != '.') = true ∧
      unit.1.all isUnitChar = true := by decide
  obtain ⟨hfirst, hchars⟩ := hall unit h
  refine ⟨?_, List.all_eq_true.mp hchars⟩
  cases hunit : unit.1 with
  | nil => simp [hunit] at hfirst
  | cons d ds =>
      refine ⟨d, ds, rfl, ?_⟩
      simpa [hunit] using hfirst

theorem takeWhile_unit {unit next : List Char} (hunit : ∀ d ∈ unit, isUnitChar d = true)
    (hnext : AtComponent next) :
    (unit ++ next).takeWhile isUnitChar = unit ∧ (unit ++ next).dropWhile isUnitChar = next := by
  rw [List.takeWhile_append_of_pos hunit, List.dropWhile_append_of_pos hunit]
  cases next with
  | nil => exact ⟨List.append_nil _, rfl⟩
  | cons d ds =>
      have hd := hnext d rfl
      simp [hd]

theorem atComponent_flatMap (components : List SizeComponent) :
    AtComponent (components.flatMap SizeComponent.text) := by
  intro e he
  cases components with
  | nil => cases he
  | cons c components =>
      obtain ⟨d, ds, htext, hd⟩ := c.text_head
      rw [List.flatMap_cons, htext] at he
      obtain rfl : d = e := by simpa using he
      exact hd

/-- The pieces that one turn of the loop finds are the component's. -/
theorem split_text (c : SizeComponent) {next : List Char} (hnext : AtComponent next) :
    (c.text ++ next).takeWhile Char.isDigit = c.whole ∧
      splitFraction ((c.text ++ next).dropWhile Char.isDigit) =
        (c.fractionDigits, c.unit.1 ++ next) ∧
      (c.unit.1 ++ next).takeWhile isUnitChar = c.unit.1 ∧
      (c.unit.1 ++ next).dropWhile isUnitChar = next := by
  have hfraction := c.fractionDigits_isDigit
  obtain ⟨⟨d, ds, hunit, hdigit, hpoint⟩, hall⟩ := unit_facts c.unit_mem
  rw [SizeComponent.text, List.append_assoc, List.append_assoc,
    List.takeWhile_append_of_pos c.whole_isDigit, List.dropWhile_append_of_pos c.whole_isDigit]
  refine ⟨?_, ?_, takeWhile_unit hall hnext⟩
  · cases hfrac : c.fraction with
    | none => simp [hunit, hdigit]
    | some f => simp
  · rw [SizeComponent.fractionDigits] at hfraction ⊢
    cases hfrac : c.fraction with
    | none =>
        have hsplit : splitFraction (d :: (ds ++ next)) = ([], d :: (ds ++ next)) := by
          rw [splitFraction]
          intro rest hrest
          exact hpoint (List.cons.inj hrest).1
        simpa [hunit, hdigit] using hsplit
    | some f =>
        have hf : ∀ d ∈ f, d.isDigit = true := by simpa [hfrac] using hfraction
        have htake : (f ++ (c.unit.1 ++ next)).takeWhile Char.isDigit = f := by
          rw [List.takeWhile_append_of_pos hf, hunit]
          simp [hdigit]
        have hdrop : (f ++ (c.unit.1 ++ next)).dropWhile Char.isDigit = c.unit.1 ++ next := by
          rw [List.dropWhile_append_of_pos hf, hunit]
          simp [hdigit]
        have hpoint : ('.' :: (f ++ (c.unit.1 ++ next))).dropWhile Char.isDigit =
            '.' :: (f ++ (c.unit.1 ++ next)) := rfl
        simp only [Option.elim_some, List.cons_append, hpoint, splitFraction, htake, hdrop,
          Option.getD_some]

/-! ## The loop -/

/-- A turn on a component's text adds its bytes and goes on behind it. -/
theorem parseComponents_text (input : String) (c : SizeComponent) {next : List Char}
    (hnext : AtComponent next) (total : Nat) :
    parseComponents input (c.text ++ next) total =
      if total + c.dropTail.bytes < 2 ^ 64 then
        parseComponents input next (total + c.dropTail.bytes)
      else .error (.numberOverflow input) := by
  obtain ⟨hwhole, hfraction, hunit, hrest⟩ := split_text c hnext
  obtain ⟨d, ds, htext, -⟩ := c.text_head
  have hne : (c.text ++ next).isEmpty = false := by rw [htext]; rfl
  have hnumber : ¬ (c.whole = [] ∧ c.fractionDigits = []) := by
    rintro ⟨hw, hf⟩
    apply c.nonempty
    rw [hw, ← SizeComponent.fractionDigits, hf]
    rfl
  rw [parseComponents]
  simp only [hne, Bool.false_eq_true, if_false, hwhole, hfraction, hunit, hrest, dif_neg hnumber,
    bytesPerUnit_iff.mpr c.unit_mem, component_eq]
  by_cases hcomponent : c.dropTail.bytes < 2 ^ 64
  · rw [checked, if_pos hcomponent]
    dsimp only
    by_cases htotal : total + c.dropTail.bytes < 2 ^ 64
    · rw [checked, if_pos htotal, if_pos htotal]
    · rw [checked, if_neg htotal, if_neg htotal]
  · rw [checked, if_neg hcomponent, if_neg (by omega)]

/-- **The loop adds up components without their digits past the 19th.** -/
theorem parseComponents_complete (input : String) (components : List SizeComponent) {total : Nat}
    (htotal : total < 2 ^ 64) :
    parseComponents input (components.flatMap SizeComponent.text) total =
      if total + totalBytes (components.map SizeComponent.dropTail) < 2 ^ 64 then
        .ok (total + totalBytes (components.map SizeComponent.dropTail))
      else .error (.numberOverflow input) := by
  induction components generalizing total with
  | nil =>
      rw [List.flatMap_nil, parseComponents]
      simp only [List.isEmpty_nil, if_true, List.map_nil, totalBytes, List.sum_nil, Nat.add_zero,
        if_pos htotal]
  | cons c components ih =>
      rw [List.flatMap_cons, parseComponents_text input c (atComponent_flatMap components),
        List.map_cons, totalBytes_cons, ← Nat.add_assoc]
      by_cases hstep : total + c.dropTail.bytes < 2 ^ 64
      · rw [if_pos hstep, ih hstep]
      · rw [if_neg hstep, if_neg (by omega)]

theorem splitFraction_sound (rest : List Char) :
    ∃ fraction : Option (List Char),
      rest = fraction.elim [] ('.' :: ·) ++ (splitFraction rest).2 ∧
      (splitFraction rest).1 = fraction.getD [] ∧ ∀ d ∈ fraction.getD [], d.isDigit = true := by
  unfold splitFraction
  split
  · next after =>
      refine ⟨some (after.takeWhile Char.isDigit), ?_, rfl, fun d hd => List.mem_takeWhile_imp hd⟩
      rw [Option.elim_some, List.cons_append, List.takeWhile_append_dropWhile]
  · exact ⟨none, rfl, rfl, by simp⟩

/-- What a turn splits off is a component, if the turn finds a number and a unit. -/
theorem component_of_split {remaining : List Char} {bytes : Nat}
    (hnumber : ¬ (remaining.takeWhile Char.isDigit = [] ∧
      (splitFraction (remaining.dropWhile Char.isDigit)).1 = []))
    (hunit : bytesPerUnit ((splitFraction (remaining.dropWhile Char.isDigit)).2.takeWhile isUnitChar) =
      some bytes) :
    ∃ c : SizeComponent, remaining =
      c.text ++ (splitFraction (remaining.dropWhile Char.isDigit)).2.dropWhile isUnitChar := by
  have hwhole := List.takeWhile_append_dropWhile (p := Char.isDigit) (l := remaining)
  obtain ⟨fraction, hrest, hfraction, hdigits⟩ :=
    splitFraction_sound (remaining.dropWhile Char.isDigit)
  have hnext := List.takeWhile_append_dropWhile (p := isUnitChar)
    (l := (splitFraction (remaining.dropWhile Char.isDigit)).2)
  refine ⟨⟨remaining.takeWhile Char.isDigit, fraction, (_, bytes), ?_, ?_,
    bytesPerUnit_iff.mp hunit⟩, ?_⟩
  · intro d hd
    rcases List.mem_append.mp hd with hd | hd
    · exact List.mem_takeWhile_imp hd
    · exact hdigits d hd
  · rw [← hfraction]
    intro hnil
    exact hnumber (List.append_eq_nil_iff.mp hnil)
  · rw [SizeComponent.text, List.append_assoc, List.append_assoc, hnext, ← hrest, hwhole]

/-- **A loop that succeeds has read components.** -/
theorem parseComponents_sound {input : String} {result : Nat} {remaining : List Char} {total : Nat}
    (h : parseComponents input remaining total = .ok result) :
    ∃ components : List SizeComponent, remaining = components.flatMap SizeComponent.text := by
  induction hn : remaining.length using Nat.strong_induction_on generalizing remaining total with
  | _ n ih =>
      rw [parseComponents] at h
      split at h
      · next hempty => exact ⟨[], List.isEmpty_iff.mp hempty⟩
      dsimp only at h
      split at h
      · cases h
      next hnumber =>
      split at h
      · cases h
      next bytes hunit =>
      split at h
      · cases h
      next component _ =>
      split at h
      · cases h
      next total' _ =>
      obtain ⟨c, hc⟩ := component_of_split hnumber hunit
      have hshorter := length_next_lt hnumber
      rw [hn] at hshorter
      obtain ⟨components, hcomponents⟩ := ih _ hshorter h rfl
      exact ⟨c :: components, by rw [List.flatMap_cons, ← hcomponents]; exact hc⟩

/-! ## The parser -/

/-- Components contain something other than digits: their units. -/
theorem flatMap_text_not_digits {components : List SizeComponent} (hne : components ≠ []) :
    components.flatMap SizeComponent.text ≠ [] ∧
      (components.flatMap SizeComponent.text).all Char.isDigit = false := by
  obtain ⟨c, rest, rfl⟩ := List.exists_cons_of_ne_nil hne
  obtain ⟨⟨d, ds, hunit, hdigit, -⟩, -⟩ := unit_facts c.unit_mem
  have hmem : d ∈ (c :: rest).flatMap SizeComponent.text := by
    rw [List.flatMap_cons, SizeComponent.text, hunit]
    simp
  refine ⟨List.ne_nil_of_mem hmem, ?_⟩
  by_contra hall
  have hd := List.all_eq_true.mp (Bool.eq_true_of_not_eq_false hall) d hmem
  rw [hdigit] at hd
  cases hd

theorem isEmpty_iff_toList {s : String} : s.isEmpty = true ↔ s.toList = [] :=
  String.isEmpty_iff.trans String.toList_eq_nil_iff.symm

section

variable {input : String} {components : List SizeComponent}

/-- The parser on a text in the grammar. -/
theorem parse_components (hne : components ≠ [])
    (htext : (trim input).toList = components.flatMap SizeComponent.text) :
    parse input = sizeOrOverflow (trim input) (totalBytes (components.map SizeComponent.dropTail)) := by
  obtain ⟨hnil, hdigits⟩ := flatMap_text_not_digits hne
  rw [← htext] at hnil hdigits
  have hempty : ¬ (trim input).isEmpty = true := mt isEmpty_iff_toList.mp hnil
  unfold parse
  dsimp only
  rw [if_neg hempty, if_neg (by rw [hdigits]; decide), htext,
    parseComponents_complete _ _ (by norm_num), Nat.zero_add, sizeOrOverflow]
  by_cases hfits : totalBytes (components.map SizeComponent.dropTail) < 2 ^ 64
  · rw [if_pos hfits, if_pos hfits]
  · rw [if_neg hfits, if_neg hfits]

theorem parse_bare {digits : List Char} (hne : digits ≠ []) (h : ∀ c ∈ digits, c.isDigit = true)
    (htext : (trim input).toList = digits) :
    parse input = sizeOrOverflow (trim input) (Nat.ofDigitChars 10 digits 0) := by
  have hempty : ¬ (trim input).isEmpty = true := by
    rw [isEmpty_iff_toList, htext]
    exact hne
  unfold parse
  dsimp only
  rw [if_neg hempty, htext, if_pos (List.all_eq_true.mpr h), u64FromDigits_eq hne h, checked,
    sizeOrOverflow]
  by_cases hfits : Nat.ofDigitChars 10 digits 0 < 2 ^ 64
  · rw [if_pos hfits, if_pos hfits]
  · rw [if_neg hfits, if_neg hfits]

/-- Nothing else is accepted. -/
theorem parse_ok {size : PromSize} (h : parse input = .ok size) :
    (∃ components : List SizeComponent, components ≠ [] ∧
      (trim input).toList = components.flatMap SizeComponent.text) ∨
    ((trim input).toList ≠ [] ∧ ∀ c ∈ (trim input).toList, c.isDigit = true) := by
  unfold parse at h
  dsimp only at h
  split at h
  · cases h
  next hempty =>
  have hnil : (trim input).toList ≠ [] := mt isEmpty_iff_toList.mpr hempty
  split at h
  · next hall => exact .inr ⟨hnil, List.all_eq_true.mp hall⟩
  split at h
  · cases h
  next total hloop =>
  obtain ⟨components, htext⟩ := parseComponents_sound hloop
  refine .inl ⟨components, ?_, htext⟩
  rintro rfl
  exact hnil htext

end

theorem sizeOrOverflow_eq_iff (input : String) {m n : Nat} (hle : m ≤ n) :
    sizeOrOverflow input m = sizeOrOverflow input n ↔ m = n ∨ 2 ^ 64 ≤ m := by
  rw [sizeOrOverflow, sizeOrOverflow]
  by_cases hm : m < 2 ^ 64
  · by_cases hn : n < 2 ^ 64
    · rw [if_pos hm, if_pos hn, Except.ok.injEq, PromSize.mk.injEq, ← UInt64.toNat_inj,
        UInt64.toNat_ofNat', UInt64.toNat_ofNat', Nat.mod_eq_of_lt hm, Nat.mod_eq_of_lt hn]
      omega
    · rw [if_pos hm, if_neg hn]
      refine iff_of_false (by rintro ⟨⟩) ?_
      omega
  · rw [if_neg hm, if_neg (by omega)]
    exact iff_of_true rfl (.inr (by omega))

/-- **The parser is exact unless cut-off digits carry.** For a text in the grammar: no component's
    digits past the 19th reach a further whole byte, or the sum is too large even without them. -/
theorem parse_size_iff (input : String) :
    ReadsSize parse input ↔
      ∀ components, components ≠ [] →
        (trim input).toList = components.flatMap SizeComponent.text →
        (∀ c ∈ components, ¬ c.CarriedByTail) ∨
          2 ^ 64 ≤ totalBytes (components.map SizeComponent.dropTail) := by
  constructor
  · intro h components hne htext
    have heq := h.components components hne htext
    obtain ⟨hle, hiff⟩ := totalBytes_dropTail components
    rw [parse_components hne htext, sizeOrOverflow_eq_iff _ hle, hiff] at heq
    exact heq
  · intro h
    refine ⟨?_, fun digits hne hall htext => parse_bare hne hall htext, ?_⟩
    · intro components hne htext
      obtain ⟨hle, hiff⟩ := totalBytes_dropTail components
      rw [parse_components hne htext, sizeOrOverflow_eq_iff _ hle, hiff]
      exact h components hne htext
    · intro hcomponents hdigits
      cases hparse : parse input with
      | error e => exact ⟨e, rfl⟩
      | ok size =>
          rcases parse_ok hparse with ⟨components, hne, htext⟩ | ⟨hne, hall⟩
          · exact absurd htext (hcomponents components hne)
          · exact absurd rfl (hdigits _ hne hall)

/-- Twenty fraction digits: `2 ^ -20` mebibytes, that is, one byte. -/
def oneByte : SizeComponent where
  whole := ['0']
  fraction := some "00000095367431640625".toList
  unit := (['M', 'i', 'B'], 1024 ^ 2)
  decimal := List.all_eq_true.mp (by decide)
  nonempty := by decide
  unit_mem := by simp [units]

theorem trim_oneByte :
    (trim "0.00000095367431640625MiB").toList = [oneByte].flatMap SizeComponent.text := by decide

theorem oneByte_bytes : oneByte.bytes = 1 ∧ oneByte.dropTail.bytes = 0 := by decide +kernel

/-- It is read as no byte at all, which for a limit means "no limit". -/
theorem tail_carries :
    parse "0.00000095367431640625MiB" = .ok ⟨0⟩ ∧ totalBytes [oneByte] = 1 ∧
      ¬ ReadsSize parse "0.00000095367431640625MiB" := by
  have hparse : parse "0.00000095367431640625MiB" = .ok ⟨0⟩ := by
    rw [parse_components (List.cons_ne_nil oneByte []) trim_oneByte, List.map_singleton,
      totalBytes_cons, oneByte_bytes.2]
    rfl
  have htotal : totalBytes [oneByte] = 1 := by
    rw [totalBytes_cons, oneByte_bytes.1]
    rfl
  refine ⟨hparse, htotal, ?_⟩
  intro h
  have hexact := h.components [oneByte] (List.cons_ne_nil _ _) trim_oneByte
  rw [hparse, htotal] at hexact
  cases hexact

end PromScrape.PromSize
