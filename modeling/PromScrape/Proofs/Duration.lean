import PromScrape.Spec.Duration

set_option autoImplicit false

/-! # The duration parser reads the grammar

`longestUnit` finds the unit of a group wherever the next group or the end follows. The loop then
takes off one group in each turn, so it succeeds on the legal sequences of groups, with their total.
A bound on the total after each unit of the table shows that the `u128` guards cannot fire. -/

namespace PromScrape.PromDuration

/-! ## Units -/

/-- A text after which a unit is complete: nothing, or the next group's number. -/
def AtGroup (cs : List Char) : Prop := ∀ c ∈ cs.head?, c.isDigit = true

theorem longestUnit_text (u : TimeUnit) {rest : List Char} (hrest : AtGroup rest) :
    longestUnit (u.text ++ rest) = some (u.index, u.text, u.millis) := by
  rcases rest with _ | ⟨c, rest⟩
  · cases u <;> decide
  · have hs : ('s' == c) = false := by
      by_contra hsame
      have hdigit := hrest c rfl
      rw [← beq_iff_eq.mp (Bool.eq_true_of_not_eq_false hsame)] at hdigit
      revert hdigit
      decide
    cases u <;>
      simp [longestUnit, units, TimeUnit.text, TimeUnit.index, TimeUnit.millis, List.zipIdx,
        List.isPrefixOf, hs]

/-- A fold that keeps what it has or takes the candidate ends with one of them. -/
theorem foldl_pick {α β : Type} {step : Option β → α → Option β} {value : α → β}
    (hstep : ∀ best a, step best a = best ∨ step best a = some (value a)) (candidates : List α)
    (best : Option β) :
    candidates.foldl step best = best ∨
      ∃ a ∈ candidates, candidates.foldl step best = some (value a) := by
  induction candidates generalizing best with
  | nil => exact .inl rfl
  | cons a candidates ih =>
      rw [List.foldl_cons]
      rcases ih (step best a) with hrest | ⟨b, hb, hrest⟩
      · rw [hrest]
        rcases hstep best a with hkeep | htake
        · exact .inl hkeep
        · exact .inr ⟨a, List.mem_cons_self, htake⟩
      · exact .inr ⟨b, List.mem_cons_of_mem _ hb, hrest⟩

/-- The rows of the table are the units. -/
theorem unit_of_mem {name : List Char} {ms i : Nat} (h : ((name, ms), i) ∈ units.zipIdx) :
    ∃ u : TimeUnit, i = u.index ∧ name = u.text ∧ ms = u.millis := by
  simp only [units, List.zipIdx, List.mem_cons, List.not_mem_nil, or_false, Prod.mk.injEq] at h
  rcases h with h | h | h | h | h | h | h
  · exact ⟨.year, h.2, h.1.1, h.1.2⟩
  · exact ⟨.week, h.2, h.1.1, h.1.2⟩
  · exact ⟨.day, h.2, h.1.1, h.1.2⟩
  · exact ⟨.hour, h.2, h.1.1, h.1.2⟩
  · exact ⟨.minute, h.2, h.1.1, h.1.2⟩
  · exact ⟨.second, h.2, h.1.1, h.1.2⟩
  · exact ⟨.milli, h.2, h.1.1, h.1.2⟩

/-- What is found is in the table, and the text starts with it. -/
theorem longestUnit_mem (rest : List Char) :
    longestUnit rest = none ∨
      ∃ unit ∈ units.zipIdx.filter (fun unit => unit.1.1.isPrefixOf rest),
        longestUnit rest = some (unit.2, unit.1) := by
  rw [longestUnit]
  apply foldl_pick
  intro best unit
  cases best with
  | none => exact .inr rfl
  | some best =>
      dsimp only
      split
      · exact .inr rfl
      · exact .inl rfl

theorem longestUnit_sound {rest : List Char} {i : Nat} {name : List Char} {ms : Nat}
    (h : longestUnit rest = some (i, name, ms)) :
    ∃ u : TimeUnit, i = u.index ∧ name = u.text ∧ ms = u.millis ∧
      rest = u.text ++ rest.drop name.length := by
  rcases longestUnit_mem rest with hnone | ⟨⟨⟨text, millis⟩, index⟩, hmem, hpick⟩
  · rw [h] at hnone
    cases hnone
  · rw [h, Option.some.injEq, Prod.mk.injEq, Prod.mk.injEq] at hpick
    obtain ⟨rfl, rfl, rfl⟩ := hpick
    obtain ⟨hunit, hprefix⟩ := List.mem_filter.mp hmem
    obtain ⟨u, rfl, rfl, rfl⟩ := unit_of_mem hunit
    obtain ⟨tail, rfl⟩ := List.isPrefixOf_iff_prefix.mp hprefix
    refine ⟨u, rfl, rfl, rfl, ?_⟩
    rw [List.drop_left]

/-! ## Turns of the loop -/

/-- What the loop body finds at a state before its guards: a number and a unit that may follow the
    last one. -/
structure Turn (remaining : List Char) (lastUnitIndex : Option Nat) (number unitIndex : Nat)
    (unit : List Char) (msPerUnit : Nat) : Prop where
  digits : remaining.takeWhile Char.isDigit ≠ []
  number : u64FromDigits (remaining.takeWhile Char.isDigit) = some number
  unit : longestUnit (remaining.dropWhile Char.isDigit) = some (unitIndex, unit, msPerUnit)
  order : lastUnitIndex.any (unitIndex ≤ ·) = false

/-- The states in which the loop body starts: the text that is left, the last unit, the total. -/
inductive LoopState (input : String) : List Char → Option Nat → Nat → Prop where
  | start : LoopState input input.toList none 0
  | turn {remaining : List Char} {lastUnitIndex : Option Nat} {totalMs number unitIndex : Nat}
      {unit : List Char} {msPerUnit : Nat} (h : LoopState input remaining lastUnitIndex totalMs)
      (hturn : Turn remaining lastUnitIndex number unitIndex unit msPerUnit)
      (hmul : number * msPerUnit < 2 ^ 128) (hadd : totalMs + number * msPerUnit < 2 ^ 128) :
      LoopState input ((remaining.dropWhile Char.isDigit).drop unit.length) (some unitIndex)
        (totalMs + number * msPerUnit)

section

variable {input : String} {remaining : List Char} {lastUnitIndex : Option Nat}
  {totalMs number unitIndex : Nat} {unit : List Char} {msPerUnit : Nat}

/-- The loop goes on exactly like this. -/
theorem parseGroups_turn (hturn : Turn remaining lastUnitIndex number unitIndex unit msPerUnit) :
    parseGroups input remaining lastUnitIndex totalMs =
      if 2 ^ 128 ≤ number * msPerUnit then .error (.numberOverflow input)
      else if 2 ^ 128 ≤ totalMs + number * msPerUnit then .error (.numberOverflow input)
      else
        parseGroups input ((remaining.dropWhile Char.isDigit).drop unit.length) (some unitIndex)
          (totalMs + number * msPerUnit) := by
  obtain ⟨hdigits, hnumber, hunit, horder⟩ := hturn
  have hne : remaining.isEmpty = false := by
    cases remaining with
    | nil => exact absurd rfl hdigits
    | cons c cs => rfl
  rw [parseGroups]
  simp only [hne, Bool.false_eq_true, if_false, hdigits, dif_neg, not_false_eq_true, hnumber, hunit,
    horder]

/-- A loop that succeeds has run out of text, or turns. -/
theorem parseGroups_ok {result : Nat}
    (h : parseGroups input remaining lastUnitIndex totalMs = .ok result) :
    (remaining = [] ∧ result = totalMs) ∨
      ∃ number unitIndex unit msPerUnit,
        Turn remaining lastUnitIndex number unitIndex unit msPerUnit ∧
        parseGroups input ((remaining.dropWhile Char.isDigit).drop unit.length) (some unitIndex)
          (totalMs + number * msPerUnit) = .ok result := by
  rw [parseGroups] at h
  split at h
  · next hempty =>
      cases h
      exact .inl ⟨List.isEmpty_iff.mp hempty, rfl⟩
  dsimp only at h
  split at h
  · cases h
  next hdigits =>
  split at h
  · cases h
  next number hnumber =>
  split at h
  · cases h
  next unitIndex unit msPerUnit hunit =>
  split at h
  · cases h
  next horder =>
  split at h
  · cases h
  split at h
  · cases h
  exact .inr ⟨number, unitIndex, unit, msPerUnit, ⟨hdigits, hnumber, hunit, by simpa using horder⟩, h⟩

end

/-! ## Turns are groups -/

theorem u64FromDigits_eq_some {digits : List Char} {n : Nat} (h : u64FromDigits digits = some n) :
    digits ≠ [] ∧ (∀ c ∈ digits, c.isDigit = true) ∧ n = Nat.ofDigitChars 10 digits 0 ∧
      n < 2 ^ 64 := by
  obtain ⟨hdigits, hlt⟩ := Option.filter_eq_some_iff.mp h
  obtain ⟨hne, hall, hn⟩ := Numerals.digits?_eq_some hdigits
  exact ⟨hne, hall, hn, by simpa using hlt⟩

theorem u64FromDigits_group (g : DurationGroup) (hlt : g.number < 2 ^ 64) :
    u64FromDigits g.digits = some g.number := by
  have hall : g.digits.all Char.isDigit = true := List.all_eq_true.mpr g.decimal
  rw [u64FromDigits, Numerals.digits?, if_pos ⟨g.nonempty, hall⟩]
  exact Option.filter_eq_some_iff.mpr ⟨rfl, by simpa using hlt⟩

/-- A turn takes one group off the text. -/
theorem Turn.group {remaining : List Char} {lastUnitIndex : Option Nat} {number unitIndex : Nat}
    {unit : List Char} {msPerUnit : Nat}
    (h : Turn remaining lastUnitIndex number unitIndex unit msPerUnit) :
    ∃ g : DurationGroup, number = g.number ∧ number < 2 ^ 64 ∧ unitIndex = g.unit.index ∧
      msPerUnit = g.unit.millis ∧ (∀ j ∈ lastUnitIndex, j < unitIndex) ∧
      remaining = g.text ++ (remaining.dropWhile Char.isDigit).drop unit.length := by
  obtain ⟨hne, hall, hnumber, hlt⟩ := u64FromDigits_eq_some h.number
  obtain ⟨u, hindex, hunit, hmillis, hrest⟩ := longestUnit_sound h.unit
  refine ⟨⟨remaining.takeWhile Char.isDigit, u, hne, hall⟩, hnumber, hlt, hindex, hmillis, ?_, ?_⟩
  · intro j hj
    have horder := h.order
    rw [Option.mem_def.mp hj] at horder
    simpa using horder
  · rw [DurationGroup.text, List.append_assoc, ← hunit]
    conv_lhs => rw [← List.takeWhile_append_dropWhile (p := Char.isDigit) (l := remaining), hrest]
    rw [hunit]

theorem unit_not_digit (u : TimeUnit) (rest : List Char) :
    (u.text ++ rest).takeWhile Char.isDigit = [] ∧
      (u.text ++ rest).dropWhile Char.isDigit = u.text ++ rest := by
  cases u <;> exact ⟨rfl, rfl⟩

/-- A group whose unit may follow makes a turn. -/
theorem turn_of_group (g : DurationGroup) {rest : List Char} {lastUnitIndex : Option Nat}
    (hlt : g.number < 2 ^ 64) (hrest : AtGroup rest) (hlast : ∀ j ∈ lastUnitIndex, j < g.unit.index) :
    Turn (g.text ++ rest) lastUnitIndex g.number g.unit.index g.unit.text g.unit.millis ∧
      ((g.text ++ rest).dropWhile Char.isDigit).drop g.unit.text.length = rest := by
  obtain ⟨htake, hdrop⟩ := unit_not_digit g.unit rest
  have hdigits : (g.text ++ rest).takeWhile Char.isDigit = g.digits := by
    rw [DurationGroup.text, List.append_assoc, List.takeWhile_append_of_pos g.decimal, htake,
      List.append_nil]
  have hunit : (g.text ++ rest).dropWhile Char.isDigit = g.unit.text ++ rest := by
    rw [DurationGroup.text, List.append_assoc, List.dropWhile_append_of_pos g.decimal, hdrop]
  refine ⟨⟨?_, ?_, ?_, ?_⟩, ?_⟩
  · rw [hdigits]
    exact g.nonempty
  · rw [hdigits]
    exact u64FromDigits_group g hlt
  · rw [hunit]
    exact longestUnit_text g.unit hrest
  · cases lastUnitIndex with
    | none => rfl
    | some j => simpa using hlast j rfl
  · rw [hunit, List.drop_left]

theorem atGroup_flatMap (groups : List DurationGroup) : AtGroup (groups.flatMap DurationGroup.text) := by
  intro c hc
  cases groups with
  | nil => cases hc
  | cons g groups =>
      obtain ⟨d, ds, hd⟩ := List.exists_cons_of_ne_nil g.nonempty
      rw [List.flatMap_cons, DurationGroup.text, hd] at hc
      obtain rfl : d = c := by simpa using hc
      exact g.decimal d (by rw [hd]; exact List.mem_cons_self)

/-! ## Runs of the loop -/

/-- The units of `groups` are allowed after the last one. -/
def Follows (lastUnitIndex : Option Nat) (groups : List DurationGroup) : Prop :=
  ∀ g ∈ groups, ∀ j ∈ lastUnitIndex, j < g.unit.index

theorem legalGroups_cons {g : DurationGroup} {groups : List DurationGroup} :
    LegalGroups (g :: groups) ↔
      g.number < 2 ^ 64 ∧ Follows (some g.unit.index) groups ∧ LegalGroups groups := by
  have horder : (∀ h ∈ groups, h.unit.millis < g.unit.millis) ↔
      Follows (some g.unit.index) groups := by
    simp [Follows, TimeUnit.millis_lt_iff]
  constructor
  · rintro ⟨hlt, hdesc⟩
    obtain ⟨hhead, hrest⟩ := List.pairwise_cons.mp hdesc
    exact ⟨hlt g List.mem_cons_self, horder.mp hhead, fun h hh => hlt h (List.mem_cons_of_mem _ hh),
      hrest⟩
  · rintro ⟨hlt, hfollows, hall, hdesc⟩
    refine ⟨?_, List.pairwise_cons.mpr ⟨horder.mpr hfollows, hdesc⟩⟩
    intro h hh
    rcases List.mem_cons.mp hh with rfl | hh
    · exact hlt
    · exact hall h hh

theorem totalMillis_cons (g : DurationGroup) (groups : List DurationGroup) :
    totalMillis (g :: groups) = g.millis + totalMillis groups := by
  rw [totalMillis, List.map_cons, List.sum_cons, totalMillis]

/-- Units only get shorter, so what follows a group follows what it follows. -/
theorem Follows.weaken {lastUnitIndex : Option Nat} {i : Nat} {groups : List DurationGroup}
    (h : Follows (some i) groups) (hlast : ∀ j ∈ lastUnitIndex, j < i) :
    Follows lastUnitIndex groups := by
  intro g hg j hj
  exact lt_trans (hlast j hj) (h g hg i rfl)

/-- **A successful loop has read legal groups**: by induction on the text that is left. -/
theorem parseGroups_sound {input : String} {result : Nat} {remaining : List Char}
    {lastUnitIndex : Option Nat} {totalMs : Nat}
    (h : parseGroups input remaining lastUnitIndex totalMs = .ok result) :
    ∃ groups, remaining = groups.flatMap DurationGroup.text ∧ LegalGroups groups ∧
      Follows lastUnitIndex groups ∧ result = totalMs + totalMillis groups := by
  induction hn : remaining.length using Nat.strong_induction_on
    generalizing remaining lastUnitIndex totalMs with
  | _ n ih =>
      rcases parseGroups_ok h with ⟨rfl, rfl⟩ | ⟨number, unitIndex, unit, msPerUnit, hturn, hrest⟩
      · exact ⟨[], rfl, ⟨by simp, List.Pairwise.nil⟩, by simp [Follows], rfl⟩
      · obtain ⟨g, rfl, hlt, rfl, rfl, hlast, htext⟩ := hturn.group
        have hshorter : ((remaining.dropWhile Char.isDigit).drop unit.length).length < n := by
          have hdrop := length_dropWhile_lt hturn.digits
          rw [List.length_drop]
          omega
        obtain ⟨groups, hgroups, hlegal, hfollows, rfl⟩ := ih _ hshorter hrest rfl
        refine ⟨g :: groups, ?_, legalGroups_cons.mpr ⟨hlt, hfollows, hlegal⟩, ?_, ?_⟩
        · rw [List.flatMap_cons, ← hgroups]
          exact htext
        · intro g' hg'
          rcases List.mem_cons.mp hg' with rfl | hg'
          · exact hlast
          · exact hfollows.weaken hlast g' hg'
        · rw [totalMillis_cons, DurationGroup.millis, Nat.add_assoc]

/-- **Legal groups make the loop succeed**, as long as their total fits. -/
theorem parseGroups_complete {input : String} {groups : List DurationGroup}
    {lastUnitIndex : Option Nat} {totalMs : Nat} (hlegal : LegalGroups groups)
    (hfollows : Follows lastUnitIndex groups) (hfits : totalMs + totalMillis groups < 2 ^ 128) :
    parseGroups input (groups.flatMap DurationGroup.text) lastUnitIndex totalMs =
      .ok (totalMs + totalMillis groups) := by
  induction groups generalizing lastUnitIndex totalMs with
  | nil =>
      rw [parseGroups]
      rfl
  | cons g groups ih =>
      obtain ⟨hlt, hnext, hlegal⟩ := legalGroups_cons.mp hlegal
      obtain ⟨hturn, hrest⟩ := turn_of_group g hlt (atGroup_flatMap groups)
        (hfollows g List.mem_cons_self)
      rw [totalMillis_cons, DurationGroup.millis] at hfits
      rw [List.flatMap_cons, parseGroups_turn hturn, if_neg (by omega), if_neg (by omega), hrest,
        ih hlegal hnext (by omega), totalMillis_cons, DurationGroup.millis, Nat.add_assoc]

/-! ## The guards -/

/-- The total after the unit at each place of the table. -/
def totalBound : Option Nat → Nat
  | none => 0
  | some i => (i + 1) * (2 ^ 64 * 2 ^ 35)

/-- What one group can add. -/
theorem Turn.contribution_lt {remaining : List Char} {lastUnitIndex : Option Nat}
    {number unitIndex : Nat} {unit : List Char} {msPerUnit : Nat}
    (h : Turn remaining lastUnitIndex number unitIndex unit msPerUnit) :
    number * msPerUnit ≤ 2 ^ 64 * 2 ^ 35 ∧ unitIndex < 7 ∧ ∀ j ∈ lastUnitIndex, j < unitIndex := by
  obtain ⟨g, rfl, hlt, rfl, rfl, hlast, -⟩ := h.group
  exact ⟨Nat.mul_le_mul (Nat.le_of_lt hlt) g.unit.millis_le, g.unit.index_lt, hlast⟩

/-- **Each unit is used at most once, so the total stays far below the guards.** -/
theorem LoopState.total_le {input : String} {remaining : List Char} {lastUnitIndex : Option Nat}
    {totalMs : Nat} (h : LoopState input remaining lastUnitIndex totalMs) :
    totalMs ≤ totalBound lastUnitIndex := by
  induction h with
  | start => exact Nat.zero_le _
  | @turn remaining lastUnitIndex totalMs number unitIndex unit msPerUnit h hturn _ _ ih =>
      obtain ⟨hadd, -, hlast⟩ := hturn.contribution_lt
      cases lastUnitIndex with
      | none =>
          simp only [totalBound] at ih ⊢
          omega
      | some j =>
          have hj := hlast j rfl
          have hmul : (j + 1) * (2 ^ 64 * 2 ^ 35) ≤ unitIndex * (2 ^ 64 * 2 ^ 35) :=
            Nat.mul_le_mul_right _ hj
          simp only [totalBound] at ih ⊢
          rw [Nat.succ_mul]
          omega

theorem guards_hold {input : String} {remaining : List Char} {lastUnitIndex : Option Nat}
    {totalMs number unitIndex : Nat} {unit : List Char} {msPerUnit : Nat}
    (h : LoopState input remaining lastUnitIndex totalMs)
    (hturn : Turn remaining lastUnitIndex number unitIndex unit msPerUnit) :
    number * msPerUnit < 2 ^ 128 ∧ totalMs + number * msPerUnit < 2 ^ 128 := by
  obtain ⟨hadd, hunit, hlast⟩ := hturn.contribution_lt
  have htotal : totalMs ≤ 7 * (2 ^ 64 * 2 ^ 35) := by
    refine le_trans h.total_le ?_
    cases lastUnitIndex with
    | none => exact Nat.zero_le _
    | some j => exact Nat.mul_le_mul_right _ (by have := hlast j rfl; omega)
  omega

/-! ## The parser -/

/-- Every group is a digit and a letter at least. -/
theorem two_le_length {groups : List DurationGroup} (hne : groups ≠ []) :
    2 ≤ (groups.flatMap DurationGroup.text).length := by
  obtain ⟨g, rest, rfl⟩ := List.exists_cons_of_ne_nil hne
  have hdigits := List.length_pos_iff.mpr g.nonempty
  have hunit : 0 < g.unit.text.length := by cases g.unit <;> decide
  rw [List.flatMap_cons, List.length_append, DurationGroup.text, List.length_append]
  omega

section

variable {input : String}

/-- Nothing but `0` and legal groups is accepted. -/
theorem parse_ok {d : PromDuration} (h : parse input = .ok d) :
    (input = "0" ∧ d = ⟨.zero⟩) ∨
      ∃ groups, groups ≠ [] ∧ input.toList = groups.flatMap DurationGroup.text ∧
        LegalGroups groups ∧ totalMillis groups < 2 ^ 64 ∧
        d = ⟨.fromMillis (totalMillis groups)⟩ := by
  rw [parse] at h
  split at h
  · cases h
  next hempty =>
  split at h
  · next hzero =>
      cases h
      exact .inl ⟨hzero, rfl⟩
  split at h
  · cases h
  next totalMs hgroups =>
  split at h
  · cases h
  next hfits =>
  cases h
  obtain ⟨groups, htext, hlegal, -, rfl⟩ := parseGroups_sound hgroups
  rw [Nat.zero_add] at hfits ⊢
  refine .inr ⟨groups, ?_, htext, hlegal, by omega, rfl⟩
  rintro rfl
  exact hempty (by rw [String.isEmpty_iff, ← String.toList_eq_nil_iff]; exact htext)

/-- The parser on legal groups. -/
theorem parse_groups {groups : List DurationGroup} (hne : groups ≠ [])
    (htext : input.toList = groups.flatMap DurationGroup.text) (hlegal : LegalGroups groups)
    (hfits : totalMillis groups < 2 ^ 64) :
    parse input = .ok ⟨.fromMillis (totalMillis groups)⟩ := by
  have hlen := two_le_length hne
  rw [← htext] at hlen
  have hempty : ¬ input.isEmpty = true := by
    intro h
    rw [String.isEmpty_iff.mp h] at hlen
    simp at hlen
  have hzero : ¬ input = "0" := by
    rintro rfl
    simp at hlen
  have hgroups : parseGroups input (groups.flatMap DurationGroup.text) none 0 = _ :=
    parseGroups_complete hlegal (by simp [Follows]) (by omega)
  rw [← htext, Nat.zero_add] at hgroups
  rw [parse, if_neg hempty, if_neg hzero, hgroups]
  dsimp only
  rw [if_neg (by omega)]

end

/-- **The parser accepts exactly `0` and the legal groups whose total is a `u64`**, and its loop is
    never stopped by a `u128` guard. -/
theorem parse_duration_iff (input : String) :
    (∀ d, parse input = .ok d ↔
      (input = "0" ∧ d = ⟨.zero⟩) ∨
        ∃ groups, groups ≠ [] ∧ input.toList = groups.flatMap DurationGroup.text ∧
          LegalGroups groups ∧ totalMillis groups < 2 ^ 64 ∧
          d = ⟨.fromMillis (totalMillis groups)⟩) ∧
    ∀ remaining lastUnitIndex totalMs number unitIndex unit msPerUnit,
      LoopState input remaining lastUnitIndex totalMs →
      Turn remaining lastUnitIndex number unitIndex unit msPerUnit →
      number * msPerUnit < 2 ^ 128 ∧ totalMs + number * msPerUnit < 2 ^ 128 := by
  refine ⟨fun d => ⟨parse_ok, ?_⟩, fun _ _ _ _ _ _ _ h hturn => guards_hold h hturn⟩
  rintro (⟨rfl, rfl⟩ | ⟨groups, hne, htext, hlegal, hfits, rfl⟩)
  · rfl
  · exact parse_groups hne htext hlegal hfits

/-- `1h30m` is an hour and a half. -/
theorem parse_duration_iff_hours : parse "1h30m" = .ok ⟨.fromMillis 5400000⟩ := by
  let hour : DurationGroup := ⟨['1'], .hour, by simp, by simp⟩
  let minutes : DurationGroup := ⟨['3', '0'], .minute, by simp, by simp⟩
  have htotal : totalMillis [hour, minutes] = 5400000 := by
    simp [totalMillis, hour, minutes, DurationGroup.millis, DurationGroup.number, TimeUnit.millis,
      Nat.ofDigitChars_cons, Nat.ofDigitChars_nil]
  refine ((parse_duration_iff "1h30m").1 _).mpr (.inr ⟨[hour, minutes], by simp, by decide,
    ⟨by decide, ?_⟩, ?_, ?_⟩)
  · simp [hour, minutes, TimeUnit.millis]
  · rw [htotal]
    norm_num
  · rw [htotal]

end PromScrape.PromDuration
