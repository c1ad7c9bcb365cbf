import PromScrape.Spec.Exposition

set_option autoImplicit false

/-! # A line reader over characters

The same decisions as the byte-level parser, taken on the list of characters that is left. It sits
between the two: this file shows that it accepts exactly the grammar, and `ParserReader` that the
byte-level parser agrees with it at every step. -/

namespace PromScrape

/-! ## Spans -/

section

variable {p : Char → Bool} {xs ys : List Char}

theorem notStarting_nil : NotStarting p [] := by
  intro c hc
  cases hc

theorem notStarting_cons {c : Char} : NotStarting p (c :: ys) ↔ p c = false := by
  simp [NotStarting]

theorem notStarting_dropWhile (p : Char → Bool) (cs : List Char) :
    NotStarting p (cs.dropWhile p) := by
  intro c hc
  have := List.head?_dropWhile_not p cs
  rw [Option.mem_def.mp hc] at this
  simpa using this

theorem takeWhile_span (hxs : ∀ c ∈ xs, p c = true) (hys : NotStarting p ys) :
    (xs ++ ys).takeWhile p = xs := by
  rw [List.takeWhile_append_of_pos hxs]
  cases ys with
  | nil => simp
  | cons c t => simp [notStarting_cons.mp hys]

theorem dropWhile_span (hxs : ∀ c ∈ xs, p c = true) (hys : NotStarting p ys) :
    (xs ++ ys).dropWhile p = ys := by
  rw [List.dropWhile_append_of_pos hxs]
  cases ys with
  | nil => rfl
  | cons c t => simp [notStarting_cons.mp hys]

theorem all_takeWhile (p : Char → Bool) (cs : List Char) : ∀ c ∈ cs.takeWhile p, p c = true :=
  fun _ hc => List.mem_takeWhile_imp hc

end

/-! ## The reader -/

def skipBlanks (cs : List Char) : List Char := cs.dropWhile isBlank

def expect (c : Char) : List Char → Option (List Char)
  | [] => none
  | d :: rest => if d = c then some rest else none

/-- Up to the closing quote, escapes left as they are; then what follows it. -/
def readRaw : List Char → Option (List Char × List Char)
  | [] => none
  | c :: rest =>
      if c = '"' then some ([], rest)
      else if c = '\\' then
        match rest with
        | [] => none
        | e :: rest => (readRaw rest).map fun r => ('\\' :: e :: r.1, r.2)
      else (readRaw rest).map fun r => (c :: r.1, r.2)

def decode : List Char → Option (List Char)
  | [] => some []
  | c :: rest =>
      if c = '\\' then
        match rest with
        | [] => none
        | e :: rest => (escapes.lookup e).bind fun d => (decode rest).map (d :: ·)
      else (decode rest).map (c :: ·)

def readQuoted (cs : List Char) : Option (List Char × List Char) := do
  let (raw, rest) ← readRaw cs
  let value ← decode raw
  some (value, rest)

def readName (labels : List Label) : List Char → Option (String × List Char)
  | [] => none
  | c :: rest =>
      let name := String.ofList (c :: rest.takeWhile (isNameTail false))
      if isNameHead false c = false ∨ name = metricNameLabel ∨ name ∈ labels.map (·.name) ∨
          maxLabelsPerSeries ≤ labels.length then none
      else some (name, rest.dropWhile (isNameTail false))

def readPair (labels : List Label) (cs : List Char) : Option (Label × List Char) := do
  let (name, cs) ← readName labels cs
  let cs ← expect '=' (skipBlanks cs)
  let cs ← expect '"' (skipBlanks cs)
  let (value, cs) ← readQuoted cs
  some (⟨name, String.ofList value⟩, skipBlanks cs)

def readPairs : Nat → List Label → List Char → Option (List Label × List Char)
  | 0, _, _ => none
  | n + 1, labels, cs =>
      match skipBlanks cs with
      | [] => none
      | c :: rest =>
          if c = '}' then some (labels, rest)
          else
            (readPair labels (c :: rest)).bind fun r =>
              match r.2 with
              | [] => none
              | d :: rest =>
                  if d = ',' then readPairs n (labels ++ [r.1]) rest
                  else if d = '}' then some (labels ++ [r.1], rest)
                  else none

/-- The label set, if any: the labels, what follows the identity, and what follows the blanks. -/
def readLabelPart (name : String) (cs : List Char) :
    Option (List Label × List Char × List Char) :=
  match skipBlanks cs with
  | [] => some ([⟨metricNameLabel, name⟩], cs, [])
  | c :: rest =>
      if c = '{' then
        (readPairs (rest.length + 1) [⟨metricNameLabel, name⟩] rest).map fun r =>
          (r.1, r.2, skipBlanks r.2)
      else some ([⟨metricNameLabel, name⟩], cs, c :: rest)

def readValue (cs : List Char) : Option (F64 × List Char) :=
  if cs = [] then none
  else
    (parseValue (String.ofList (cs.takeWhile (!isBlank ·)))).map fun v =>
      (v, skipBlanks (cs.dropWhile (!isBlank ·)))

def readStamp : List Char → Option (Option Int64 × List Char)
  | [] => some (none, [])
  | c :: rest =>
      if c = '#' then some (none, c :: rest)
      else
        (parseTimestamp (String.ofList ((c :: rest).takeWhile (!isBlank ·)))).map fun t =>
          (some t, skipBlanks ((c :: rest).dropWhile (!isBlank ·)))

def readEnd : List Char → Option Unit
  | [] => some ()
  | c :: _ => if c = '#' then some () else none

def readSample : List Char → Option SampleText
  | [] => none
  | c :: rest =>
      if isNameHead true c = false then none
      else do
        let name := c :: rest.takeWhile (isNameTail true)
        let (labels, afterIdentity, cs) ←
          readLabelPart (String.ofList name) (rest.dropWhile (isNameTail true))
        let (value, cs) ← readValue cs
        let (timestamp, cs) ← readStamp cs
        readEnd cs
        let identity := (c :: rest).take ((c :: rest).length - afterIdentity.length)
        some ⟨name, identity, labels.tail, value, timestamp⟩

def readLine (cs : List Char) : Option (Option SampleText) :=
  match skipBlanks cs with
  | [] => some none
  | c :: rest => if c = '#' then some none else (readSample (c :: rest)).map some

/-! ## Quoted values -/

@[simp] theorem readRaw_nil : readRaw [] = none := rfl

@[simp] theorem readRaw_quote (rest : List Char) : readRaw ('"' :: rest) = some ([], rest) := by
  rw [readRaw.eq_def]
  rfl

@[simp] theorem readRaw_backslash : readRaw ['\\'] = none := rfl

@[simp] theorem readRaw_escape (e : Char) (rest : List Char) :
    readRaw ('\\' :: e :: rest) = (readRaw rest).map fun r => ('\\' :: e :: r.1, r.2) := rfl

theorem readRaw_plain {c : Char} (hquote : c ≠ '"') (hescape : c ≠ '\\') (rest : List Char) :
    readRaw (c :: rest) = (readRaw rest).map fun r => (c :: r.1, r.2) := by
  rw [readRaw.eq_def]
  simp only [hquote, hescape, if_false]

@[simp] theorem decode_nil : decode [] = some [] := rfl

@[simp] theorem decode_escape (e : Char) (rest : List Char) :
    decode ('\\' :: e :: rest) =
      (escapes.lookup e).bind fun d => (decode rest).map (d :: ·) := rfl

theorem decode_plain {c : Char} (hescape : c ≠ '\\') (rest : List Char) :
    decode (c :: rest) = (decode rest).map (c :: ·) := by
  rw [decode.eq_def]
  simp only [hescape, if_false]

theorem lookup_escapes {e d : Char} : escapes.lookup e = some d ↔ (e, d) ∈ escapes := by
  simp only [escapes, List.lookup, List.mem_cons, Prod.mk.injEq, List.not_mem_nil, or_false]
  by_cases h₁ : e = '\\'
  · subst h₁
    simp [eq_comm]
  by_cases h₂ : e = '"'
  · subst h₂
    simp [eq_comm]
  by_cases h₃ : e = 'n'
  · subst h₃
    simp [eq_comm]
  · simp [h₁, h₂, h₃, beq_eq_false_iff_ne.mpr]

/-- A decoded text is one the grammar derives. -/
theorem readRaw_sound {cs : List Char} : ∀ {raw rest value : List Char},
    readRaw cs = some (raw, rest) → decode raw = some value →
      cs = raw ++ '"' :: rest ∧ ValueText raw value := by
  -- one case for each kind of head: the closing quote, an escape, a plain character
  induction cs using readRaw.induct with
  | case1 =>
      intro raw rest value hraw
      cases hraw
  | case2 tail =>
      intro raw rest value hraw hdec
      rw [readRaw_quote, Option.some.injEq, Prod.mk.injEq] at hraw
      obtain ⟨rfl, rfl⟩ := hraw
      cases hdec
      exact ⟨rfl, .nil⟩
  | case3 =>
      intro raw rest value hraw
      cases hraw
  | case4 e tail _ ih =>
      intro raw rest value hraw hdec
      rw [readRaw_escape, Option.map_eq_some_iff] at hraw
      obtain ⟨⟨raw, _⟩, hraw, hr⟩ := hraw
      obtain ⟨rfl, rfl⟩ := Prod.mk.inj hr
      simp only [decode_escape, Option.bind_eq_some_iff, Option.map_eq_some_iff] at hdec
      obtain ⟨d, hd, value, hdec, rfl⟩ := hdec
      obtain ⟨rfl, hvalue⟩ := ih hraw hdec
      exact ⟨rfl, .escape (lookup_escapes.mp hd) hvalue⟩
  | case5 c tail hquote hescape ih =>
      intro raw rest value hraw hdec
      rw [readRaw_plain hquote hescape, Option.map_eq_some_iff] at hraw
      obtain ⟨⟨raw, _⟩, hraw, hr⟩ := hraw
      obtain ⟨rfl, rfl⟩ := Prod.mk.inj hr
      rw [decode_plain hescape, Option.map_eq_some_iff] at hdec
      obtain ⟨value, hdec, rfl⟩ := hdec
      obtain ⟨rfl, hvalue⟩ := ih hraw hdec
      exact ⟨rfl, .plain hquote hescape hvalue⟩

theorem readQuoted_sound {cs value rest : List Char} (h : readQuoted cs = some (value, rest)) :
    ∃ text, cs = text ++ '"' :: rest ∧ ValueText text value := by
  simp only [readQuoted, Option.bind_eq_bind, Option.bind_eq_some_iff, Prod.exists,
    Option.some.injEq, Prod.mk.injEq] at h
  obtain ⟨raw, _, hraw, _, hdec, rfl, rfl⟩ := h
  exact ⟨raw, readRaw_sound hraw hdec⟩

theorem readRaw_complete {text value : List Char} (h : ValueText text value) (rest : List Char) :
    readRaw (text ++ '"' :: rest) = some (text, rest) := by
  induction h with
  | nil => exact readRaw_quote rest
  | plain hquote hescape _ ih => simp [readRaw_plain hquote hescape, ih]
  | escape _ _ ih => simp [ih]

theorem decode_complete {text value : List Char} (h : ValueText text value) :
    decode text = some value := by
  induction h with
  | nil => rfl
  | plain _ hescape _ ih => simp [decode_plain hescape, ih]
  | escape hmem _ ih => simp [lookup_escapes.mpr hmem, ih]

theorem readQuoted_complete {text value : List Char} (h : ValueText text value)
    (rest : List Char) : readQuoted (text ++ '"' :: rest) = some (value, rest) := by
  simp [readQuoted, readRaw_complete h, decode_complete h]

/-! ## Pairs -/

theorem blanks_takeWhile (cs : List Char) : Blanks (cs.takeWhile isBlank) :=
  all_takeWhile isBlank cs

theorem takeWhile_skipBlanks (cs : List Char) : cs.takeWhile isBlank ++ skipBlanks cs = cs :=
  List.takeWhile_append_dropWhile

theorem skipBlanks_append {b cs : List Char} (hb : Blanks b) (hcs : NotStarting isBlank cs) :
    skipBlanks (b ++ cs) = cs := dropWhile_span hb hcs

theorem skipBlanks_blanks {b : List Char} (hb : Blanks b) : skipBlanks b = [] := by
  have := skipBlanks_append hb notStarting_nil
  rwa [List.append_nil] at this

/-- A blank starts no name. -/
theorem isBlank_of_isNameTail {colon : Bool} {c : Char} (h : isNameTail colon c = true) :
    isBlank c = false := by
  by_contra hblank
  simp only [isBlank, Bool.not_eq_false, Bool.or_eq_true, beq_iff_eq] at hblank
  rcases hblank with rfl | rfl <;> revert h <;> cases colon <;> decide

theorem isNameTail_of_isNameHead {colon : Bool} {c : Char} (h : isNameHead colon c = true) :
    isNameTail colon c = true := by
  simp [isNameTail, h]

/-- Blanks end a name. -/
theorem notStarting_blanks_append {colon : Bool} {b cs : List Char} (hb : Blanks b)
    (hcs : NotStarting (isNameTail colon) cs) : NotStarting (isNameTail colon) (b ++ cs) := by
  cases b with
  | nil => exact hcs
  | cons c t =>
      rw [List.cons_append, notStarting_cons]
      by_contra hname
      have hblank := hb c List.mem_cons_self
      rw [isBlank_of_isNameTail (by simpa using hname)] at hblank
      cases hblank

theorem expect_eq_some {c : Char} {cs rest : List Char} (h : expect c cs = some rest) :
    cs = c :: rest := by
  cases cs with
  | nil => cases h
  | cons d t =>
      simp only [expect, Option.ite_none_right_eq_some, Option.some.injEq] at h
      obtain ⟨rfl, rfl⟩ := h
      rfl

/-- What `readName` checks about a name. -/
structure FreshName (labels : List Label) (name : String) : Prop where
  ne_metricName : name ≠ metricNameLabel
  not_mem : name ∉ labels.map (·.name)
  room : labels.length < maxLabelsPerSeries

theorem readName_sound {labels : List Label} {cs rest : List Char} {name : String}
    (h : readName labels cs = some (name, rest)) :
    ∃ text, cs = text ++ rest ∧ IsName false text ∧ name = String.ofList text ∧
      FreshName labels name := by
  cases cs with
  | nil => cases h
  | cons c t =>
      simp only [readName, Option.ite_none_left_eq_some, Option.some.injEq, Prod.mk.injEq,
        not_or, Bool.not_eq_false, Nat.not_le] at h
      obtain ⟨⟨hhead, hname, hmem, hroom⟩, rfl, rfl⟩ := h
      refine ⟨c :: t.takeWhile (isNameTail false), ?_, ?_, rfl, hname, hmem, hroom⟩
      · rw [List.cons_append, List.takeWhile_append_dropWhile]
      · exact ⟨c, _, rfl, hhead, all_takeWhile _ _⟩

theorem readName_complete {labels : List Label} {text rest : List Char} (hname : IsName false text)
    (hrest : NotStarting (isNameTail false) rest) (hfresh : FreshName labels (String.ofList text)) :
    readName labels (text ++ rest) = some (String.ofList text, rest) := by
  obtain ⟨c, t, rfl, hhead, htail⟩ := hname
  rw [List.cons_append, readName, takeWhile_span htail hrest, dropWhile_span htail hrest]
  have hroom : ¬ maxLabelsPerSeries ≤ labels.length := Nat.not_le.mpr hfresh.room
  simp only [hhead, hfresh.ne_metricName, hfresh.not_mem, hroom, or_self, Bool.true_eq_false,
    if_false]

theorem readPair_sound {labels : List Label} {cs rest : List Char} {pair : Label}
    (hstart : NotStarting isBlank cs) (h : readPair labels cs = some (pair, rest)) :
    ∃ text, cs = text ++ rest ∧ PairText text pair ∧ FreshName labels pair.name := by
  simp only [readPair, Option.bind_eq_bind, Option.bind_eq_some_iff, Prod.exists,
    Option.some.injEq, Prod.mk.injEq] at h
  obtain ⟨name, cs₁, hname, cs₂, heq, cs₃, hquote, value, cs₄, hvalue, rfl, rfl⟩ := h
  obtain ⟨nameText, rfl, hisName, rfl, hfresh⟩ := readName_sound hname
  obtain ⟨text, rfl, hvalueText⟩ := readQuoted_sound hvalue
  have h₁ := takeWhile_skipBlanks cs₁
  rw [expect_eq_some heq] at h₁
  have h₂ := takeWhile_skipBlanks cs₂
  rw [expect_eq_some hquote] at h₂
  refine ⟨[] ++ (nameText ++ (cs₁.takeWhile isBlank ++ '=' ::
    (cs₂.takeWhile isBlank ++ '"' :: (text ++ '"' :: cs₄.takeWhile isBlank)))), ?_,
    .mk (by simp [Blanks]) hisName (blanks_takeWhile _) (blanks_takeWhile _) hvalueText
      (blanks_takeWhile _), hfresh⟩
  have h₄ := takeWhile_skipBlanks cs₄
  simp only [List.nil_append, List.append_assoc, List.cons_append, h₄]
  rw [h₂, h₁]

theorem length_skipBlanks_le (cs : List Char) : (skipBlanks cs).length ≤ cs.length :=
  (List.dropWhile_suffix isBlank).length_le

/-- A pair uses up text, which bounds the rounds of the label loop. -/
theorem length_after_pair_lt {labels : List Label} {name : String}
    {cs cs₁ cs₂ cs₃ cs₄ value : List Char} (hname : readName labels cs = some (name, cs₁))
    (heq : expect '=' (skipBlanks cs₁) = some cs₂) (hquote : expect '"' (skipBlanks cs₂) = some cs₃)
    (hvalue : readQuoted cs₃ = some (value, cs₄)) : (skipBlanks cs₄).length < cs.length := by
  obtain ⟨nameText, hsplit, -⟩ := readName_sound hname
  obtain ⟨text, hsplit', -⟩ := readQuoted_sound hvalue
  have h := congrArg List.length hsplit
  have h₁ := congrArg List.length (expect_eq_some heq)
  have h₂ := congrArg List.length (expect_eq_some hquote)
  have h₃ := congrArg List.length hsplit'
  simp only [List.length_append, List.length_cons] at h h₁ h₂ h₃
  have hblank₁ := length_skipBlanks_le cs₁
  have hblank₂ := length_skipBlanks_le cs₂
  have hblank₄ := length_skipBlanks_le cs₄
  omega

/-- A pair is read up to the delimiter, whatever blanks precede it. -/
theorem readPair_complete {labels : List Label} {text : List Char} {pair : Label} {d : Char}
    (h : PairText text pair) (hfresh : FreshName labels pair.name) (hd : isBlank d = false)
    (rest : List Char) :
    ∃ c t, skipBlanks (text ++ d :: rest) = c :: t ∧ isNameHead false c = true ∧
      readPair labels (c :: t) = some (pair, d :: rest) := by
  obtain ⟨h₁, hname, h₂, h₃, hvalue, h₄⟩ := h
  rename_i b₁ name b₂ b₃ text value b₄
  have hread : readPair labels (name ++ (b₂ ++ '=' :: (b₃ ++ '"' ::
      (text ++ '"' :: (b₄ ++ d :: rest))))) =
      some (⟨String.ofList name, String.ofList value⟩, d :: rest) := by
    have hstop : NotStarting (isNameTail false) (b₂ ++ '=' :: (b₃ ++ '"' ::
        (text ++ '"' :: (b₄ ++ d :: rest)))) :=
      notStarting_blanks_append h₂ (notStarting_cons.mpr (by decide))
    rw [readPair, readName_complete hname hstop hfresh]
    simp only [Option.bind_eq_bind, Option.bind_some]
    rw [skipBlanks_append h₂ (notStarting_cons.mpr (by decide))]
    simp only [expect, if_true, Option.bind_some]
    rw [skipBlanks_append h₃ (notStarting_cons.mpr (by decide))]
    simp only [if_true, Option.bind_some]
    rw [readQuoted_complete hvalue]
    simp only [Option.bind_some, skipBlanks_append h₄ (notStarting_cons.mpr hd)]
  obtain ⟨c, t, rfl, hhead, -⟩ := hname
  refine ⟨c, _, ?_, hhead, hread⟩
  have hblank : isBlank c = false := isBlank_of_isNameTail (isNameTail_of_isNameHead hhead)
  simp only [List.append_assoc, List.cons_append]
  exact skipBlanks_append h₁ (notStarting_cons.mpr hblank)

/-! ## Label sets -/

/-- The labels read so far: the metric name among them, no name twice, within the cap. -/
structure LabelsOk (labels : List Label) : Prop where
  metricName : metricNameLabel ∈ labels.map (·.name)
  nodup : (labels.map (·.name)).Nodup
  length_le : labels.length ≤ maxLabelsPerSeries

theorem labelsOk_singleton (name : String) : LabelsOk [⟨metricNameLabel, name⟩] :=
  ⟨by simp, by simp, by simp [maxLabelsPerSeries]⟩

theorem LabelsOk.snoc {labels : List Label} {pair : Label} (h : LabelsOk labels)
    (hfresh : FreshName labels pair.name) : LabelsOk (labels ++ [pair]) := by
  refine ⟨?_, ?_, ?_⟩
  · simp [h.metricName]
  · rw [List.map_append, List.map_singleton, List.nodup_append]
    refine ⟨h.nodup, List.nodup_singleton _, ?_⟩
    rintro name hname _ hpair rfl
    rw [List.mem_singleton] at hpair
    exact hfresh.not_mem (hpair ▸ hname)
  · rw [List.length_append, List.length_singleton]
    exact hfresh.room

/-- Conversely a longer legal list allows its next label. -/
theorem LabelsOk.fresh {labels pairs : List Label} {pair : Label} (hname : metricNameLabel ∈
    labels.map (·.name)) (h : LabelsOk (labels ++ pair :: pairs)) :
    FreshName labels pair.name := by
  have hnodup := h.nodup
  rw [List.map_append, List.map_cons, List.nodup_append] at hnodup
  have hnot : pair.name ∉ labels.map (·.name) := fun hmem =>
    hnodup.2.2 _ hmem _ List.mem_cons_self rfl
  have hlen := h.length_le
  rw [List.length_append, List.length_cons] at hlen
  refine ⟨?_, hnot, by omega⟩
  intro heq
  exact hnot (heq ▸ hname)

/-- The pairs of a series, seen from its full label list. -/
theorem labelsOk_cons_iff {name : String} {pairs : List Label} :
    LabelsOk (⟨metricNameLabel, name⟩ :: pairs) ↔ LegalPairs pairs := by
  constructor
  · intro h
    have hnodup := h.nodup
    have hlen := h.length_le
    rw [List.map_cons, List.nodup_cons] at hnodup
    rw [List.length_cons, maxLabelsPerSeries] at hlen
    exact ⟨by omega, hnodup.2, hnodup.1⟩
  · intro h
    refine ⟨by simp, ?_, ?_⟩
    · rw [List.map_cons, List.nodup_cons]
      exact ⟨h.not_metricName, h.nodup⟩
    · rw [List.length_cons, maxLabelsPerSeries]
      have := h.length_le
      omega

theorem notStarting_skipBlanks (cs : List Char) : NotStarting isBlank (skipBlanks cs) :=
  notStarting_dropWhile isBlank cs

theorem blanks_append_pairText {b text : List Char} {pair : Label} (hb : Blanks b)
    (h : PairText text pair) : PairText (b ++ text) pair := by
  obtain ⟨h₁, hname, h₂, h₃, hvalue, h₄⟩ := h
  rw [← List.append_assoc]
  refine .mk ?_ hname h₂ h₃ hvalue h₄
  intro c hc
  rcases List.mem_append.mp hc with hc | hc
  · exact hb c hc
  · exact h₁ c hc

theorem readPairs_sound {n : Nat} : ∀ {labels out : List Label} {cs rest : List Char},
    LabelsOk labels → readPairs n labels cs = some (out, rest) →
      ∃ inner pairs, cs = inner ++ '}' :: rest ∧ PairsText inner pairs ∧ out = labels ++ pairs ∧
        LabelsOk out := by
  induction n with
  | zero =>
      intro labels out cs rest _ h
      cases h
  | succ n ih =>
      intro labels out cs rest hok h
      have hcs := takeWhile_skipBlanks cs
      have hb := blanks_takeWhile cs
      generalize cs.takeWhile isBlank = b at hcs hb
      have hstart := notStarting_skipBlanks cs
      rw [readPairs] at h
      split at h
      · cases h
      next c t hc =>
      rw [hc] at hcs hstart
      split at h
      · next hbrace =>
          -- an empty rest: no pair, or after a last comma
          simp only [Option.some.injEq, Prod.mk.injEq] at h
          obtain ⟨rfl, rfl⟩ := h
          subst hbrace
          exact ⟨b, [], hcs.symm, .blank hb, (List.append_nil _).symm, hok⟩
      · rw [Option.bind_eq_some_iff] at h
        obtain ⟨⟨pair, cs'⟩, hpair, h⟩ := h
        obtain ⟨text, htext, hpairText, hfresh⟩ := readPair_sound hstart hpair
        have hpairText' := blanks_append_pairText hb hpairText
        rw [htext, ← List.append_assoc] at hcs
        generalize b ++ text = text' at hcs hpairText'
        have hok' := hok.snoc hfresh
        dsimp only at h
        split at h
        · cases h
        next d t' =>
        split at h
        · next hcomma =>
            obtain ⟨inner, pairs, rfl, hinner, rfl, hout⟩ := ih hok' h
            subst hcomma
            refine ⟨text' ++ ',' :: inner, pair :: pairs, ?_, .comma hpairText' hinner, ?_, hout⟩
            · rw [← hcs, List.append_assoc, List.cons_append]
            · rw [List.append_assoc, List.singleton_append]
        split at h
        · next hbrace =>
            simp only [Option.some.injEq, Prod.mk.injEq] at h
            obtain ⟨rfl, rfl⟩ := h
            subst hbrace
            exact ⟨text', [pair], hcs.symm, .last hpairText', rfl, hok'⟩
        · cases h

theorem readPairs_complete {inner : List Char} {pairs : List Label} (h : PairsText inner pairs)
    (rest : List Char) : ∀ {n : Nat} {labels : List Label}, inner.length < n →
      metricNameLabel ∈ labels.map (·.name) → LabelsOk (labels ++ pairs) →
        readPairs n labels (inner ++ '}' :: rest) = some (labels ++ pairs, rest) := by
  have hbrace : ¬ isNameHead false '}' = true := by decide
  -- what a pair followed by a delimiter makes of one round
  have hround {text : List Char} {pair : Label} (hpair : PairText text pair) (d : Char)
      (t : List Char) (n : Nat) {labels pairs : List Label} (hd : isBlank d = false)
      (hname : metricNameLabel ∈ labels.map (·.name)) (hok : LabelsOk (labels ++ pair :: pairs)) :
      readPairs (n + 1) labels (text ++ d :: t) =
        if d = ',' then readPairs n (labels ++ [pair]) t
        else if d = '}' then some (labels ++ [pair], t) else none := by
    obtain ⟨c, u, hskip, hhead, hread⟩ := readPair_complete hpair (hok.fresh hname) hd t
    have hc : ¬ c = '}' := fun hc => hbrace (hc ▸ hhead)
    rw [readPairs, hskip]
    simp only [hc, if_false, hread, Option.bind_some]
  induction h with
  | blank hb =>
      intro n labels hn _ _
      obtain ⟨n, rfl⟩ := Nat.exists_eq_add_of_lt hn
      rw [readPairs, skipBlanks_append hb (notStarting_cons.mpr (by decide))]
      simp only [if_true, List.append_nil]
  | last hpair =>
      intro n labels hn hname hok
      obtain ⟨n, rfl⟩ := Nat.exists_eq_add_of_lt hn
      rw [hround hpair '}' rest _ (by decide) hname hok]
      rfl
  | @comma text inner pair pairs hpair _ ih =>
      intro n labels hn hname hok
      rw [List.length_append, List.length_cons] at hn
      obtain ⟨n, rfl⟩ := Nat.exists_eq_add_of_lt (Nat.zero_lt_of_lt hn)
      rw [List.append_assoc, List.cons_append, Nat.zero_add, hround hpair ',' _ _ (by decide) hname
        hok, if_pos rfl]
      have hsnoc : labels ++ pair :: pairs = labels ++ [pair] ++ pairs := by simp
      rw [hsnoc] at hok ⊢
      exact ih (by omega) (by simp [hname]) hok

/-! ## Tokens -/

/-- The blanks `b` separate a token from `rest`; without blanks nothing follows. -/
structure Gap (b rest : List Char) : Prop where
  blanks : Blanks b
  stop : NotStarting isBlank rest
  sep : b = [] → rest = []

theorem NotStarting.of_append {p : Char → Bool} {xs ys : List Char}
    (h : NotStarting p (xs ++ ys)) : NotStarting p xs := by
  cases xs with
  | nil => exact notStarting_nil
  | cons c t => exact notStarting_cons.mpr (notStarting_cons.mp h)

theorem NotStarting.append {p : Char → Bool} {xs ys : List Char} (hne : xs ≠ [])
    (h : NotStarting p xs) : NotStarting p (xs ++ ys) := by
  cases xs with
  | nil => exact absurd rfl hne
  | cons c t => exact notStarting_cons.mpr (notStarting_cons.mp h)

theorem IsToken.notStarting {tok : List Char} (h : IsToken tok) : NotStarting isBlank tok := by
  intro c hc
  exact h.2 c (List.mem_of_mem_head? hc)

/-- The maximal token at the start of a text. -/
theorem token_split {cs : List Char} (hne : cs ≠ []) (hcs : NotStarting isBlank cs) :
    ∃ b, cs = cs.takeWhile (!isBlank ·) ++ (b ++ skipBlanks (cs.dropWhile (!isBlank ·))) ∧
      IsToken (cs.takeWhile (!isBlank ·)) ∧ Gap b (skipBlanks (cs.dropWhile (!isBlank ·))) := by
  refine ⟨(cs.dropWhile (!isBlank ·)).takeWhile isBlank, ?_, ⟨?_, ?_⟩, blanks_takeWhile _,
    notStarting_skipBlanks _, ?_⟩
  · rw [takeWhile_skipBlanks, List.takeWhile_append_dropWhile]
  · cases cs with
    | nil => exact absurd rfl hne
    | cons c t => simp [notStarting_cons.mp hcs]
  · intro c hc
    simpa using all_takeWhile (!isBlank ·) cs c hc
  · intro hb
    have hstop := notStarting_dropWhile (!isBlank ·) cs
    cases hd : cs.dropWhile (!isBlank ·) with
    | nil => rfl
    | cons c t =>
        rw [hd, notStarting_cons] at hstop
        rw [hd, List.takeWhile_cons] at hb
        simp_all

theorem token_takeWhile {tok b rest : List Char} (htok : IsToken tok) (hgap : Gap b rest) :
    (tok ++ (b ++ rest)).takeWhile (!isBlank ·) = tok ∧
      skipBlanks ((tok ++ (b ++ rest)).dropWhile (!isBlank ·)) = rest := by
  have hall : ∀ c ∈ tok, (!isBlank c) = true := fun c hc => by simp [htok.2 c hc]
  have hstop : NotStarting (!isBlank ·) (b ++ rest) := by
    cases b with
    | nil =>
        rw [hgap.sep rfl]
        exact notStarting_nil
    | cons c t =>
        rw [List.cons_append, notStarting_cons]
        simp [hgap.blanks c List.mem_cons_self]
  rw [takeWhile_span hall hstop, dropWhile_span hall hstop]
  exact ⟨rfl, skipBlanks_append hgap.blanks hgap.stop⟩

theorem readValue_sound {cs rest : List Char} {v : F64} (hcs : NotStarting isBlank cs)
    (h : readValue cs = some (v, rest)) :
    ∃ value b, cs = value ++ (b ++ rest) ∧ IsToken value ∧ Gap b rest ∧
      parseValue (String.ofList value) = some v := by
  rw [readValue] at h
  split at h
  · cases h
  · next hne =>
      obtain ⟨b, hsplit, htok, hgap⟩ := token_split hne hcs
      obtain ⟨w, hw, heq⟩ := Option.map_eq_some_iff.mp h
      obtain ⟨rfl, rfl⟩ := Prod.mk.inj heq
      exact ⟨_, b, hsplit, htok, hgap, hw⟩

theorem readValue_complete {value b rest : List Char} {v : F64} (htok : IsToken value)
    (hgap : Gap b rest) (hvalue : parseValue (String.ofList value) = some v) :
    readValue (value ++ (b ++ rest)) = some (v, rest) := by
  obtain ⟨htake, hskip⟩ := token_takeWhile htok hgap
  have hne : value ++ (b ++ rest) ≠ [] := List.append_ne_nil_of_left_ne_nil htok.1 _
  rw [readValue, if_neg hne, htake, hskip, hvalue]
  rfl

theorem readEnd_sound {b rest : List Char} (hgap : Gap b rest) (h : readEnd rest = some ()) :
    EndText (b ++ rest) := by
  cases rest with
  | nil =>
      rw [List.append_nil]
      exact .blank hgap.blanks
  | cons c t =>
      simp only [readEnd, Option.ite_none_right_eq_some, and_true] at h
      subst h
      exact .exemplar hgap.blanks fun hb => List.cons_ne_nil _ _ (hgap.sep hb)

theorem readEnd_complete {text : List Char} (h : EndText text) :
    ∃ b rest, text = b ++ rest ∧ Gap b rest ∧ readEnd rest = some () ∧
      (rest = [] ∨ ∃ t, rest = '#' :: t) := by
  cases h with
  | blank hb => exact ⟨text, [], (List.append_nil _).symm, ⟨hb, notStarting_nil, fun _ => rfl⟩, rfl,
      .inl rfl⟩
  | @exemplar b t hb hne =>
      exact ⟨b, '#' :: t, rfl, ⟨hb, notStarting_cons.mpr (by decide), fun h => absurd h hne⟩, rfl,
        .inr ⟨t, rfl⟩⟩

theorem readStamp_sound {b rest rest' : List Char} {timestamp : Option Int64} (hgap : Gap b rest)
    (h : readStamp rest = some (timestamp, rest')) (hend : readEnd rest' = some ()) :
    TailText (b ++ rest) timestamp := by
  cases rest with
  | nil =>
      cases h
      exact .bare (readEnd_sound hgap hend)
  | cons c t =>
      rw [readStamp] at h
      split at h
      · cases h
        exact .bare (readEnd_sound hgap hend)
      · next hhash =>
          obtain ⟨b', hsplit, htok, hgap'⟩ := token_split (List.cons_ne_nil c t) hgap.stop
          obtain ⟨w, hw, heq⟩ := Option.map_eq_some_iff.mp h
          obtain ⟨rfl, rfl⟩ := Prod.mk.inj heq
          have hstart : NotStarting (· == '#') ((c :: t).takeWhile (!isBlank ·)) := by
            have hall : NotStarting (· == '#') (c :: t) := notStarting_cons.mpr (by simpa using hhash)
            rw [hsplit] at hall
            exact hall.of_append
          rw [hsplit]
          exact .stamped hgap.blanks (fun hb => List.cons_ne_nil _ _ (hgap.sep hb)) htok hstart hw
            (readEnd_sound hgap' hend)

theorem readStamp_complete {tail : List Char} {timestamp : Option Int64}
    (h : TailText tail timestamp) :
    ∃ b rest rest', tail = b ++ rest ∧ Gap b rest ∧ readStamp rest = some (timestamp, rest') ∧
      readEnd rest' = some () := by
  cases h with
  | bare hend =>
      obtain ⟨b, rest, rfl, hgap, hread, hrest⟩ := readEnd_complete hend
      refine ⟨b, rest, rest, rfl, hgap, ?_, hread⟩
      rcases hrest with rfl | ⟨t, rfl⟩ <;> rfl
  | @stamped b tok text ts hb hne htok hhash hts hend =>
      obtain ⟨b', rest, rfl, hgap, hread, -⟩ := readEnd_complete hend
      obtain ⟨htake, hskip⟩ := token_takeWhile htok hgap
      refine ⟨b, tok ++ (b' ++ rest), rest, rfl,
        ⟨hb, htok.notStarting.append htok.1, fun h => absurd h hne⟩, ?_, hread⟩
      obtain ⟨c, t, htoken⟩ := List.exists_cons_of_ne_nil htok.1
      rw [htoken] at hhash htake hskip ⊢
      rw [List.cons_append, readStamp, if_neg (by simpa using notStarting_cons.mp hhash),
        ← List.cons_append, htake, hskip, ← htoken, hts]
      rfl

/-! ## Lines -/

theorem readLabelPart_sound {name : String} {cs after rest : List Char} {labels : List Label}
    (h : readLabelPart name cs = some (labels, after, rest)) :
    ∃ part identity pairs, cs = part ++ rest ∧ cs = identity ++ after ∧
      labels = ⟨metricNameLabel, name⟩ :: pairs ∧ LegalPairs pairs ∧ NotStarting isBlank rest ∧
      ∀ value tail, rest = value ++ tail → LabelPart value part identity pairs := by
  have hcs := takeWhile_skipBlanks cs
  have hb := blanks_takeWhile cs
  have hstart := notStarting_skipBlanks cs
  generalize cs.takeWhile isBlank = b at hcs hb
  rw [readLabelPart] at h
  split at h
  · next hnil =>
      simp only [Option.some.injEq, Prod.mk.injEq] at h
      obtain ⟨rfl, rfl, rfl⟩ := h
      rw [hnil] at hcs
      refine ⟨b, [], [], hcs.symm, rfl, rfl, labelsOk_cons_iff.mp (labelsOk_singleton name),
        notStarting_nil, ?_⟩
      intro value tail hsplit
      obtain ⟨rfl, -⟩ := List.append_eq_nil_iff.mp hsplit.symm
      exact .absent hb notStarting_nil
  next c t hc =>
  rw [hc] at hcs hstart
  split at h
  · next hbrace =>
      -- with a label set the identity ends at its `}`, without one at the name
      obtain ⟨⟨labels, after⟩, hpairs, heq⟩ := Option.map_eq_some_iff.mp h
      simp only [Prod.mk.injEq] at heq
      obtain ⟨rfl, rfl, rfl⟩ := heq
      obtain ⟨inner, pairs, rfl, hinner, rfl, hok⟩ := readPairs_sound (labelsOk_singleton name)
        hpairs
      subst hbrace
      refine ⟨b ++ '{' :: (inner ++ '}' :: after.takeWhile isBlank), b ++ '{' :: (inner ++ ['}']),
        pairs, ?_, ?_, rfl, labelsOk_cons_iff.mp hok, notStarting_skipBlanks _, ?_⟩
      · have hafter := takeWhile_skipBlanks after
        simp only [List.append_assoc, List.cons_append, hafter, hcs]
      · simp only [List.append_assoc, List.cons_append, List.nil_append, hcs]
      · intro _ _ _
        exact .present hb hinner (blanks_takeWhile _)
  · next hbrace =>
      simp only [Option.some.injEq, Prod.mk.injEq] at h
      obtain ⟨rfl, rfl, rfl⟩ := h
      refine ⟨b, [], [], hcs.symm, rfl, rfl, labelsOk_cons_iff.mp (labelsOk_singleton name),
        hstart, ?_⟩
      intro value tail hsplit
      have hall : NotStarting (· == '{') (value ++ tail) := by
        rw [← hsplit, notStarting_cons]
        simpa using hbrace
      exact .absent hb hall.of_append

theorem readLabelPart_complete (name : String) (tail : List Char) {value part identity : List Char}
    {pairs : List Label} (h : LabelPart value part identity pairs) (hpairs : LegalPairs pairs)
    (htok : IsToken value) :
    ∃ after, readLabelPart name (part ++ (value ++ tail)) =
        some (⟨metricNameLabel, name⟩ :: pairs, after, value ++ tail) ∧
      part ++ (value ++ tail) = identity ++ after := by
  have hstart : NotStarting isBlank (value ++ tail) := htok.notStarting.append htok.1
  cases h with
  | absent hb hbrace =>
      refine ⟨part ++ (value ++ tail), ?_, rfl⟩
      rw [readLabelPart, skipBlanks_append hb hstart]
      obtain ⟨c, t, rfl⟩ := List.exists_cons_of_ne_nil htok.1
      have hc : ¬ c = '{' := by simpa using notStarting_cons.mp hbrace
      simp only [List.cons_append, hc, if_false]
  | @present b₁ inner b₂ _ h₁ hinner h₂ =>
      refine ⟨b₂ ++ (value ++ tail), ?_, by simp only [List.append_assoc, List.cons_append,
        List.nil_append]⟩
      have hok : LabelsOk ([⟨metricNameLabel, name⟩] ++ pairs) := labelsOk_cons_iff.mpr hpairs
      have hname : metricNameLabel ∈ [Label.mk metricNameLabel name].map (·.name) :=
        List.mem_singleton_self _
      have hread := readPairs_complete (n := (inner ++ '}' :: (b₂ ++ (value ++ tail))).length + 1)
        hinner (b₂ ++ (value ++ tail)) (by rw [List.length_append]; omega) hname hok
      simp only [List.append_assoc, List.cons_append]
      rw [readLabelPart, skipBlanks_append h₁ (notStarting_cons.mpr (by decide))]
      simp only [if_true, hread, Option.map_some, skipBlanks_append h₂ hstart,
        List.singleton_append]

/-- The identity text is the name and the label set as written; `after` is the rest of the line. -/
theorem cons_eq_identity_append {p : Char → Bool} {c : Char} {rest identity after : List Char}
    (h : rest.dropWhile p = identity ++ after) :
    c :: rest = ((c :: rest.takeWhile p) ++ identity) ++ after := by
  rw [List.append_assoc, ← h, List.cons_append, List.takeWhile_append_dropWhile]

theorem take_identity {p : Char → Bool} {c : Char} {rest identity after : List Char}
    (h : rest.dropWhile p = identity ++ after) :
    (c :: rest).take ((c :: rest).length - after.length) = (c :: rest.takeWhile p) ++ identity := by
  have hline := cons_eq_identity_append (c := c) h
  conv_lhs => rw [hline]
  rw [List.length_append, Nat.add_sub_cancel, List.take_left]

/-- The reader on a line without leading blanks. -/
theorem readSample_sound {cs : List Char} {s : SampleText} (h : readSample cs = some s) :
    SampleLine cs s := by
  cases cs with
  | nil => cases h
  | cons c rest =>
      rw [readSample] at h
      split at h
      · cases h
      next hhead =>
      simp only [Option.bind_eq_bind, Option.bind_eq_some_iff, Prod.exists, Option.some.injEq] at h
      obtain ⟨labels, after, cs₁, hpart, value, cs₂, hvalue, timestamp, cs₃, hstamp, ⟨⟩, hend,
        rfl⟩ := h
      obtain ⟨part, identity, pairs, hsplit, hident, rfl, hlegal, hstart, hpartText⟩ :=
        readLabelPart_sound hpart
      obtain ⟨tok, b, rfl, htok, hgap, hv⟩ := readValue_sound hstart hvalue
      have hname : c :: rest =
          (c :: rest.takeWhile (isNameTail true)) ++ (part ++ (tok ++ (b ++ cs₂))) := by
        rw [← hsplit, List.cons_append, List.takeWhile_append_dropWhile]
      have hlongest : NotStarting (isNameTail true) (part ++ tok) := by
        have := notStarting_dropWhile (isNameTail true) rest
        rw [hsplit, ← List.append_assoc] at this
        exact this.of_append
      rw [take_identity hident, List.tail_cons]
      have hisName : IsName true (c :: rest.takeWhile (isNameTail true)) :=
        ⟨c, _, rfl, by simpa using hhead, all_takeWhile _ _⟩
      have hline := SampleLine.mk (b := []) (by simp [Blanks]) hisName hlongest
        (hpartText tok _ rfl) hlegal htok hv (readStamp_sound hgap hstamp hend)
      rwa [List.nil_append, ← hname] at hline

theorem readSample_complete {name part identity value tail : List Char} {pairs : List Label}
    {v : F64} {timestamp : Option Int64} (hname : IsName true name)
    (hlongest : NotStarting (isNameTail true) (part ++ value))
    (hpart : LabelPart value part identity pairs) (hpairs : LegalPairs pairs)
    (htok : IsToken value) (hvalue : parseValue (String.ofList value) = some v)
    (htail : TailText tail timestamp) :
    readSample (name ++ (part ++ (value ++ tail))) =
      some ⟨name, name ++ identity, pairs, v, timestamp⟩ := by
  obtain ⟨c, t, rfl, hhead, hall⟩ := hname
  obtain ⟨b, rest, rest', rfl, hgap, hstamp, hend⟩ := readStamp_complete htail
  have hstop : NotStarting (isNameTail true) (part ++ (value ++ (b ++ rest))) := by
    rw [← List.append_assoc]
    exact hlongest.append (List.append_ne_nil_of_right_ne_nil _ htok.1)
  obtain ⟨after, hread, hident⟩ := readLabelPart_complete (String.ofList (c :: t))
    (b ++ rest) hpart hpairs htok
  have htake := take_identity (c := c) ((dropWhile_span hall hstop).trans hident)
  rw [takeWhile_span hall hstop] at htake
  rw [List.cons_append, readSample, if_neg (by simp [hhead]), takeWhile_span hall hstop,
    dropWhile_span hall hstop]
  simp only [hread, readValue_complete htok hgap hvalue, hstamp, hend, htake, Option.bind_eq_bind,
    Option.bind_some, List.tail_cons]

theorem SampleLine.blanks_append {b cs : List Char} {s : SampleText} (hb : Blanks b)
    (h : SampleLine cs s) : SampleLine (b ++ cs) s := by
  obtain ⟨h₁, hname, hlongest, hpart, hpairs, htok, hvalue, htail⟩ := h
  rw [← List.append_assoc]
  refine .mk ?_ hname hlongest hpart hpairs htok hvalue htail
  intro c hc
  rcases List.mem_append.mp hc with hc | hc
  · exact hb c hc
  · exact h₁ c hc

/-- **The reader accepts exactly the grammar of sample lines.** -/
theorem readLine_eq_sample_iff {cs : List Char} {s : SampleText} :
    readLine cs = some (some s) ↔ SampleLine cs s := by
  constructor
  · intro h
    rw [readLine] at h
    split at h
    · cases h
    next c t hc =>
    split at h
    · cases h
    · obtain ⟨s', hs, heq⟩ := Option.map_eq_some_iff.mp h
      cases heq
      have hline := (readSample_sound hs).blanks_append (blanks_takeWhile cs)
      rwa [← hc, takeWhile_skipBlanks] at hline
  · rintro ⟨hb, hname, hlongest, hpart, hpairs, htok, hvalue, htail⟩
    have hread := readSample_complete hname hlongest hpart hpairs htok hvalue htail
    obtain ⟨c, t, rfl, hhead, -⟩ := hname
    have hblank : isBlank c = false := isBlank_of_isNameTail (isNameTail_of_isNameHead hhead)
    have hhash : c ≠ '#' := by
      rintro rfl
      revert hhead
      decide
    rw [List.cons_append] at hread ⊢
    rw [readLine, skipBlanks_append hb (notStarting_cons.mpr hblank)]
    simp only [hhash, if_false, hread, Option.map_some]

/-- **The reader skips exactly the blank lines and comments.** -/
theorem readLine_eq_none_iff {cs : List Char} : readLine cs = some none ↔ NoSampleLine cs := by
  constructor
  · intro h
    have hcs := takeWhile_skipBlanks cs
    have hb := blanks_takeWhile cs
    rw [readLine] at h
    split at h
    · next hnil =>
        rw [hnil, List.append_nil] at hcs
        exact .blank (hcs ▸ hb)
    next c t hc =>
    split at h
    · next hhash =>
        subst hhash
        rw [hc] at hcs
        exact hcs ▸ .comment hb
    · obtain ⟨_, _, heq⟩ := Option.map_eq_some_iff.mp h
      cases heq
  · intro h
    cases h with
    | blank hb => rw [readLine, skipBlanks_blanks hb]
    | comment hb =>
        rw [readLine, skipBlanks_append hb (notStarting_cons.mpr (by decide))]
        rfl

end PromScrape
