import Mathlib
import PromScrape.Library.Utf8
import PromScrape.Library.Float64

set_option autoImplicit false

/-! # The protobuf wire format

A protobuf message is a sequence of fields, each a key (field number and wire type) followed by a
value whose extent the wire type alone determines. This file gives that layer on its own, with no
message type in sight: `encodeField` / `decodeField` for one field, `encodeFields` / `decodeFields`
for a whole message body, and the fact everything above rests on — decoding inverts encoding
(`decodeFields_encodeFields`) for every list of well-formed fields.

A message type is then a step function folded over its fields (`decodeMessage`): unknown numbers
are skipped, a later scalar overrides an earlier one, repeated fields append. The typed readers at
the end (`asString`, `asSint64`, `packed`, …) are what such step functions are made of. -/

namespace ProtoWire

/-! ## Base-128 varints -/

/-- The base-128 digits of `n`, least significant first, continuation bit on all but the last;
    at most `k + 1` bytes. -/
def varintDigits : Nat → Nat → List UInt8
  | 0, n => [UInt8.ofNat n]
  | k + 1, n =>
      if n < 128 then [UInt8.ofNat n] else UInt8.ofNat (n % 128 + 128) :: varintDigits k (n / 128)

/-- The varint of a 64-bit value (ten bytes suffice). -/
def varint (v : UInt64) : List UInt8 := varintDigits 9 v.toNat

/-- Read base-128 digits, at most `k` of them. -/
def readDigits : Nat → List UInt8 → Option (Nat × List UInt8)
  | 0, _ => none
  | _ + 1, [] => none
  | k + 1, b :: bs =>
      if b.toNat < 128 then some (b.toNat, bs)
      else (readDigits k bs).map (fun r => (b.toNat - 128 + 128 * r.1, r.2))

/-- Read a varint: at most ten bytes, and a value that fits 64 bits. -/
def readVarint (bs : List UInt8) : Option (UInt64 × List UInt8) :=
  match readDigits 10 bs with
  | some (n, rest) => if n < 2 ^ 64 then some (UInt64.ofNat n, rest) else none
  | none => none

/-- One digit less, seven bits less. -/
theorem div_128_lt {k n : Nat} (hn : n < 2 ^ (7 * (k + 1 + 1))) : n / 128 < 2 ^ (7 * (k + 1)) := by
  have hpow : 2 ^ (7 * (k + 1 + 1)) = 2 ^ (7 * (k + 1)) * 128 := by
    rw [show 7 * (k + 1 + 1) = 7 * (k + 1) + 7 by ring, Nat.pow_add]
  omega

theorem readDigits_varintDigits (k n : Nat) (rest : List UInt8) (hn : n < 2 ^ (7 * (k + 1))) :
    readDigits (k + 1) (varintDigits k n ++ rest) = some (n, rest) := by
  induction k generalizing n with
  | zero =>
      have hn' : n < 128 := by simpa using hn
      have hbyte : (UInt8.ofNat n).toNat = n := by rw [UInt8.toNat_ofNat']; omega
      simp [varintDigits, readDigits, hbyte, hn']
  | succ k ih =>
      rw [varintDigits]
      split
      · next hlt =>
          have hbyte : (UInt8.ofNat n).toNat = n := by rw [UInt8.toNat_ofNat']; omega
          simp [readDigits, hbyte, hlt]
      · next hge =>
          have hbyte : (UInt8.ofNat (n % 128 + 128)).toNat = n % 128 + 128 := by
            rw [UInt8.toNat_ofNat']; omega
          rw [List.cons_append, readDigits, if_neg (by omega), ih _ (div_128_lt hn)]
          simp only [Option.map_some, hbyte, Option.some.injEq, Prod.mk.injEq, and_true]
          omega

/-- **Reading a written varint gives the value back**, whatever follows it. -/
@[simp] theorem readVarint_varint (v : UInt64) (rest : List UInt8) :
    readVarint (varint v ++ rest) = some (v, rest) := by
  have hlt := v.toNat_lt
  have hread := readDigits_varintDigits 9 v.toNat rest (by omega)
  simp [readVarint, varint, hread, hlt]

theorem varintDigits_ne_nil (k n : Nat) : varintDigits k n ≠ [] := by
  cases k with
  | zero => simp [varintDigits]
  | succ k => rw [varintDigits]; split <;> simp

/-! ## Fixed-width little-endian values -/

/-- The `k` low bytes of `n`, least significant first. -/
def leBytes : Nat → Nat → List UInt8
  | 0, _ => []
  | k + 1, n => UInt8.ofNat (n % 256) :: leBytes k (n / 256)

/-- The value of little-endian bytes. -/
def fromLe : List UInt8 → Nat
  | [] => 0
  | b :: bs => b.toNat + 256 * fromLe bs

@[simp] theorem leBytes_length (k n : Nat) : (leBytes k n).length = k := by
  induction k generalizing n with
  | zero => rfl
  | succ k ih => simp [leBytes, ih]

theorem fromLe_leBytes (k n : Nat) : fromLe (leBytes k n) = n % 256 ^ k := by
  induction k generalizing n with
  | zero => simp [leBytes, fromLe, Nat.mod_one]
  | succ k ih =>
      have hbyte : (UInt8.ofNat (n % 256)).toNat = n % 256 := by rw [UInt8.toNat_ofNat']; omega
      rw [leBytes, fromLe, ih, hbyte, Nat.pow_succ', Nat.mod_mul]

theorem fromLe_leBytes_toNat (v : UInt64) : fromLe (leBytes 8 v.toNat) = v.toNat := by
  rw [fromLe_leBytes]
  exact Nat.mod_eq_of_lt (by have := v.toNat_lt; norm_num; omega)

theorem fromLe_lt (bs : List UInt8) : fromLe bs < 2 ^ (8 * bs.length) := by
  induction bs with
  | nil => simp [fromLe]
  | cons b bs ih =>
      have hb := b.toNat_lt
      have hpow : 2 ^ (8 * (b :: bs).length) = 256 * 2 ^ (8 * bs.length) := by
        rw [List.length_cons, Nat.mul_succ, Nat.pow_add, Nat.mul_comm]
      rw [fromLe, hpow]
      omega

theorem fromLe_append (bs cs : List UInt8) :
    fromLe (bs ++ cs) = fromLe bs + 2 ^ (8 * bs.length) * fromLe cs := by
  induction bs with
  | nil => simp [fromLe]
  | cons b bs ih =>
      have hpow : 2 ^ (8 * (b :: bs).length) = 256 * 2 ^ (8 * bs.length) := by
        rw [List.length_cons, Nat.mul_succ, Nat.pow_add, Nat.mul_comm]
      rw [List.cons_append, fromLe, fromLe, ih, hpow, Nat.mul_add, Nat.mul_assoc]
      omega

/-- Little-endian values of one width are told apart. -/
theorem fromLe_inj {bs cs : List UInt8} (hlen : bs.length = cs.length)
    (h : fromLe bs = fromLe cs) : bs = cs := by
  induction bs generalizing cs with
  | nil => exact (List.eq_nil_of_length_eq_zero hlen.symm).symm
  | cons b bs ih =>
      obtain ⟨c, cs, rfl⟩ := List.exists_cons_of_length_eq_add_one hlen.symm
      have hb := b.toNat_lt
      have hc := c.toNat_lt
      rw [fromLe, fromLe] at h
      have hhead : b = c := UInt8.toNat_inj.mp (by omega)
      rw [hhead, ih (by simpa using hlen) (by omega)]

/-- Split off exactly `n` bytes. -/
def takeExact (n : Nat) (bs : List UInt8) : Option (List UInt8 × List UInt8) :=
  if n ≤ bs.length then some (bs.take n, bs.drop n) else none

@[simp] theorem takeExact_append (xs ys : List UInt8) :
    takeExact xs.length (xs ++ ys) = some (xs, ys) := by
  simp [takeExact]

/-! ## Runs of values -/

/-- `readAll` with fuel: every value takes at least one byte. -/
def readAllAux {α : Type} (read : List UInt8 → Option (α × List UInt8)) :
    Nat → List UInt8 → Option (List α)
  | _, [] => some []
  | 0, _ :: _ => none
  | fuel + 1, bs@(_ :: _) =>
      match read bs with
      | some (a, rest) => (readAllAux read fuel rest).map (a :: ·)
      | none => none

/-- Read values until the bytes run out. -/
def readAll {α : Type} (read : List UInt8 → Option (α × List UInt8)) (bs : List UInt8) :
    Option (List α) := readAllAux read bs.length bs

/-- If `read` takes exactly what `write` wrote, `readAll` takes a whole run of writes. -/
theorem readAll_flatMap {α : Type} (read : List UInt8 → Option (α × List UInt8))
    (write : α → List UInt8) (P : α → Prop) (hne : ∀ a, write a ≠ [])
    (hread : ∀ a rest, P a → read (write a ++ rest) = some (a, rest)) (xs : List α)
    (hxs : ∀ a ∈ xs, P a) : readAll read (xs.flatMap write) = some xs := by
  have haux : ∀ fuel, (xs.flatMap write).length ≤ fuel →
      readAllAux read fuel (xs.flatMap write) = some xs := by
    induction xs with
    | nil => intro fuel _; cases fuel <;> rfl
    | cons a rest ih =>
        intro fuel hfuel
        have hstep := hread a (rest.flatMap write) (hxs a (List.mem_cons_self ..))
        have hpos := List.length_pos_iff.mpr (hne a)
        rw [List.flatMap_cons, List.length_append] at hfuel
        rw [List.flatMap_cons]
        obtain ⟨b, tail, hcons⟩ := List.exists_cons_of_ne_nil
          (List.append_ne_nil_of_left_ne_nil (hne a) (rest.flatMap write))
        cases fuel with
        | zero => omega
        | succ fuel =>
            rw [hcons] at hstep ⊢
            rw [readAllAux, hstep]
            dsimp only
            rw [ih (fun y hy => hxs y (List.mem_cons_of_mem _ hy)) fuel (by omega)]
            rfl
  exact haux _ (Nat.le_refl _)

/-! ## Fields -/

/-- A field's value, by wire type. (The group wire types 3 and 4 do not exist in proto3.) -/
inductive Value where
  | varint (v : UInt64)
  | fixed64 (v : UInt64)
  | len (payload : List UInt8)
  | fixed32 (v : UInt32)
deriving DecidableEq, Repr

structure Field where
  number : Nat
  value : Value
deriving DecidableEq, Repr

/-- The wire type number of a value. -/
def Value.wireType : Value → Nat
  | .varint _ => 0
  | .fixed64 _ => 1
  | .len _ => 2
  | .fixed32 _ => 5

/-- A field that has an encoding: a legal field number and a payload whose length fits 64 bits. -/
def Field.WellFormed (f : Field) : Prop :=
  1 ≤ f.number ∧ f.number < 2 ^ 29 ∧
    match f.value with
    | .len payload => payload.length < 2 ^ 64
    | _ => True

/-- The key preceding a field's value. -/
def Field.key (f : Field) : UInt64 := UInt64.ofNat (8 * f.number + f.value.wireType)

def encodeValue : Value → List UInt8
  | .varint v => varint v
  | .fixed64 v => leBytes 8 v.toNat
  | .len payload => varint (UInt64.ofNat payload.length) ++ payload
  | .fixed32 v => leBytes 4 v.toNat

def encodeField (f : Field) : List UInt8 := varint f.key ++ encodeValue f.value

/-- A message body: its fields, one after the other. -/
def encodeFields (fs : List Field) : List UInt8 := fs.flatMap encodeField

@[simp] theorem encodeFields_nil : encodeFields [] = [] := rfl

@[simp] theorem encodeFields_cons (f : Field) (fs : List Field) :
    encodeFields (f :: fs) = encodeField f ++ encodeFields fs := rfl

@[simp] theorem encodeFields_append (fs gs : List Field) :
    encodeFields (fs ++ gs) = encodeFields fs ++ encodeFields gs := List.flatMap_append ..

theorem encodeFields_map {α : Type} (xs : List α) (f : α → Field) :
    encodeFields (xs.map f) = xs.flatMap (fun x => encodeField (f x)) := List.flatMap_map ..

/-- Read the value that follows a key of the given wire type. -/
def decodeValue (wireType : Nat) (bs : List UInt8) : Option (Value × List UInt8) :=
  match wireType with
  | 0 => (readVarint bs).map (fun r => (.varint r.1, r.2))
  | 1 => (takeExact 8 bs).map (fun r => (.fixed64 (UInt64.ofNat (fromLe r.1)), r.2))
  | 2 =>
      match readVarint bs with
      | some (n, rest) => (takeExact n.toNat rest).map (fun r => (.len r.1, r.2))
      | none => none
  | 5 => (takeExact 4 bs).map (fun r => (.fixed32 (UInt32.ofNat (fromLe r.1)), r.2))
  | _ => none

/-- Read one field off the front of a message body. -/
def decodeField (bs : List UInt8) : Option (Field × List UInt8) :=
  match readVarint bs with
  | some (key, rest) =>
      let number := key.toNat / 8
      if 1 ≤ number ∧ number < 2 ^ 29 then
        (decodeValue (key.toNat % 8) rest).map (fun r => (⟨number, r.1⟩, r.2))
      else none
  | none => none

/-- Split a message body into its fields. -/
def decodeFields (bs : List UInt8) : Option (List Field) := readAll decodeField bs

theorem decodeValue_encodeValue (v : Value) (rest : List UInt8)
    (hv : ∀ payload, v = .len payload → payload.length < 2 ^ 64) :
    decodeValue v.wireType (encodeValue v ++ rest) = some (v, rest) := by
  cases v with
  | varint v => simp [Value.wireType, decodeValue, encodeValue]
  | fixed64 v =>
      have htake := takeExact_append (leBytes 8 v.toNat) rest
      rw [leBytes_length] at htake
      simp [Value.wireType, decodeValue, encodeValue, htake, fromLe_leBytes_toNat]
  | len payload =>
      have hlen : (UInt64.ofNat payload.length).toNat = payload.length := by
        rw [UInt64.toNat_ofNat']
        exact Nat.mod_eq_of_lt (hv payload rfl)
      simp only [Value.wireType, decodeValue, encodeValue, List.append_assoc, readVarint_varint, hlen,
        takeExact_append, Option.map_some]
  | fixed32 v =>
      have htake := takeExact_append (leBytes 4 v.toNat) rest
      rw [leBytes_length] at htake
      have hval : fromLe (leBytes 4 v.toNat) = v.toNat := by
        rw [fromLe_leBytes]
        exact Nat.mod_eq_of_lt (by have := v.toNat_lt; norm_num; omega)
      simp [Value.wireType, decodeValue, encodeValue, htake, hval]

/-- Decoding one encoded field gives it back, whatever follows. -/
theorem decodeField_encodeField (f : Field) (rest : List UInt8) (hf : f.WellFormed) :
    decodeField (encodeField f ++ rest) = some (f, rest) := by
  obtain ⟨hlo, hhi, hlen⟩ := hf
  have htype : f.value.wireType < 8 := by cases f.value <;> simp [Value.wireType]
  have hkey : f.key.toNat = 8 * f.number + f.value.wireType := by
    rw [Field.key, UInt64.toNat_ofNat']
    exact Nat.mod_eq_of_lt (by omega)
  have hnum : (8 * f.number + f.value.wireType) / 8 = f.number := by omega
  have hmod : (8 * f.number + f.value.wireType) % 8 = f.value.wireType := by omega
  have hval := decodeValue_encodeValue f.value rest (by
    intro payload hp
    simpa [hp] using hlen)
  simp only [decodeField, encodeField, List.append_assoc, readVarint_varint, hkey, hnum, hmod, hval,
    if_pos (And.intro hlo hhi), Option.map_some]

theorem encodeField_ne_nil (f : Field) : encodeField f ≠ [] := by
  simp [encodeField, varint, varintDigits_ne_nil]

/-- **Decoding inverts encoding** for every list of well-formed fields. -/
theorem decodeFields_encodeFields (fs : List Field) (hfs : ∀ f ∈ fs, f.WellFormed) :
    decodeFields (encodeFields fs) = some fs :=
  readAll_flatMap decodeField encodeField Field.WellFormed encodeField_ne_nil
    decodeField_encodeField fs hfs

/-- A message body is no more decodable than what follows its first fields. -/
theorem decodeFields_append_of_none (fs : List Field) (hfs : ∀ f ∈ fs, f.WellFormed)
    {rest : List UInt8} (hne : rest ≠ []) (hrest : decodeField rest = none) :
    decodeFields (encodeFields fs ++ rest) = none := by
  -- with any fuel: each field read leaves less of it
  have haux : ∀ fuel, readAllAux decodeField fuel (encodeFields fs ++ rest) = none := by
    induction fs with
    | nil =>
        intro fuel
        obtain ⟨b, tail, rfl⟩ := List.exists_cons_of_ne_nil hne
        cases fuel with
        | zero => rfl
        | succ fuel => simp [readAllAux, hrest]
    | cons f fs ih =>
        intro fuel
        have hf := decodeField_encodeField f (encodeFields fs ++ rest) (hfs f (List.mem_cons_self ..))
        have hrec := ih (fun g hg => hfs g (List.mem_cons_of_mem _ hg))
        rw [encodeFields_cons, List.append_assoc]
        obtain ⟨b, tail, hcons⟩ := List.exists_cons_of_ne_nil
          (List.append_ne_nil_of_left_ne_nil (encodeField_ne_nil f) (encodeFields fs ++ rest))
        rw [hcons] at hf ⊢
        cases fuel with
        | zero => rfl
        | succ fuel =>
            rw [readAllAux, hf]
            dsimp only
            rw [hrec]
            rfl
  exact haux _

/-! ## Messages

A message type is given by what each field does to a value under construction. -/

/-- Every field number is legal. -/
def Numbered (fs : List Field) : Prop := ∀ f ∈ fs, 1 ≤ f.number ∧ f.number < 2 ^ 29

@[simp] theorem numbered_nil : Numbered [] := by simp [Numbered]

@[simp] theorem numbered_cons {f : Field} {fs : List Field} :
    Numbered (f :: fs) ↔ (1 ≤ f.number ∧ f.number < 2 ^ 29) ∧ Numbered fs := List.forall_mem_cons

@[simp] theorem numbered_append {fs gs : List Field} :
    Numbered (fs ++ gs) ↔ Numbered fs ∧ Numbered gs := List.forall_mem_append

theorem numbered_map {α : Type} {xs : List α} {f : α → Field}
    (h : ∀ x, 1 ≤ (f x).number ∧ (f x).number < 2 ^ 29) : Numbered (xs.map f) := by
  intro g hg
  obtain ⟨x, -, rfl⟩ := List.mem_map.1 hg
  exact h x

/-- A field with implicit presence: left out when it holds its default. -/
def scalarField (number : Nat) (isDefault : Bool) (value : Value) : List Field :=
  if isDefault then [] else [⟨number, value⟩]

@[simp] theorem numbered_scalarField {number : Nat} {isDefault : Bool} {value : Value}
    (h : 1 ≤ number ∧ number < 2 ^ 29) : Numbered (scalarField number isDefault value) := by
  unfold scalarField
  split
  · exact numbered_nil
  · exact numbered_cons.2 ⟨h, numbered_nil⟩

theorem encodeField_length_le {f : Field} {fs : List Field} (hf : f ∈ fs) :
    (encodeField f).length ≤ (encodeFields fs).length := by
  obtain ⟨before, after, rfl⟩ := List.append_of_mem hf
  simp only [encodeFields_append, encodeFields_cons, List.length_append]
  omega

theorem payload_length_le (number : Nat) (payload : List UInt8) :
    payload.length ≤ (encodeField ⟨number, .len payload⟩).length := by
  simp only [encodeField, encodeValue, List.length_append]
  omega

/-- A length-delimited field's payload is shorter than the body it sits in. -/
theorem payload_length_le_body {number : Nat} {payload : List UInt8} {fs : List Field}
    (hf : ⟨number, .len payload⟩ ∈ fs) : payload.length ≤ (encodeFields fs).length :=
  le_trans (payload_length_le number payload) (encodeField_length_le hf)

/-- In a body that fits 64 bits, legal numbers are all that well-formedness asks. -/
theorem Numbered.wellFormed {fs : List Field} (hnum : Numbered fs)
    (hfit : (encodeFields fs).length < 2 ^ 64) : ∀ f ∈ fs, f.WellFormed := by
  rintro ⟨number, value⟩ hf
  refine ⟨(hnum _ hf).1, (hnum _ hf).2, ?_⟩
  cases value with
  | len payload => exact lt_of_le_of_lt (payload_length_le_body hf) hfit
  | varint v => trivial
  | fixed64 v => trivial
  | fixed32 v => trivial

/-- Fold a message type's step over the fields of an encoded body. -/
def decodeMessage {σ : Type} (step : σ → Field → Option σ) (init : σ) (bs : List UInt8) : Option σ :=
  (decodeFields bs).bind (fun fs => fs.foldlM step init)

theorem decodeMessage_encodeFields {σ : Type} (step : σ → Field → Option σ) (init : σ)
    (fs : List Field) (hnum : Numbered fs) (hfit : (encodeFields fs).length < 2 ^ 64) :
    decodeMessage step init (encodeFields fs) = fs.foldlM step init := by
  rw [decodeMessage, decodeFields_encodeFields fs (hnum.wellFormed hfit), Option.bind_some]

/-- Consecutive groups of fields act one after the other. -/
theorem foldlM_append_of {σ : Type} {step : σ → Field → Option σ} {fs gs : List Field}
    {s t u : σ} (hfs : fs.foldlM step s = some t) (hgs : gs.foldlM step t = some u) :
    (fs ++ gs).foldlM step s = some u := by
  rw [List.foldlM_append, hfs]
  exact hgs

/-- A field with implicit presence acts as its step does, provided that step is the identity on a
    default. -/
theorem foldlM_scalarField {σ : Type} {step : σ → Field → Option σ} {s t : σ} {number : Nat}
    {isDefault : Bool} {value : Value} (hdefault : isDefault = true → t = s)
    (hset : isDefault = false → step s ⟨number, value⟩ = some t) :
    (scalarField number isDefault value).foldlM step s = some t := by
  cases isDefault with
  | true => rw [hdefault rfl]; rfl
  | false =>
      rw [scalarField, if_neg (by decide), List.foldlM_cons, hset rfl]
      rfl

/-- A repeated field: if every element's field makes the step append what the element is read back
    as (`g`, seen through `add`), the fields of a list make it append the list. -/
theorem foldlM_map_append {σ α β : Type} {step : σ → Field → Option σ} (f : α → Field) (g : α → β)
    (add : σ → List β → σ) (hnil : ∀ s, add s [] = s)
    (hadd : ∀ s y ys, add (add s [y]) ys = add s (y :: ys)) (xs : List α)
    (hstep : ∀ s, ∀ x ∈ xs, step s (f x) = some (add s [g x])) (s : σ) :
    (xs.map f).foldlM step s = some (add s (xs.map g)) := by
  induction xs generalizing s with
  | nil => rw [List.map_nil, List.map_nil, hnil]; rfl
  | cons x rest ih =>
      rw [List.map_cons, List.foldlM_cons, hstep s x (List.mem_cons_self ..), Option.bind_eq_bind,
        Option.bind_some, ih (fun s y hy => hstep s y (List.mem_cons_of_mem _ hy)), hadd,
        List.map_cons]

/-! ## Typed readers -/

def asString : Value → Option String
  | .len payload => Utf8.ofUtf8Bytes? payload
  | _ => none

def asMessage {α : Type} (decode : List UInt8 → Option α) : Value → Option α
  | .len payload => decode payload
  | _ => none

def asDouble : Value → Option F64
  | .fixed64 v => some ⟨v⟩
  | _ => none

def asUint64 : Value → Option UInt64
  | .varint v => some v
  | _ => none

def asInt64 (v : Value) : Option Int64 := (asUint64 v).map UInt64.toInt64

/-- 32-bit scalars keep the low half of the varint. -/
def asUint32 (v : Value) : Option UInt32 := (asUint64 v).map UInt64.toUInt32

def asInt32 (v : Value) : Option Int32 := (asUint32 v).map UInt32.toInt32

/-- The zigzag number of a signed integer: 0, -1, 1, -2, … become 0, 1, 2, 3, … -/
def zigzagNat (z : Int) : Nat := if 0 ≤ z then 2 * z.toNat else 2 * (-z).toNat - 1

def unzigzag (n : Nat) : Int := if n % 2 = 0 then n / 2 else -(n / 2 : Nat) - 1

theorem unzigzag_zigzagNat (z : Int) : unzigzag (zigzagNat z) = z := by
  unfold unzigzag zigzagNat
  split <;> split <;> omega

def asSint64 (v : Value) : Option Int64 := (asUint64 v).map (fun n => Int64.ofInt (unzigzag n.toNat))

def asSint32 (v : Value) : Option Int32 := (asUint32 v).map (fun n => Int32.ofInt (unzigzag n.toNat))

/-- A repeated varint field: one element, or a packed run of them. -/
def asRepeatedVarint : Value → Option (List UInt64)
  | .varint v => some [v]
  | .len payload => readAll readVarint payload
  | _ => none

/-- Read a fixed 64-bit value. -/
def readFixed64 (bs : List UInt8) : Option (UInt64 × List UInt8) :=
  (takeExact 8 bs).map (fun r => (UInt64.ofNat (fromLe r.1), r.2))

/-- A repeated fixed 64-bit field: one element, or a packed run of them. -/
def asRepeatedFixed64 : Value → Option (List UInt64)
  | .fixed64 v => some [v]
  | .len payload => readAll readFixed64 payload
  | _ => none

@[simp] theorem asString_utf8Bytes (s : String) : asString (.len (Utf8.utf8Bytes s)) = some s := by
  simp [asString]

theorem asSint64_zigzag (z : Int64) : asSint64 (.varint (UInt64.ofNat (zigzagNat z.toInt))) = some z := by
  have hle := z.le_toInt
  have hlt := z.toInt_lt
  have hfit : (UInt64.ofNat (zigzagNat z.toInt)).toNat = zigzagNat z.toInt := by
    rw [UInt64.toNat_ofNat']
    exact Nat.mod_eq_of_lt (by unfold zigzagNat; split <;> omega)
  simp [asSint64, asUint64, hfit, unzigzag_zigzagNat]

theorem asSint32_zigzag (z : Int32) : asSint32 (.varint (UInt64.ofNat (zigzagNat z.toInt))) = some z := by
  have hle := z.le_toInt
  have hlt := z.toInt_lt
  have hbound : zigzagNat z.toInt < 4294967296 := by unfold zigzagNat; split <;> omega
  simp [asSint32, asUint32, asUint64, Nat.mod_eq_of_lt hbound, unzigzag_zigzagNat]

theorem asRepeatedVarint_packed (vs : List UInt64) :
    asRepeatedVarint (.len (vs.flatMap varint)) = some vs :=
  readAll_flatMap readVarint varint (fun _ => True) (fun v => varintDigits_ne_nil 9 v.toNat)
    (fun v rest _ => readVarint_varint v rest) vs (fun _ _ => trivial)

theorem readFixed64_leBytes (v : UInt64) (rest : List UInt8) :
    readFixed64 (leBytes 8 v.toNat ++ rest) = some (v, rest) := by
  have htake := takeExact_append (leBytes 8 v.toNat) rest
  rw [leBytes_length] at htake
  simp [readFixed64, htake, fromLe_leBytes_toNat]

theorem asRepeatedFixed64_packed (vs : List UInt64) :
    asRepeatedFixed64 (.len (vs.flatMap (fun v => leBytes 8 v.toNat))) = some vs :=
  readAll_flatMap readFixed64 (fun v => leBytes 8 v.toNat) (fun _ => True)
    (fun _ => by simp [leBytes]) (fun v rest _ => readFixed64_leBytes v rest) vs
    (fun _ _ => trivial)

end ProtoWire
