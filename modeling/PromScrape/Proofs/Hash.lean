import PromScrape.Implementation.Hash
import PromScrape.Library.ProtoWire
import PromScrape.Library.Word64

set_option autoImplicit false

/-! # What the hasher keeps apart

`add` is a bijection of the state for each word and of the word for each state: the rotation and the
xor lose nothing, and the seed is odd. So two strings of one length that differ in a single block
never meet again, whatever is written before and after.

The length is folded in by one more `add`, over a state whose high five bits the rotation has
brought down to where the length stands. A string and its extension by one byte therefore part
unless the byte reaches nothing but those five bits, see `write_concat_eq_iff`. -/

namespace PromScrape.FxHasher

open ProtoWire (fromLe fromLe_lt fromLe_append fromLe_inj)

/-! ## One word -/

theorem seed_odd : Odd seed.toNat := by decide

/-- The low bits of the state after a word are the word's, at every width. -/
theorem add_mod_inj (h : FxHasher) (w w' : UInt64) {k : Nat} (hk : k ≤ 64) :
    (h.add w).hash.toNat % 2 ^ k = (h.add w').hash.toNat % 2 ^ k ↔
      w.toNat % 2 ^ k = w'.toNat % 2 ^ k :=
  Word64.xorMul_mod_inj _ _ _ seed_odd hk

/-- No two words meet on one state. -/
theorem add_word_injective (h : FxHasher) : Function.Injective h.add := by
  intro w w' heq
  have hmod := (add_mod_inj h w w' (Nat.le_refl 64)).mp (by rw [heq])
  exact (Word64.toNat_mod_inj w w').mp hmod

theorem rotateLeft5_injective : Function.Injective rotateLeft5 := by
  intro x y heq
  have hhigh : x.toNat / 2 ^ 59 = y.toNat / 2 ^ 59 := by
    rw [← Word64.rotateLeft5_mod x, ← Word64.rotateLeft5_mod y]
    exact congrArg (fun v : UInt64 => v.toNat % 2 ^ 5) heq
  have hlow : x.toNat % 2 ^ 59 = y.toNat % 2 ^ 59 := by
    rw [← Word64.rotateLeft5_div x, ← Word64.rotateLeft5_div y]
    exact congrArg (fun v : UInt64 => v.toNat / 2 ^ 5) heq
  apply UInt64.toNat_inj.mp
  rw [← Nat.div_add_mod x.toNat (2 ^ 59), hhigh, hlow, Nat.div_add_mod]

/-- No two states meet on one word. -/
theorem add_injective (w : UInt64) : Function.Injective (fun h : FxHasher => h.add w) := by
  intro h h' heq
  have hhash : (rotateLeft5 h.hash ^^^ w) * seed = (rotateLeft5 h'.hash ^^^ w) * seed :=
    congrArg FxHasher.hash heq
  rw [UInt64.xor_comm _ w, UInt64.xor_comm _ w] at hhash
  have hmod := (Word64.xorMul_mod_inj w (rotateLeft5 h.hash) (rotateLeft5 h'.hash) seed_odd
    (Nat.le_refl 64)).mp (by rw [hhash])
  have hrot := rotateLeft5_injective ((Word64.toNat_mod_inj _ _).mp hmod)
  obtain ⟨x⟩ := h
  obtain ⟨y⟩ := h'
  exact congrArg FxHasher.mk hrot

/-! ## The blocks -/

theorem leWord_eq (bytes : List UInt8) : leWord bytes = UInt64.ofNat (fromLe bytes) := by
  rw [leWord]
  congr 1
  induction bytes with
  | nil => rfl
  | cons b bytes ih => rw [List.foldr_cons, ih, fromLe]

theorem leWord_toNat {bytes : List UInt8} (hlen : bytes.length ≤ 8) :
    (leWord bytes).toNat = fromLe bytes := by
  have hlt := fromLe_lt bytes
  have hpow : 2 ^ (8 * bytes.length) ≤ 2 ^ 64 := Nat.pow_le_pow_right (by omega) (by omega)
  rw [leWord_eq, UInt64.toNat_ofNat']
  exact Nat.mod_eq_of_lt (by omega)

theorem leWord_inj {s t : List UInt8} (hs : s.length ≤ 8) (hlen : s.length = t.length)
    (heq : leWord s = leWord t) : s = t := by
  have hnat := congrArg UInt64.toNat heq
  rw [leWord_toNat hs, leWord_toNat (by omega)] at hnat
  exact fromLe_inj hlen hnat

/-- The two loops of `write` as one: a block of up to eight bytes, then the rest. -/
theorem addBlocks_of_ne_nil (h : FxHasher) {bytes : List UInt8} (hne : bytes ≠ []) :
    h.addBlocks bytes = (h.add (leWord (bytes.take 8))).addBlocks (bytes.drop 8) := by
  rcases bytes with _ | ⟨b0, _ | ⟨b1, _ | ⟨b2, _ | ⟨b3, _ | ⟨b4, _ | ⟨b5, _ | ⟨b6, _ | ⟨b7, rest⟩⟩⟩⟩⟩⟩⟩⟩
  · exact absurd rfl hne
  all_goals rfl

/-- Up to eight bytes are one word. -/
theorem addBlocks_short (h : FxHasher) {tail : List UInt8} (hne : tail ≠ [])
    (hlen : tail.length ≤ 8) : h.addBlocks tail = h.add (leWord tail) := by
  rw [addBlocks_of_ne_nil h hne, List.take_of_length_le hlen, List.drop_of_length_le hlen]
  rfl

theorem addBlocks_injective (bytes : List UInt8) :
    Function.Injective (fun h : FxHasher => h.addBlocks bytes) := by
  induction hn : bytes.length using Nat.strong_induction_on generalizing bytes with
  | _ n ih =>
      intro h h' heq
      by_cases hne : bytes = []
      · subst hne
        exact heq
      · have hpos := List.length_pos_iff.mpr hne
        simp only [addBlocks_of_ne_nil _ hne] at heq
        have hrest := ih (bytes.drop 8).length (by rw [List.length_drop]; omega) _ rfl heq
        exact add_injective _ hrest

/-- No two states meet on one write. -/
theorem write_injective (bytes : List UInt8) :
    Function.Injective (fun h : FxHasher => h.write bytes) := by
  intro h h' heq
  exact addBlocks_injective bytes (add_injective _ heq)

/-- Nor on a run of writes. -/
theorem writes_injective (more : List (List UInt8)) :
    Function.Injective (fun h : FxHasher => more.foldl write h) := by
  induction more with
  | nil => exact Function.injective_id
  | cons bytes more ih =>
      intro h h' heq
      exact write_injective bytes (ih heq)

/-! ## Strings that differ in one block -/

/-- Strings that differ in block 0 only agree from there on. -/
theorem drop_eq_of_block_zero {s t : List UInt8} (hblock : ∀ i, i / 8 ≠ 0 → s[i]? = t[i]?) :
    s.drop 8 = t.drop 8 := by
  apply List.ext_getElem?
  intro i
  rw [List.getElem?_drop, List.getElem?_drop]
  exact hblock _ (by omega)

/-- Strings that differ in a later block only agree on block 0. -/
theorem take_eq_of_block_succ {k : Nat} {s t : List UInt8}
    (hblock : ∀ i, i / 8 ≠ k + 1 → s[i]? = t[i]?) : s.take 8 = t.take 8 := by
  apply List.ext_getElem?
  intro i
  rw [List.getElem?_take, List.getElem?_take]
  split
  · exact hblock i (by omega)
  · rfl

theorem ne_nil_of_length_eq {s t : List UInt8} (hlen : s.length = t.length) (hne : s ≠ t) :
    s ≠ [] := by
  rintro rfl
  exact hne (List.eq_nil_of_length_eq_zero hlen.symm).symm

/-- The blocks before the one that differs are folded in alike, that block is told apart by `add`,
    and the blocks after it keep the states apart. -/
theorem addBlocks_ne_of_one_block (k : Nat) (h : FxHasher) {s t : List UInt8}
    (hlen : s.length = t.length) (hne : s ≠ t) (hblock : ∀ i, i / 8 ≠ k → s[i]? = t[i]?) :
    h.addBlocks s ≠ h.addBlocks t := by
  induction k generalizing h s t with
  | zero =>
      have hs := ne_nil_of_length_eq hlen hne
      have ht := ne_nil_of_length_eq hlen.symm hne.symm
      have hdrop := drop_eq_of_block_zero hblock
      intro heq
      rw [addBlocks_of_ne_nil h hs, addBlocks_of_ne_nil h ht, hdrop] at heq
      have hword := add_word_injective h (addBlocks_injective _ heq)
      have htake := leWord_inj (by rw [List.length_take]; omega)
        (by rw [List.length_take, List.length_take, hlen]) hword
      apply hne
      rw [← List.take_append_drop 8 s, ← List.take_append_drop 8 t, htake, hdrop]
  | succ k ih =>
      have htake : s.take 8 = t.take 8 := take_eq_of_block_succ hblock
      have hrest : s.drop 8 ≠ t.drop 8 := by
        intro hdrop
        apply hne
        rw [← List.take_append_drop 8 s, ← List.take_append_drop 8 t, htake, hdrop]
      have hs := ne_nil_of_length_eq hlen hne
      have ht := ne_nil_of_length_eq hlen.symm hne.symm
      have hstep := ih (h.add (leWord (t.take 8))) (by rw [List.length_drop, List.length_drop, hlen])
        hrest (by
          intro i hi
          rw [List.getElem?_drop, List.getElem?_drop]
          exact hblock _ (by omega))
      rw [addBlocks_of_ne_nil h hs, addBlocks_of_ne_nil h ht, htake]
      exact hstep

/-- **Strings of one length that differ within one block leave different states**, whatever the
    state before them and the writes after them. -/
theorem writes_ne_of_one_block (h : FxHasher) (s t : List UInt8) (k : Nat)
    (more : List (List UInt8)) (hlen : s.length = t.length) (hne : s ≠ t)
    (hblock : ∀ i, i / 8 ≠ k → s[i]? = t[i]?) :
    more.foldl write (h.write s) ≠ more.foldl write (h.write t) ∧
      (more.foldl write (h.write s)).finish ≠ (more.foldl write (h.write t)).finish := by
  have hstate : more.foldl write (h.write s) ≠ more.foldl write (h.write t) := by
    intro heq
    have hwrite : h.write s = h.write t := writes_injective more heq
    rw [write, write, hlen] at hwrite
    exact addBlocks_ne_of_one_block k h hlen hne hblock (add_injective _ hwrite)
  refine ⟨hstate, ?_⟩
  intro hfinish
  exact hstate (congrArg FxHasher.mk hfinish)

/-- The second block is a tail of one byte. -/
theorem writes_ne_of_one_block_tail :
    ([[0x7b]].foldl write (default.write [1, 2, 3, 4, 5, 6, 7, 8, 9])).finish ≠
      ([[0x7b]].foldl write (default.write [1, 2, 3, 4, 5, 6, 7, 8, 10])).finish :=
  (writes_ne_of_one_block default [1, 2, 3, 4, 5, 6, 7, 8, 9] [1, 2, 3, 4, 5, 6, 7, 8, 10] 1
    [[0x7b]] rfl (by decide) (by
      intro i hi
      by_cases hlt : i < 8
      · interval_cases i <;> rfl
      · have hge : 9 ≤ i := by omega
        rw [List.getElem?_eq_none hge, List.getElem?_eq_none hge])).2

/-! ## A string and its extension by one byte -/

/-- What the tail's word becomes when a byte is appended to it. -/
theorem leWord_concat {tail : List UInt8} (b : UInt8) (hlen : tail.length < 8) :
    (leWord (tail ++ [b])).toNat = (leWord tail).toNat + 2 ^ (8 * tail.length) * b.toNat := by
  rw [leWord_toNat (by rw [List.length_append, List.length_singleton]; omega),
    leWord_toNat (by omega), fromLe_append]
  simp [fromLe]

/-- With a block begun, the appended byte goes into the last word. -/
theorem addBlocks_concat (h : FxHasher) (s : List UInt8) (b : UInt8) (hpart : s.length % 8 ≠ 0) :
    ∃ (g : FxHasher) (tail : List UInt8), tail.length = s.length % 8 ∧
      h.addBlocks s = g.add (leWord tail) ∧ h.addBlocks (s ++ [b]) = g.add (leWord (tail ++ [b])) := by
  induction hn : s.length using Nat.strong_induction_on generalizing h s with
  | _ n ih =>
      subst hn
      have hs : s ≠ [] := by
        rintro rfl
        exact hpart rfl
      have hs' : s ++ [b] ≠ [] := by simp
      by_cases hshort : s.length < 8
      · refine ⟨h, s, by omega, addBlocks_short h hs (by omega), addBlocks_short h hs' ?_⟩
        rw [List.length_append, List.length_singleton]
        omega
      · have hdrop : (s.drop 8).length = s.length - 8 := List.length_drop
        obtain ⟨g, tail, htail, hbase, hext⟩ := ih (s.drop 8).length (by omega)
          (h.add (leWord (s.take 8))) (s.drop 8) (by omega) rfl
        refine ⟨g, tail, by omega, ?_, ?_⟩
        · rw [addBlocks_of_ne_nil h hs, hbase]
        · rw [addBlocks_of_ne_nil h hs', List.take_append_of_le_length (by omega),
            List.drop_append_of_le_length (by omega), hext]

/-- The five bits a rotation brings down. -/
def highFive (h : FxHasher) : Nat := h.hash.toNat / 2 ^ 59

/-- Folding in a length and the next one: the high five bits of the states must differ as the
    lengths do in their low five bits, the rest of the states as the lengths do above. -/
theorem add_length_eq_iff (u v : FxHasher) (n : Nat) :
    u.add (UInt64.ofNat n) = v.add (UInt64.ofNat (n + 1)) ↔
      u.highFive ^^^ n % 32 = v.highFive ^^^ (n + 1) % 32 ∧
        u.hash.toNat % 2 ^ 59 ^^^ n % 2 ^ 64 / 32 =
          v.hash.toNat % 2 ^ 59 ^^^ (n + 1) % 2 ^ 64 / 32 := by
  have hlow : ∀ m : Nat, m % 2 ^ 64 % 2 ^ 5 = m % 32 := fun m => Nat.mod_mod_of_dvd m (by norm_num)
  rw [add, add, FxHasher.mk.injEq, Word64.mul_odd_inj seed_odd, ← UInt64.toNat_inj, UInt64.toNat_xor,
    UInt64.toNat_xor, Word64.xor_eq_xor_iff _ _ _ _ 5]
  simp only [rotateLeft5, Word64.rotateLeft5_mod, Word64.rotateLeft5_div, UInt64.toNat_ofNat', hlow]
  rfl

/-- A length whose low five bits are not all ones only changes those. -/
theorem length_high_eq {n : Nat} (hlow : n % 32 ≠ 31) :
    n % 2 ^ 64 / 32 = (n + 1) % 2 ^ 64 / 32 := by omega

/-- Otherwise the carry reaches the sixth bit. -/
theorem length_high_carry {n : Nat} (hlow : n % 32 = 31) :
    n % 2 ^ 64 / 32 % 2 ≠ (n + 1) % 2 ^ 64 / 32 % 2 := by omega

/-- Two lengths in a row differ in their lowest bit, so the high five bits must too. -/
theorem highFive_ne_of_parity {u v : FxHasher} (n : Nat)
    (hpar : u.highFive % 2 = v.highFive % 2) :
    u.highFive ^^^ n % 32 ≠ v.highFive ^^^ (n + 1) % 32 := by
  intro heq
  have hmod : (u.highFive ^^^ n % 32) % 2 ^ 1 = (v.highFive ^^^ (n + 1) % 32) % 2 ^ 1 := by rw [heq]
  rw [Nat.xor_mod_two_pow, Nat.xor_mod_two_pow, Nat.pow_one, hpar, Nat.xor_right_inj] at hmod
  omega

section Extension

variable (g : FxHasher) (tail : List UInt8) (b : UInt8)

/-- The states agree on as many low bits as the appended byte leaves alone. -/
theorem add_concat_mod (hlen : tail.length < 8) {k : Nat} (hk : k ≤ 64) :
    (g.add (leWord tail)).hash.toNat % 2 ^ k = (g.add (leWord (tail ++ [b]))).hash.toNat % 2 ^ k ↔
      2 ^ k ∣ 2 ^ (8 * tail.length) * b.toNat := by
  rw [add_mod_inj g _ _ hk, leWord_concat b hlen]
  exact Nat.left_modEq_add_iff

/-- Only a byte on the eighth place can stay out of the low 59 bits. -/
theorem appended_place (hlen : tail.length < 8) (hb : b ≠ 0)
    (hdvd : 2 ^ 59 ∣ 2 ^ (8 * tail.length) * b.toNat) : tail.length = 7 ∧ b.toNat % 8 = 0 := by
  have hpos : 0 < b.toNat := Nat.pos_of_ne_zero (fun h => hb (UInt8.toNat_inj.mp h))
  have hlt := b.toNat_lt
  have hseven : tail.length = 7 := by
    by_contra hne
    have hpow : 2 ^ (8 * tail.length) ≤ 2 ^ 48 := Nat.pow_le_pow_right (by omega) (by omega)
    have hle := Nat.le_of_dvd (Nat.mul_pos (Nat.two_pow_pos _) hpos) hdvd
    have hmul : 2 ^ (8 * tail.length) * b.toNat ≤ 2 ^ 48 * 256 := Nat.mul_le_mul hpow (by omega)
    omega
  rw [hseven, show 2 ^ 59 = 2 ^ (8 * 7) * 8 by norm_num] at hdvd
  exact ⟨hseven, Nat.mod_eq_zero_of_dvd (Nat.dvd_of_mul_dvd_mul_left (by norm_num) hdvd)⟩

theorem highFive_parity (hlen : tail.length < 8)
    (hdvd : 2 ^ 60 ∣ 2 ^ (8 * tail.length) * b.toNat) :
    (g.add (leWord tail)).highFive % 2 = (g.add (leWord (tail ++ [b]))).highFive % 2 := by
  have hmod := (add_concat_mod g tail b hlen (show 60 ≤ 64 by omega)).mpr hdvd
  have hbit : ∀ n : Nat, n / 2 ^ 59 % 2 = n % 2 ^ 60 / 2 ^ 59 := by
    intro n
    omega
  rw [highFive, highFive, hbit, hbit, hmod]

end Extension

theorem write_concat_eq (h : FxHasher) (s : List UInt8) (b : UInt8) :
    (h.write (s ++ [b])).finish = (h.write s).finish ↔
      (h.addBlocks s).add (UInt64.ofNat s.length) =
        (h.addBlocks (s ++ [b])).add (UInt64.ofNat (s.length + 1)) := by
  rw [write, write, List.length_append, List.length_singleton, eq_comm]
  constructor
  · intro heq
    exact congrArg FxHasher.mk heq
  · intro heq
    exact congrArg FxHasher.hash heq

/-- **A string and its extension by one byte in the same block collide exactly** when the byte
    completes the block, is eight modulo sixteen, and the states' high five bits differ as the two
    lengths do. A zero byte never does. -/
theorem write_concat_eq_iff (h : FxHasher) (s : List UInt8) (b : UInt8)
    (hblocks : (s.length + 7) / 8 = ((s ++ [b]).length + 7) / 8) :
    (h.write (s ++ [b])).finish = (h.write s).finish ↔
      s.length % 8 = 7 ∧ s.length % 32 ≠ 31 ∧ b.toNat % 16 = 8 ∧
        (h.addBlocks s).highFive ^^^ (h.addBlocks (s ++ [b])).highFive =
          s.length % 32 ^^^ (s.length + 1) % 32 := by
  rw [List.length_append, List.length_singleton] at hblocks
  obtain ⟨g, tail, htail, hbase, hext⟩ := addBlocks_concat h s b (by omega)
  have hlen : tail.length < 8 := by omega
  rw [write_concat_eq, add_length_eq_iff, hbase, hext]
  constructor
  · rintro ⟨hfive, hrest⟩
    have hnocarry : s.length % 32 ≠ 31 := by
      intro hall
      -- the carry would change a bit that comes from the lowest one of the states
      have hbit := (add_concat_mod g tail b hlen (show 1 ≤ 64 by omega)).mpr
        (Nat.dvd_mul_right_of_dvd (Nat.pow_dvd_pow 2 (by omega)) _)
      have hmod := congrArg (· % 2 ^ 1) hrest
      simp only [Nat.xor_mod_two_pow, Nat.mod_mod_of_dvd _ (Nat.pow_dvd_pow 2 (show 1 ≤ 59 by omega)),
        hbit, Nat.xor_right_inj] at hmod
      exact length_high_carry hall hmod
    rw [length_high_eq hnocarry, Nat.xor_left_inj] at hrest
    have hdvd := (add_concat_mod g tail b hlen (show 59 ≤ 64 by omega)).mp hrest
    have hb : b ≠ 0 := by
      rintro rfl
      exact highFive_ne_of_parity _ (highFive_parity g tail 0 hlen (Nat.dvd_zero _)) hfive
    obtain ⟨hseven, hb8⟩ := appended_place tail b hlen hb hdvd
    have hb16 : b.toNat % 16 = 8 := by
      by_contra hne
      have hdvd16 : 2 ^ 60 ∣ 2 ^ (8 * tail.length) * b.toNat := by
        rw [hseven, show 2 ^ 60 = 2 ^ (8 * 7) * 16 by norm_num]
        exact Nat.mul_dvd_mul_left _ (Nat.dvd_of_mod_eq_zero (by omega))
      exact highFive_ne_of_parity _ (highFive_parity g tail b hlen hdvd16) hfive
    exact ⟨by omega, hnocarry, hb16, Word64.xor_regroup hfive⟩
  · rintro ⟨hseven, hnocarry, hb, hfive⟩
    refine ⟨Word64.xor_regroup hfive, ?_⟩
    rw [length_high_eq hnocarry, Nat.xor_left_inj]
    apply (add_concat_mod g tail b hlen (by omega)).mpr
    rw [htail, hseven, show 2 ^ 59 = 2 ^ (8 * 7) * 8 by norm_num]
    exact Nat.mul_dvd_mul_left _ (Nat.dvd_of_mod_eq_zero (by omega))

/-- `scrapes` and `scrapesx`. -/
theorem write_concat_eq_scrapes :
    (default.write ([0x73, 0x63, 0x72, 0x61, 0x70, 0x65, 0x73] ++ [0x78])).finish =
      (default.write [0x73, 0x63, 0x72, 0x61, 0x70, 0x65, 0x73]).finish :=
  (write_concat_eq_iff default [0x73, 0x63, 0x72, 0x61, 0x70, 0x65, 0x73] 0x78 (by decide)).mpr
    (by decide)

/-- The two metric names `scrapes` and `scrapesx` are one block each and share their hash. -/
theorem scrapes_collides :
    ¬ ∀ (s : List UInt8) (b : UInt8), (s.length + 7) / 8 = ((s ++ [b]).length + 7) / 8 →
      (default.write s).finish ≠ (default.write (s ++ [b])).finish := by
  intro hall
  exact hall [0x73, 0x63, 0x72, 0x61, 0x70, 0x65, 0x73] 0x78 (by decide) (by decide)

end PromScrape.FxHasher
