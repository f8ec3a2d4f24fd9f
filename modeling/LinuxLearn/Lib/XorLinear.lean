import Mathlib.Data.BitVec

/-!
# XorLinear — maps that respect the exclusive or

A map between bit vectors is `Additive` if it takes exclusive ors to exclusive ors.  It is known
from its values at the powers of two; `additive_of_span` turns this around, so that a table of
`2 ^ m` entries is checked entry by entry and not pair by pair.

`word` packs four bytes into a word, the lowest first, and `byte` takes them out.
-/

namespace LinuxLearn
namespace Lib

/-! ## Additive maps -/

section Additive

variable {l m n : Nat}

def Additive (f : BitVec m → BitVec n) : Prop :=
  ∀ x y, f (x ^^^ y) = f x ^^^ f y

/-- The exclusive or of `g k` over those of the lowest bits `k` that are set. -/
def span (g : Nat → BitVec n) : Nat → BitVec m → BitVec n
  | 0, _ => 0
  | k + 1, x => span g k x ^^^ if x.getLsbD k then g k else 0

theorem xor_swap (a b c d : BitVec n) : (a ^^^ b) ^^^ (c ^^^ d) = (a ^^^ c) ^^^ (b ^^^ d) := by
  rw [BitVec.xor_assoc, BitVec.xor_assoc, ← BitVec.xor_assoc b, BitVec.xor_comm b c,
    BitVec.xor_assoc c]

theorem xor_cancel (k x : BitVec n) : k ^^^ (k ^^^ x) = x := by
  rw [← BitVec.xor_assoc, BitVec.xor_self, BitVec.zero_xor]

theorem additive_span (g : Nat → BitVec n) (k : Nat) : Additive (span (m := m) g k) := by
  intro x y
  induction k with
  | zero => exact (BitVec.xor_self).symm
  | succ k ih =>
      have hbit : (if (x ^^^ y).getLsbD k then g k else 0) =
          (if x.getLsbD k then g k else 0) ^^^ if y.getLsbD k then g k else 0 := by
        rw [BitVec.getLsbD_xor]
        cases x.getLsbD k <;> cases y.getLsbD k <;> simp
      rw [span, span, span, ih, hbit, xor_swap]

/-- A map is additive if its values are put together from those at the powers of two. -/
theorem additive_of_span {f : BitVec m → BitVec n}
    (h : ∀ x, f x = span (fun k => f (BitVec.twoPow m k)) m x) : Additive f := by
  intro x y
  rw [h (x ^^^ y), additive_span _ m x y, ← h x, ← h y]

namespace Additive

theorem id : Additive fun x : BitVec m => x :=
  fun _ _ => rfl

theorem comp {g : BitVec m → BitVec n} {f : BitVec l → BitVec m} (hg : Additive g)
    (hf : Additive f) : Additive fun x => g (f x) := by
  intro x y
  simp only [hf x y, hg (f x) (f y)]

theorem xor {f g : BitVec m → BitVec n} (hf : Additive f) (hg : Additive g) :
    Additive fun x => f x ^^^ g x := by
  intro x y
  simp only [hf x y, hg x y]
  exact xor_swap _ _ _ _

theorem map_zero {f : BitVec m → BitVec n} (hf : Additive f) : f 0 = 0 := by
  have h := hf 0 0
  rw [BitVec.xor_self, BitVec.xor_self] at h
  exact h

/-- An additive map is injective if it sends only zero to zero. -/
theorem injective {f : BitVec m → BitVec n} (hf : Additive f) (h : ∀ z, f z = 0 → z = 0) :
    Function.Injective f := by
  intro x y heq
  have hzero : f (x ^^^ y) = 0 := by
    rw [hf, heq]
    exact BitVec.xor_self
  exact BitVec.xor_eq_zero_iff.1 (h _ hzero)

theorem iterate {f : BitVec m → BitVec m} (hf : Additive f) (k : Nat) : Additive f^[k] := by
  induction k with
  | zero => exact Additive.id
  | succ k ih => exact ih.comp hf

theorem map_span {f : BitVec m → BitVec n} (hf : Additive f) (g : Nat → BitVec m) (k : Nat)
    (x : BitVec l) : f (span g k x) = span (fun k => f (g k)) k x := by
  induction k with
  | zero => exact hf.map_zero
  | succ k ih =>
      rw [span, hf, ih, span]
      cases x.getLsbD k
      · exact congrArg _ hf.map_zero
      · rfl

end Additive

theorem getLsbD_span_twoPow (k : Nat) (x : BitVec m) (i : Nat) :
    (span (fun k => BitVec.twoPow m k) k x).getLsbD i = (decide (i < k) && x.getLsbD i) := by
  induction k with
  | zero => simp [span]
  | succ k ih =>
      rw [span, BitVec.getLsbD_xor, ih]
      by_cases hik : i = k
      · subst hik
        cases hx : x.getLsbD i
        · simp
        · have hlt : i < m := BitVec.lt_of_getLsbD hx
          simp [hlt]
      · have hlt : i < k + 1 ↔ i < k := by omega
        have hne : ¬ k = i := fun h => hik h.symm
        cases x.getLsbD k <;> simp [BitVec.getLsbD_twoPow, hne, hlt]

theorem span_twoPow (x : BitVec m) : span (fun k => BitVec.twoPow m k) m x = x := by
  refine BitVec.eq_of_getLsbD_eq fun i hi => ?_
  rw [getLsbD_span_twoPow, decide_eq_true hi, Bool.true_and]

theorem span_congr {g g' : Nat → BitVec n} {k : Nat} (h : ∀ i < k, g i = g' i) (x : BitVec m) :
    span g k x = span g' k x := by
  induction k with
  | zero => rfl
  | succ k ih =>
      rw [span, span, ih fun i hi => h i (Nat.lt_succ_of_lt hi), h k (Nat.lt_succ_self k)]

/-- Two additive maps are equal if they agree at the powers of two. -/
theorem Additive.ext {f g : BitVec m → BitVec n} (hf : Additive f) (hg : Additive g)
    (h : ∀ k < m, f (BitVec.twoPow m k) = g (BitVec.twoPow m k)) (x : BitVec m) : f x = g x := by
  rw [← span_twoPow x, hf.map_span, hg.map_span]
  exact span_congr h x

end Additive

/-! ## Bytes and words -/

abbrev Byte : Type := BitVec 8
abbrev Word : Type := BitVec 32

/-- `(w >> 8 * k) & 0xFF` -/
def byte (k : Nat) (w : Word) : Byte :=
  (w >>> (8 * k)).setWidth 8

/-- The lowest byte comes first. -/
def word (a b c d : Byte) : Word :=
  d ++ c ++ b ++ a

/-- `((w << 8) & 0xFFFFFFFF) | (w >> 24)` -/
def rotl8 (w : Word) : Word :=
  (w <<< 8) ||| (w >>> 24)

theorem getLsbD_byte (k : Nat) (w : Word) (i : Nat) :
    (byte k w).getLsbD i = (decide (i < 8) && w.getLsbD (8 * k + i)) := by
  simp [byte]

theorem getLsbD_word (a b c d : Byte) (i : Nat) :
    (word a b c d).getLsbD i =
      if i < 8 then a.getLsbD i
      else if i < 16 then b.getLsbD (i - 8)
      else if i < 24 then c.getLsbD (i - 16)
      else d.getLsbD (i - 24) := by
  simp only [word, BitVec.getLsbD_append, Nat.sub_sub]
  split_ifs <;> first | rfl | omega

section Bytes

variable {a b c d a' b' c' d' : Byte}

@[simp] theorem byte_word_zero : byte 0 (word a b c d) = a := by
  refine BitVec.eq_of_getLsbD_eq fun i hi => ?_
  rw [getLsbD_byte, getLsbD_word, decide_eq_true hi, Bool.true_and, if_pos (by omega)]
  exact congrArg a.getLsbD (by omega)

@[simp] theorem byte_word_one : byte 1 (word a b c d) = b := by
  refine BitVec.eq_of_getLsbD_eq fun i hi => ?_
  rw [getLsbD_byte, getLsbD_word, decide_eq_true hi, Bool.true_and, if_neg (by omega),
    if_pos (by omega)]
  exact congrArg b.getLsbD (by omega)

@[simp] theorem byte_word_two : byte 2 (word a b c d) = c := by
  refine BitVec.eq_of_getLsbD_eq fun i hi => ?_
  rw [getLsbD_byte, getLsbD_word, decide_eq_true hi, Bool.true_and, if_neg (by omega),
    if_neg (by omega), if_pos (by omega)]
  exact congrArg c.getLsbD (by omega)

@[simp] theorem byte_word_three : byte 3 (word a b c d) = d := by
  refine BitVec.eq_of_getLsbD_eq fun i hi => ?_
  rw [getLsbD_byte, getLsbD_word, decide_eq_true hi, Bool.true_and, if_neg (by omega),
    if_neg (by omega), if_neg (by omega)]
  exact congrArg d.getLsbD (by omega)

theorem word_byte (w : Word) : word (byte 0 w) (byte 1 w) (byte 2 w) (byte 3 w) = w := by
  refine BitVec.eq_of_getLsbD_eq fun i hi => ?_
  simp only [getLsbD_word, getLsbD_byte]
  -- Bit `i` is in the byte `i / 8`.
  split_ifs with h8 h16 h24
  · rw [decide_eq_true h8, Bool.true_and]
    exact congrArg w.getLsbD (by omega)
  · rw [decide_eq_true (show i - 8 < 8 by omega), Bool.true_and]
    exact congrArg w.getLsbD (by omega)
  · rw [decide_eq_true (show i - 16 < 8 by omega), Bool.true_and]
    exact congrArg w.getLsbD (by omega)
  · rw [decide_eq_true (show i - 24 < 8 by omega), Bool.true_and]
    exact congrArg w.getLsbD (by omega)

theorem additive_byte (k : Nat) : Additive (byte k) := by
  intro x y
  refine BitVec.eq_of_getLsbD_eq fun i hi => ?_
  rw [BitVec.getLsbD_xor, getLsbD_byte, getLsbD_byte, getLsbD_byte, BitVec.getLsbD_xor,
    Bool.and_xor_distrib_left]

theorem xor_word :
    word a b c d ^^^ word a' b' c' d' =
      word (a ^^^ a') (b ^^^ b') (c ^^^ c') (d ^^^ d') := by
  have hbyte : ∀ k, byte k (word a b c d ^^^ word a' b' c' d') =
      byte k (word a b c d) ^^^ byte k (word a' b' c' d') := fun k => additive_byte k _ _
  rw [← word_byte (_ ^^^ _)]
  simp only [hbyte, byte_word_zero, byte_word_one, byte_word_two, byte_word_three]

/-- Four additive maps side by side. -/
theorem Additive.word {m : Nat} {f g h k : BitVec m → Byte} (hf : Additive f) (hg : Additive g)
    (hh : Additive h) (hk : Additive k) : Additive fun x => Lib.word (f x) (g x) (h x) (k x) := by
  intro x y
  simp only [hf x y, hg x y, hh x y, hk x y, xor_word]

theorem getLsbD_outside (x : Byte) {n : Nat} (h : 8 ≤ n) : x.getLsbD n = false :=
  BitVec.getLsbD_of_ge x n h

/-- How the C code packs a word. -/
theorem shifts_eq_word (a b c d : Byte) :
    a.setWidth 32 ^^^ b.setWidth 32 <<< 8 ^^^ c.setWidth 32 <<< 16 ^^^ d.setWidth 32 <<< 24 =
      word a b c d := by
  refine BitVec.eq_of_getLsbD_eq fun i hi => ?_
  rw [getLsbD_word]
  simp only [BitVec.getLsbD_xor, BitVec.getLsbD_shiftLeft, BitVec.getLsbD_setWidth]
  -- In each of the bytes, three of the four are shifted out.
  rcases (by omega : i < 8 ∨ 8 ≤ i ∧ i < 16 ∨ 16 ≤ i ∧ i < 24 ∨ 24 ≤ i) with h | h | h | h <;>
    simp (disch := omega) only [decide_eq_true, decide_eq_false, if_pos, if_neg, getLsbD_outside,
      Bool.true_and, Bool.false_and, Bool.and_false, Bool.not_true, Bool.not_false, Bool.and_true,
      Bool.xor_false, Bool.false_xor]

theorem rotl8_word : rotl8 (word a b c d) = word d a b c := by
  refine BitVec.eq_of_getLsbD_eq fun i hi => ?_
  simp only [rotl8, BitVec.getLsbD_or, BitVec.getLsbD_shiftLeft, BitVec.getLsbD_ushiftRight,
    getLsbD_word]
  rcases (by omega : i < 8 ∨ 8 ≤ i ∧ i < 16 ∨ 16 ≤ i ∧ i < 24 ∨ 24 ≤ i) with h | h | h | h <;>
    simp (disch := omega) only [decide_eq_true, decide_eq_false, if_pos, if_neg, getLsbD_outside,
      Bool.true_and, Bool.false_and, Bool.and_false, Bool.not_true, Bool.not_false,
      Bool.or_false, Bool.false_or, Nat.add_sub_cancel_left, Nat.sub_sub, Nat.reduceAdd]

theorem rotl8_eq (w : Word) : rotl8 w = word (byte 3 w) (byte 0 w) (byte 1 w) (byte 2 w) := by
  rw [← rotl8_word, word_byte]

theorem additive_rotl8 : Additive rotl8 := by
  have h := Additive.word (additive_byte 3) (additive_byte 0) (additive_byte 1) (additive_byte 2)
  intro x y
  rw [rotl8_eq, rotl8_eq, rotl8_eq]
  exact h x y

end Bytes

end Lib
end LinuxLearn
