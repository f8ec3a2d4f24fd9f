import Mathlib.Data.List.Iterate
import LinuxLearn.Lib.XorLinear

/-!
# ByteField — the field of 256 elements

The bytes are the polynomials over two elements modulo `x^8 + x^4 + x^3 + x + 1`, and the sum is the
exclusive or.  `xtime` multiplies by `x`, `gmul` multiplies any two.  The powers of `x + 1` are all
the bytes but zero (`exists_power`), so that a product is a sum of exponents (`gmul_power`).
-/

namespace LinuxLearn
namespace Lib

/-- Multiplication by `x`. -/
def xtime (x : Byte) : Byte :=
  (x <<< 1) ^^^ if x &&& 0x80 = 0 then 0x00 else 0x1B

def gmul (x y : Byte) : Byte :=
  span (fun k => xtime^[k] y) 8 x

/-- Multiplication by `x + 1`. -/
def triple (x : Byte) : Byte :=
  x ^^^ xtime x

def power (i : Nat) : Byte :=
  triple^[i] 1

theorem additive_xtime : Additive xtime :=
  additive_of_span (by decide +kernel)

/-! ## Products -/

theorem additive_gmul_left (y : Byte) : Additive fun x => gmul x y :=
  additive_span _ 8

theorem additive_gmul (x : Byte) : Additive (gmul x) := by
  intro y z
  have hspan : ∀ k, span (fun k => xtime^[k] (y ^^^ z)) k x =
      span (fun k => xtime^[k] y) k x ^^^ span (fun k => xtime^[k] z) k x := by
    intro k
    induction k with
    | zero => exact (BitVec.xor_self).symm
    | succ k ih =>
        rw [span, span, span, ih, additive_xtime.iterate k]
        cases x.getLsbD k
        · simp
        · exact xor_swap _ _ _ _
  exact hspan 8

theorem one_gmul (y : Byte) : gmul 1 y = y := by
  refine (additive_gmul 1).ext Additive.id ?_ y
  decide +kernel

/-- Both sides are additive in both factors. -/
theorem xtime_gmul (x y : Byte) : gmul (xtime x) y = xtime (gmul x y) := by
  refine Additive.ext ((additive_gmul_left y).comp additive_xtime)
    (additive_xtime.comp (additive_gmul_left y)) (fun k hk => ?_) x
  refine Additive.ext (additive_gmul _) (additive_xtime.comp (additive_gmul _)) (fun j hj => ?_) y
  revert k j
  decide +kernel

theorem triple_gmul (x y : Byte) : gmul (triple x) y = triple (gmul x y) := by
  have h := additive_gmul_left y x (xtime x)
  simp only [xtime_gmul] at h
  exact h

/-! ## Powers -/

theorem power_succ (i : Nat) : power (i + 1) = triple (power i) :=
  Function.iterate_succ_apply' triple i 1

theorem power_gmul (i : Nat) (y : Byte) : gmul (power i) y = triple^[i] y := by
  induction i with
  | zero => exact one_gmul y
  | succ i ih => rw [power_succ, triple_gmul, ih, Function.iterate_succ_apply']

theorem gmul_power (i j : Nat) : gmul (power i) (power j) = power (i + j) := by
  rw [power_gmul, power, power, Function.iterate_add_apply]

theorem power_255 : power 255 = 1 := by
  decide +kernel

theorem power_add_255 (i : Nat) : power (i + 255) = power i := by
  have h := gmul_power 255 i
  rw [power_255, one_gmul, Nat.add_comm] at h
  exact h.symm

theorem power_mod (i : Nat) : power (i % 255) = power i := by
  have hmul : ∀ q r, power (r + 255 * q) = power r := by
    intro q r
    induction q with
    | zero => rfl
    | succ q ih => rw [Nat.mul_succ, ← Nat.add_assoc, power_add_255, ih]
  rw [← hmul (i / 255) (i % 255), Nat.mod_add_div]

/-- The numbers of a list as the bits of one number. -/
def mask (l : List Byte) : Nat :=
  l.foldr (fun x m => m ||| 1 <<< x.toNat) 0

theorem testBit_mask (l : List Byte) (x : Byte) : (mask l).testBit x.toNat = true ↔ x ∈ l := by
  induction l with
  | nil => simp [mask]
  | cons y l ih =>
      have hbit : (1 <<< y.toNat).testBit x.toNat = true ↔ x = y := by
        rw [Nat.one_shiftLeft, Nat.testBit_two_pow, decide_eq_true_iff, BitVec.toNat_inj, eq_comm]
      rw [mask, List.foldr_cons, Nat.testBit_or, Bool.or_eq_true, hbit, List.mem_cons, or_comm]
      exact or_congr Iff.rfl ih

theorem exists_power {x : Byte} (h : x ≠ 0) : ∃ i < 255, power i = x := by
  -- With zero, all bits of the mask are set.
  have hmask : mask (0 :: List.iterate triple 1 255) = 2 ^ 256 - 1 := by decide +kernel
  have hmem : x ∈ 0 :: List.iterate triple 1 255 := by
    rw [← testBit_mask, hmask, Nat.testBit_two_pow_sub_one, decide_eq_true_iff]
    exact x.isLt
  rcases List.mem_iterate.1 ((List.mem_cons.1 hmem).resolve_left h) with ⟨i, hi, hpower⟩
  exact ⟨i, hi, hpower.symm⟩

/-! ## Inverses -/

theorem triple_inj {x y : Byte} (h : triple x = triple y) : x = y := by
  have hall : ∀ z : Byte, triple^[254] (triple z) = z := by
    intro z
    have hpower := power_gmul 255 z
    rw [power_255, one_gmul] at hpower
    exact hpower.symm
  rw [← hall x, h, hall y]

theorem gmul_inj {x y z : Byte} (hx : x ≠ 0) (h : gmul x y = gmul x z) : y = z := by
  rcases exists_power hx with ⟨i, -, rfl⟩
  rw [power_gmul, power_gmul] at h
  exact Function.Injective.iterate (fun _ _ => triple_inj) i h

theorem zero_gmul (y : Byte) : gmul 0 y = 0 :=
  (additive_gmul_left y).map_zero

theorem gmul_zero (x : Byte) : gmul x 0 = 0 :=
  (additive_gmul x).map_zero

theorem gmul_comm (x y : Byte) : gmul x y = gmul y x := by
  by_cases hx : x = 0
  · rw [hx, zero_gmul, gmul_zero]
  by_cases hy : y = 0
  · rw [hy, zero_gmul, gmul_zero]
  rcases exists_power hx with ⟨i, -, rfl⟩
  rcases exists_power hy with ⟨j, -, rfl⟩
  rw [gmul_power, gmul_power, Nat.add_comm]

/-- The inverse, and zero for zero. -/
def inverse (x : Byte) : Byte :=
  ((List.iterate triple 1 255).find? fun y => decide (gmul x y = 1)).getD 0

theorem gmul_inverse {x : Byte} (hx : x ≠ 0) : gmul x (inverse x) = 1 := by
  have hsome : ((List.iterate triple 1 255).find? fun y => decide (gmul x y = 1)).isSome := by
    rcases exists_power hx with ⟨i, hi, rfl⟩
    -- One of the powers is the inverse.
    rw [List.find?_isSome]
    have hexp : i + (255 - i) % 255 = 255 ∨ i + (255 - i) % 255 = 0 := by omega
    refine ⟨power ((255 - i) % 255), List.mem_iterate.2 ⟨_, Nat.mod_lt _ (by decide), rfl⟩, ?_⟩
    rw [decide_eq_true_iff, gmul_power]
    rcases hexp with h | h
    · rw [h, power_255]
    · rw [h]
      rfl
  rcases Option.isSome_iff_exists.1 hsome with ⟨y, hy⟩
  have hfound := List.find?_some hy
  rw [inverse, hy]
  exact of_decide_eq_true hfound

theorem inverse_zero : inverse 0 = 0 := by
  have hnone : ((List.iterate triple 1 255).find? fun y => decide (gmul 0 y = 1)) = none := by
    rw [List.find?_eq_none]
    intro y _
    rw [decide_eq_true_iff, zero_gmul]
    decide
  rw [inverse, hnone]
  rfl

theorem eq_inverse {x y : Byte} (h : gmul x y = 1) : y = inverse x := by
  have hx : x ≠ 0 := by
    rintro rfl
    rw [zero_gmul] at h
    exact absurd h (by decide)
  exact gmul_inj hx (h.trans (gmul_inverse hx).symm)

theorem inverse_inverse (x : Byte) : inverse (inverse x) = x := by
  by_cases hx : x = 0
  · rw [hx, inverse_zero, inverse_zero]
  · have h := gmul_inverse hx
    rw [gmul_comm] at h
    exact (eq_inverse h).symm

/-! ## Columns -/

/-- The multiples of a byte, side by side. -/
def multiples (c₀ c₁ c₂ c₃ x : Byte) : Word :=
  word (gmul c₀ x) (gmul c₁ x) (gmul c₂ x) (gmul c₃ x)

/-- The sum of what `t` makes of the bytes of a word, each turned to its place. -/
def circulant (t : Byte → Word) (w : Word) : Word :=
  t (byte 0 w) ^^^ rotl8 (t (byte 1 w)) ^^^ rotl8 (rotl8 (t (byte 2 w))) ^^^
    rotl8 (rotl8 (rotl8 (t (byte 3 w))))

theorem additive_multiples (c₀ c₁ c₂ c₃ : Byte) : Additive (multiples c₀ c₁ c₂ c₃) :=
  Additive.word (additive_gmul c₀) (additive_gmul c₁) (additive_gmul c₂) (additive_gmul c₃)

theorem additive_circulant {t : Byte → Word} (ht : Additive t) : Additive (circulant t) := by
  have hturn : ∀ {f : Word → Word}, Additive f → Additive fun w => rotl8 (f w) :=
    fun hf => additive_rotl8.comp hf
  have hbyte : ∀ k, Additive fun w => t (byte k w) := fun k => ht.comp (additive_byte k)
  exact (((hbyte 0).xor (hturn (hbyte 1))).xor (hturn (hturn (hbyte 2)))).xor
    (hturn (hturn (hturn (hbyte 3))))

end Lib
end LinuxLearn
