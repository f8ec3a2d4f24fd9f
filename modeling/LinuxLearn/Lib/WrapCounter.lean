import Mathlib.Tactic

/-!
# WrapCounter — counts seen through a register of limited width

A counter that only ever grows is often observed modulo some `R`, together with one bit that flips
whenever the register wraps.  The observer adds up the differences, again modulo some `M`.  This
file collects the arithmetic of both sides:

- `registerStep_eq`: register and flip bit determine the growth between two observations, as long
  as the count grows by less than `R`;
- `add_mod_growth_iff`: when a total that is kept modulo `M` grows by at most `B`.
-/

namespace LinuxLearn
namespace Lib

/-- The growth of a count between two observations, given the register values and whether the
wrap bit has flipped. -/
def registerStep (R last reg : Nat) (flip : Bool) : Nat :=
  if flip then reg + R - last else reg - last

/-- A count that grows by less than `R` passes at most one multiple of `R`. -/
theorem div_eq_or_succ {R n n' : Nat} (hR : 0 < R) (hle : n ≤ n') (hlt : n' < n + R) :
    n' / R = n / R ∨ n' / R = n / R + 1 := by
  -- The quotient neither falls nor grows by more than one.
  have hlow : n / R ≤ n' / R := Nat.div_le_div_right hle
  have hhigh : n' / R ≤ n / R + 1 := by
    calc
      n' / R ≤ (n + R) / R := Nat.div_le_div_right hlt.le
      _ = n / R + 1 := Nat.add_div_right n hR
  omega

/-- Without a flip the register has moved forward. -/
theorem mod_le_mod_of_parity_eq {R n n' : Nat} (hR : 0 < R) (hle : n ≤ n') (hlt : n' < n + R)
    (hparity : n' / R % 2 = n / R % 2) : n' / R = n / R ∧ n % R ≤ n' % R := by
  -- Two neighbouring quotients have different parities.
  have hdiv : n' / R = n / R := by
    rcases div_eq_or_succ hR hle hlt with h | h
    · exact h
    · omega
  have hn : R * (n / R) + n % R = n := Nat.div_add_mod n R
  have hn' : R * (n' / R) + n' % R = n' := Nat.div_add_mod n' R
  rw [hdiv] at hn'
  exact ⟨hdiv, by omega⟩

/-- A flip means that the register has wrapped and stays behind its old value. -/
theorem mod_lt_mod_of_parity_ne {R n n' : Nat} (hR : 0 < R) (hle : n ≤ n') (hlt : n' < n + R)
    (hparity : n' / R % 2 ≠ n / R % 2) : n' / R = n / R + 1 ∧ n' % R < n % R := by
  have hdiv : n' / R = n / R + 1 := by
    rcases div_eq_or_succ hR hle hlt with h | h
    · exact absurd (by rw [h]) hparity
    · exact h
  have hn : R * (n / R) + n % R = n := Nat.div_add_mod n R
  have hn' : R * (n' / R) + n' % R = n' := Nat.div_add_mod n' R
  rw [hdiv, Nat.mul_succ] at hn'
  exact ⟨hdiv, by omega⟩

/-- Register and flip bit determine the growth. -/
theorem registerStep_eq {R n n' : Nat} (hR : 0 < R) (hle : n ≤ n') (hlt : n' < n + R) :
    registerStep R (n % R) (n' % R) (n' / R % 2 != n / R % 2) = n' - n := by
  have hn : R * (n / R) + n % R = n := Nat.div_add_mod n R
  have hn' : R * (n' / R) + n' % R = n' := Nat.div_add_mod n' R
  -- In both cases the two divisions with remainder are subtracted.
  by_cases hparity : n' / R % 2 = n / R % 2
  · rcases mod_le_mod_of_parity_eq hR hle hlt hparity with ⟨hdiv, _⟩
    rw [hdiv] at hn'
    simp only [registerStep, hparity, bne_self_eq_false, Bool.false_eq_true, if_false]
    omega
  · rcases mod_lt_mod_of_parity_ne hR hle hlt hparity with ⟨hdiv, _⟩
    rw [hdiv, Nat.mul_succ] at hn'
    have hflip : (n' / R % 2 != n / R % 2) = true := bne_iff_ne.2 hparity
    simp only [registerStep, hflip, if_true]
    omega

/-- A total kept modulo `M` shows a growth of at most `B` exactly if the sum does not wrap and the
summand is at most `B`. -/
theorem add_mod_growth_iff {M E X B : Nat} (hE : E < M) (hX : X < M) :
    (E ≤ (E + X) % M ∧ (E + X) % M ≤ E + B) ↔ E + X < M ∧ X ≤ B := by
  -- A sum that wraps ends up below `E`, as `X` is less than the modulus.
  by_cases hsum : E + X < M
  · rw [Nat.mod_eq_of_lt hsum]
    constructor
    · rintro ⟨_, hB⟩
      exact ⟨hsum, by omega⟩
    · rintro ⟨_, hB⟩
      exact ⟨Nat.le_add_right E X, by omega⟩
  · have hwrap : (E + X) % M = E + X - M := by
      rw [Nat.mod_eq_sub_mod (Nat.le_of_not_lt hsum), Nat.mod_eq_of_lt (by omega)]
    rw [hwrap]
    constructor
    · rintro ⟨hmono, _⟩
      omega
    · rintro ⟨hlt, _⟩
      exact absurd hlt hsum

end Lib
end LinuxLearn
