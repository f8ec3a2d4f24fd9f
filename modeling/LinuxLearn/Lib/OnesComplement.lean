import Mathlib.Tactic

/-!
# OnesComplement — sums with end-around carry

Numbers from `0` to `m`, where a carry out of the top is added at the bottom again; for words of `w`
bits `m` is `2 ^ w - 1`.  Such a sum depends only on the sum over the integers: it is the
representative `canon m` of that sum modulo `m`, where `m` itself stands for the multiples of `m`
other than zero.

- `ocSum_eq`: the sum of a list,
- `canon_fold`: adding the upper to the lower digits changes nothing,
- `canon_add_complement`: a number and its complement cancel to `m`, the other zero.
-/

namespace LinuxLearn
namespace Lib

/-- Addition with end-around carry. -/
def ocAdd (m a b : Nat) : Nat :=
  if a + b ≤ m then a + b else a + b - m

def ocSum (m : Nat) (ws : List Nat) : Nat :=
  ws.foldl (ocAdd m) 0

/-- The representative of an integer sum. -/
def canon (m s : Nat) : Nat :=
  if s = 0 then 0 else (s - 1) % m + 1

variable {m : Nat}

@[simp] theorem canon_zero (m : Nat) : canon m 0 = 0 := rfl

theorem canon_of_le {s : Nat} (hs : s ≤ m) : canon m s = s := by
  rw [canon]
  split
  · rename_i hzero
    exact hzero.symm
  · rename_i hpos
    rw [Nat.mod_eq_of_lt (by omega)]
    omega

/-- The representative of a positive sum is the one of its remainder. -/
theorem canon_add_mul (q : Nat) {s : Nat} (hs : 0 < s) : canon m (s + m * q) = canon m s := by
  have hsub : s + m * q - 1 = s - 1 + m * q := by omega
  rw [canon, canon, if_neg (by omega), if_neg (by omega), hsub, Nat.add_mul_mod_self_left]

theorem ocAdd_canon (hm : 0 < m) (s : Nat) {b : Nat} (hb : b ≤ m) :
    ocAdd m (canon m s) b = canon m (s + b) := by
  by_cases hs : s = 0
  · subst hs
    rw [canon_zero, ocAdd, Nat.zero_add, if_pos hb, canon_of_le hb]
  · -- Both sides see only the remainder of `s - 1`.
    have hr := Nat.mod_lt (s - 1) hm
    have hsplit : s = (s - 1) % m + 1 + m * ((s - 1) / m) := by
      have hdiv := Nat.mod_add_div (s - 1) m
      omega
    have hcanon : canon m s = (s - 1) % m + 1 := by rw [canon, if_neg hs]
    have hsum : s + b = (s - 1) % m + 1 + b + m * ((s - 1) / m) := by omega
    rw [hsum, canon_add_mul _ (by omega), hcanon, ocAdd]
    by_cases hcarry : (s - 1) % m + 1 + b ≤ m
    · rw [if_pos hcarry, canon_of_le hcarry]
    · have hless : (s - 1) % m + 1 + b = (s - 1) % m + 1 + b - m + m * 1 := by omega
      rw [if_neg hcarry]
      conv_rhs => rw [hless]
      rw [canon_add_mul _ (by omega), canon_of_le (by omega)]

/-- The order of the additions does not matter. -/
theorem ocSum_eq (hm : 0 < m) {ws : List Nat} (hws : ∀ w ∈ ws, w ≤ m) :
    ocSum m ws = canon m ws.sum := by
  have hfold : ∀ (ws : List Nat) (s : Nat), (∀ w ∈ ws, w ≤ m) →
      ws.foldl (ocAdd m) (canon m s) = canon m (s + ws.sum) := by
    intro ws
    induction ws with
    | nil => simp
    | cons w ws ih =>
        intro s hws
        rw [List.foldl_cons, ocAdd_canon hm s (hws w List.mem_cons_self),
          ih _ fun w' hw' => hws w' (List.mem_cons_of_mem _ hw'), List.sum_cons, Nat.add_assoc]
  have hzero := hfold ws 0 hws
  rwa [Nat.zero_add] at hzero

/-- Adding what stands above the lowest digit to base `m + 1` to that digit. -/
theorem canon_fold (m s : Nat) : canon m (s / (m + 1) + s % (m + 1)) = canon m s := by
  have hdiv := Nat.mod_add_div s (m + 1)
  by_cases hs : s = 0
  · subst hs
    simp
  · have hpos : 0 < s / (m + 1) + s % (m + 1) := by
      by_contra hzero
      have hdigits := Nat.add_eq_zero_iff.1 (Nat.le_zero.1 (Nat.not_lt.1 hzero))
      rw [hdigits.1, hdigits.2] at hdiv
      exact hs hdiv.symm
    have hsum : s / (m + 1) + s % (m + 1) + m * (s / (m + 1)) = s := by
      calc s / (m + 1) + s % (m + 1) + m * (s / (m + 1))
          = s % (m + 1) + (m + 1) * (s / (m + 1)) := by ring
        _ = s := hdiv
    rw [← canon_add_mul (s / (m + 1)) hpos, hsum]

theorem canon_add_complement (hm : 0 < m) (s : Nat) : canon m (s + (m - canon m s)) = m := by
  by_cases hs : s = 0
  · subst hs
    rw [canon_zero, Nat.sub_zero, Nat.zero_add, canon_of_le le_rfl]
  · -- The sum is a positive multiple of `m`.
    have hr := Nat.mod_lt (s - 1) hm
    have hdiv := Nat.mod_add_div (s - 1) m
    have hsum : s + (m - canon m s) = m + m * ((s - 1) / m) := by
      rw [canon, if_neg hs]
      omega
    rw [hsum, canon_add_mul _ hm, canon_of_le le_rfl]

end Lib
end LinuxLearn
