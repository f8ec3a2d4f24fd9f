import Mathlib.Tactic

/-!
# Filter — the smoothing windows of the HLW8032 decoder

Each measured channel (voltage, current, power) keeps the last `ARRAY_LEN` raw periods in a static
array.  A reading is computed from the element that is left when one maximum and one minimum of
the window are crossed out.  The arrays hold `unsigned long` values, modelled by natural numbers.

Sources: `getVIPvalue`, `isUpdataNewData`, `updataVIPvalue`, `resetVIPvalue` in `wt_hlw8032.c`.
-/

namespace LinuxLearn
namespace Hlw8032

/-- Length of the smoothing buffers. -/
abbrev ARRAY_LEN : Nat := 3

/-- Number of repeated values after which a repeated value is entered anyway. -/
abbrev COUNT_NUM : Nat := 1

/-! ## The window element a reading is computed from -/

/-- The two indices that the first loop of `getVIPvalue` maintains. -/
structure Extremes (n : Nat) where
  maxIndex : Fin n
  minIndex : Fin n
  deriving DecidableEq, Repr

namespace Extremes

variable {n : Nat}

/-- Body of the first loop.  Equal values move `maxIndex` only, which keeps the two indices apart
when all values are the same. -/
def visit (arr : Vector Nat n) (e : Extremes n) (j : Fin n) : Extremes n :=
  { maxIndex := if arr[e.maxIndex] ≤ arr[j] then j else e.maxIndex
    minIndex := if arr[e.minIndex] > arr[j] then j else e.minIndex }

/-- The first index that the second loop does not skip. -/
def firstOther (e : Extremes n) : Option (Fin n) :=
  (List.finRange n).find? fun j => !(e.maxIndex == j || e.minIndex == j)

end Extremes

/-- `for (j = 1; j < ARRAY_LEN; j++)` starting from indices `0` and `0`. -/
def scanExtremes {m : Nat} (arr : Vector Nat (m + 1)) : Extremes (m + 1) :=
  -- Index 0 is where both indices start, so the scan leaves it out.
  (List.finRange (m + 1)).tail.foldl (Extremes.visit arr) ⟨0, 0⟩

/-- The second loop returns the first element at neither index; `none` is the run off the end of
the function, which returns nothing. -/
def getVIPvalue {m : Nat} (arr : Vector Nat (m + 1)) : Option Nat :=
  (scanExtremes arr).firstOther.map fun j => arr[j]

/-! ## Entering a value -/

def isUpdataNewData {m : Nat} (arr : Vector Nat (m + 1)) (dat : Nat) : Bool :=
  if arr[0] = dat then false else true

/-- `for (; ii > 0; ii--) arr[ii] = arr[ii - 1];` -/
def shiftFrom {n : Nat} : (ii : Nat) → ii < n → Vector Nat n → Vector Nat n
  | 0, _, arr => arr
  | ii + 1, h, arr => shiftFrom ii (by omega) (arr.set (ii + 1) arr[ii])

def updataVIPvalue {m : Nat} (arr : Vector Nat (m + 1)) (dat : Nat) : Vector Nat (m + 1) :=
  (shiftFrom m (by omega) arr).set 0 dat

/-- `for (ii = ARRAY_LEN - 1; ii >= 0; ii--) arr[ii] = dat;` -/
def fillFrom {n : Nat} (dat : Nat) : (ii : Nat) → ii ≤ n → Vector Nat n → Vector Nat n
  | 0, _, arr => arr
  | ii + 1, h, arr => fillFrom dat ii (by omega) (arr.set ii dat)

def resetVIPvalue {m : Nat} (arr : Vector Nat (m + 1)) (dat : Nat) : Vector Nat (m + 1) :=
  fillFrom dat (m + 1) le_rfl arr

/-! ## The window of length three -/

/-- The middle one of three values. -/
def median (a b c : Nat) : Nat :=
  max (min a b) (min (max a b) c)

/-- Every window of the decoder is given by its three elements. -/
theorem window_cases (arr : Vector Nat ARRAY_LEN) : ∃ a b c, arr = #v[a, b, c] := by
  -- The length is a numeral, so the elements can be listed.
  refine ⟨arr[0], arr[1], arr[2], ?_⟩
  apply Vector.ext
  intro i hi
  match i, hi with
  | 0, _ => rfl
  | 1, _ => rfl
  | 2, _ => rfl

/-- What the first loop finds, for each order of the three elements. -/
theorem scanExtremes_three (a b c : Nat) :
    scanExtremes #v[a, b, c] =
      { maxIndex := if max a b ≤ c then 2 else if a ≤ b then 1 else 0
        minIndex := if c < min a b then 2 else if b < a then 1 else 0 } := by
  have hscan : scanExtremes #v[a, b, c] =
      Extremes.visit #v[a, b, c] (Extremes.visit #v[a, b, c] ⟨0, 0⟩ 1) 2 := rfl
  rw [hscan]
  -- The first step compares `a` with `b`, the second one the winner with `c`.
  by_cases hab : a ≤ b
  · have hba : ¬ b < a := by omega
    simp [Extremes.visit, hab, hba]
  · have hba : b < a := by omega
    simp [Extremes.visit, hab, hba, hba.le]

/-- For three elements the function always returns, and what it returns is their median. -/
theorem getVIPvalue_three (a b c : Nat) :
    getVIPvalue #v[a, b, c] = some (median a b c) := by
  rw [getVIPvalue, scanExtremes_three]
  -- Once both indices are numerals the second loop is a computation.
  by_cases hmax : max a b ≤ c
  · have hmin : ¬ c < min a b := by omega
    by_cases hba : b < a
    · have hmed : median a b c = a := by
        unfold median
        omega
      rw [if_pos hmax, if_neg hmin, if_pos hba, hmed]
      rfl
    · have hmed : median a b c = b := by
        unfold median
        omega
      rw [if_pos hmax, if_neg hmin, if_neg hba, hmed]
      rfl
  · by_cases hmin : c < min a b
    · by_cases hab : a ≤ b
      · have hmed : median a b c = a := by
          unfold median
          omega
        rw [if_neg hmax, if_pos hmin, if_pos hab, hmed]
        rfl
      · have hmed : median a b c = b := by
          unfold median
          omega
        rw [if_neg hmax, if_pos hmin, if_neg hab, hmed]
        rfl
    · have hmed : median a b c = c := by
        unfold median
        omega
      by_cases hab : a ≤ b
      · have hba : ¬ b < a := by omega
        rw [if_neg hmax, if_neg hmin, if_pos hab, if_neg hba, hmed]
        rfl
      · have hba : b < a := by omega
        rw [if_neg hmax, if_neg hmin, if_neg hab, if_pos hba, hmed]
        rfl

end Hlw8032
end LinuxLearn
