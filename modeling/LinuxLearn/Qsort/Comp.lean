import LinuxLearn.Lib.Comparator
import LinuxLearn.Lib.Lines
import LinuxLearn.Lib.Text

/-!
# Comp — the comparator of `qsort.c`

`comp` returns the difference of its arguments, which wraps when it does not fit into an `int`.  The
program prints every list in order exactly if all differences of its elements fit.
-/

namespace LinuxLearn
namespace Qsort

open Lib

def comp (a b : Int32) : Int32 :=
  a - b

/-- `comp` as a comparator. -/
def compInt (a b : Int32) : Int :=
  (comp a b).toInt

/-- `printf("%d\t", ...)` for each element. -/
def printed (array : List Int32) : Text :=
  unlines 9 (array.map fun a => decimal a.toInt)

/-- What the program prints for the numbers read, with `sort` for `qsort`. -/
def main (sort : (Int32 → Int32 → Int) → List Int32 → List Int32) (array : List Int32) : Text :=
  printed (sort compInt array)

/-! ## Two elements -/

/-- The difference fits into an `int`. -/
def Fits (a b : Int32) : Prop :=
  -2 ^ 31 ≤ a.toInt - b.toInt ∧ a.toInt - b.toInt < 2 ^ 31

instance (a b : Int32) : Decidable (Fits a b) :=
  inferInstanceAs (Decidable (_ ∧ _))

theorem toInt_sub_lt (a b : Int32) : a.toInt - b.toInt < 2 ^ 32 := by
  have ha := a.toInt_lt
  have hb := b.le_toInt
  omega

/-- A difference that does not fit wraps once. -/
theorem compInt_eq (a b : Int32) :
    compInt a b =
      if a.toInt - b.toInt < -2 ^ 31 then a.toInt - b.toInt + 2 ^ 32
      else if 2 ^ 31 ≤ a.toInt - b.toInt then a.toInt - b.toInt - 2 ^ 32
      else a.toInt - b.toInt := by
  have hab := toInt_sub_lt a b
  have hba := toInt_sub_lt b a
  rw [compInt, comp, Int32.toInt_sub, Int.bmod_def]
  split <;> split <;> omega

theorem compInt_eq_zero_iff (a b : Int32) : compInt a b = 0 ↔ a.toInt = b.toInt := by
  have hab := toInt_sub_lt a b
  have hba := toInt_sub_lt b a
  rw [compInt_eq]
  split
  · omega
  · split <;> omega

theorem orders_iff (a b : Int32) : Orders compInt Int32.toInt a b ↔ Fits a b := by
  have hab := toInt_sub_lt a b
  have hba := toInt_sub_lt b a
  have hcomp := compInt_eq a b
  constructor
  · rintro ⟨hlt, _, hgt⟩
    rw [Fits]
    split at hcomp
    · omega
    · split at hcomp <;> omega
  · rintro ⟨hlow, hhigh⟩
    rw [if_neg (not_lt.2 hlow), if_neg (not_le.2 hhigh)] at hcomp
    constructor <;> omega

/-! ## Lists -/

theorem decimal_injective : Function.Injective decimal := by
  intro v w h
  have hv : atoi (decimal v ++ []) = v := atoi_decimal v rfl
  have hw : atoi (decimal w ++ []) = w := atoi_decimal w rfl
  rw [List.append_nil] at hv hw
  rw [← hv, ← hw, h]

theorem tab_notMem_decimal (v : Int) : (9 : UInt8) ∉ decimal v := by
  have hdigits : ∀ n, (9 : UInt8) ∉ decimalNat n := fun n h =>
    absurd (isDigit_of_mem_decimalNat h) (by decide)
  cases v with
  | ofNat n => exact hdigits n
  | negSucc n =>
      rw [decimal, List.mem_cons, not_or]
      exact ⟨by decide, hdigits (n + 1)⟩

/-- The output shows every element. -/
theorem printed_injective : Function.Injective printed := by
  intro l l' h
  have hseparate : ∀ l : List Int32, ∀ w ∈ l.map fun a => decimal a.toInt, (9 : UInt8) ∉ w := by
    intro l w hw
    rcases List.mem_map.1 hw with ⟨a, _, rfl⟩
    exact tab_notMem_decimal a.toInt
  have hwords := unlines_injective (hseparate l) (hseparate l') h
  exact List.map_injective_iff.2 (fun a b hab => Int32.toInt.inj (decimal_injective hab)) hwords

/-- Every correct sort makes the program print the array in order. -/
def PrintsSorted (array : List Int32) : Prop :=
  ∀ sort, Sorts sort → ∃ l, SortedBy Int32.toInt array l ∧ main sort array = printed l

theorem printsSorted_iff (array : List Int32) :
    PrintsSorted array ↔ ∀ a ∈ array, ∀ b ∈ array, Fits a b := by
  have hsorted : PrintsSorted array ↔
      ∀ sort, Sorts sort → SortedBy Int32.toInt array (sort compInt array) := by
    refine forall_congr' fun sort => forall_congr' fun _ => ⟨?_, fun h => ⟨_, h, rfl⟩⟩
    rintro ⟨l, hl, hmain⟩
    rwa [← printed_injective hmain] at hl
  rw [hsorted, forall_sorts_iff compInt_eq_zero_iff]
  refine forall_congr' fun a => forall_congr' fun _ => forall_congr' fun b => ?_
  exact forall_congr' fun _ => orders_iff a b

/-- What `comp` is meant to be on the elements of an array. -/
structure ValidOrder (array : List Int32) : Prop where
  orders : ∀ a ∈ array, ∀ b ∈ array, Orders compInt Int32.toInt a b
  preorder : PreorderOn compInt array
  prints : PrintsSorted array

/-- Two elements are compared right exactly if their difference fits, and an array is sorted and
printed right exactly if all its differences do. -/
theorem validOrder_iff (v w : Int32) (array : List Int32) :
    (Orders compInt Int32.toInt v w ↔ Fits v w) ∧
      (ValidOrder array ↔ ∀ a ∈ array, ∀ b ∈ array, Fits a b) ∧
      (PrintsSorted array ↔ ∀ a ∈ array, ∀ b ∈ array, Fits a b) := by
  refine ⟨orders_iff v w, ⟨fun h => ?_, fun h => ?_⟩, printsSorted_iff array⟩
  · exact (printsSorted_iff array).1 h.prints
  · have horders : ∀ a ∈ array, ∀ b ∈ array, Orders compInt Int32.toInt a b :=
      fun a ha b hb => (orders_iff a b).2 (h a ha b hb)
    exact ⟨horders, preorderOn_of_orders horders, (printsSorted_iff array).2 h⟩

/-- The least number counts as greater than 1, so every correct sort puts it last. -/
theorem least_number_printed_last :
    ¬ Orders compInt Int32.toInt Int32.minValue 1 ∧
      (∀ sort, Sorts sort → main sort [Int32.minValue, 1] = ascii "1\t-2147483648\t") ∧
      ¬ PrintsSorted [Int32.minValue, 1] := by
  refine ⟨fun h => ?_, fun sort hsort => ?_, fun h => ?_⟩
  · exact absurd ((orders_iff _ _).1 h) (by decide)
  · have hpre : PreorderOn compInt [Int32.minValue, 1] :=
      preorderOn_pair (by decide) (by decide) (by decide) (by decide)
    have hperm := hsort.perm hpre
    have hsorted := hsort.sorted hpre
    have hlast : sort compInt [Int32.minValue, 1] = [1, Int32.minValue] := by
      rcases List.perm_pair.1 hperm with hsame | hswapped
      · rw [hsame] at hsorted
        exact absurd hsorted (by decide)
      · exact hswapped
    rw [main, hlast]
    decide
  · have hfits := (printsSorted_iff _).1 h Int32.minValue List.mem_cons_self 1 (by simp)
    exact absurd hfits (by decide)

end Qsort
end LinuxLearn
