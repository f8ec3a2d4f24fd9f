import LinuxLearn.Hlw8032.Filter
import LinuxLearn.Lib.Extrema

/-!
# Scan — `getVIPvalue` on windows of any length

The first loop keeps the last maximum and the first minimum of what it has visited.  These are two
different indices, also if all elements are equal, so in a window of three elements or more the
second loop finds a third one and returns its element.
-/

namespace LinuxLearn
namespace Hlw8032

open Lib

/-! ## The first loop -/

section Scan

variable {n : Nat} (arr : Vector Nat n)

structure Scanned (seen : List (Fin n)) (e : Extremes n) : Prop where
  max : LastMax arr.get seen e.maxIndex
  min : FirstMin arr.get seen e.minIndex

variable {arr} {seen : List (Fin n)} {e : Extremes n}

theorem Scanned.visit {j : Fin n} (h : Scanned arr seen e) (hnext : ∀ i ∈ seen, i < j) :
    Scanned arr (seen ++ [j]) (e.visit arr j) :=
  ⟨h.max.step hnext, h.min.step hnext⟩

/-- The loop visits increasing indices behind those already seen. -/
theorem Scanned.foldl (h : Scanned arr seen e) (js : List (Fin n))
    (hincreasing : (seen ++ js).Pairwise (· < ·)) :
    Scanned arr (seen ++ js) (js.foldl (Extremes.visit arr) e) := by
  induction js generalizing seen e with
  | nil => simpa using h
  | cons j js ih =>
      have hnext : ∀ i ∈ seen, i < j := fun i hi =>
        (List.pairwise_append.1 hincreasing).2.2 i hi j List.mem_cons_self
      rw [← List.singleton_append, ← List.append_assoc] at hincreasing ⊢
      exact ih (h.visit hnext) hincreasing

end Scan

/-- All indices have been visited. -/
theorem scanned_scanExtremes {m : Nat} (arr : Vector Nat (m + 1)) :
    Scanned arr (List.finRange (m + 1)) (scanExtremes arr) := by
  have hstart : Scanned arr [0] ⟨0, 0⟩ := ⟨lastMax_singleton _ 0, firstMin_singleton _ 0⟩
  have hall : [0] ++ (List.finRange (m + 1)).tail = List.finRange (m + 1) := by
    rw [List.finRange_succ]
    rfl
  have hrun := hstart.foldl (List.finRange (m + 1)).tail
    (by rw [hall]; exact List.pairwise_lt_finRange (m + 1))
  rwa [hall] at hrun

section Window

variable {m : Nat} (arr : Vector Nat (m + 1))

theorem le_maxIndex (j : Fin (m + 1)) : arr.get j ≤ arr.get (scanExtremes arr).maxIndex :=
  (scanned_scanExtremes arr).max.le j (List.mem_finRange j)

theorem minIndex_le (j : Fin (m + 1)) : arr.get (scanExtremes arr).minIndex ≤ arr.get j :=
  (scanned_scanExtremes arr).min.le j (List.mem_finRange j)

theorem maxIndex_ne_minIndex (hm : 1 ≤ m) :
    (scanExtremes arr).maxIndex ≠ (scanExtremes arr).minIndex := by
  have hne : (0 : Fin (m + 1)) ≠ Fin.last m := by
    intro heq
    have hval : 0 = m := congrArg Fin.val heq
    omega
  have hscan := scanned_scanExtremes arr
  exact hscan.max.ne_firstMin hscan.min (List.mem_finRange 0) (List.mem_finRange _) hne

end Window

/-! ## The second loop -/

/-- Two indices do not fill a window of three elements. -/
theorem exists_firstOther {n : Nat} (hn : 3 ≤ n) (e : Extremes n) :
    ∃ j, e.firstOther = some j := by
  have hcard : ({e.maxIndex, e.minIndex} : Finset (Fin n)).card <
      (Finset.univ : Finset (Fin n)).card := by
    rw [Finset.card_univ, Fintype.card_fin]
    exact Finset.card_le_two.trans_lt hn
  rcases Finset.exists_mem_notMem_of_card_lt_card hcard with ⟨j, _, hj⟩
  rw [Finset.mem_insert, Finset.mem_singleton, not_or] at hj
  apply Option.isSome_iff_exists.1
  rw [Extremes.firstOther, List.find?_isSome]
  exact ⟨j, List.mem_finRange j, by simp [Ne.symm hj.1, Ne.symm hj.2]⟩

/-- The element returned lies between those that the first loop has found. -/
theorem getVIPvalue_between {m : Nat} (arr : Vector Nat (m + 1)) (hm : 2 ≤ m) :
    ∃ v, getVIPvalue arr = some v ∧ (∃ j, v = arr.get j) ∧
      arr.get (scanExtremes arr).minIndex ≤ v ∧ v ≤ arr.get (scanExtremes arr).maxIndex := by
  rcases exists_firstOther (Nat.succ_le_succ hm) (scanExtremes arr) with ⟨j, hj⟩
  refine ⟨arr.get j, ?_, ⟨j, rfl⟩, minIndex_le arr j, le_maxIndex arr j⟩
  rw [getVIPvalue, hj]
  rfl

/-! ## Windows of three elements -/

theorem median_add_extremes (a b c : Nat) :
    median a b c + [a, b, c].foldr max 0 + [a, b, c].foldr min [a, b, c].sum = [a, b, c].sum := by
  simp only [List.sum_cons, List.sum_nil, List.foldr_cons, List.foldr_nil, median]
  omega

/-- The sum and the two extremes determine the median. -/
theorem median_eq_of_perm {a b c x y z : Nat} (h : [a, b, c].Perm [x, y, z]) :
    median a b c = median x y z := by
  have hsum : [a, b, c].sum = [x, y, z].sum := h.sum_eq
  have hmax : [a, b, c].foldr max 0 = [x, y, z].foldr max 0 := h.foldr_eq 0
  have hmin : [a, b, c].foldr min [x, y, z].sum = [x, y, z].foldr min [x, y, z].sum :=
    h.foldr_eq _
  have hmedian := median_add_extremes a b c
  rw [hsum, hmax, hmin] at hmedian
  have hsame := hmedian.trans (median_add_extremes x y z).symm
  exact Nat.add_right_cancel (Nat.add_right_cancel hsame)

theorem getVIPvalue_perm (arr arr' : Vector Nat ARRAY_LEN) (h : arr.toList.Perm arr'.toList) :
    getVIPvalue arr = getVIPvalue arr' := by
  rcases window_cases arr with ⟨a, b, c, rfl⟩
  rcases window_cases arr' with ⟨x, y, z, rfl⟩
  rw [getVIPvalue_three, getVIPvalue_three, median_eq_of_perm h]

/-- In a window of three elements or more, the indices differ and name a maximum and a minimum, and
an element between the two is returned; in a window of three it is the median, in any order. -/
theorem getVIPvalue_any_length :
    (∀ (m : Nat) (arr : Vector Nat (m + 1)), 3 ≤ m + 1 →
      (scanExtremes arr).maxIndex ≠ (scanExtremes arr).minIndex ∧
      (∀ j, arr.get j ≤ arr.get (scanExtremes arr).maxIndex) ∧
      (∀ j, arr.get (scanExtremes arr).minIndex ≤ arr.get j) ∧
      ∃ v, getVIPvalue arr = some v ∧ (∃ j, v = arr.get j) ∧
        arr.get (scanExtremes arr).minIndex ≤ v ∧ v ≤ arr.get (scanExtremes arr).maxIndex) ∧
    (∀ a b c, getVIPvalue #v[a, b, c] = some (median a b c)) ∧
    (∀ arr arr' : Vector Nat ARRAY_LEN, arr.toList.Perm arr'.toList →
      getVIPvalue arr = getVIPvalue arr') := by
  refine ⟨fun m arr hm => ?_, getVIPvalue_three, getVIPvalue_perm⟩
  have hm : 2 ≤ m := Nat.le_of_succ_le_succ hm
  exact ⟨maxIndex_ne_minIndex arr (Nat.le_of_succ_le hm), le_maxIndex arr, minIndex_le arr,
    getVIPvalue_between arr hm⟩

/-- Four equal elements. -/
theorem equal_window_of_four :
    ∃ v, getVIPvalue #v[7, 7, 7, 7] = some v ∧
      (∃ j, v = (#v[7, 7, 7, 7] : Vector Nat 4).get j) := by
  rcases getVIPvalue_any_length.1 3 #v[7, 7, 7, 7] (by decide) with ⟨_, _, _, v, hv, hmem, _⟩
  exact ⟨v, hv, hmem⟩

end Hlw8032
end LinuxLearn
