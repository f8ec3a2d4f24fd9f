import Mathlib.Tactic
import Mathlib.Data.List.Pairwise

/-!
# Comparator — sorting with a comparison function

A comparator returns a negative number, zero or a positive number.  A sort is only good for the
comparators that are a total preorder on the elements of the list.  `forall_sorts_iff` says that all
such sorts order a list by a key exactly if the comparator orders its elements by this key.
-/

namespace LinuxLearn
namespace Lib

section Definitions

variable {α : Type*}

structure PreorderOn (cmp : α → α → Int) (l : List α) : Prop where
  antisymm : ∀ a ∈ l, ∀ b ∈ l, cmp a b < 0 ↔ 0 < cmp b a
  trans : ∀ a ∈ l, ∀ b ∈ l, ∀ c ∈ l, cmp a b ≤ 0 → cmp b c ≤ 0 → cmp a c ≤ 0

/-- A sort that is correct for total preorders. -/
structure Sorts (sort : (α → α → Int) → List α → List α) : Prop where
  perm : ∀ {cmp l}, PreorderOn cmp l → (sort cmp l).Perm l
  sorted : ∀ {cmp l}, PreorderOn cmp l → (sort cmp l).Pairwise fun a b => cmp a b ≤ 0

variable {κ : Type*} [LinearOrder κ]

/-- The comparator tells how the keys of two elements are ordered. -/
structure Orders (cmp : α → α → Int) (key : α → κ) (a b : α) : Prop where
  lt : cmp a b < 0 ↔ key a < key b
  eq : cmp a b = 0 ↔ key a = key b
  gt : 0 < cmp a b ↔ key b < key a

structure SortedBy (key : α → κ) (l l' : List α) : Prop where
  perm : l'.Perm l
  sorted : l'.Pairwise fun a b => key a ≤ key b

end Definitions

variable {α κ : Type*} {cmp : α → α → Int} {l : List α}

/-- A comparator that always says zero. -/
theorem preorderOn_of_zero (hcmp : ∀ a ∈ l, ∀ b ∈ l, cmp a b = 0) : PreorderOn cmp l := by
  constructor
  · intro a ha b hb
    rw [hcmp a ha b hb, hcmp b hb a ha]
  · intro a ha b hb c hc _ _
    exact (hcmp a ha c hc).le

/-- On two elements, every step of a chain stays or leads back. -/
theorem preorderOn_pair {a b : α} (ha : cmp a a = 0) (hb : cmp b b = 0)
    (hab : cmp a b < 0 ↔ 0 < cmp b a) (hba : cmp b a < 0 ↔ 0 < cmp a b) :
    PreorderOn cmp [a, b] := by
  constructor
  · intro x hx y hy
    rw [List.mem_pair] at hx hy
    rcases hx with rfl | rfl
    · rcases hy with rfl | rfl
      · rw [ha]
      · exact hab
    · rcases hy with rfl | rfl
      · exact hba
      · rw [hb]
  · intro x hx y hy z hz hxy hyz
    rw [List.mem_pair] at hx hy hz
    rcases hx with rfl | rfl
    · rcases hy with rfl | rfl
      · exact hyz
      · rcases hz with rfl | rfl
        · exact ha.le
        · exact hxy
    · rcases hy with rfl | rfl
      · rcases hz with rfl | rfl
        · exact hxy
        · exact hb.le
      · exact hyz

/-! ## Comparators that order by a key -/

variable [LinearOrder κ] {key : α → κ}

theorem Orders.le {a b : α} (h : Orders cmp key a b) : cmp a b ≤ 0 ↔ key a ≤ key b := by
  rw [← Int.not_lt, h.gt, not_lt]

theorem preorderOn_of_orders (h : ∀ a ∈ l, ∀ b ∈ l, Orders cmp key a b) : PreorderOn cmp l := by
  constructor
  · intro a ha b hb
    rw [(h a ha b hb).lt, (h b hb a ha).gt]
  · intro a ha b hb c hc
    rw [(h a ha b hb).le, (h b hb c hc).le, (h a ha c hc).le]
    exact le_trans

theorem Sorts.sortedBy {sort : (α → α → Int) → List α → List α} (hsort : Sorts sort)
    (h : ∀ a ∈ l, ∀ b ∈ l, Orders cmp key a b) : SortedBy key l (sort cmp l) := by
  have hpre := preorderOn_of_orders h
  have hperm := hsort.perm hpre
  refine ⟨hperm, (hsort.sorted hpre).imp_of_mem fun ha hb hle => ?_⟩
  exact (h _ (hperm.mem_iff.1 ha) _ (hperm.mem_iff.1 hb)).le.1 hle

/-! ## A sort -/

/-- Merge sort on the elements of the list, on which alone the comparator has to be good. -/
def mergeBy (cmp : α → α → Int) (l : List α) : List α :=
  (l.attach.mergeSort fun a b => cmp a.1 b.1 ≤ 0).map Subtype.val

theorem mergeBy_perm (cmp : α → α → Int) (l : List α) : (mergeBy cmp l).Perm l := by
  have hperm := (List.mergeSort_perm l.attach fun a b => cmp a.1 b.1 ≤ 0).map Subtype.val
  rwa [List.attach_map_subtype_val] at hperm

theorem mergeBy_sorted (h : PreorderOn cmp l) :
    (mergeBy cmp l).Pairwise fun a b => cmp a b ≤ 0 := by
  rw [mergeBy, List.pairwise_map]
  have htrans : ∀ a b c : { x // x ∈ l }, decide (cmp a.1 b.1 ≤ 0) = true →
      decide (cmp b.1 c.1 ≤ 0) = true → decide (cmp a.1 c.1 ≤ 0) = true := by
    intro a b c hab hbc
    rw [decide_eq_true_iff] at hab hbc ⊢
    exact h.trans a.1 a.2 b.1 b.2 c.1 c.2 hab hbc
  have htotal : ∀ a b : { x // x ∈ l },
      (decide (cmp a.1 b.1 ≤ 0) || decide (cmp b.1 a.1 ≤ 0)) = true := by
    intro a b
    have hanti := h.antisymm b.1 b.2 a.1 a.2
    rw [Bool.or_eq_true, decide_eq_true_iff, decide_eq_true_iff]
    omega
  exact (List.pairwise_mergeSort htrans htotal l.attach).imp fun hle => of_decide_eq_true hle

/-- As a sort, it may do anything on the other lists. -/
theorem sorts_mergeBy_else (other : (α → α → Int) → List α → List α) :
    Sorts fun cmp (l : List α) =>
      open Classical in if PreorderOn cmp l then mergeBy cmp l else other cmp l := by
  constructor
  · intro cmp l h
    rw [if_pos h]
    exact mergeBy_perm cmp l
  · intro cmp l h
    rw [if_pos h]
    exact mergeBy_sorted h

/-! ## What all sorts do -/

/-- A list sorted by a key and by a comparator shows their agreement on different keys. -/
theorem cmp_le_of_pairwise (hkey : l.Pairwise fun a b => key a ≤ key b)
    (hcmp : l.Pairwise fun a b => cmp a b ≤ 0) :
    ∀ a ∈ l, ∀ b ∈ l, key a < key b → cmp a b ≤ 0 := by
  -- Only elements in the order of the list have something to say.
  have hforth : l.Pairwise fun a b => key a < key b → cmp a b ≤ 0 := by
    exact hcmp.imp fun {a b} h (_ : key a < key b) => h
  have hback : l.Pairwise fun a b => key b < key a → cmp b a ≤ 0 :=
    hkey.imp fun h hlt => absurd hlt h.not_gt
  intro a ha b hb
  exact hforth.forall_of_forall_of_flip (fun _ _ hlt => absurd hlt (lt_irrefl _)) hback ha hb

theorem orders_of_preorderOn (hpre : PreorderOn cmp l) (hzero : ∀ a b, cmp a b = 0 ↔ key a = key b)
    (hle : ∀ a ∈ l, ∀ b ∈ l, key a < key b → cmp a b ≤ 0) :
    ∀ a ∈ l, ∀ b ∈ l, Orders cmp key a b := by
  have hlt : ∀ a ∈ l, ∀ b ∈ l, key a < key b → cmp a b < 0 := by
    intro a ha b hb hkey
    exact lt_of_le_of_ne (hle a ha b hb hkey) fun h => hkey.ne ((hzero a b).1 h)
  intro a ha b hb
  rcases lt_trichotomy (key a) (key b) with hkey | hkey | hkey
  · have hcmp := hlt a ha b hb hkey
    exact ⟨iff_of_true hcmp hkey, hzero a b, iff_of_false (by omega) hkey.not_gt⟩
  · have hcmp := (hzero a b).2 hkey
    exact ⟨iff_of_false (by omega) hkey.not_lt, hzero a b, iff_of_false (by omega) hkey.not_gt⟩
  · have hcmp := (hpre.antisymm b hb a ha).1 (hlt b hb a ha hkey)
    exact ⟨iff_of_false (by omega) hkey.not_gt, hzero a b, iff_of_true hcmp hkey⟩

theorem forall_sorts_iff (hzero : ∀ a b, cmp a b = 0 ↔ key a = key b) :
    (∀ sort : (α → α → Int) → List α → List α, Sorts sort → SortedBy key l (sort cmp l)) ↔
      ∀ a ∈ l, ∀ b ∈ l, Orders cmp key a b := by
  refine ⟨fun h => ?_, fun h sort hsort => hsort.sortedBy h⟩
  -- One sort that answers a bad comparator with a descending list.
  have hsorted := h _ (sorts_mergeBy_else fun _ l => l.mergeSort fun a b => key b ≤ key a)
  by_cases hpre : PreorderOn cmp l
  · rw [if_pos hpre] at hsorted
    have hle := cmp_le_of_pairwise hsorted.sorted (mergeBy_sorted hpre)
    refine orders_of_preorderOn hpre hzero fun a ha b hb => ?_
    exact hle a (hsorted.perm.mem_iff.2 ha) b (hsorted.perm.mem_iff.2 hb)
  · rw [if_neg hpre] at hsorted
    have hdescending : (l.mergeSort fun a b => key b ≤ key a).Pairwise
        fun a b => key b ≤ key a := by
      refine (List.pairwise_mergeSort ?_ ?_ l).imp fun h => of_decide_eq_true h
      · intro a b c hab hbc
        rw [decide_eq_true_iff] at hab hbc ⊢
        exact hbc.trans hab
      · intro a b
        rw [Bool.or_eq_true, decide_eq_true_iff, decide_eq_true_iff]
        exact le_total _ _
    have hboth := hsorted.sorted.and hdescending
    have hforth : _ := hboth.imp fun h => le_antisymm h.1 h.2
    have hback : _ := hboth.imp fun h => le_antisymm h.2 h.1
    refine absurd (preorderOn_of_zero fun a ha b hb => (hzero a b).2 ?_) hpre
    exact hforth.forall_of_forall_of_flip (R := fun a b => key a = key b) (fun _ _ => rfl) hback
      (hsorted.perm.mem_iff.2 ha) (hsorted.perm.mem_iff.2 hb)

end Lib
end LinuxLearn
