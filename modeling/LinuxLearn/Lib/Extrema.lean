import Mathlib.Tactic

/-!
# Extrema — the last maximum and the first minimum of a scan

A scan visits indices in increasing order and keeps one where `f` is largest and one where it is
smallest.  If equal values move the first index but not the second, they are the last maximum and
the first minimum, and two different indices as soon as two have been visited.
-/

namespace LinuxLearn
namespace Lib

theorem forall_mem_concat {β : Type*} {P : β → Prop} {l : List β} {b : β} (hl : ∀ a ∈ l, P a)
    (hb : P b) : ∀ a ∈ l ++ [b], P a :=
  List.forall_mem_append.2 ⟨hl, List.forall_mem_singleton.2 hb⟩

variable {ι α : Type*} [LinearOrder ι] [LinearOrder α]

structure LastMax (f : ι → α) (seen : List ι) (i : ι) : Prop where
  mem : i ∈ seen
  le : ∀ k ∈ seen, f k ≤ f i
  last : ∀ k ∈ seen, i < k → f k < f i

structure FirstMin (f : ι → α) (seen : List ι) (i : ι) : Prop where
  mem : i ∈ seen
  le : ∀ k ∈ seen, f i ≤ f k
  first : ∀ k ∈ seen, k < i → f i < f k

variable {f : ι → α} {seen : List ι} {i j : ι}

theorem lastMax_singleton (f : ι → α) (i : ι) : LastMax f [i] i :=
  ⟨List.mem_singleton_self i, by simp, by simp⟩

theorem firstMin_singleton (f : ι → α) (i : ι) : FirstMin f [i] i :=
  ⟨List.mem_singleton_self i, by simp, by simp⟩

theorem LastMax.step (h : LastMax f seen i) (hnext : ∀ k ∈ seen, k < j) :
    LastMax f (seen ++ [j]) (if f i ≤ f j then j else i) := by
  by_cases hij : f i ≤ f j
  · rw [if_pos hij]
    refine ⟨by simp, forall_mem_concat (fun k hk => (h.le k hk).trans hij) le_rfl, ?_⟩
    -- Nothing lies behind the new index.
    exact forall_mem_concat (fun k hk hlt => absurd (hnext k hk) hlt.not_gt)
      fun hlt => absurd hlt (lt_irrefl j)
  · rw [if_neg hij]
    have hji : f j < f i := not_le.1 hij
    exact ⟨List.mem_append_left _ h.mem, forall_mem_concat h.le hji.le,
      forall_mem_concat h.last fun _ => hji⟩

theorem FirstMin.step (h : FirstMin f seen i) (hnext : ∀ k ∈ seen, k < j) :
    FirstMin f (seen ++ [j]) (if f j < f i then j else i) := by
  by_cases hji : f j < f i
  · rw [if_pos hji]
    have hbelow : ∀ k ∈ seen, f j < f k := fun k hk => hji.trans_le (h.le k hk)
    exact ⟨by simp, forall_mem_concat (fun k hk => (hbelow k hk).le) le_rfl,
      forall_mem_concat (fun k hk _ => hbelow k hk) fun hlt => absurd hlt (lt_irrefl j)⟩
  · rw [if_neg hji]
    -- The new index lies behind the first minimum.
    exact ⟨List.mem_append_left _ h.mem, forall_mem_concat h.le (not_lt.1 hji),
      forall_mem_concat h.first fun hlt => absurd (hnext i h.mem) hlt.not_gt⟩

/-- One index is both only if it is the only one. -/
theorem LastMax.ne_firstMin (hmax : LastMax f seen i) (hmin : FirstMin f seen j) {k l : ι}
    (hk : k ∈ seen) (hl : l ∈ seen) (hne : k ≠ l) : i ≠ j := by
  rintro rfl
  have hall : ∀ m ∈ seen, m = i := by
    intro m hm
    rcases lt_trichotomy m i with hlt | heq | hgt
    · exact absurd (hmin.first m hm hlt) (hmax.le m hm).not_gt
    · exact heq
    · exact absurd (hmax.last m hm hgt) (hmin.le m hm).not_gt
  exact hne ((hall k hk).trans (hall l hl).symm)

end Lib
end LinuxLearn
