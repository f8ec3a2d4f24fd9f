import Mathlib.Tactic

/-!
# Pieces — bounded pieces of a sequence that end at a separator

A reader with room for `k` elements takes them from a sequence up to the first separator.  This file
says what it gets:

- `cut_cases`: it stops behind a separator, at the end of the sequence or because it has no room,
- `LongestPiece`: in each case it has the longest piece there is, which is unique,
- `spaced_iff_of_line`: whether every `k` elements contain a separator, read off piece by piece.
-/

namespace LinuxLearn
namespace Lib

variable {α : Type*} {sep : α} {k : Nat} {l p q : List α}

/-! ## The three ways to stop -/

theorem cut_cases (sep : α) (k : Nat) (l : List α) :
    (∃ u r, l = u ++ sep :: r ∧ sep ∉ u ∧ u.length < k) ∨
      (sep ∉ l ∧ l.length < k) ∨
      ∃ u r, l = u ++ r ∧ sep ∉ u ∧ u.length = k := by
  -- What is known of the rest is known of the whole, with one element more.
  induction k generalizing l with
  | zero => exact Or.inr (Or.inr ⟨[], l, rfl, List.not_mem_nil, rfl⟩)
  | succ k ih =>
      cases l with
      | nil => exact Or.inr (Or.inl ⟨List.not_mem_nil, Nat.succ_pos k⟩)
      | cons a l =>
          by_cases ha : sep = a
          · exact Or.inl ⟨[], l, by rw [ha]; rfl, List.not_mem_nil, Nat.succ_pos k⟩
          · have hcons : ∀ {u : List α}, sep ∉ u → sep ∉ a :: u := fun hu =>
              List.not_mem_cons_of_ne_of_not_mem ha hu
            rcases ih l with ⟨u, r, rfl, hu, hlength⟩ | ⟨hl, hlength⟩ | ⟨u, r, rfl, hu, hlength⟩
            · exact Or.inl ⟨a :: u, r, rfl, hcons hu, Nat.succ_lt_succ hlength⟩
            · exact Or.inr (Or.inl ⟨hcons hl, Nat.succ_lt_succ hlength⟩)
            · exact Or.inr (Or.inr ⟨a :: u, r, rfl, hcons hu, congrArg Nat.succ hlength⟩)

/-! ## The longest piece -/

/-- A prefix of `l` of at most `k` elements, with no separator but as its last one. -/
structure PieceOf (sep : α) (k : Nat) (l p : List α) : Prop where
  isPrefix : p <+: l
  length_le : p.length ≤ k
  not_mem : sep ∉ p.dropLast

structure LongestPiece (sep : α) (k : Nat) (l p : List α) : Prop extends PieceOf sep k l p where
  longest : ∀ q, PieceOf sep k l q → q.length ≤ p.length

theorem LongestPiece.unique (hp : LongestPiece sep k l p) (hq : LongestPiece sep k l q) :
    p = q := by
  have hle := List.prefix_of_prefix_length_le hp.isPrefix hq.isPrefix (hq.longest p hp.toPieceOf)
  exact hle.eq_of_length_le (hp.longest q hq.toPieceOf)

theorem longestPiece_line {u r : List α} (hu : sep ∉ u) (hlength : u.length < k) :
    LongestPiece sep k (u ++ sep :: r) (u ++ [sep]) where
  isPrefix := ⟨r, by simp⟩
  length_le := by
    rw [List.length_append, List.length_singleton]
    exact hlength
  not_mem := by rwa [List.dropLast_concat]
  longest := by
    intro q hq
    by_contra hlonger
    -- A longer prefix contains the separator before its last element.
    have hpre : u ++ [sep] <+: u ++ sep :: r := ⟨r, by simp⟩
    obtain ⟨d, rfl⟩ := List.prefix_of_prefix_length_le hpre hq.isPrefix
      (Nat.le_of_not_le hlonger)
    have hd : d ≠ [] := by
      rintro rfl
      exact hlonger (by rw [List.append_nil])
    refine hq.not_mem ?_
    rw [List.dropLast_append_of_ne_nil hd]
    simp

theorem longestPiece_end (hl : sep ∉ l) (hlength : l.length ≤ k) : LongestPiece sep k l l where
  isPrefix := List.prefix_rfl
  length_le := hlength
  not_mem := fun hmem => hl (List.mem_of_mem_dropLast hmem)
  longest := fun _ hq => hq.isPrefix.length_le

theorem longestPiece_full {u r : List α} (hu : sep ∉ u) (hlength : u.length = k) :
    LongestPiece sep k (u ++ r) u where
  isPrefix := List.prefix_append u r
  length_le := hlength.le
  not_mem := fun hmem => hu (List.mem_of_mem_dropLast hmem)
  longest := fun _ hq => hlength ▸ hq.length_le

/-! ## Separators close to each other -/

/-- Every `k` consecutive elements contain a separator. -/
def Spaced (sep : α) (k : Nat) (l : List α) : Prop :=
  ∀ i, i + k ≤ l.length → sep ∈ (l.drop i).take k

theorem spaced_of_length_lt (h : l.length < k) : Spaced sep k l :=
  fun i hi => absurd (hi.trans_lt h) (by omega)

theorem not_spaced_of_full {u r : List α} (hu : sep ∉ u) (hlength : u.length = k) :
    ¬ Spaced sep k (u ++ r) := by
  intro hspaced
  have hmem := hspaced 0 (by rw [List.length_append]; omega)
  rw [List.drop_zero, ← hlength, List.take_left] at hmem
  exact hu hmem

theorem sep_mem_take_of_line {u r : List α} (hlength : u.length < k) :
    sep ∈ (u ++ sep :: r).take k := by
  rw [List.take_append]
  refine List.mem_append_right _ ?_
  obtain ⟨m, hm⟩ : ∃ m, k - u.length = m + 1 := ⟨k - u.length - 1, by omega⟩
  rw [hm, List.take_succ_cons]
  exact List.mem_cons_self

/-- A window that begins in a short line contains the separator at the end of this line. -/
theorem spaced_iff_of_line {u r : List α} (hlength : u.length < k) :
    Spaced sep k (u ++ sep :: r) ↔ Spaced sep k r := by
  have hline : u ++ sep :: r = (u ++ [sep]) ++ r := by simp
  constructor
  · intro hspaced i hi
    have hwindow : (u ++ [sep]).length + i + k ≤ (u ++ sep :: r).length := by
      simp only [hline, List.length_append]
      omega
    have hmem := hspaced ((u ++ [sep]).length + i) hwindow
    rwa [hline, ← List.drop_drop, List.drop_left] at hmem
  · intro hspaced i hi
    by_cases hin : i ≤ u.length
    · rw [List.drop_append_of_le_length hin]
      refine sep_mem_take_of_line ?_
      rw [List.length_drop]
      omega
    · obtain ⟨j, rfl⟩ : ∃ j, i = (u ++ [sep]).length + j :=
        ⟨i - (u ++ [sep]).length, by rw [List.length_append, List.length_singleton]; omega⟩
      rw [hline, ← List.drop_drop, List.drop_left]
      refine hspaced j ?_
      simp only [hline, List.length_append] at hi
      omega

end Lib
end LinuxLearn
