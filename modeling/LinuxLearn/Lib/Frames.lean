import Mathlib.Tactic

/-!
# Frames — records in frames of one size

A sender pads each record to a fixed size and sends the frames one after the other.  What a
receiver has not read yet is then the rest of a frame followed by whole frames.
-/

namespace LinuxLearn
namespace Lib

variable {α : Type*}

/-- The record, filled up with `pad` to `size` elements. -/
def frame (size : Nat) (pad : α) (r : List α) : List α :=
  r ++ List.replicate (size - r.length) pad

def frames (size : Nat) (pad : α) (rs : List (List α)) : List α :=
  rs.flatMap (frame size pad)

variable {size : Nat} {pad : α}

theorem length_frame {r : List α} (h : r.length ≤ size) : (frame size pad r).length = size := by
  simp [frame, h]

theorem length_frames {rs : List (List α)} (h : ∀ r ∈ rs, r.length ≤ size) :
    (frames size pad rs).length = size * rs.length := by
  induction rs with
  | nil => simp [frames]
  | cons r rs ih =>
      have hr : (frame size pad r).length = size := length_frame (h r List.mem_cons_self)
      have hrec := ih fun r' hr' => h r' (List.mem_cons_of_mem _ hr')
      have hcons : frames size pad (r :: rs) = frame size pad r ++ frames size pad rs := by
        simp [frames]
      rw [hcons, List.length_append, hr, hrec, List.length_cons, Nat.mul_add_one, Nat.add_comm]

/-- A cut of the first frame behind its record. -/
theorem frames_eq_append {r : List α} {rs : List (List α)} {n : Nat} (hr : r.length ≤ n)
    (hn : n ≤ size) :
    frames size pad (r :: rs) =
      (r ++ List.replicate (n - r.length) pad) ++
        (List.replicate (size - n) pad ++ frames size pad rs) := by
  -- The padding is cut in two at position `n`.
  have hsplit : size - r.length = (n - r.length) + (size - n) := by omega
  rw [frames, List.flatMap_cons, frame, hsplit, List.replicate_add, frames]
  simp only [List.append_assoc]

theorem take_frames {r : List α} {rs : List (List α)} {n : Nat} (hr : r.length ≤ n)
    (hn : n ≤ size) :
    (frames size pad (r :: rs)).take n = r ++ List.replicate (n - r.length) pad := by
  rw [frames_eq_append hr hn]
  exact List.take_left' (by simp [hr])

theorem drop_frames {r : List α} {rs : List (List α)} {n : Nat} (hr : r.length ≤ n)
    (hn : n ≤ size) :
    (frames size pad (r :: rs)).drop n =
      List.replicate (size - n) pad ++ frames size pad rs := by
  rw [frames_eq_append hr hn]
  exact List.drop_left' (by simp [hr])

/-- The position in the current frame, and the number of whole frames, as lengths tell them. -/
theorem length_rest {k : Nat} {rs : List (List α)} (h : ∀ r ∈ rs, r.length ≤ size)
    (hk : k < size) :
    (List.replicate k pad ++ frames size pad rs).length % size = k ∧
      (List.replicate k pad ++ frames size pad rs).length / size = rs.length := by
  have hpos : 0 < size := Nat.lt_of_le_of_lt (Nat.zero_le k) hk
  -- Whole frames vanish modulo their size.
  rw [List.length_append, List.length_replicate, length_frames h]
  refine ⟨?_, ?_⟩
  · rw [Nat.add_mul_mod_self_left, Nat.mod_eq_of_lt hk]
  · rw [Nat.add_mul_div_left _ _ hpos, Nat.div_eq_of_lt hk, Nat.zero_add]

end Lib
end LinuxLearn
