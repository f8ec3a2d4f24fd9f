import LinuxLearn.Lib.Lines
import LinuxLearn.Lib.Text

/-!
# CArray — C strings in arrays of fixed size

`strcpy` and `strcat` write the bytes of a string and a zero into an array that has to be large
enough.  `Holds a w` says that the array `a` holds the string `w`; `foldlM_strcat` says what a
sequence of appends leaves in an array, and that it fits exactly if all bytes together do.
-/

namespace LinuxLearn
namespace Lib

/-- The position of the first zero, or the size of an array without one. -/
def strlen (a : Text) : Nat :=
  a.idxOf 0

/-- The string and its zero, from offset `o` on; `none` if they do not fit. -/
def putString (a : Text) (o : Nat) (w : Text) : Option Text :=
  if o + w.length < a.length then some (overwrite a o (w ++ [0])) else none

def strcpy (a w : Text) : Option Text :=
  putString a 0 w

/-- An array without a zero has no room left. -/
def strcat (a w : Text) : Option Text :=
  putString a (strlen a) w

/-- `memset(a, 0, n)` -/
def cleared (n : Nat) : Text :=
  List.replicate n 0

/-! ## What an array holds -/

def Holds (a w : Text) : Prop :=
  ∃ rest, a = w ++ 0 :: rest ∧ (0 : UInt8) ∉ w

variable {a v w : Text}

theorem Holds.strlen_eq (h : Holds a w) : strlen a = w.length := by
  rcases h with ⟨rest, rfl, hzero⟩
  rw [strlen, List.idxOf_append, if_neg hzero]
  simp

theorem Holds.stringIn_eq (h : Holds a w) : stringIn a = w := by
  rcases h with ⟨rest, rfl, hzero⟩
  exact stringIn_zero hzero rest

/-- What stands behind a zero is not seen. -/
theorem stringIn_append_of_mem (h : (0 : UInt8) ∈ a) (rest : Text) :
    stringIn (a ++ rest) = stringIn a := by
  rcases List.eq_append_cons_of_mem h with ⟨u, v, rfl, hu⟩
  rw [List.append_assoc, List.cons_append, stringIn_zero hu, stringIn_zero hu]

theorem stringIn_append_zero (a rest : Text) : stringIn (a ++ 0 :: rest) = stringIn a := by
  by_cases h : (0 : UInt8) ∈ a
  · exact stringIn_append_of_mem h (0 :: rest)
  · rw [stringIn_zero h, stringIn_of_not_mem h]

theorem Holds.length_lt (h : Holds a w) : w.length < a.length := by
  rcases h with ⟨rest, rfl, _⟩
  simp

theorem length_cleared (n : Nat) : (cleared n).length = n :=
  List.length_replicate

theorem holds_cleared {n : Nat} (hn : 0 < n) : Holds (cleared n) [] := by
  cases n with
  | zero => exact absurd hn (Nat.lt_irrefl 0)
  | succ n => exact ⟨cleared n, rfl, List.not_mem_nil⟩

/-! ## Writing strings -/

theorem strcat_eq_none (h : Holds a v) (hw : a.length ≤ v.length + w.length) :
    strcat a w = none := by
  rw [strcat, h.strlen_eq, putString, if_neg (Nat.not_lt.2 hw)]

theorem strcat_eq_some (h : Holds a v) (hw : (0 : UInt8) ∉ w)
    (hfits : v.length + w.length < a.length) :
    ∃ b, strcat a w = some b ∧ b.length = a.length ∧ Holds b (v ++ w) := by
  refine ⟨_, by rw [strcat, h.strlen_eq, putString, if_pos hfits], ?_, ?_⟩
  · simp only [overwrite, List.length_append, List.length_take, List.length_drop, List.length_cons,
      List.length_nil]
    omega
  · -- The new bytes start where the old zero was.
    rcases h with ⟨rest, rfl, hv⟩
    refine ⟨(0 :: rest).drop (w ++ [0]).length, ?_, ?_⟩
    · rw [overwrite_append]
      simp only [List.append_assoc, List.singleton_append]
    · rw [List.mem_append]
      exact fun hmem => hmem.elim hv hw

theorem strcpy_eq_none (hw : a.length ≤ w.length) : strcpy a w = none := by
  rw [strcpy, putString, Nat.zero_add, if_neg (Nat.not_lt.2 hw)]

theorem strcpy_eq_some (hw : (0 : UInt8) ∉ w) (hfits : w.length < a.length) :
    ∃ b, strcpy a w = some b ∧ b.length = a.length ∧ Holds b w := by
  refine ⟨_, by rw [strcpy, putString, Nat.zero_add, if_pos hfits], ?_, ?_⟩
  · simp only [overwrite, List.length_append, List.length_take, List.length_drop, List.length_cons,
      List.length_nil]
    omega
  · exact ⟨a.drop (w ++ [0]).length, by simp [overwrite], hw⟩

/-- Strings appended one after the other fit exactly if all of them together do. -/
theorem foldlM_strcat (h : Holds a v) {ws : List Text} (hws : ∀ w ∈ ws, (0 : UInt8) ∉ w) :
    (v.length + ws.flatten.length < a.length ∧
        ∃ b, ws.foldlM strcat a = some b ∧ b.length = a.length ∧ Holds b (v ++ ws.flatten)) ∨
      (a.length ≤ v.length + ws.flatten.length ∧ ws.foldlM strcat a = none) := by
  induction ws generalizing a v with
  | nil =>
      refine Or.inl ⟨by simpa using h.length_lt, a, rfl, rfl, ?_⟩
      simpa using h
  | cons w ws ih =>
      have hw := hws w List.mem_cons_self
      have hlength : v.length + (w :: ws).flatten.length =
          (v ++ w).length + ws.flatten.length := by
        simp [Nat.add_assoc]
      rw [hlength, List.foldlM_cons]
      by_cases hfits : v.length + w.length < a.length
      · rcases strcat_eq_some h hw hfits with ⟨b, hb, hsize, hholds⟩
        rw [hb, ← hsize]
        simpa using ih hholds fun w' hw' => hws w' (List.mem_cons_of_mem _ hw')
      · -- What does not fit now does not fit with more behind it.
        right
        rw [strcat_eq_none h (Nat.not_lt.1 hfits)]
        refine ⟨?_, rfl⟩
        rw [List.length_append]
        omega

/-- `a[strlen(a) - 1] = 0` of an array that holds some byte. -/
theorem Holds.set_last (h : Holds a w) (hw : w ≠ []) :
    Holds (a.set (strlen a - 1) 0) w.dropLast := by
  rw [h.strlen_eq]
  rcases h with ⟨rest, rfl, hzero⟩
  rcases List.eq_nil_or_concat w with rfl | ⟨u, c, rfl⟩
  · exact absurd rfl hw
  · rw [List.concat_eq_append] at hzero ⊢
    refine ⟨0 :: rest, ?_, ?_⟩
    · simp
    · rw [List.dropLast_concat]
      exact fun hmem => hzero (List.mem_append_left _ hmem)

end Lib
end LinuxLearn
