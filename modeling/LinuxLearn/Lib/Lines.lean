import Mathlib.Tactic

/-!
# Lines — texts made of terminated lines

A text file is a list of lines, each followed by a separator.  This file relates positions in the
text to positions in the list of lines, for lines that do not contain the separator:

- `unlines_injective`: the text determines its lines,
- `exists_of_unlines_eq_append`: a cut of the text right after a separator is a cut of the list,
- `overwrite`: replacing bytes of a file in place, from a given offset on.
-/

namespace LinuxLearn
namespace Lib

variable {α : Type*}

/-! ## Joining lines -/

/-- The text of a list of lines, each terminated by `sep`. -/
def unlines (sep : α) (ls : List (List α)) : List α :=
  ls.flatMap fun l => l ++ [sep]

@[simp] theorem unlines_nil (sep : α) : unlines sep [] = [] := rfl

@[simp] theorem unlines_cons (sep : α) (l : List α) (ls : List (List α)) :
    unlines sep (l :: ls) = l ++ sep :: unlines sep ls := by
  simp [unlines]

@[simp] theorem unlines_append (sep : α) (ls ms : List (List α)) :
    unlines sep (ls ++ ms) = unlines sep ls ++ unlines sep ms := by
  simp [unlines]

/-- Two separator-free prefixes that end at a separator are the same. -/
theorem append_sep_inj {sep : α} {l m r s : List α} (hl : sep ∉ l) (hm : sep ∉ m)
    (h : l ++ sep :: r = m ++ sep :: s) : l = m ∧ r = s := by
  -- One of the prefixes ends first only if the other one contains the separator.
  induction l generalizing m with
  | nil =>
      cases m with
      | nil => simpa using h
      | cons b m =>
          have hb : sep = b := by simpa using (List.cons.inj h).1
          exact absurd (hb ▸ List.mem_cons_self) hm
  | cons a l ih =>
      cases m with
      | nil =>
          have ha : a = sep := by simpa using (List.cons.inj h).1
          exact absurd (ha ▸ List.mem_cons_self) hl
      | cons b m =>
          have hcons := List.cons.inj h
          have hrec := ih (fun hmem => hl (List.mem_cons_of_mem _ hmem))
            (fun hmem => hm (List.mem_cons_of_mem _ hmem)) hcons.2
          exact ⟨by rw [hcons.1, hrec.1], hrec.2⟩

theorem unlines_injective {sep : α} {ls ms : List (List α)} (hls : ∀ l ∈ ls, sep ∉ l)
    (hms : ∀ l ∈ ms, sep ∉ l) (h : unlines sep ls = unlines sep ms) : ls = ms := by
  induction ls generalizing ms with
  | nil =>
      cases ms with
      | nil => rfl
      | cons m ms => simp at h
  | cons l ls ih =>
      cases ms with
      | nil => simp at h
      | cons m ms =>
          rw [unlines_cons, unlines_cons] at h
          have hsplit := append_sep_inj (hls l List.mem_cons_self) (hms m List.mem_cons_self) h
          have hrec := ih (fun l' hl' => hls l' (List.mem_cons_of_mem _ hl'))
            (fun l' hl' => hms l' (List.mem_cons_of_mem _ hl')) hsplit.2
          rw [hsplit.1, hrec]

/-- What follows some complete lines of a text consists of its other lines. -/
theorem exists_of_unlines_eq_append {sep : α} {ls pre : List (List α)} {r : List α}
    (hls : ∀ l ∈ ls, sep ∉ l) (hpre : ∀ l ∈ pre, sep ∉ l)
    (h : unlines sep ls = unlines sep pre ++ r) :
    ∃ post, ls = pre ++ post ∧ r = unlines sep post := by
  -- Line by line: the first line of the cut is the first line of the text.
  induction pre generalizing ls with
  | nil => exact ⟨ls, rfl, by simpa using h.symm⟩
  | cons p pre ih =>
      cases ls with
      | nil => simp at h
      | cons l ls =>
          rw [unlines_cons, unlines_cons, List.append_assoc, List.cons_append] at h
          have hsplit := append_sep_inj (hls l List.mem_cons_self) (hpre p List.mem_cons_self) h
          rcases ih (fun l' hl' => hls l' (List.mem_cons_of_mem _ hl'))
            (fun l' hl' => hpre l' (List.mem_cons_of_mem _ hl')) hsplit.2 with ⟨post, hpost, hr⟩
          exact ⟨post, by rw [hsplit.1, hpost, List.cons_append], hr⟩

/-! ## Overwriting in place -/

/-- The text after writing `w` at offset `o`; a write past the end lengthens the text. -/
def overwrite (text : List α) (o : Nat) (w : List α) : List α :=
  text.take o ++ w ++ text.drop (o + w.length)

theorem overwrite_append (x y w : List α) :
    overwrite (x ++ y) x.length w = x ++ w ++ y.drop w.length := by
  simp [overwrite]

/-- A write changes nothing exactly if the bytes are there already. -/
theorem overwrite_append_eq_self_iff (x y w : List α) :
    overwrite (x ++ y) x.length w = x ++ y ↔ w <+: y := by
  -- What remains of the text is compared from the offset on.
  rw [overwrite_append, List.append_assoc, List.append_cancel_left_eq]
  constructor
  · intro h
    exact ⟨_, h⟩
  · rintro ⟨z, rfl⟩
    simp

end Lib
end LinuxLearn
