import Mathlib.Data.List.Basic

/-!
# RoundCipher — ciphers of keyed rounds

A round substitutes, mixes and adds a key; the last one does not mix.  Where the mixing respects the
addition, the inverse cipher has the same shape: it takes the keys backwards, those of the middle
rounds mixed, and so undoes the cipher (`cipher_cipher`).
-/

namespace LinuxLearn
namespace Lib

/-- What the rounds are made of. -/
structure Layers (α : Type*) where
  add : α → α → α
  sub : α → α
  mix : α → α

namespace Layers

variable {α : Type*}

def rounds (C : Layers α) : List α → α → α
  | [], x => x
  | k :: ks, x => rounds C ks (C.add k (C.mix (C.sub x)))

def cipher (C : Layers α) (first : α) (middle : List α) (last : α) (x : α) : α :=
  C.add last (C.sub (C.rounds middle (C.add first x)))

/-- The layers of `D` undo those of `C`. -/
structure Undoes (D C : Layers α) : Prop where
  add : D.add = C.add
  cancel : ∀ k x, C.add k (C.add k x) = x
  sub : ∀ x, D.sub (C.sub x) = x
  mix : ∀ x, D.mix (C.mix x) = x
  mix_add : ∀ x y, D.mix (C.add x y) = C.add (D.mix x) (D.mix y)

variable {C D : Layers α}

theorem rounds_append (C : Layers α) (ks ls : List α) (x : α) :
    C.rounds (ks ++ ls) x = C.rounds ls (C.rounds ks x) := by
  induction ks generalizing x with
  | nil => rfl
  | cons k ks ih => exact ih _

/-- The inverse rounds lead from the state before the last substitution to the first one. -/
theorem rounds_rounds (h : D.Undoes C) (ks : List α) (x : α) :
    D.rounds (ks.reverse.map D.mix) (C.sub (C.rounds ks x)) = C.sub x := by
  induction ks generalizing x with
  | nil => rfl
  | cons k ks ih =>
      rw [List.reverse_cons, List.map_append, rounds_append, rounds, ih]
      calc D.rounds [D.mix k] (C.sub (C.add k (C.mix (C.sub x))))
          = C.add (D.mix k) (D.mix (D.sub (C.sub (C.add k (C.mix (C.sub x)))))) := by
            rw [← h.add]
            rfl
        _ = C.add (D.mix k) (C.add (D.mix k) (D.mix (C.mix (C.sub x)))) := by
            rw [h.sub, h.mix_add]
        _ = C.sub x := by rw [h.cancel, h.mix]

theorem cipher_cipher (h : D.Undoes C) (first : α) (middle : List α) (last x : α) :
    D.cipher last (middle.reverse.map D.mix) first (C.cipher first middle last x) = x := by
  rw [cipher, cipher, h.add, h.cancel, rounds_rounds h, h.sub, h.cancel]

end Layers

end Lib
end LinuxLearn
