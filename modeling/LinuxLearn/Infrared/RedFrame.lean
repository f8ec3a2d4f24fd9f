import LinuxLearn.Lib.Text

/-!
# RedFrame — the infrared frame of the air conditioner

`ctl_word_handle` of `gree_fifo_client.c` changes single fields of the 34-byte frame `redF0`.  The
frame has two halves, each with a check nibble in its last byte: the low nibble of a sum over every
other byte of the half.  Each command recomputes the nibbles that it thinks it has changed.

Elements of `redF0` are `char`s.  The frame keeps their bytes, and `Target` says whether the
compiler's `char` is signed.
-/

namespace LinuxLearn
namespace Infrared

open Lib

/-! ## Characters -/

structure Target where
  charIsSigned : Bool
  deriving DecidableEq, Repr

/-- The value of a `char` in an expression. -/
def Target.promote (T : Target) (c : UInt8) : Int :=
  if T.charIsSigned then c.toInt8.toInt else c.toNat

/-- The byte that is stored when an `int` is assigned to a `char`. -/
def toChar (n : Int) : UInt8 :=
  UInt8.ofInt n

/-! ## The frame -/

abbrev Frame := Vector UInt8 34

abbrev BUFFER_SIZE_PIPE : Nat := 20
abbrev CNTL_WORD_NUMS : Nat := 7

/-- The control words; the other four entries of the array are null. -/
def ctrlWord : List Text :=
  ["pow", "mode", "windsped", "temp", "left_right", "up_down", "sleep"].map ascii

section Checks

variable (T : Target) (redF0 : Frame)

/-- The right-hand side of the assignments to `redF0[16]`; `& 0x0f` is the remainder modulo 16,
also of a negative sum. -/
def firstCheck : Int :=
  (T.promote redF0[0] + T.promote redF0[2] + T.promote redF0[4] + T.promote redF0[6] +
    T.promote redF0[8] + T.promote redF0[10] + T.promote redF0[12] + T.promote redF0[14] + 8) % 16

/-- The right-hand side of the assignments to `redF0[33]`. -/
def secondCheck : Int :=
  (T.promote redF0[17] + T.promote redF0[19] + T.promote redF0[21] + T.promote redF0[23] +
    T.promote redF0[25] + T.promote redF0[27] + T.promote redF0[29] + T.promote redF0[31] + 8) % 16

def setFirstCheck : Frame :=
  redF0.set 16 (toChar (firstCheck T redF0))

def setSecondCheck : Frame :=
  redF0.set 33 (toChar (secondCheck T redF0))

/-! ## Commands -/

/-- Case 2: both halves hold the wind speed. -/
def windSpeed (status : UInt8) : Frame :=
  let wind := T.promote redF0[31] % 8
  if wind < 4 ∧ status = 1 then
    (redF0.set 1 (redF0[1] + 1)).set 31 (redF0[31] + 1)
  else if 4 ≤ wind ∧ wind < 8 ∧ status = 1 then
    redF0.set 31 (redF0[31] + 1)
  else if wind ≤ 4 ∧ status = 0 then
    (redF0.set 1 (redF0[1] - 1)).set 31 (redF0[31] - 1)
  -- The branch before with the same status takes every such case.
  else if 4 < wind ∧ wind < 8 ∧ status = 1 then
    redF0.set 31 (redF0[31] - 1)
  else redF0

/-- Case 3. -/
def temperature (status : UInt8) : Frame :=
  if status = 1 then redF0.set 2 (redF0[2] + 1)
  else if status = 0 then redF0.set 2 (redF0[2] - 1)
  else redF0

/-- The `switch` over the index of the control word. -/
def handleWord (handleIndex : Nat) (status : UInt8) : Frame :=
  match handleIndex with
  | 0 => setFirstCheck T (redF0.set 0 (status <<< 3))
  | 1 => setFirstCheck T (redF0.set 0 ((redF0[0] &&& 0x08) ||| (status &&& 0x07)))
  | 2 => setSecondCheck T (setFirstCheck T (windSpeed T redF0 status))
  | 3 => setFirstCheck T (temperature redF0 status)
  -- Bytes 9 and 1 are in neither sum.
  | 4 => redF0.set 9 (status &&& 0x01)
  | 5 => setFirstCheck T (redF0.set 10 (status &&& 0x01))
  | 6 => redF0.set 1 (((status &&& 0x01) <<< 3) ||| (redF0[1] &&& 0x07))
  | _ => redF0

/-- The value returned and the frame afterwards. -/
def ctlWordHandle (word : Text) (status : UInt8) : Int × Frame :=
  let buffer := stringIn (word.take BUFFER_SIZE_PIPE)
  match (ctrlWord.take CNTL_WORD_NUMS).findIdx? fun w => buffer == w with
  | none => (-1, redF0)
  | some handleIndex => (0, handleWord T redF0 handleIndex status)

end Checks

/-- A command from the pipe. -/
structure Command where
  word : Text
  status : UInt8
  deriving DecidableEq, Repr

/-- The frame after some commands, accepted or rejected. -/
def handleAll (T : Target) (redF0 : Frame) (commands : List Command) : Frame :=
  commands.foldl (fun f c => (ctlWordHandle T f c.word c.status).2) redF0

/-! ## The checks stay right -/

/-- Both check nibbles are right. -/
structure ChecksRight (T : Target) (redF0 : Frame) : Prop where
  first : T.promote redF0[16] = firstCheck T redF0
  second : T.promote redF0[33] = secondCheck T redF0

/-- A nibble keeps its value when it is stored. -/
theorem promote_toChar (T : Target) {n : Int} (h0 : 0 ≤ n) (h16 : n < 16) :
    T.promote (toChar n) = n := by
  rcases T with ⟨signed⟩
  interval_cases n <;> cases signed <;> rfl

/-- Bytes that the first sum does not read. -/
theorem first_set {T : Target} {f : Frame} {i : Nat} (hi : i < 34) (x : UInt8)
    (h : i % 2 = 1 ∨ 16 < i) :
    T.promote (f.set i x)[16] = firstCheck T (f.set i x) ↔ T.promote f[16] = firstCheck T f := by
  have hne : ∀ (j : Nat) (hj : j < 34), j % 2 = 0 → j ≤ 16 → (f.set i x)[j] = f[j] := by
    intro j hj heven hle
    exact Vector.getElem_set_ne hi hj (by omega)
  simp only [firstCheck, hne, Nat.reduceMod, Nat.reduceLeDiff]

/-- Bytes that the second sum does not read. -/
theorem second_set {T : Target} {f : Frame} {i : Nat} (hi : i < 34) (x : UInt8)
    (h : i < 17 ∨ i % 2 = 0) :
    T.promote (f.set i x)[33] = secondCheck T (f.set i x) ↔ T.promote f[33] = secondCheck T f := by
  have hne : ∀ (j : Nat) (hj : j < 34), j % 2 = 1 → 17 ≤ j → (f.set i x)[j] = f[j] := by
    intro j hj hodd hle
    exact Vector.getElem_set_ne hi hj (by omega)
  simp only [secondCheck, hne, Nat.reduceMod, Nat.reduceLeDiff]

theorem first_setFirstCheck (T : Target) (f : Frame) :
    T.promote (setFirstCheck T f)[16] = firstCheck T (setFirstCheck T f) := by
  have hself : (setFirstCheck T f)[16] = toChar (firstCheck T f) :=
    Vector.getElem_set_self (by decide)
  have hne : ∀ (j : Nat) (hj : j < 34), j < 16 → (setFirstCheck T f)[j] = f[j] := by
    intro j hj hlt
    exact Vector.getElem_set_ne (by decide) hj (by omega)
  have hcheck : firstCheck T (setFirstCheck T f) = firstCheck T f := by
    simp only [firstCheck, hne, Nat.reduceLT]
  rw [hself, hcheck]
  exact promote_toChar T (Int.emod_nonneg _ (by decide)) (Int.emod_lt_of_pos _ (by decide))

theorem second_setSecondCheck (T : Target) (f : Frame) :
    T.promote (setSecondCheck T f)[33] = secondCheck T (setSecondCheck T f) := by
  have hself : (setSecondCheck T f)[33] = toChar (secondCheck T f) :=
    Vector.getElem_set_self (by decide)
  have hne : ∀ (j : Nat) (hj : j < 34), j < 33 → (setSecondCheck T f)[j] = f[j] := by
    intro j hj hlt
    exact Vector.getElem_set_ne (by decide) hj (by omega)
  have hcheck : secondCheck T (setSecondCheck T f) = secondCheck T f := by
    simp only [secondCheck, hne, Nat.reduceLT]
  rw [hself, hcheck]
  exact promote_toChar T (Int.emod_nonneg _ (by decide)) (Int.emod_lt_of_pos _ (by decide))

section Commands

variable {T : Target} {f : Frame}

/-- Commands that change the first half and recompute its nibble. -/
theorem checksRight_setFirstCheck (h : T.promote f[33] = secondCheck T f) :
    ChecksRight T (setFirstCheck T f) :=
  ⟨first_setFirstCheck T f, (second_set (by decide) _ (Or.inl (by decide))).2 h⟩

/-- Commands that recompute both nibbles, whatever they have changed. -/
theorem checksRight_setBoth : ChecksRight T (setSecondCheck T (setFirstCheck T f)) :=
  ⟨(first_set (by decide) _ (Or.inr (by decide))).2 (first_setFirstCheck T f),
    second_setSecondCheck T _⟩

theorem second_temperature (h : T.promote f[33] = secondCheck T f) (status : UInt8) :
    T.promote (temperature f status)[33] = secondCheck T (temperature f status) := by
  unfold temperature
  split
  · exact (second_set (by decide) _ (Or.inl (by decide))).2 h
  split
  · exact (second_set (by decide) _ (Or.inl (by decide))).2 h
  · exact h

/-- One case for each control word. -/
theorem checksRight_handleWord (h : ChecksRight T f) (handleIndex : Nat) (status : UInt8) :
    ChecksRight T (handleWord T f handleIndex status) := by
  unfold handleWord
  split
  · exact checksRight_setFirstCheck ((second_set (by decide) _ (Or.inl (by decide))).2 h.second)
  · exact checksRight_setFirstCheck ((second_set (by decide) _ (Or.inl (by decide))).2 h.second)
  · exact checksRight_setBoth
  · exact checksRight_setFirstCheck (second_temperature h.second status)
  · exact ⟨(first_set (by decide) _ (Or.inl rfl)).2 h.first,
      (second_set (by decide) _ (Or.inl (by decide))).2 h.second⟩
  · exact checksRight_setFirstCheck ((second_set (by decide) _ (Or.inl (by decide))).2 h.second)
  · exact ⟨(first_set (by decide) _ (Or.inl rfl)).2 h.first,
      (second_set (by decide) _ (Or.inl (by decide))).2 h.second⟩
  · exact h

theorem checksRight_ctlWordHandle (h : ChecksRight T f) (word : Text) (status : UInt8) :
    ChecksRight T (ctlWordHandle T f word status).2 := by
  rw [ctlWordHandle]
  split
  · exact h
  · exact checksRight_handleWord h _ status

/-- A frame whose check nibbles are right keeps them right over every sequence of commands. -/
theorem checks_stay_right (h : ChecksRight T f) (commands : List Command) :
    ChecksRight T (handleAll T f commands) := by
  induction commands generalizing f with
  | nil => exact h
  | cons c commands ih => exact ih (checksRight_ctlWordHandle h c.word c.status)

end Commands

/-- All fields zero. -/
def zeroFrame : Frame :=
  (Vector.replicate 34 0).set 16 8 |>.set 33 8

theorem zero_frame_stays_right :
    ChecksRight ⟨true⟩ (handleAll ⟨true⟩ zeroFrame
      [⟨ascii "windsped", 1⟩, ⟨ascii "fan", 1⟩, ⟨ascii "temp", 0⟩]) :=
  checks_stay_right ⟨by decide, by decide⟩ _

/-! ## The wind speed -/

/-- `redF0[31] & 7` -/
def level (f : Frame) : Nat :=
  f[31].toNat % 8

/-- The other five bits of `redF0[31]`. -/
def upperBits (f : Frame) : Nat :=
  f[31].toNat / 8

theorem level_succ {f f' : Frame} (h : f'[31] = f[31] + 1) :
    (level f ≠ 7 → level f' = level f + 1 ∧ upperBits f' = upperBits f) ∧
      (level f = 7 → level f' = 0) := by
  have hadd : f'[31].toNat = (f[31].toNat + 1) % 256 := by
    rw [h, UInt8.toNat_add]
    rfl
  have hlt := f[31].toNat_lt
  unfold level upperBits
  rw [hadd]
  omega

theorem level_pred {f f' : Frame} (h : f'[31] = f[31] - 1) :
    (level f ≠ 0 → level f = level f' + 1 ∧ upperBits f' = upperBits f) ∧
      (level f = 0 → level f' = 7) := by
  have hsub : f'[31].toNat = (255 + f[31].toNat) % 256 := by
    rw [h, UInt8.toNat_sub]
    rfl
  have hlt := f[31].toNat_lt
  unfold level upperBits
  rw [hsub]
  omega

theorem level_same {f f' : Frame} (h : f'[31] = f[31]) :
    level f' = level f ∧ upperBits f' = upperBits f := by
  unfold level upperBits
  rw [h]
  exact ⟨rfl, rfl⟩

theorem promote_emod (T : Target) (c : UInt8) : T.promote c % 8 = (c.toNat % 8 : Nat) := by
  rcases T with ⟨signed⟩
  cases signed with
  | false => simp [Target.promote]
  | true =>
      have hbits : c.toInt8.toInt = c.toBitVec.toInt := rfl
      have hnat : c.toBitVec.toNat = c.toNat := rfl
      simp only [Target.promote, if_true, hbits, BitVec.toInt_eq_toNat_cond, hnat]
      split <;> omega

/-- The branches that are taken: the last one of the source is not. -/
theorem windSpeed_eq (T : Target) (f : Frame) (status : UInt8) :
    windSpeed T f status =
      if status = 1 then
        if level f < 4 then (f.set 1 (f[1] + 1)).set 31 (f[31] + 1) else f.set 31 (f[31] + 1)
      else if status = 0 ∧ level f ≤ 4 then (f.set 1 (f[1] - 1)).set 31 (f[31] - 1)
      else f := by
  have hwind : T.promote f[31] % 8 = (level f : Int) := promote_emod T f[31]
  have hlevel : level f < 8 := Nat.mod_lt _ (by decide)
  have hne : (0 : UInt8) ≠ 1 := by decide
  by_cases hup : status = 1
  · subst hup
    by_cases hlow : level f < 4
    · simp [windSpeed, hwind, hlow]
    · have hhigh : 4 ≤ level f := Nat.le_of_not_lt hlow
      simp [windSpeed, hwind, hlow, hhigh, hlevel]
  · by_cases hdown : status = 0
    · subst hdown
      by_cases hlow : level f ≤ 4
      · simp [windSpeed, hwind, hlow]
      · simp [windSpeed, hwind, hlow]
    · simp [windSpeed, hup, hdown]

section Bytes

variable (T : Target) (f : Frame) (status : UInt8)

theorem windSpeed_31 :
    (windSpeed T f status)[31] =
      if status = 1 then f[31] + 1
      else if status = 0 ∧ level f ≤ 4 then f[31] - 1
      else f[31] := by
  rw [windSpeed_eq]
  by_cases hup : status = 1
  · by_cases hlow : level f < 4 <;> simp [hup, hlow]
  · by_cases hdown : status = 0 ∧ level f ≤ 4
    · simp only [if_neg hup, if_pos hdown, Vector.getElem_set_self]
    · simp only [if_neg hup, if_neg hdown]

theorem windSpeed_1 :
    (windSpeed T f status)[1] =
      if status = 1 then (if level f < 4 then f[1] + 1 else f[1])
      else if status = 0 ∧ level f ≤ 4 then f[1] - 1
      else f[1] := by
  rw [windSpeed_eq]
  by_cases hup : status = 1
  · by_cases hlow : level f < 4 <;> simp [hup, hlow]
  · by_cases hdown : status = 0 ∧ level f ≤ 4
    · simp only [if_neg hup, if_pos hdown]
      simp
    · simp only [if_neg hup, if_neg hdown]

theorem windSpeed_other {i : Nat} (hi : i < 34) (h1 : i ≠ 1) (h31 : i ≠ 31) :
    (windSpeed T f status)[i] = f[i] := by
  rw [windSpeed_eq]
  split
  · split <;> simp [h1.symm, h31.symm]
  · split <;> simp [h1.symm, h31.symm]

end Bytes

end Infrared
end LinuxLearn
