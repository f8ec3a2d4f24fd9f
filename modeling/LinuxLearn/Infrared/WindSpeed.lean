import LinuxLearn.Infrared.RedFrame

/-!
# WindSpeed — runs of wind speed commands

The low three bits of `redF0[31]` are the wind speed.  Counting up at level 7 or down at level 0
carries into the other bits of the byte.  The branch for counting down above level 4 tests for the
wrong status, so an up command beyond level 4 is not taken back.  `windLaw_iff` says that nothing
else goes wrong.
-/

namespace LinuxLearn
namespace Infrared

open Lib

/-! ## One command -/

/-- The frame after one wind speed command. -/
def windCommand (T : Target) (f : Frame) (status : UInt8) : Frame :=
  handleWord T f 2 status

theorem ctlWordHandle_windsped (T : Target) (f : Frame) (status : UInt8) :
    ctlWordHandle T f (ascii "windsped") status = (0, windCommand T f status) := by
  have hfind : (ctrlWord.take CNTL_WORD_NUMS).findIdx?
      (fun w => stringIn ((ascii "windsped").take BUFFER_SIZE_PIPE) == w) = some 2 := by decide
  rw [ctlWordHandle, hfind]
  rfl

theorem promote_injective (T : Target) {c d : UInt8} (h : T.promote c = T.promote d) : c = d := by
  apply UInt8.toNat_inj.1
  have hc := c.toNat_lt
  have hd := d.toNat_lt
  rcases T with ⟨signed⟩
  cases signed with
  | false =>
      simp only [Target.promote, Bool.false_eq_true, if_false] at h
      omega
  | true =>
      have hbits : ∀ x : UInt8, x.toInt8.toInt = x.toBitVec.toInt := fun _ => rfl
      have hnat : ∀ x : UInt8, x.toBitVec.toNat = x.toNat := fun _ => rfl
      simp only [Target.promote, if_true, hbits, BitVec.toInt_eq_toNat_cond, hnat] at h
      split at h <;> split at h <;> omega

section Bytes

variable (T : Target) (f : Frame) (status : UInt8)

theorem windCommand_getElem {i : Nat} (hi : i < 34) (h16 : i ≠ 16) (h33 : i ≠ 33) :
    (windCommand T f status)[i] = (windSpeed T f status)[i] := by
  have hsecond : (windCommand T f status)[i] =
      (setFirstCheck T (windSpeed T f status))[i] := Vector.getElem_set_ne (by decide) hi h33.symm
  exact hsecond.trans (Vector.getElem_set_ne (by decide) hi h16.symm)

end Bytes

/-- One command moves the level by one at most and touches nothing but level, fan and checks. -/
structure WindStep (f f' : Frame) : Prop where
  near : level f' ≤ level f + 1 ∧ level f ≤ level f' + 1
  upper : upperBits f' = upperBits f
  others : ∀ (i : Nat) (hi : i < 34), i ≠ 1 → i ≠ 16 → i ≠ 31 → i ≠ 33 → f'[i] = f[i]

/-- Only the two ends of the range go wrong. -/
theorem windStep_iff (T : Target) (f : Frame) (status : UInt8) :
    WindStep f (windCommand T f status) ↔
      ¬ (status = 1 ∧ level f = 7) ∧ ¬ (status = 0 ∧ level f = 0) := by
  have hbyte : (windCommand T f status)[31] = (windSpeed T f status)[31] :=
    windCommand_getElem T f status (by decide) (by decide) (by decide)
  have hothers : ∀ (i : Nat) (hi : i < 34), i ≠ 1 → i ≠ 16 → i ≠ 31 → i ≠ 33 →
      (windCommand T f status)[i] = f[i] := by
    intro i hi h1 h16 h31 h33
    rw [windCommand_getElem T f status hi h16 h33, windSpeed_other T f status hi h1 h31]
  rw [windSpeed_31] at hbyte
  by_cases hup : status = 1
  · rw [if_pos hup] at hbyte
    have hne : ¬ status = 0 := by
      rw [hup]
      decide
    rcases level_succ hbyte with ⟨hstep, hcarry⟩
    by_cases hseven : level f = 7
    · refine iff_of_false (fun h => ?_) fun h => h.1 ⟨hup, hseven⟩
      have hnear := h.near.2
      rw [hcarry hseven, hseven] at hnear
      exact absurd hnear (by decide)
    · rcases hstep hseven with ⟨hlevel, hupper⟩
      exact iff_of_true ⟨by omega, hupper, hothers⟩ ⟨fun h => hseven h.2, fun h => hne h.1⟩
  · rw [if_neg hup] at hbyte
    by_cases hdown : status = 0 ∧ level f ≤ 4
    · rw [if_pos hdown] at hbyte
      rcases level_pred hbyte with ⟨hstep, hborrow⟩
      by_cases hzero : level f = 0
      · refine iff_of_false (fun h => ?_) fun h => h.2 ⟨hdown.1, hzero⟩
        have hnear := h.near.1
        rw [hborrow hzero, hzero] at hnear
        exact absurd hnear (by decide)
      · rcases hstep hzero with ⟨hlevel, hupper⟩
        exact iff_of_true ⟨by omega, hupper, hothers⟩ ⟨fun h => hup h.1, fun h => hzero h.2⟩
    · rw [if_neg hdown] at hbyte
      rcases level_same hbyte with ⟨hlevel, hupper⟩
      refine iff_of_true ⟨by omega, hupper, hothers⟩ ⟨fun h => hup h.1, fun h => hdown ⟨h.1, ?_⟩⟩
      rw [h.2]
      exact Nat.zero_le 4

theorem level_up (T : Target) {f : Frame} (hseven : level f ≠ 7) :
    level (windCommand T f 1) = level f + 1 := by
  have hbyte : (windCommand T f 1)[31] = f[31] + 1 := by
    rw [windCommand_getElem T f 1 (by decide) (by decide) (by decide), windSpeed_31, if_pos rfl]
  exact ((level_succ hbyte).1 hseven).1

/-! ## Taking a command back -/

/-- The checks follow from the other bytes. -/
theorem eq_of_checksRight {T : Target} {f g : Frame} (hf : ChecksRight T f) (hg : ChecksRight T g)
    (h : ∀ (i : Nat) (hi : i < 34), i ≠ 16 → i ≠ 33 → f[i] = g[i]) : f = g := by
  have hfirst : firstCheck T f = firstCheck T g := by
    unfold firstCheck
    rw [h 0, h 2, h 4, h 6, h 8, h 10, h 12, h 14] <;> decide
  have hsecond : secondCheck T f = secondCheck T g := by
    unfold secondCheck
    rw [h 17, h 19, h 21, h 23, h 25, h 27, h 29, h 31] <;> decide
  apply Vector.ext
  intro i hi
  by_cases h16 : i = 16
  · subst h16
    exact promote_injective T (hf.first.trans (hfirst.trans hg.first.symm))
  by_cases h33 : i = 33
  · subst h33
    exact promote_injective T (hf.second.trans (hsecond.trans hg.second.symm))
  exact h i hi h16 h33

/-- An up command that raises the level is taken back by a down command up to level 3. -/
theorem restored_iff {T : Target} {f : Frame} (hchecks : ChecksRight T f) (hseven : level f ≠ 7) :
    windCommand T (windCommand T f 1) 0 = f ↔ level f < 4 := by
  have hne : ¬ (0 : UInt8) = 1 := by decide
  have hsame : ∀ (g : Frame) (status : UInt8) (i : Nat) (hi : i < 34), i ≠ 16 → i ≠ 33 →
      (windCommand T g status)[i] = (windSpeed T g status)[i] := fun g status i hi h16 h33 =>
    windCommand_getElem T g status hi h16 h33
  have hup : (windCommand T f 1)[31] = f[31] + 1 := by
    rw [hsame f 1 31 (by decide) (by decide) (by decide), windSpeed_31, if_pos rfl]
  have hraised := level_up T hseven
  constructor
  · intro hrestored
    by_contra hhigh
    -- Counting down does nothing above level 4.
    have hnot : ¬ ((0 : UInt8) = 0 ∧ level (windCommand T f 1) ≤ 4) := fun h => by omega
    have hbyte : (windCommand T (windCommand T f 1) 0)[31] = f[31] + 1 := by
      rw [hsame _ 0 31 (by decide) (by decide) (by decide), windSpeed_31, if_neg hne, if_neg hnot,
        hup]
    have hlevel := ((level_succ hbyte).1 hseven).1
    rw [hrestored] at hlevel
    omega
  · intro hlow
    have hdown : (0 : UInt8) = 0 ∧ level (windCommand T f 1) ≤ 4 := ⟨rfl, by omega⟩
    apply eq_of_checksRight checksRight_setBoth hchecks
    intro i hi h16 h33
    have hback := hsame (windCommand T f 1) 0 i hi h16 h33
    refine hback.trans ?_
    by_cases h1 : i = 1
    · subst h1
      rw [windSpeed_1, if_neg hne, if_pos hdown, hsame f 1 1 hi h16 h33, windSpeed_1, if_pos rfl,
        if_pos hlow, UInt8.add_sub_cancel]
    by_cases h31 : i = 31
    · subst h31
      rw [windSpeed_31, if_neg hne, if_pos hdown, hup, UInt8.add_sub_cancel]
    rw [windSpeed_other T _ 0 hi h1 h31, hsame f 1 i hi h16 h33, windSpeed_other T f 1 hi h1 h31]

/-! ## Runs -/

/-- The frame after some wind speed commands. -/
def windRun (T : Target) (f : Frame) (statuses : List UInt8) : Frame :=
  handleAll T f (statuses.map fun status => ⟨ascii "windsped", status⟩)

section Runs

variable (T : Target) (f : Frame)

@[simp] theorem windRun_nil : windRun T f [] = f := rfl

@[simp] theorem windRun_concat (statuses : List UInt8) (status : UInt8) :
    windRun T f (statuses ++ [status]) = windCommand T (windRun T f statuses) status := by
  simp [windRun, handleAll, ctlWordHandle_windsped]

theorem checksRight_windRun (h : ChecksRight T f) (statuses : List UInt8) :
    ChecksRight T (windRun T f statuses) := by
  induction statuses using List.reverseRecOn with
  | nil => exact h
  | append_singleton statuses status _ =>
      rw [windRun_concat]
      exact checksRight_setBoth

/-- Every command of the run moves the level by one at most, and an up command that raised it is
taken back by a down command right behind it. -/
structure WindLaw (statuses : List UInt8) : Prop where
  steps : ∀ pre status post, statuses = pre ++ status :: post →
    WindStep (windRun T f pre) (windRun T f (pre ++ [status]))
  restored : ∀ pre post, statuses = pre ++ 1 :: 0 :: post →
    level (windRun T f (pre ++ [1])) = level (windRun T f pre) + 1 →
      windRun T f (pre ++ [1] ++ [0]) = windRun T f pre

/-- No up command at level 7, no down command at level 0, and no down command right behind an up
command from level 4 on. -/
structure StaysInRange (statuses : List UInt8) : Prop where
  ends : ∀ pre status post, statuses = pre ++ status :: post →
    ¬ (status = 1 ∧ level (windRun T f pre) = 7) ∧ ¬ (status = 0 ∧ level (windRun T f pre) = 0)
  upDown : ∀ pre post, statuses = pre ++ 1 :: 0 :: post → level (windRun T f pre) < 4

theorem windLaw_iff (hchecks : ChecksRight T f) (statuses : List UInt8) :
    WindLaw T f statuses ↔ StaysInRange T f statuses := by
  -- An up command below level 7 raises the level.
  have hraises : ∀ pre, level (windRun T f pre) ≠ 7 →
      level (windRun T f (pre ++ [1])) = level (windRun T f pre) + 1 := by
    intro pre hseven
    rw [windRun_concat]
    exact level_up T hseven
  constructor
  · intro h
    have hends : ∀ pre status post, statuses = pre ++ status :: post →
        ¬ (status = 1 ∧ level (windRun T f pre) = 7) ∧
          ¬ (status = 0 ∧ level (windRun T f pre) = 0) := by
      intro pre status post heq
      have hstep := h.steps pre status post heq
      rw [windRun_concat] at hstep
      exact (windStep_iff T _ status).1 hstep
    refine ⟨hends, fun pre post heq => ?_⟩
    have hseven : level (windRun T f pre) ≠ 7 := fun hseven =>
      (hends pre 1 (0 :: post) heq).1 ⟨rfl, hseven⟩
    have hrestored := h.restored pre post heq (hraises pre hseven)
    rw [windRun_concat, windRun_concat] at hrestored
    exact (restored_iff (checksRight_windRun T f hchecks pre) hseven).1 hrestored
  · intro h
    refine ⟨fun pre status post heq => ?_, fun pre post heq _ => ?_⟩
    · rw [windRun_concat]
      exact (windStep_iff T _ status).2 (h.ends pre status post heq)
    · have hlow := h.upDown pre post heq
      have hseven : level (windRun T f pre) ≠ 7 := by omega
      rw [windRun_concat, windRun_concat]
      exact (restored_iff (checksRight_windRun T f hchecks pre) hseven).2 hlow

end Runs

/-- One up and one down from level 0. -/
theorem up_and_down_restores : WindLaw ⟨true⟩ zeroFrame [1, 0] := by
  refine (windLaw_iff ⟨true⟩ zeroFrame ⟨by decide, by decide⟩ [1, 0]).2 ⟨?_, ?_⟩
  · intro pre status post heq
    cases pre with
    | nil =>
        cases heq
        exact ⟨by decide, by decide⟩
    | cons a pre =>
        cases pre with
        | nil =>
            cases heq
            exact ⟨by decide, by decide⟩
        | cons b pre => simp at heq
  · intro pre post heq
    cases pre with
    | nil => decide
    | cons a pre => cases pre <;> simp at heq

/-- A down command at level 0 jumps to level 7, and the fifth up command is not taken back. -/
theorem wind_speed_wraps_and_sticks :
    ¬ WindLaw ⟨true⟩ zeroFrame [0] ∧ ¬ WindLaw ⟨true⟩ zeroFrame [1, 1, 1, 1, 1, 0] := by
  refine ⟨fun h => ?_, fun h => ?_⟩
  · have hnear := (h.steps [] 0 [] rfl).near.1
    exact absurd hnear (by decide)
  · have hrestored := h.restored [1, 1, 1, 1] [] rfl (by decide)
    exact absurd hrestored (by decide)

end Infrared
end LinuxLearn
