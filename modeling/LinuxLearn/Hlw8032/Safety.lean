import LinuxLearn.Hlw8032.CallSpec

/-!
# Safety — when a run of `DealUartInf` divides by zero

The voltage, current and power quotients are guarded, so the only division that can fail is the
one by `power_k >> 1` at the end of case `0x55`.  `power_k` stays zero as long as no packet has
entered a power value (`powerNewFlag` is still `1`), and a coefficient of `0` or `1` is halved to
zero.  The main result says that these are the only ways to fail, for runs of any length.
-/

namespace LinuxLearn
namespace Hlw8032

open Lib

namespace Call

/-- The call clears `powerNewFlag`: an accepted packet with the power update bit, whose header is
`0x55`, or neither `0xAA` nor a power fault. -/
def entersPower (c : Call) : Bool :=
  c.accepted && updateBit c.inDataBuffer 0x10 &&
    (c.header == 0x55 || (c.header != 0xAA && !faultHeader c.inDataBuffer 0xF2))

theorem entersPower_eq {c : Call} (h : c.measures = true) :
    c.entersPower = updateBit c.inDataBuffer 0x10 := by
  have hkind : c.accepted = true ∧ c.header = 0x55 := by
    simpa [measures] using h
  simp [entersPower, hkind]

end Call

/-! ## One call -/

section Step

variable {T : Target} {st t : State} {c : Call}

/-- After a call `powerNewFlag` is cleared exactly if it was so before or the call clears it. -/
theorem powerNewFlag_step (h : (decoder T).step st c = .ok t) :
    t.powerNewFlag = 0 ↔ st.powerNewFlag = 0 ∨ c.entersPower = true := by
  -- Only the two branches with a power block can clear the flag.
  by_cases hacc : c.accepted = true
  · rw [step_accepted T st c hacc] at h
    by_cases h55 : c.header = 0x55
    · rw [if_pos h55, case55_eq] at h
      by_cases hK : powerK c.inDataBuffer st.powerNewFlag >>> 1 = 0
      · rw [if_pos hK] at h
        cases h
      · rw [if_neg hK] at h
        cases h
        by_cases hbit : updateBit c.inDataBuffer 0x10
        · simp [after55, powerNewFlagAfter, Call.entersPower, hacc, h55, hbit]
        · simp [after55, powerNewFlagAfter, Call.entersPower, hbit]
    · rw [if_neg h55] at h
      by_cases hAA : c.header = 0xAA
      · rw [if_pos hAA] at h
        cases h
        simp [Call.entersPower, hAA]
      · rw [if_neg hAA, caseDefault_eq] at h
        cases h
        by_cases hfault : faultHeader c.inDataBuffer 0xF2
        · simp [afterDefault, Call.entersPower, h55, hfault]
        · by_cases hbit : updateBit c.inDataBuffer 0x10
          · simp [afterDefault, powerNewFlagAfter, Call.entersPower, hacc, hAA, hfault, hbit]
          · simp [afterDefault, powerNewFlagAfter, Call.entersPower, hfault, hbit]
  · have hrej : c.accepted = false := by simpa using hacc
    rw [step_rejected T st c hrej] at h
    cases h
    simp [Call.entersPower, hrej]

/-- A call succeeds unless it divides by a vanishing `power_k >> 1`. -/
theorem step_ok_iff :
    (∃ t, (decoder T).step st c = .ok t) ↔
      (c.measures = true →
        2 ≤ register24 c.inDataBuffer UART_IND_PK ∧
          (st.powerNewFlag = 0 ∨ c.entersPower = true)) := by
  -- Of the calls that reach the energy part the step equation decides, the others succeed.
  by_cases hm : c.measures = true
  · rw [step_measures T st c hm, Call.entersPower_eq hm]
    by_cases hflag : updateBit c.inDataBuffer 0x10 = true ∨ st.powerNewFlag = 0
    · by_cases hK : register24 c.inDataBuffer UART_IND_PK < 2
      · simp [powerK, hflag, hK, hm]
      · simp [powerK, hflag, hK, hm, hflag.symm, Nat.le_of_not_lt hK]
    · simp [powerK, hflag, hm]
      intro _
      simpa [and_comm] using hflag
  · have hm' : c.measures = false := by simpa using hm
    rcases step_not_measures T st c hm' with ⟨t, ht, _⟩
    simp [hm, ht]

theorem step_error {e : Fault} (h : (decoder T).step st c = .error e) :
    e = .divByZero .energyUnit := by
  by_cases hm : c.measures = true
  · rw [step_measures T st c hm] at h
    by_cases hK : powerK c.inDataBuffer st.powerNewFlag < 2
    · rw [if_pos hK] at h
      cases h
      rfl
    · rw [if_neg hK] at h
      cases h
  · have hm' : c.measures = false := by simpa using hm
    rcases step_not_measures T st c hm' with ⟨t, ht, _⟩
    rw [ht] at h
    cases h

end Step

/-! ## Whole runs -/

/-- The only fault of the decoder is the division by `power_k >> 1`. -/
theorem runFrom_error {T : Target} {st : State} {calls : List Call} {e : Fault}
    (h : (decoder T).runFrom st calls = .error e) : e = .divByZero .energyUnit := by
  induction calls generalizing st with
  | nil => cases h
  | cons c calls ih =>
      cases hstep : (decoder T).step st c with
      | error e' =>
          rw [(decoder T).runFrom_cons_error hstep] at h
          cases h
          exact step_error hstep
      | ok t =>
          rw [(decoder T).runFrom_cons_ok hstep] at h
          exact ih h

/-- Every measuring packet carries a coefficient of at least `2`, and it or an earlier packet has
entered a power value. -/
def CoefficientsUsable (calls : List Call) : Prop :=
  ∀ pre c post, calls = pre ++ c :: post → c.measures = true →
    2 ≤ register24 c.inDataBuffer UART_IND_PK ∧ ∃ d ∈ pre ++ [c], d.entersPower = true

/-- What clears `powerNewFlag` is the history of the run. -/
theorem powerNewFlag_run {T : Target} {st t : State} {calls : List Call}
    (h : (decoder T).runFrom st calls = .ok t) :
    t.powerNewFlag = 0 ↔ st.powerNewFlag = 0 ∨ ∃ d ∈ calls, d.entersPower = true := by
  -- Each call adds itself to the history.
  induction calls generalizing st with
  | nil =>
      cases h
      simp
  | cons c calls ih =>
      rcases ((decoder T).runFrom_cons_eq_ok).1 h with ⟨m, hm, hrest⟩
      rw [ih hrest, powerNewFlag_step hm, or_assoc]
      simp

/-- What a call needs, in the terms of the run before it. -/
theorem step_ok_iff_of_run {T : Target} {pre : List Call} {c : Call} {t : State}
    (h : (decoder T).run pre = .ok t) :
    (∃ u, (decoder T).step t c = .ok u) ↔
      (c.measures = true →
        2 ≤ register24 c.inDataBuffer UART_IND_PK ∧ ∃ d ∈ pre ++ [c], d.entersPower = true) := by
  have hflag : t.powerNewFlag = 0 ∨ c.entersPower = true ↔
      ∃ d ∈ pre ++ [c], d.entersPower = true := by
    have hinit : (decoder T).init.powerNewFlag ≠ 0 := Nat.one_ne_zero
    rw [powerNewFlag_run h]
    simp [hinit, or_and_right, exists_or]
  rw [step_ok_iff, hflag]

theorem run_ok_iff (T : Target) (calls : List Call) :
    (∃ u, (decoder T).run calls = .ok u) ↔ CoefficientsUsable calls := by
  constructor
  · rintro ⟨u, hu⟩ pre c post rfl hm
    -- The run reaches the state before the call, and the call succeeds there.
    rcases ((decoder T).runFrom_append_eq_ok).1 hu with ⟨t, ht, hrest⟩
    rcases ((decoder T).runFrom_cons_eq_ok).1 hrest with ⟨v, hv, _⟩
    exact (step_ok_iff_of_run ht).1 ⟨v, hv⟩ hm
  · intro husable
    refine ((decoder T).runFrom_ok_iff_everyStep calls).2 ?_
    refine (decoder T).everyStep_iff_split.2 fun pre c post t heq ht => ?_
    exact (step_ok_iff_of_run ht).2 (husable pre c post heq)

/-- A run divides by zero in no call exactly if its coefficients are usable. -/
theorem no_division_by_zero_iff (T : Target) (calls : List Call) :
    (∀ q, (decoder T).run calls ≠ .error (.divByZero q)) ↔ CoefficientsUsable calls := by
  rw [← run_ok_iff T calls]
  constructor
  · intro hne
    cases hrun : (decoder T).run calls with
    | ok u => exact ⟨u, rfl⟩
    | error e =>
        have he : e = .divByZero .energyUnit := runFrom_error hrun
        exact absurd (he ▸ hrun) (hne .energyUnit)
  · rintro ⟨u, hu⟩ q hq
    cases hu.symm.trans hq

/-- A packet that passes both tests and carries no power update: the first call of a run with it
divides by zero. -/
def unmeasuredPacket : Packet :=
  #v[0x55, 0x5A, 0, 0, 0, 0, 0, 0, 0, 0, 0, 0, 0, 0, 0, 0, 0, 0, 0, 0, 0, 0, 0, 0]

theorem first_packet_divides_by_zero :
    ¬ ∀ (calls : List Call) (q : Quotient),
      (decoder lp64).run calls ≠ .error (.divByZero q) := by
  intro h
  have hrun : (decoder lp64).run [⟨unmeasuredPacket, 24⟩] = .error (.divByZero .energyUnit) := by
    decide
  exact h _ _ hrun

end Hlw8032
end LinuxLearn
