import LinuxLearn.Hlw8032.Windows

/-!
# PowerHold — the power window between power updates

Once a power value has been entered, a packet without power update can still overwrite the window:
when its period differs from the newest entry and exceeds the median by more than a quarter.  So the
filtered period never falls between updates, and for one coefficient the power never rises.  The
last part needs the products of `power * 10` to fit into `unsigned long`, which 34 bits ensure.
-/

namespace LinuxLearn
namespace Hlw8032

open Lib

/-- The raw period and the coefficient of the power. -/
abbrev Call.powerPeriod (c : Call) : Nat :=
  register24 c.inDataBuffer UART_IND_PT

abbrev Call.powerCoefficient (c : Call) : Nat :=
  register24 c.inDataBuffer UART_IND_PK

/-- An accepted packet without power update: header `0x55` with a coefficient that can be halved, or
another header of the default case without the power fault pattern. -/
def Call.holdsPower (c : Call) : Bool :=
  c.accepted && !updateBit c.inDataBuffer 0x10 &&
    (c.header == 0x55 && decide (2 ≤ c.powerCoefficient) ||
      c.header != 0x55 && c.header != 0xAA && !faultHeader c.inDataBuffer 0xF2)

/-! ## One packet -/

/-- The period differs from the newest entry and exceeds the median by more than a quarter. -/
def Outgrown (arr : Vector Nat ARRAY_LEN) (t : Nat) : Prop :=
  t ≠ newest arr ∧ middle arr < t ∧ middle arr >>> 2 < t - middle arr

instance (arr : Vector Nat ARRAY_LEN) (t : Nat) : Decidable (Outgrown arr t) :=
  inferInstanceAs (Decidable (_ ∧ _))

/-- The filtered period after a packet without power update. -/
def heldPeriod (arr : Vector Nat ARRAY_LEN) (t : Nat) : Nat :=
  if Outgrown arr t then t else middle arr

theorem resetVIPvalue_three (arr : Vector Nat ARRAY_LEN) (t : Nat) :
    resetVIPvalue arr t = #v[t, t, t] := by
  rcases window_cases arr with ⟨a, b, c, rfl⟩
  rfl

theorem stretched_arr (ch : Channel) (t : Nat) :
    (ch.stretched t).arr = if Outgrown ch.arr t then #v[t, t, t] else ch.arr := by
  have hnewest : isUpdataNewData ch.arr t = true ↔ t ≠ newest ch.arr := by
    rw [ne_comm]
    simp [isUpdataNewData, newest]
  have hsame : isUpdataNewData ch.arr t = true ∧ t > middle ch.arr ∧
      t - middle ch.arr > middle ch.arr >>> 2 ↔ Outgrown ch.arr t := by
    rw [hnewest]
    exact Iff.rfl
  by_cases h : Outgrown ch.arr t
  · rw [Channel.stretched, if_pos (hsame.2 h), if_pos h]
    exact resetVIPvalue_three ch.arr t
  · rw [Channel.stretched, if_neg (mt hsame.1 h), if_neg h]

theorem middle_stretched (ch : Channel) (t : Nat) :
    middle (ch.stretched t).arr = heldPeriod ch.arr t := by
  rw [stretched_arr, heldPeriod]
  by_cases h : Outgrown ch.arr t
  · rw [if_pos h, if_pos h]
    simp [middle, median]
  · rw [if_neg h, if_neg h]

theorem middle_le_heldPeriod (arr : Vector Nat ARRAY_LEN) (t : Nat) :
    middle arr ≤ heldPeriod arr t := by
  rw [heldPeriod]
  by_cases h : Outgrown arr t
  · rw [if_pos h]
    exact Nat.le_of_lt h.2.1
  · rw [if_neg h]

section Packet

variable (T : Target) {st : State} {c : Call}

/-- Both copies of the code do the same with such a packet. -/
theorem holdsPower_call (hflag : st.powerNewFlag = 0) (h : c.holdsPower = true) :
    ∃ o, dealUartInf T st c.inDataBuffer c.recvlen = .ok o ∧ o.state.powerNewFlag = 0 ∧
      o.state.power = st.power.stretched c.powerPeriod ∧
      o.readings.power = reading T c.powerCoefficient (heldPeriod st.power.arr c.powerPeriod) := by
  have hkind : (c.accepted = true ∧ updateBit c.inDataBuffer 0x10 = false) ∧
      (c.header = 0x55 ∧ 2 ≤ c.powerCoefficient ∨
        (c.header ≠ 0x55 ∧ c.header ≠ 0xAA) ∧ faultHeader c.inDataBuffer 0xF2 = false) := by
    simpa [Call.holdsPower] using h
  rcases hkind with ⟨⟨hacc, hbit⟩, hheader⟩
  have hafter : powerAfter c.inDataBuffer st.power st.powerNewFlag =
      st.power.stretched c.powerPeriod := by
    simp [powerAfter, hbit, hflag]
  have hreading : powerReading T c.inDataBuffer st.power st.powerNewFlag =
      reading T c.powerCoefficient (heldPeriod st.power.arr c.powerPeriod) := by
    rw [powerReading, if_pos (Or.inr hflag), hafter, middle_stretched]
  have hstays : powerNewFlagAfter c.inDataBuffer st.powerNewFlag = 0 := by
    simp [powerNewFlagAfter, hflag]
  rw [dealUartInf_accepted T st c hacc]
  rcases hheader with ⟨h55, hK⟩ | ⟨⟨h55, hAA⟩, hfault⟩
  · have hhalf : ¬ powerK c.inDataBuffer st.powerNewFlag >>> 1 = 0 := by
      rw [powerK, if_pos (Or.inr hflag), Nat.shiftRight_one]
      exact Nat.ne_of_gt (Nat.div_pos hK (by decide))
    rw [if_pos h55, case55_eq, if_neg hhalf]
    exact ⟨_, rfl, hstays, hafter, hreading⟩
  · rw [if_neg h55, if_neg hAA, caseDefault_eq]
    refine ⟨_, rfl, ?_, ?_, ?_⟩
    · simpa [afterDefault, hfault] using hstays
    · simpa [afterDefault, hfault] using hafter
    · simpa [readingsDefault, hfault] using hreading

/-- The product that gives the power fits into `unsigned long`. -/
def PowerFits (st : State) (c : Call) : Prop :=
  exactReading c.powerCoefficient (heldPeriod st.power.arr c.powerPeriod) < 2 ^ T.ulongBits

theorem powerFits_of_wide (hT : 34 ≤ T.ulongBits) (st : State) (c : Call) : PowerFits T st c :=
  lt_of_lt_of_le (exactReading_lt (register24_lt _ _) _) (Nat.pow_le_pow_right (by decide) hT)

end Packet

/-! ## A run of such packets -/

section Run

variable (T : Target) (st : State) (calls : List Call)

/-- The run ends in no fault, each packet leaves the window or fills it with its period, and the
filtered period never falls. -/
structure WindowHolds : Prop where
  runs : ∃ t, (decoder T).runFrom st calls = .ok t
  window : ∀ pre c post s t, calls = pre ++ c :: post → (decoder T).runFrom st pre = .ok s →
    (decoder T).step s c = .ok t → t.power.arr =
      if Outgrown s.power.arr c.powerPeriod then
        #v[c.powerPeriod, c.powerPeriod, c.powerPeriod]
      else s.power.arr
  period : ∀ pre part post s t, calls = pre ++ part ++ post →
    (decoder T).runFrom st pre = .ok s → (decoder T).runFrom s part = .ok t →
      middle s.power.arr ≤ middle t.power.arr

/-- Of two packets with one coefficient the later one has no larger power, once the filtered period
is not zero. -/
def PowerNeverRises : Prop :=
  ∀ pre c part d post s o s' o', calls = pre ++ c :: part ++ d :: post →
    (decoder T).runFrom st pre = .ok s → dealUartInf T s c.inDataBuffer c.recvlen = .ok o →
    (decoder T).runFrom o.state part = .ok s' →
    dealUartInf T s' d.inDataBuffer d.recvlen = .ok o' →
    c.powerCoefficient = d.powerCoefficient → middle o.state.power.arr ≠ 0 →
      o'.readings.power ≤ o.readings.power

end Run

section Runs

variable {T : Target} {st : State} {calls : List Call}

theorem decoder_step_of_ok {s : State} {c : Call} {o : Outcome}
    (h : dealUartInf T s c.inDataBuffer c.recvlen = .ok o) :
    (decoder T).step s c = .ok o.state := by
  rw [step_eq, h]
  rfl

/-- A run of such packets succeeds, keeps the flag and does not lower the filtered period. -/
theorem holdsPower_run (hflag : st.powerNewFlag = 0) (hcalls : ∀ c ∈ calls, c.holdsPower = true) :
    ∃ t, (decoder T).runFrom st calls = .ok t ∧ t.powerNewFlag = 0 ∧
      middle st.power.arr ≤ middle t.power.arr := by
  induction calls generalizing st with
  | nil => exact ⟨st, rfl, hflag, le_rfl⟩
  | cons c calls ih =>
      rcases holdsPower_call T hflag (hcalls c List.mem_cons_self) with ⟨o, ho, hflag', hpower, _⟩
      rcases ih hflag' (fun d hd => hcalls d (List.mem_cons_of_mem _ hd)) with
        ⟨t, ht, hflag'', hle⟩
      refine ⟨t, ?_, hflag'', le_trans ?_ hle⟩
      · rw [(decoder T).runFrom_cons_ok (decoder_step_of_ok ho)]
        exact ht
      · rw [hpower, middle_stretched]
        exact middle_le_heldPeriod _ _

/-- The state that some of the packets lead to. -/
theorem holdsPower_part {s t : State} {part : List Call} (hflag : s.powerNewFlag = 0)
    (hpart : ∀ c ∈ part, c.holdsPower = true) (hrun : (decoder T).runFrom s part = .ok t) :
    t.powerNewFlag = 0 ∧ middle s.power.arr ≤ middle t.power.arr := by
  rcases holdsPower_run (T := T) hflag hpart with ⟨t', ht', hflag', hle⟩
  cases Except.ok.inj (hrun.symm.trans ht')
  exact ⟨hflag', hle⟩

theorem windowHolds_of_holdsPower (hflag : st.powerNewFlag = 0)
    (hcalls : ∀ c ∈ calls, c.holdsPower = true) : WindowHolds T st calls := by
  refine ⟨?_, ?_, ?_⟩
  · rcases holdsPower_run (T := T) hflag hcalls with ⟨t, ht, _⟩
    exact ⟨t, ht⟩
  · rintro pre c post s t rfl hpre hstep
    have hs := holdsPower_part hflag (fun d hd => hcalls d (List.mem_append_left _ hd)) hpre
    have hc := hcalls c (List.mem_append_right _ List.mem_cons_self)
    rcases holdsPower_call T hs.1 hc with ⟨o, ho, _, hpower, _⟩
    cases Except.ok.inj ((decoder_step_of_ok ho).symm.trans hstep)
    rw [hpower, stretched_arr]
  · rintro pre part post s t rfl hpre hpart
    have hs := holdsPower_part hflag
      (fun d hd => hcalls d (List.mem_append_left _ (List.mem_append_left _ hd))) hpre
    exact (holdsPower_part hs.1
      (fun d hd => hcalls d (List.mem_append_left _ (List.mem_append_right _ hd))) hpart).2

/-- A longer period gives no larger reading. -/
theorem exactReading_anti {k m n : Nat} (hm : m ≠ 0) (hle : m ≤ n) :
    exactReading k n ≤ exactReading k m := by
  have hn : n ≠ 0 := by omega
  rw [exactReading, exactReading, if_neg hm, if_neg hn]
  exact Nat.mul_le_mul_right 10 (Nat.div_le_div_left hle (Nat.pos_of_ne_zero hm))

theorem powerNeverRises_of_fits (hflag : st.powerNewFlag = 0)
    (hcalls : ∀ c ∈ calls, c.holdsPower = true)
    (hfits : (decoder T).EveryStep (PowerFits T) st calls) : PowerNeverRises T st calls := by
  rintro pre c part d post s o s' o' rfl hpre hc hpart hd hcoefficient hperiod
  have hsplit : pre ++ c :: part ++ d :: post = pre ++ c :: (part ++ d :: post) := by simp
  have hs := holdsPower_part hflag
    (fun x hx => hcalls x (List.mem_append_left _ (List.mem_append_left _ hx))) hpre
  rcases holdsPower_call T hs.1 (hcalls c (by simp)) with ⟨o₁, ho₁, hflag₁, hpower₁, hreading₁⟩
  cases Except.ok.inj (hc.symm.trans ho₁)
  have hs' := holdsPower_part hflag₁ (fun x hx => hcalls x (by simp [hx])) hpart
  rcases holdsPower_call T hs'.1 (hcalls d (by simp)) with ⟨o₂, ho₂, _, _, hreading₂⟩
  cases Except.ok.inj (hd.symm.trans ho₂)
  -- Both products fit, so the readings are the exact ones.
  have hrun : (decoder T).runFrom st (pre ++ c :: part) = .ok s' := by
    refine ((decoder T).runFrom_append_eq_ok).2 ⟨s, hpre, ?_⟩
    rw [(decoder T).runFrom_cons_ok (decoder_step_of_ok hc)]
    exact hpart
  have hall := (decoder T).everyStep_iff_split.1 hfits
  have hfits₁ := hall pre c (part ++ d :: post) s hsplit hpre
  have hfits₂ := hall (pre ++ c :: part) d post s' rfl hrun
  have hlater : heldPeriod s.power.arr c.powerPeriod ≤
      heldPeriod s'.power.arr d.powerPeriod := by
    have hmiddle := hs'.2
    rw [hpower₁, middle_stretched] at hmiddle
    exact le_trans hmiddle (middle_le_heldPeriod _ _)
  rw [hpower₁, middle_stretched] at hperiod
  rw [hreading₁, hreading₂, reading_eq T (register24_lt _ _), reading_eq T (register24_lt _ _),
    Nat.mod_eq_of_lt hfits₁, Nat.mod_eq_of_lt hfits₂, hcoefficient]
  exact exactReading_anti hperiod hlater

/-- Between power updates the filtered period never falls, and the power never rises for one
coefficient as long as its product fits into `unsigned long`. -/
theorem power_between_updates (hflag : st.powerNewFlag = 0)
    (hcalls : ∀ c ∈ calls, c.holdsPower = true) :
    WindowHolds T st calls ∧
      ((decoder T).EveryStep (PowerFits T) st calls → PowerNeverRises T st calls) :=
  ⟨windowHolds_of_holdsPower hflag hcalls, powerNeverRises_of_fits hflag hcalls⟩

end Runs

/-! ## A power that rises -/

/-- A packet with the largest power coefficient. -/
def powerPacket (t fg : UInt8) : Packet :=
  #v[0x55, 0x5A, 0, 0, 0, 0, 0, 0, 0, 0, 0, 0, 0, 0, 0xFF, 0xFF, 0xFF, 0, 0, t, fg, 0, 0,
    253 + t + fg]

/-- The state after two power updates with period `3`. -/
def powerState : State :=
  { initial with
    power := ⟨#v[3, 3, 0], 0⟩
    powerNewFlag := 0
    runingInf := ⟨0, 0, 0, 0, 0, 0, 0, 2140⟩ }

theorem power_held_on_lp64 :
    WindowHolds lp64 powerState [⟨powerPacket 3 0, 24⟩, ⟨powerPacket 4 0, 24⟩] ∧
      PowerNeverRises lp64 powerState [⟨powerPacket 3 0, 24⟩, ⟨powerPacket 4 0, 24⟩] := by
  have hcalls : ∀ c ∈ [(⟨powerPacket 3 0, 24⟩ : Call), ⟨powerPacket 4 0, 24⟩],
      c.holdsPower = true := by
    rw [List.forall_mem_cons, List.forall_mem_singleton]
    exact ⟨by decide, by decide⟩
  have hflag : powerState.powerNewFlag = 0 := rfl
  have hboth := power_between_updates (T := lp64) hflag hcalls
  exact ⟨hboth.1, hboth.2 ((decoder lp64).everyStep_of_inv (A := fun _ => True)
    (fun _ _ _ _ _ => trivial) (fun s c _ => powerFits_of_wide lp64 (by decide) s c) trivial _)⟩

/-- With 32 bits the product of the first packet wraps and that of the second one does not. -/
theorem power_rises_on_ilp32 :
    ¬ ∀ st calls, (decoder ilp32).Reachable st → st.powerNewFlag = 0 →
      (∀ c ∈ calls, c.holdsPower = true) → PowerNeverRises ilp32 st calls := by
  intro h
  have hreach : (decoder ilp32).Reachable powerState :=
    ⟨[⟨powerPacket 3 0x10, 24⟩, ⟨powerPacket 3 0x10, 24⟩], by decide⟩
  have hcalls : ∀ c ∈ [(⟨powerPacket 3 0, 24⟩ : Call), ⟨powerPacket 4 0, 24⟩],
      c.holdsPower = true := by
    rw [List.forall_mem_cons, List.forall_mem_singleton]
    exact ⟨by decide, by decide⟩
  have hfirst : dealUartInf ilp32 powerState (powerPacket 3 0) 24 =
      .ok ⟨powerState, 1, ⟨0, 0, 1297437704⟩⟩ := by decide
  have hsecond : dealUartInf ilp32 powerState (powerPacket 4 0) 24 =
      .ok ⟨{ powerState with power := ⟨#v[4, 4, 4], 0⟩ }, 1, ⟨0, 0, 4194303750⟩⟩ := by decide
  have hle := h _ _ hreach rfl hcalls [] _ [] _ [] _ _ _ _ rfl rfl hfirst rfl hsecond rfl
    (by decide)
  exact absurd hle (by decide)

end Hlw8032
end LinuxLearn
