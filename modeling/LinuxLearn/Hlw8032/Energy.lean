import LinuxLearn.Lib.WrapCounter
import LinuxLearn.Hlw8032.Safety

/-!
# Energy — the accumulated pulse total of `DealUartInf`

The chip counts energy pulses in a 16-bit register and toggles one bit of the update byte whenever
the register wraps.  `DealUartInf` adds ten times the number of pulses since the last packet to
`runingInf.energy`.  Two results:

- `energy_conservation`: for a meter whose true count grows by less than a register period between
  packets, the total is ten times that count, over whole runs;
- `energy_growth_iff`: for arbitrary packets, exactly when one packet makes the total grow by at
  most one register period.
-/

namespace LinuxLearn
namespace Hlw8032

open Lib

/-! ## Ranges -/

theorem energyRegister_lt (b : Packet) : energyRegister b < 65536 := by
  have hhi : b[UART_IND_EN].toNat < 256 := UInt8.toNat_lt _
  have hlo : b[UART_IND_EN + 1].toNat < 256 := UInt8.toNat_lt _
  -- The two bytes do not overlap, so the disjunction is a sum.
  rw [energyRegister, ← Nat.shiftLeft_add_eq_or_of_lt hlo, Nat.shiftLeft_eq]
  omega

theorem ulong_lt (T : Target) (x : Nat) : T.ulong x < 2 ^ T.ulongBits :=
  Nat.mod_lt _ (Nat.two_pow_pos _)

/-- The fields that the accumulation reads stay within their types. -/
def RuningInf.InRange (T : Target) (r : RuningInf) : Prop :=
  r.energyLast < 65536 ∧ r.energy < 2 ^ T.ulongBits

/-! ## One packet -/

section Accumulate

variable (T : Target) (r : RuningInf) (b : Packet)

/-- The register value that the accumulation works with: a register ahead of the last one although
the overflow bit has toggled counts as zero. -/
def countedRegister : Nat :=
  if overflowBit b ≠ r.energyFlowFlag ∧ energyRegister b > r.energyLast then 0
  else energyRegister b

/-- The pulses that a packet reports. -/
def pulses : Nat :=
  registerStep 65536 r.energyLast (countedRegister r b) (overflowBit b != r.energyFlowFlag)

/-- The overflow bit has toggled, or the register is not behind its last value. -/
def MovesForward : Prop :=
  overflowBit b ≠ r.energyFlowFlag ∨ r.energyLast ≤ energyRegister b

/-- The value of `energy_cnt`, an `unsigned int`. -/
def energyCnt : Nat :=
  if overflowBit b ≠ r.energyFlowFlag then
    uintOfInt ((countedRegister r b : Int) + 65536 - r.energyLast)
  else
    uintOfInt ((energyRegister b : Int) - r.energyLast)

theorem accumulate_eq :
    r.accumulate T b =
      { r with
        energyFlowFlag := overflowBit b
        energyCurrent := countedRegister r b
        energyLast := countedRegister r b
        energy := T.ulong (r.energy + uint (energyCnt r b * 10)) } := by
  by_cases hflag : overflowBit b = r.energyFlowFlag
  · simp [RuningInf.accumulate, countedRegister, energyCnt, hflag]
  · have hflag' : ¬ r.energyFlowFlag = overflowBit b := fun h => hflag h.symm
    simp [RuningInf.accumulate, countedRegister, energyCnt, hflag, hflag']

theorem countedRegister_lt : countedRegister r b < 65536 := by
  unfold countedRegister
  split
  · decide
  · exact energyRegister_lt b

theorem accumulate_inRange : (r.accumulate T b).InRange T := by
  rw [accumulate_eq]
  exact ⟨countedRegister_lt r b, ulong_lt T _⟩

variable {r b}

/-- A packet that moves forward reports at most one register period. -/
theorem pulses_le : pulses r b ≤ 65536 := by
  have hreg := energyRegister_lt b
  by_cases hflag : overflowBit b = r.energyFlowFlag
  · have hpulses : pulses r b = energyRegister b - r.energyLast := by
      simp [pulses, registerStep, countedRegister, hflag]
    omega
  · by_cases hahead : energyRegister b > r.energyLast
    · have hpulses : pulses r b = 65536 - r.energyLast := by
        simp [pulses, registerStep, countedRegister, hflag, hahead]
      omega
    · have hpulses : pulses r b = energyRegister b + 65536 - r.energyLast := by
        simp [pulses, registerStep, countedRegister, hflag, hahead]
      omega

theorem energyCnt_forward (hr : r.energyLast < 65536) (hfwd : MovesForward r b) :
    energyCnt r b = pulses r b := by
  have hreg := energyRegister_lt b
  have hcounted := countedRegister_lt r b
  -- In neither case is the difference negative, so it is its value as an `unsigned int`.
  by_cases hflag : overflowBit b = r.energyFlowFlag
  · have hahead : r.energyLast ≤ energyRegister b := hfwd.resolve_left (not_not.2 hflag)
    have hpulses : pulses r b = energyRegister b - r.energyLast := by
      simp [pulses, registerStep, countedRegister, hflag]
    rw [hpulses, energyCnt, if_neg (not_not.2 hflag), uintOfInt]
    omega
  · have hpulses : pulses r b = countedRegister r b + 65536 - r.energyLast := by
      simp [pulses, registerStep, hflag]
    rw [hpulses, energyCnt, if_pos hflag, uintOfInt]
    omega

/-- The total after a packet that moves forward. -/
theorem accumulate_forward (hr : r.energyLast < 65536) (hfwd : MovesForward r b) :
    (r.accumulate T b).energy = T.ulong (r.energy + 10 * pulses r b) := by
  have hle : pulses r b ≤ 65536 := pulses_le
  have huint : uint (energyCnt r b * 10) = 10 * pulses r b := by
    rw [energyCnt_forward hr hfwd, uint]
    omega
  rw [accumulate_eq, huint]

/-- The total after a register that went backwards: the difference wraps at 32 bits. -/
theorem accumulate_backward (hr : r.energyLast < 65536) (hback : ¬ MovesForward r b) :
    (r.accumulate T b).energy =
      T.ulong (r.energy + (2 ^ 32 - 10 * (r.energyLast - energyRegister b))) := by
  have hreg := energyRegister_lt b
  rw [MovesForward, not_or, not_not] at hback
  -- The difference is negative: modulo `2 ^ 32` it is what is missing to the full range.
  have huint : uint (energyCnt r b * 10) =
      2 ^ 32 - 10 * (r.energyLast - energyRegister b) := by
    rw [energyCnt, if_neg (not_not.2 hback.1), uintOfInt, uint]
    omega
  rw [accumulate_eq, huint]

end Accumulate

/-! ## Conservation over whole runs -/

/-- The true pulse count of the chip at its successive measuring packets. -/
structure PulseCounter where
  count : Nat → Nat
  starts : count 0 = 0
  grows : ∀ i, count i ≤ count (i + 1)
  slow : ∀ i, count (i + 1) < count i + 65536

/-- The packet reports the count `n`, with the power update bit and a usable coefficient. -/
structure CarriesCount (b : Packet) (n : Nat) : Prop where
  register : energyRegister b = n % 65536
  overflow : overflowBit b = n / 65536 % 2
  power : updateBit b 0x10 = true
  coefficient : 2 ≤ register24 b UART_IND_PK

/-- The calls of a run that reach the energy part. -/
def measuring (calls : List Call) : List Call :=
  calls.filter Call.measures

/-- The energy fields agree with the true count `n`. -/
structure Tracks (T : Target) (st : State) (n : Nat) : Prop where
  energy : st.runingInf.energy = T.ulong (10 * n)
  energyLast : st.runingInf.energyLast = n % 65536
  energyFlowFlag : st.runingInf.energyFlowFlag = n / 65536 % 2

theorem tracks_initial (T : Target) (m : PulseCounter) : Tracks T initial (m.count 0) := by
  rw [m.starts]
  refine ⟨?_, rfl, rfl⟩
  simp [initial, Target.ulong]

/-- A packet that reports the next count keeps the fields in agreement. -/
theorem tracks_accumulate {T : Target} {st : State} {b : Packet} {n n' : Nat}
    (h : Tracks T st n) (hle : n ≤ n') (hlt : n' < n + 65536) (hb : CarriesCount b n') :
    Tracks T (after55 T st b) n' := by
  have hlast : st.runingInf.energyLast < 65536 := by
    rw [h.energyLast]
    exact Nat.mod_lt _ (by decide)
  -- The special branch for a register ahead of the last one is never taken.
  have hcounted : countedRegister st.runingInf b = n' % 65536 := by
    rw [countedRegister, hb.register, hb.overflow, h.energyLast, h.energyFlowFlag]
    refine if_neg ?_
    rintro ⟨hparity, hahead⟩
    have hbehind := (mod_lt_mod_of_parity_ne (by decide) hle hlt hparity).2
    exact absurd hahead (Nat.not_lt.2 hbehind.le)
  have hfwd : MovesForward st.runingInf b := by
    rw [MovesForward, hb.register, hb.overflow, h.energyLast, h.energyFlowFlag]
    by_cases hparity : n' / 65536 % 2 = n / 65536 % 2
    · exact Or.inr (mod_le_mod_of_parity_eq (by decide) hle hlt hparity).2
    · exact Or.inl hparity
  have hpulses : pulses st.runingInf b = n' - n := by
    rw [pulses, hcounted, hb.overflow, h.energyLast, h.energyFlowFlag]
    exact registerStep_eq (by decide) hle hlt
  refine ⟨?_, ?_, ?_⟩
  · calc
      (after55 T st b).runingInf.energy
          = T.ulong (st.runingInf.energy + 10 * pulses st.runingInf b) :=
            accumulate_forward T hlast hfwd
      _ = T.ulong (10 * n + 10 * (n' - n)) := by
            rw [h.energy, hpulses, Target.ulong, Target.ulong, Target.ulong, Nat.mod_add_mod]
      _ = T.ulong (10 * n') := by
            congr 1
            omega
  · simp [after55, accumulate_eq, hcounted]
  · simp [after55, accumulate_eq, hb.overflow]

theorem tracks_step_measuring {T : Target} {st : State} {c : Call} {n n' : Nat}
    (h : Tracks T st n) (hle : n ≤ n') (hlt : n' < n + 65536) (hm : c.measures = true)
    (hc : CarriesCount c.inDataBuffer n') :
    ∃ t, (decoder T).step st c = .ok t ∧ Tracks T t n' := by
  have hK : 2 ≤ powerK c.inDataBuffer st.powerNewFlag := by
    simpa [powerK, hc.power] using hc.coefficient
  refine ⟨after55 T st c.inDataBuffer, ?_, tracks_accumulate h hle hlt hc⟩
  rw [step_measures T st c hm, if_neg (Nat.not_lt.2 hK)]

theorem tracks_step_other {T : Target} {st : State} {c : Call} {n : Nat}
    (h : Tracks T st n) (hm : c.measures = false) :
    ∃ t, (decoder T).step st c = .ok t ∧ Tracks T t n := by
  rcases step_not_measures T st c hm with ⟨t, hstep, hE, hL, hF⟩
  exact ⟨t, hstep, hE.trans h.energy, hL.trans h.energyLast, hF.trans h.energyFlowFlag⟩

theorem measuring_concat (calls : List Call) (c : Call) :
    measuring (calls ++ [c]) = if c.measures then measuring calls ++ [c] else measuring calls := by
  by_cases hm : c.measures = true
  · simp [measuring, hm]
  · simp [measuring, hm]

/-- The packets of a run report the counts of `m`, in order. -/
def Reports (m : PulseCounter) (calls : List Call) : Prop :=
  ∀ i (hi : i < (measuring calls).length),
    CarriesCount ((measuring calls)[i]).inDataBuffer (m.count (i + 1))

/-- A longer report splits into the report of its first part and what the last call adds. -/
theorem reports_concat {m : PulseCounter} {calls : List Call} {c : Call}
    (h : Reports m (calls ++ [c])) :
    Reports m calls ∧
      (c.measures = true →
        CarriesCount c.inDataBuffer (m.count ((measuring calls).length + 1))) := by
  by_cases hm : c.measures = true
  · have hlist : measuring (calls ++ [c]) = measuring calls ++ [c] := by
      rw [measuring_concat, if_pos hm]
    refine ⟨fun i hi => ?_, fun _ => ?_⟩
    · have hi' : i < (measuring (calls ++ [c])).length := by
        rw [hlist, List.length_append]
        omega
      simpa [hlist, List.getElem_append_left hi] using h i hi'
    · have hlast : (measuring calls).length < (measuring (calls ++ [c])).length := by
        rw [hlist]
        simp
      simpa [hlist] using h _ hlast
  · have hlist : measuring (calls ++ [c]) = measuring calls := by
      rw [measuring_concat, if_neg hm]
    refine ⟨fun i hi => ?_, fun h' => absurd h' hm⟩
    have hi' : i < (measuring (calls ++ [c])).length := by
      rw [hlist]
      exact hi
    simpa [hlist] using h i hi'

theorem run_tracks (T : Target) (m : PulseCounter) (calls : List Call) (h : Reports m calls) :
    ∃ st, (decoder T).run calls = .ok st ∧ Tracks T st (m.count (measuring calls).length) := by
  -- The last call comes off: what it adds depends on how many packets were counted before.
  induction calls using List.reverseRecOn with
  | nil => exact ⟨initial, rfl, tracks_initial T m⟩
  | append_singleton calls c ih =>
      rcases reports_concat h with ⟨hpre, hlast⟩
      rcases ih hpre with ⟨st, hrun, hst⟩
      have hstep : ∃ t, (decoder T).step st c = .ok t ∧
          Tracks T t (m.count (measuring (calls ++ [c])).length) := by
        -- A measuring packet is the next one that the counter speaks of.
        rw [measuring_concat]
        by_cases hm : c.measures = true
        · rw [if_pos hm, List.length_append]
          exact tracks_step_measuring hst (m.grows _) (m.slow _) hm (hlast hm)
        · rw [if_neg hm]
          exact tracks_step_other hst (by simpa using hm)
      rcases hstep with ⟨t, ht, htracks⟩
      refine ⟨t, ?_, htracks⟩
      rw [Machine.run, (decoder T).runFrom_append hrun, (decoder T).runFrom_cons_ok ht,
        (decoder T).runFrom_nil]

/-- Energy conservation: after a run whose measuring packets report the counts of a pulse counter
in order, the total is ten times the last reported count, whatever other calls lie between. -/
theorem energy_conservation (T : Target) (m : PulseCounter) (calls : List Call)
    (hcalls : Reports m calls) :
    ∃ st, (decoder T).run calls = .ok st ∧
      st.runingInf.energy = 10 * m.count (measuring calls).length % 2 ^ T.ulongBits ∧
      st.runingInf.energyLast = m.count (measuring calls).length % 65536 ∧
      st.runingInf.energyFlowFlag = m.count (measuring calls).length / 65536 % 2 := by
  rcases run_tracks T m calls hcalls with ⟨st, hrun, hst⟩
  exact ⟨st, hrun, hst.energy, hst.energyLast, hst.energyFlowFlag⟩

/-- A packet with header `0x55` and the given update byte, power coefficient and pulse register. -/
def meterPacket (fg k hi lo : UInt8) : Packet :=
  #v[0x55, 0x5A, 0, 0, 0, 0, 0, 0, 0, 0, 0, 0, 0, 0, 0, 0, k, 0, 0, 0, fg, hi, lo,
    k + fg + hi + lo]

/-- A counter that has passed a register period between two packets. -/
def wrappingCounter : PulseCounter where
  count i := if i = 0 then 0 else if i = 1 then 65535 else 65537
  starts := rfl
  grows i := by
    rcases i with _ | _ | i <;> simp
  slow i := by
    rcases i with _ | _ | i <;> simp

/-- Two packets with a refused one in between. -/
def wrappingCalls : List Call :=
  [⟨meterPacket 0x10 2 0xFF 0xFF, 24⟩, ⟨meterPacket 0x10 2 0xFF 0xFF, 7⟩,
    ⟨meterPacket 0x90 2 0 1, 24⟩]

theorem energy_conservation_wrapping :
    ∃ st, (decoder lp64).run wrappingCalls = .ok st ∧
      st.runingInf.energy = 10 * 65537 % 2 ^ 64 ∧
      st.runingInf.energyLast = 1 ∧ st.runingInf.energyFlowFlag = 1 := by
  have hmeasuring : measuring wrappingCalls =
      [⟨meterPacket 0x10 2 0xFF 0xFF, 24⟩, ⟨meterPacket 0x90 2 0 1, 24⟩] := by
    decide
  have hreports : Reports wrappingCounter wrappingCalls := by
    unfold Reports
    rw [hmeasuring]
    intro i hi
    match i, hi with
    | 0, _ =>
        change CarriesCount (meterPacket 0x10 2 0xFF 0xFF) 65535
        exact ⟨by decide, by decide, by decide, by decide⟩
    | 1, _ =>
        change CarriesCount (meterPacket 0x90 2 0 1) 65537
        exact ⟨by decide, by decide, by decide, by decide⟩
  have h := energy_conservation lp64 wrappingCounter wrappingCalls hreports
  rw [hmeasuring] at h
  exact h

/-! ## Growth per packet -/

theorem reachable_inRange {T : Target} {st : State} (h : (decoder T).Reachable st) :
    st.runingInf.InRange T := by
  -- Both fields are reduced whenever they are written.
  refine (decoder T).reachable_inv (P := fun s => s.runingInf.InRange T) ?_ ?_ h
  · exact ⟨Nat.zero_lt_succ _, Nat.two_pow_pos _⟩
  · intro s c t hs hstep
    by_cases hm : c.measures = true
    · rw [step_measures T s c hm] at hstep
      by_cases hK : powerK c.inDataBuffer s.powerNewFlag < 2
      · rw [if_pos hK] at hstep
        cases hstep
      · rw [if_neg hK] at hstep
        cases hstep
        exact accumulate_inRange T s.runingInf c.inDataBuffer
    · have hm' : c.measures = false := by simpa using hm
      rcases step_not_measures T s c hm' with ⟨u, hu, hE, hL, _⟩
      rw [hu] at hstep
      cases hstep
      refine ⟨?_, ?_⟩
      · rw [hL]
        exact hs.1
      · rw [hE]
        exact hs.2

/-- A measuring packet whose division succeeds adds at most one register period to the total. -/
def GrowsByPeriod (T : Target) (st : State) (c : Call) : Prop :=
  c.measures = true → 2 ≤ powerK c.inDataBuffer st.powerNewFlag →
    ∀ t, (decoder T).step st c = .ok t →
      st.runingInf.energy ≤ t.runingInf.energy ∧
        t.runingInf.energy ≤ st.runingInf.energy + 10 * 65536

/-- A measuring packet whose division succeeds moves forward, and the total still fits its type. -/
def ForwardAndFits (T : Target) (st : State) (c : Call) : Prop :=
  c.measures = true → 2 ≤ powerK c.inDataBuffer st.powerNewFlag →
    MovesForward st.runingInf c.inDataBuffer ∧
      st.runingInf.energy + 10 * pulses st.runingInf c.inDataBuffer < 2 ^ T.ulongBits

theorem accumulate_growth_iff {T : Target} {r : RuningInf} {b : Packet} (hr : r.InRange T) :
    (r.energy ≤ (r.accumulate T b).energy ∧
        (r.accumulate T b).energy ≤ r.energy + 10 * 65536) ↔
      MovesForward r b ∧ r.energy + 10 * pulses r b < 2 ^ T.ulongBits := by
  rcases hr with ⟨hlast, henergy⟩
  have hword : 2 ^ 32 ≤ 2 ^ T.ulongBits := Nat.pow_le_pow_right (by decide) T.ulongBits_ge
  by_cases hfwd : MovesForward r b
  · have hle : pulses r b ≤ 65536 := pulses_le
    -- Forward, the summand is at most one period and only the width can be exceeded.
    have hX : 10 * pulses r b < 2 ^ T.ulongBits := by omega
    rw [accumulate_forward T hlast hfwd, Target.ulong, add_mod_growth_iff henergy hX]
    constructor
    · intro h
      exact ⟨hfwd, h.1⟩
    · intro h
      exact ⟨h.2, by omega⟩
  · -- The wrapped difference is far larger than one period, whether or not the sum wraps again.
    have hreg := energyRegister_lt b
    have hbehind : energyRegister b < r.energyLast := by
      simpa [MovesForward, not_or] using (not_or.1 hfwd).2
    have hX : 2 ^ 32 - 10 * (r.energyLast - energyRegister b) < 2 ^ T.ulongBits := by omega
    rw [accumulate_backward T hlast hfwd, Target.ulong, add_mod_growth_iff henergy hX]
    constructor
    · intro h
      omega
    · intro h
      exact absurd h.1 hfwd

theorem growsByPeriod_iff {T : Target} {st : State} {c : Call}
    (hst : (decoder T).Reachable st) : GrowsByPeriod T st c ↔ ForwardAndFits T st c := by
  refine forall_congr' fun hm => forall_congr' fun hK => ?_
  have hstep : (decoder T).step st c = .ok (after55 T st c.inDataBuffer) := by
    rw [step_measures T st c hm, if_neg (Nat.not_lt.2 hK)]
  have hiff := accumulate_growth_iff (b := c.inDataBuffer) (reachable_inRange hst)
  constructor
  · intro h
    exact hiff.1 (h _ hstep)
  · intro h t ht
    rw [hstep] at ht
    cases ht
    exact hiff.2 h

/-- In a run every measuring packet adds at most one register period exactly if every one of them
moves forward and leaves the total within its type. -/
theorem energy_growth_iff (T : Target) (calls : List Call) :
    (decoder T).EveryStep (GrowsByPeriod T) initial calls ↔
      (decoder T).EveryStep (ForwardAndFits T) initial calls :=
  (decoder T).everyStep_congr (A := (decoder T).Reachable)
    (fun _ _ _ hs h => hs.step h) (fun _ _ hs => growsByPeriod_iff hs)
    (decoder T).reachable_init calls

/-- The counter was at `1` and the chip restarts at `0`: the total grows by almost `2 ^ 32`. -/
theorem restart_breaks_growth :
    ¬ ∀ calls, (decoder lp64).EveryStep (GrowsByPeriod lp64) initial calls := by
  intro h
  have hall := h [⟨meterPacket 0x10 2 0 1, 24⟩, ⟨meterPacket 0x10 2 0 0, 24⟩]
  have hfirst : (decoder lp64).step initial ⟨meterPacket 0x10 2 0 1, 24⟩ =
      .ok (after55 lp64 initial (meterPacket 0x10 2 0 1)) := by decide
  have hsecond : (decoder lp64).step (after55 lp64 initial (meterPacket 0x10 2 0 1))
      ⟨meterPacket 0x10 2 0 0, 24⟩ =
      .ok (after55 lp64 (after55 lp64 initial (meterPacket 0x10 2 0 1))
        (meterPacket 0x10 2 0 0)) := by decide
  have hgrowth := ((hall.2 _ hfirst).1 (by decide) (by decide) _ hsecond).2
  revert hgrowth
  decide

end Hlw8032
end LinuxLearn
