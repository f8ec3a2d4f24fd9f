import LinuxLearn.Hlw8032.Safety
import LinuxLearn.Hlw8032.Copies

/-!
# Windows — what the smoothing windows hold over a run

Voltage and current are measured by both cases of `DealUartInf`, under an update bit and, in the
default case, a fault pattern.  The abstract view of a channel is the list of the raw periods of its
effective packets.  The window is the newest three of them, and the reading is computed from their
median.

`x = k * 100 / t; x = x * 10;` is computed in `unsigned long`.  With 32 bits the last product can
wrap, so the reading law needs a bound there; with 34 bits or more it always holds.
-/

namespace LinuxLearn
namespace Hlw8032

open Lib

/-! ## The two channels -/

/-- The quantities measured in both cases under an update bit of their own. -/
inductive Quantity
  | voltage
  | electricity
  deriving DecidableEq, Repr

namespace Quantity

def updateMask : Quantity → UInt8
  | voltage => 0x40
  | electricity => 0x20

def faultPattern : Quantity → UInt8
  | voltage => 0xF8
  | electricity => 0xF4

def coefficient : Quantity → Packet → Nat
  | voltage, b => register24 b UART_IND_VK
  | electricity, b => register24 b UART_IND_IK

def period : Quantity → Packet → Nat
  | voltage, b => register24 b UART_IND_VT
  | electricity, b => register24 b UART_IND_IT

def channel : Quantity → State → Channel
  | voltage, st => st.voltage
  | electricity, st => st.electricity

def value : Quantity → Readings → Nat
  | voltage, rs => rs.voltage
  | electricity, rs => rs.electricity

/-- The call enters a period into the window of the quantity. -/
def effective (m : Quantity) (c : Call) : Bool :=
  c.accepted && updateBit c.inDataBuffer m.updateMask &&
    (c.header == 0x55 || (c.header != 0xAA && !faultHeader c.inDataBuffer m.faultPattern))

/-- The raw periods of the effective packets of a run, newest first. -/
def history (m : Quantity) (calls : List Call) : List Nat :=
  ((calls.filter m.effective).map fun c => m.period c.inDataBuffer).reverse

end Quantity

/-- The first three entries of a history, padded with zeros. -/
def lastThree (periods : List Nat) : Vector Nat ARRAY_LEN :=
  #v[periods.getD 0 0, periods.getD 1 0, periods.getD 2 0]

theorem updataVIPvalue_lastThree (periods : List Nat) (t : Nat) :
    updataVIPvalue (lastThree periods) t = lastThree (t :: periods) := rfl

/-! ## One call -/

/-- A window of whose entries none has been held back. -/
def Channel.Holds (ch : Channel) (periods : List Nat) : Prop :=
  ch = { arr := lastThree periods, cnt := 0 }

/-- As a single repetition is already enough, every period is entered at once. -/
theorem Channel.Holds.enter {ch : Channel} {periods : List Nat} (h : ch.Holds periods) (t : Nat) :
    (ch.enter t).Holds (t :: periods) := by
  have hcount : COUNT_NUM ≤ uint (0 + 1) := by decide
  rw [Channel.Holds] at h ⊢
  subst h
  by_cases hnew : isUpdataNewData (lastThree periods) t
  · simp [Channel.enter, hnew, updataVIPvalue_lastThree]
  · simp [Channel.enter, hnew, hcount, updataVIPvalue_lastThree]

namespace Quantity

section Cases

variable (m : Quantity) (T : Target) (st : State) (b : Packet)

/-- The channel after its update bit has been looked at. -/
def updated : Channel :=
  if updateBit b m.updateMask then (m.channel st).enter (m.period b) else m.channel st

/-- The reading that goes with it. -/
def updatedReading : Nat :=
  if updateBit b m.updateMask then
    reading T (m.coefficient b) (middle ((m.channel st).enter (m.period b)).arr)
  else 0

theorem channel_after55 : m.channel (after55 T st b) = m.updated st b := by
  cases m with
  | voltage => rfl
  | electricity => rfl

theorem channel_afterDefault :
    m.channel (afterDefault st b) =
      if faultHeader b m.faultPattern then m.channel st else m.updated st b := by
  cases m with
  | voltage => rfl
  | electricity => rfl

theorem value_readings55 : m.value (readings55 T st b) = m.updatedReading T st b := by
  cases m with
  | voltage =>
      by_cases hbit : updateBit b 0x40 <;>
        simp [value, readings55, voltageReading, voltageAfter, updatedReading, updateMask,
          coefficient, period, channel, hbit]
  | electricity =>
      by_cases hbit : updateBit b 0x20 <;>
        simp [value, readings55, electricityReading, electricityAfter, updatedReading, updateMask,
          coefficient, period, channel, hbit]

theorem value_readingsDefault :
    m.value (readingsDefault T st b) =
      if faultHeader b m.faultPattern then 0 else m.updatedReading T st b := by
  rw [← value_readings55]
  cases m with
  | voltage => rfl
  | electricity => rfl

end Cases

end Quantity

section Step

variable {T : Target} {st t : State} {c : Call} (m : Quantity)

/-- What a call does to the window of a quantity. -/
theorem channel_step (h : (decoder T).step st c = .ok t) :
    m.channel t =
      if m.effective c then (m.channel st).enter (m.period c.inDataBuffer) else m.channel st := by
  by_cases hacc : c.accepted = true
  · rw [step_accepted T st c hacc] at h
    by_cases h55 : c.header = 0x55
    · rw [if_pos h55, case55_eq] at h
      by_cases hK : powerK c.inDataBuffer st.powerNewFlag >>> 1 = 0
      · rw [if_pos hK] at h
        cases h
      · rw [if_neg hK] at h
        cases h
        simp [Quantity.channel_after55, Quantity.updated, Quantity.effective, hacc, h55]
    · rw [if_neg h55] at h
      by_cases hAA : c.header = 0xAA
      · rw [if_pos hAA] at h
        cases h
        simp [Quantity.effective, hAA]
      · rw [if_neg hAA, caseDefault_eq] at h
        cases h
        by_cases hfault : faultHeader c.inDataBuffer m.faultPattern
        · simp [Quantity.channel_afterDefault, Quantity.effective, h55, hfault]
        · simp [Quantity.channel_afterDefault, Quantity.updated, Quantity.effective, hacc, hAA,
            hfault]
  · have hrej : c.accepted = false := by simpa using hacc
    rw [step_rejected T st c hrej] at h
    cases h
    simp [Quantity.effective, hrej]

/-- The readings that a call computes: those of the call if it returns, and under header `0x55`
those that are there when the energy part begins. -/
def computedReadings (T : Target) (st : State) (c : Call) : Except Fault Readings :=
  if c.measures then (measure55 T c.inDataBuffer st).map Measured.readings
  else (dealUartInfCopies T st c.inDataBuffer c.recvlen).map Outcome.readings

theorem computedReadings_of_measures (h : c.measures = true) :
    computedReadings T st c = .ok (readings55 T st c.inDataBuffer) := by
  rw [computedReadings, if_pos h, measure55_eq]
  rfl

/-- A call that returns has computed the readings of its outcome. -/
theorem computedReadings_of_ok {o : Outcome}
    (h : dealUartInf T st c.inDataBuffer c.recvlen = .ok o) :
    computedReadings T st c = .ok o.readings := by
  by_cases hm : c.measures = true
  · rw [computedReadings_of_measures hm]
    have hkind : c.accepted = true ∧ c.header = 0x55 := by
      simpa [Call.measures] using hm
    rw [dealUartInf_accepted T st c hkind.1, if_pos hkind.2, case55_eq] at h
    split at h
    · cases h
    · cases h
      rfl
  · rw [computedReadings, if_neg hm, dealUartInfCopies_eq, h]
    rfl

/-- An effective call computes its reading from the window it leaves. -/
theorem computedReadings_effective (h : m.effective c = true) :
    ∃ rs, computedReadings T st c = .ok rs ∧
      m.value rs = reading T (m.coefficient c.inDataBuffer)
        (middle ((m.channel st).enter (m.period c.inDataBuffer)).arr) := by
  have hkind : (c.accepted = true ∧ updateBit c.inDataBuffer m.updateMask = true) ∧
      (c.header = 0x55 ∨
        (c.header ≠ 0xAA ∧ faultHeader c.inDataBuffer m.faultPattern = false)) := by
    simpa [Quantity.effective] using h
  rcases hkind with ⟨⟨hacc, hbit⟩, hheader⟩
  by_cases h55 : c.header = 0x55
  · have hm : c.measures = true := by simp [Call.measures, hacc, h55]
    refine ⟨_, computedReadings_of_measures hm, ?_⟩
    simp [Quantity.value_readings55, Quantity.updatedReading, hbit]
  · rcases hheader.resolve_left h55 with ⟨hAA, hfault⟩
    have hcall : dealUartInf T st c.inDataBuffer c.recvlen = .ok {
        state := afterDefault st c.inDataBuffer
        ret := 1
        readings := readingsDefault T st c.inDataBuffer } := by
      rw [dealUartInf_accepted T st c hacc, if_neg h55, if_neg hAA, caseDefault_eq]
    refine ⟨_, computedReadings_of_ok hcall, ?_⟩
    simp [Quantity.value_readingsDefault, Quantity.updatedReading, hbit, hfault]

end Step

/-! ## Readings without overflow -/

theorem register24_lt (b : Packet) (i : Fin 24) : register24 b i < 2 ^ 24 := by
  have hhi : b[i].toNat < 2 ^ 8 := UInt8.toNat_lt _
  have hmid : b[i + 1].toNat < 2 ^ 8 := UInt8.toNat_lt _
  have hlo : b[i + 2].toNat < 2 ^ 8 := UInt8.toNat_lt _
  -- The bytes do not overlap, so the disjunctions are sums.
  have hmid16 : b[i + 1].toNat <<< 8 < 2 ^ 16 := by
    rw [Nat.shiftLeft_eq]
    omega
  have hsum : b[i].toNat <<< 16 ||| b[i + 1].toNat <<< 8 ||| b[i + 2].toNat =
      b[i].toNat * 2 ^ 16 + b[i + 1].toNat * 2 ^ 8 + b[i + 2].toNat := by
    rw [Nat.or_assoc, ← Nat.shiftLeft_add_eq_or_of_lt hlo, Nat.shiftLeft_eq _ 8,
      ← Nat.shiftLeft_add_eq_or_of_lt (by omega), Nat.shiftLeft_eq, ← Nat.add_assoc]
  rw [register24, hsum]
  omega

/-- The value that the reading stands for, over the natural numbers. -/
def exactReading (k t : Nat) : Nat :=
  if t = 0 then 0 else 100 * k / t * 10

/-- The first product always fits, so the reading is exact as long as the last one does. -/
theorem reading_eq (T : Target) {k : Nat} (hk : k < 2 ^ 24) (t : Nat) :
    reading T k t = exactReading k t % 2 ^ T.ulongBits := by
  have hwidth : 2 ^ 32 ≤ 2 ^ T.ulongBits := Nat.pow_le_pow_right (by decide) T.ulongBits_ge
  have hfirst : T.ulong (k * 100) = 100 * k := by
    rw [Target.ulong, Nat.mod_eq_of_lt (by omega), Nat.mul_comm]
  by_cases ht : t = 0
  · simp [reading, exactReading, ht]
  · rw [reading, if_neg ht, hfirst, exactReading, if_neg ht]
    rfl

/-- `unsigned long` of 34 bits is wide enough for every reading. -/
theorem exactReading_lt {k : Nat} (hk : k < 2 ^ 24) (t : Nat) : exactReading k t < 2 ^ 34 := by
  have hdiv : 100 * k / t ≤ 100 * k := Nat.div_le_self _ _
  by_cases ht : t = 0
  · simp [exactReading, ht]
  · rw [exactReading, if_neg ht]
    omega

/-! ## Whole runs -/

namespace Quantity

variable (m : Quantity)

theorem history_cons (c : Call) (calls : List Call) :
    m.history (c :: calls) =
      m.history calls ++ (if m.effective c then [m.period c.inDataBuffer] else []) := by
  by_cases h : m.effective c
  · simp [history, h]
  · simp [history, h]

theorem history_concat (calls : List Call) (c : Call) (h : m.effective c = true) :
    m.history (calls ++ [c]) = m.period c.inDataBuffer :: m.history calls := by
  simp [history, h]

end Quantity

section Run

variable {T : Target} (m : Quantity)

theorem holds_step {st t : State} {c : Call} {periods : List Nat}
    (h : (m.channel st).Holds periods) (hstep : (decoder T).step st c = .ok t) :
    (m.channel t).Holds ((if m.effective c then [m.period c.inDataBuffer] else []) ++ periods) := by
  rw [channel_step m hstep]
  by_cases heff : m.effective c
  · simpa [heff] using h.enter (m.period c.inDataBuffer)
  · simpa [heff] using h

/-- By induction on the calls: the window holds the newest entries of the history. -/
theorem holds_runFrom {st t : State} {calls : List Call} {periods : List Nat}
    (h : (m.channel st).Holds periods) (hrun : (decoder T).runFrom st calls = .ok t) :
    (m.channel t).Holds (m.history calls ++ periods) := by
  induction calls generalizing st periods with
  | nil =>
      cases hrun
      exact h
  | cons c calls ih =>
      rcases ((decoder T).runFrom_cons_eq_ok).1 hrun with ⟨s, hs, hrest⟩
      have hnext := ih (holds_step m h hs) hrest
      rwa [m.history_cons, List.append_assoc]

theorem holds_run {calls : List Call} {st : State} (hrun : (decoder T).run calls = .ok st) :
    (m.channel st).Holds (m.history calls) := by
  have hinit : (m.channel (decoder T).init).Holds [] := by
    cases m with
    | voltage => rfl
    | electricity => rfl
  simpa using holds_runFrom m hinit hrun

/-- In a run, an effective call computes the exact reading reduced to `unsigned long`. -/
theorem computedReadings_run {pre : List Call} {st : State} {c : Call}
    (hrun : (decoder T).run pre = .ok st) (heff : m.effective c = true) :
    ∃ rs, computedReadings T st c = .ok rs ∧
      m.value rs = exactReading (m.coefficient c.inDataBuffer)
        (middle (lastThree (m.history (pre ++ [c])))) % 2 ^ T.ulongBits := by
  rcases computedReadings_effective (T := T) m heff with ⟨rs, hrs, hvalue⟩
  refine ⟨rs, hrs, ?_⟩
  have hwindow := (holds_run m hrun).enter (m.period c.inDataBuffer)
  have hcoefficient : m.coefficient c.inDataBuffer < 2 ^ 24 := by
    cases m with
    | voltage => exact register24_lt _ _
    | electricity => exact register24_lt _ _
  rw [hvalue, hwindow, reading_eq T hcoefficient, m.history_concat pre c heff]

end Run

/-- The windows and readings of a quantity along a run. -/
structure SlidingWindowLaw (T : Target) (m : Quantity) (calls : List Call) : Prop where
  window : ∀ pre post st, calls = pre ++ post → (decoder T).run pre = .ok st →
    (m.channel st).arr = lastThree (m.history pre)
  unchanged : ∀ pre c post st t, calls = pre ++ c :: post → (decoder T).run pre = .ok st →
    (decoder T).step st c = .ok t → m.effective c = false → (m.channel t).arr = (m.channel st).arr
  reading : ∀ pre c post st, calls = pre ++ c :: post → (decoder T).run pre = .ok st →
    m.effective c = true → ∃ rs, computedReadings T st c = .ok rs ∧
      m.value rs = exactReading (m.coefficient c.inDataBuffer)
        (middle (lastThree (m.history (pre ++ [c]))))

/-- Every effective packet that the run comes to has a reading that `unsigned long` can hold. -/
def ReadingsFit (T : Target) (m : Quantity) (calls : List Call) : Prop :=
  ∀ pre c post, calls = pre ++ c :: post → CoefficientsUsable pre → m.effective c = true →
    exactReading (m.coefficient c.inDataBuffer) (middle (lastThree (m.history (pre ++ [c])))) <
      2 ^ T.ulongBits

theorem readingsFit_of_wide {T : Target} (hT : 34 ≤ T.ulongBits) (m : Quantity)
    (calls : List Call) : ReadingsFit T m calls := by
  intro pre c post _ _ _
  have hwidth : 2 ^ 34 ≤ 2 ^ T.ulongBits := Nat.pow_le_pow_right (by decide) hT
  refine lt_of_lt_of_le (exactReading_lt ?_ _) hwidth
  cases m with
  | voltage => exact register24_lt _ _
  | electricity => exact register24_lt _ _

theorem slidingWindow_iff (T : Target) (m : Quantity) (calls : List Call) :
    SlidingWindowLaw T m calls ↔ ReadingsFit T m calls := by
  constructor
  · intro hlaw pre c post heq husable heff
    rcases (run_ok_iff T pre).2 husable with ⟨st, hrun⟩
    rcases hlaw.reading pre c post st heq hrun heff with ⟨rs, hrs, hexact⟩
    rcases computedReadings_run m hrun heff with ⟨rs', hrs', hreduced⟩
    cases hrs.symm.trans hrs'
    -- The reading equals its own remainder.
    rw [hexact] at hreduced
    rw [hreduced]
    exact Nat.mod_lt _ (Nat.two_pow_pos _)
  · intro hfit
    refine ⟨?_, ?_, ?_⟩
    · intro pre post st _ hrun
      rw [holds_run m hrun]
    · intro pre c post st t _ _ hstep hineff
      simp [channel_step m hstep, hineff]
    · intro pre c post st heq hrun heff
      rcases computedReadings_run m hrun heff with ⟨rs, hrs, hreduced⟩
      have hlt := hfit pre c post heq ((run_ok_iff T pre).1 ⟨st, hrun⟩) heff
      exact ⟨rs, hrs, hreduced.trans (Nat.mod_eq_of_lt hlt)⟩

/-- A packet with the largest voltage coefficient and the period `1`. -/
def largeVoltagePacket : Packet :=
  #v[0, 0x5A, 0xFF, 0xFF, 0xFF, 0, 0, 1, 0, 0, 0, 0, 0, 0, 0, 0, 0, 0, 0, 0, 0x40, 0, 0, 0x3E]

/-- Received twice, it makes the product wrap where `unsigned long` has 32 bits. -/
theorem large_voltage_wraps :
    ¬ ∀ calls, SlidingWindowLaw ilp32 .voltage calls := by
  intro h
  have heff : Quantity.voltage.effective ⟨largeVoltagePacket, 24⟩ = true := by decide
  have hok : ((decoder ilp32).run [⟨largeVoltagePacket, 24⟩]).isOk = true := by decide
  cases hrun : (decoder ilp32).run [⟨largeVoltagePacket, 24⟩] with
  | error e =>
      rw [hrun] at hok
      cases hok
  | ok st =>
      have hright := h [⟨largeVoltagePacket, 24⟩, ⟨largeVoltagePacket, 24⟩]
      rcases hright.reading _ _ [] st rfl hrun heff with ⟨rs, hrs, hexact⟩
      rcases computedReadings_run .voltage hrun heff with ⟨rs', hrs', hreduced⟩
      cases hrs.symm.trans hrs'
      rw [hexact] at hreduced
      revert hreduced
      decide

end Hlw8032
end LinuxLearn
