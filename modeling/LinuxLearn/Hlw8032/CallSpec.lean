import LinuxLearn.Hlw8032.Decoder

/-!
# CallSpec — what one call of `DealUartInf` does

The blocks of the decoder are written with divisions that may fail.  This file shows that the
guards in front of the voltage, current and power quotients always hold, gives each block as a
total function, and assembles the three possible effects of a call: a refused packet, a packet
with header `0x55`, and a packet with another header.  Later files use these equations and do not
unfold the blocks again.
-/

namespace LinuxLearn
namespace Hlw8032

/-! ## Total versions of the blocks -/

/-- The filtered period. -/
def middle (arr : Vector Nat ARRAY_LEN) : Nat :=
  median arr[0] arr[1] arr[2]

def newest (arr : Vector Nat ARRAY_LEN) : Nat :=
  arr[0]

def reading (T : Target) (k t : Nat) : Nat :=
  if t = 0 then 0 else T.ulong (T.ulong (k * 100) / t * 10)

def Channel.stretched (ch : Channel) (t : Nat) : Channel :=
  if isUpdataNewData ch.arr t ∧ t > middle ch.arr ∧ t - middle ch.arr > middle ch.arr >>> 2 then
    { ch with arr := resetVIPvalue ch.arr t }
  else
    ch

theorem vipValue_eq (arr : Vector Nat ARRAY_LEN) : vipValue arr = .ok (middle arr) := by
  -- On a window of three the second loop of `getVIPvalue` always returns.
  obtain ⟨a, b, c, rfl⟩ := window_cases arr
  simp [vipValue, getVIPvalue_three, middle]

theorem scaled_eq (T : Target) (q : Quotient) (k t : Nat) :
    scaled T q k t = .ok (reading T k t) := by
  by_cases ht : t = 0
  · simp [scaled, reading, ht]
  · simp [scaled, reading, udiv, ht, bind, Except.bind, pure, Except.pure]

theorem measure_eq (T : Target) (q : Quotient) (ch : Channel) (k t : Nat) :
    ch.measure T q k t = .ok (ch.enter t, reading T k (middle (ch.enter t).arr)) := by
  simp [Channel.measure, vipValue_eq, scaled_eq, bind, Except.bind, pure, Except.pure]

theorem stretch_eq (ch : Channel) (t : Nat) : ch.stretch t = .ok (ch.stretched t) := by
  by_cases hnew : isUpdataNewData ch.arr t
  · by_cases hgrown : t > middle ch.arr ∧ t - middle ch.arr > middle ch.arr >>> 2
    · simp [Channel.stretch, Channel.stretched, vipValue_eq, hnew, hgrown, bind, Except.bind, pure,
        Except.pure]
    · simp [Channel.stretch, Channel.stretched, vipValue_eq, hnew, hgrown, bind, Except.bind, pure,
        Except.pure]
  · simp [Channel.stretch, Channel.stretched, hnew]

/-! ## The blocks -/

section Blocks

variable (T : Target) (st : State) (b : Packet)

def voltageAfter (ch : Channel) : Channel :=
  if updateBit b 0x40 then ch.enter (register24 b UART_IND_VT) else ch

def voltageReading (ch : Channel) : Nat :=
  if updateBit b 0x40 then
    reading T (register24 b UART_IND_VK) (middle (voltageAfter b ch).arr)
  else 0

def electricityAfter (ch : Channel) : Channel :=
  if updateBit b 0x20 then ch.enter (register24 b UART_IND_IT) else ch

def electricityReading (ch : Channel) : Nat :=
  if updateBit b 0x20 then
    reading T (register24 b UART_IND_IK) (middle (electricityAfter b ch).arr)
  else 0

def powerAfter (ch : Channel) (powerNewFlag : Nat) : Channel :=
  if updateBit b 0x10 then ch.enter (register24 b UART_IND_PT)
  else if powerNewFlag = 0 then ch.stretched (register24 b UART_IND_PT)
  else ch

def powerNewFlagAfter (powerNewFlag : Nat) : Nat :=
  if updateBit b 0x10 then 0 else powerNewFlag

/-- The value of `power_k` when the energy part is reached: the coefficient of the packet, unless
no power value has ever been accepted. -/
def powerK (powerNewFlag : Nat) : Nat :=
  if updateBit b 0x10 ∨ powerNewFlag = 0 then register24 b UART_IND_PK else 0

def powerReading (ch : Channel) (powerNewFlag : Nat) : Nat :=
  if updateBit b 0x10 ∨ powerNewFlag = 0 then
    reading T (register24 b UART_IND_PK) (middle (powerAfter b ch powerNewFlag).arr)
  else 0

theorem voltageBlock_eq :
    voltageBlock T st b =
      .ok ({ st with voltage := voltageAfter b st.voltage }, voltageReading T b st.voltage) := by
  by_cases h : updateBit b 0x40
  · simp [voltageBlock, voltageAfter, voltageReading, measure_eq, h, bind, Except.bind, pure,
      Except.pure]
  · simp [voltageBlock, voltageAfter, voltageReading, h]

theorem electricityBlock_eq :
    electricityBlock T st b =
      .ok ({ st with electricity := electricityAfter b st.electricity },
        electricityReading T b st.electricity) := by
  by_cases h : updateBit b 0x20
  · simp [electricityBlock, electricityAfter, electricityReading, measure_eq, h, bind, Except.bind,
      pure, Except.pure]
  · simp [electricityBlock, electricityAfter, electricityReading, h]

theorem powerBlock_eq :
    powerBlock T st b =
      .ok ({ st with
              power := powerAfter b st.power st.powerNewFlag
              powerNewFlag := powerNewFlagAfter b st.powerNewFlag },
        powerK b st.powerNewFlag, powerReading T b st.power st.powerNewFlag) := by
  -- The three branches of the source, in its order.
  by_cases h : updateBit b 0x10
  · simp [powerBlock, powerAfter, powerNewFlagAfter, powerK, powerReading, measure_eq, h, bind,
      Except.bind, pure, Except.pure]
  · by_cases hflag : st.powerNewFlag = 0
    · simp [powerBlock, powerAfter, powerNewFlagAfter, powerK, powerReading, stretch_eq,
        vipValue_eq, scaled_eq, h, hflag, bind, Except.bind, pure, Except.pure]
    · simp [powerBlock, powerAfter, powerNewFlagAfter, powerK, powerReading, h, hflag]

end Blocks

/-! ## The effect of a call -/

/-- The packet passes the length and checksum tests. -/
def accepted (b : Packet) (recvlen : Int) : Bool :=
  recvlen == 24 && checksum b == (sumByte b).toNat

section Effects

variable (T : Target) (st : State) (b : Packet)

/-- The state after an accepted packet with header `0x55`. -/
def after55 : State :=
  { voltage := voltageAfter b st.voltage
    electricity := electricityAfter b st.electricity
    power := powerAfter b st.power st.powerNewFlag
    powerNewFlag := powerNewFlagAfter b st.powerNewFlag
    runingInf :=
      { st.runingInf.accumulate T b with
        energyUnit := T.ulong ((0xD693A400 >>> 1) / (powerK b st.powerNewFlag >>> 1) * 10) } }

def readings55 : Readings :=
  { voltage := voltageReading T b st.voltage
    electricity := electricityReading T b st.electricity
    power := powerReading T b st.power st.powerNewFlag }

/-- The state after an accepted packet with a header other than `0x55` and `0xAA`. -/
def afterDefault : State :=
  { voltage := if faultHeader b 0xF8 then st.voltage else voltageAfter b st.voltage
    electricity :=
      if faultHeader b 0xF4 then st.electricity else electricityAfter b st.electricity
    power := if faultHeader b 0xF2 then st.power else powerAfter b st.power st.powerNewFlag
    powerNewFlag :=
      if faultHeader b 0xF2 then st.powerNewFlag else powerNewFlagAfter b st.powerNewFlag
    runingInf :=
      { st.runingInf with
        voltage := if faultHeader b 0xF8 then 0 else st.runingInf.voltage
        electricity := if faultHeader b 0xF4 then 0 else st.runingInf.electricity
        power := if faultHeader b 0xF2 then 0 else st.runingInf.power } }

def readingsDefault : Readings :=
  { voltage := if faultHeader b 0xF8 then 0 else voltageReading T b st.voltage
    electricity := if faultHeader b 0xF4 then 0 else electricityReading T b st.electricity
    power := if faultHeader b 0xF2 then 0 else powerReading T b st.power st.powerNewFlag }

theorem case55_eq :
    case55 T st b =
      if powerK b st.powerNewFlag >>> 1 = 0 then .error (.divByZero .energyUnit)
      else .ok { state := after55 T st b, ret := 1, readings := readings55 T st b } := by
  by_cases h : powerK b st.powerNewFlag >>> 1 = 0
  · simp [case55, voltageBlock_eq, electricityBlock_eq, powerBlock_eq, RuningInf.rescale, udiv, h,
      bind, Except.bind]
  · simp [case55, voltageBlock_eq, electricityBlock_eq, powerBlock_eq, RuningInf.rescale, udiv, h,
      after55, readings55, bind, Except.bind, pure, Except.pure]

theorem caseDefault_eq :
    caseDefault T st b =
      .ok { state := afterDefault st b, ret := 1, readings := readingsDefault T st b } := by
  -- The three fault patterns are independent of each other.
  by_cases hP : faultHeader b 0xF2 <;> by_cases hI : faultHeader b 0xF4 <;>
    by_cases hV : faultHeader b 0xF8 <;>
      simp [caseDefault, afterDefault, readingsDefault, voltageBlock_eq, electricityBlock_eq,
        powerBlock_eq, hP, hI, hV, bind, Except.bind, pure, Except.pure]

end Effects

/-! ## The four kinds of call -/

namespace Call

def accepted (c : Call) : Bool :=
  Hlw8032.accepted c.inDataBuffer c.recvlen

def header (c : Call) : UInt8 :=
  startFlag c.inDataBuffer

/-- An accepted packet with header `0x55`, the only kind that reaches the energy part. -/
def measures (c : Call) : Bool :=
  c.accepted && c.header == 0x55

end Call

section Kinds

variable (T : Target) (st : State) (c : Call)

theorem step_eq :
    (decoder T).step st c = (dealUartInf T st c.inDataBuffer c.recvlen).map Outcome.state := rfl

theorem step_rejected (h : c.accepted = false) : (decoder T).step st c = .ok st := by
  rw [step_eq, dealUartInf]
  -- Refused by the length test or by the checksum, the packet changes nothing.
  by_cases hlen : c.recvlen = 24
  · have hsum : checksum c.inDataBuffer ≠ (sumByte c.inDataBuffer).toNat := by
      intro heq
      have hacc : c.accepted = true := by
        simp only [Call.accepted, accepted, hlen, heq, beq_self_eq_true, Bool.and_self]
      rw [hacc] at h
      cases h
    rw [if_neg (not_not.2 hlen), if_pos hsum]
    rfl
  · rw [if_pos hlen]
    rfl

/-- Behind the two tests the header decides. -/
theorem dealUartInf_accepted (h : c.accepted = true) :
    dealUartInf T st c.inDataBuffer c.recvlen =
      if c.header = 0x55 then case55 T st c.inDataBuffer
      else if c.header = 0xAA then .ok { state := st, ret := 1, readings := .zero }
      else caseDefault T st c.inDataBuffer := by
  have htests := Bool.and_eq_true_iff.1 h
  have hlen : c.recvlen = 24 := eq_of_beq htests.1
  have hsum : checksum c.inDataBuffer = (sumByte c.inDataBuffer).toNat := eq_of_beq htests.2
  rw [dealUartInf, if_neg (not_not.2 hlen), if_neg (not_not.2 hsum)]
  rfl

theorem step_accepted (h : c.accepted = true) :
    (decoder T).step st c =
      if c.header = 0x55 then (case55 T st c.inDataBuffer).map Outcome.state
      else if c.header = 0xAA then .ok st
      else (caseDefault T st c.inDataBuffer).map Outcome.state := by
  rw [step_eq, dealUartInf_accepted T st c h]
  by_cases h55 : c.header = 0x55
  · rw [if_pos h55, if_pos h55]
  · by_cases hAA : c.header = 0xAA
    · rw [if_neg h55, if_neg h55, if_pos hAA, if_pos hAA]
      rfl
    · rw [if_neg h55, if_neg h55, if_neg hAA, if_neg hAA]

/-- A call that reaches the energy part divides by `power_k >> 1`. -/
theorem step_measures (h : c.measures = true) :
    (decoder T).step st c =
      if powerK c.inDataBuffer st.powerNewFlag < 2 then .error (.divByZero .energyUnit)
      else .ok (after55 T st c.inDataBuffer) := by
  have hkind : c.accepted = true ∧ c.header = 0x55 := by
    simpa [Call.measures] using h
  have hhalf : powerK c.inDataBuffer st.powerNewFlag >>> 1 = 0 ↔
      powerK c.inDataBuffer st.powerNewFlag < 2 := by
    rw [Nat.shiftRight_one]
    omega
  -- Both sides test whether half of the coefficient vanishes.
  rw [step_accepted T st c hkind.1, if_pos hkind.2, case55_eq]
  by_cases hK : powerK c.inDataBuffer st.powerNewFlag < 2
  · rw [if_pos (hhalf.2 hK), if_pos hK]
    rfl
  · rw [if_neg (fun h0 => hK (hhalf.1 h0)), if_neg hK]
    rfl

/-- Calls of the other kinds always succeed and keep the energy fields. -/
theorem step_not_measures (h : c.measures = false) :
    ∃ t, (decoder T).step st c = .ok t ∧
      t.runingInf.energy = st.runingInf.energy ∧
      t.runingInf.energyLast = st.runingInf.energyLast ∧
      t.runingInf.energyFlowFlag = st.runingInf.energyFlowFlag := by
  -- Refused, uncalibrated, or measured without the energy part.
  by_cases hacc : c.accepted = true
  · have h55 : ¬ c.header = 0x55 := by
      simpa [Call.measures, hacc] using h
    rw [step_accepted T st c hacc, if_neg h55]
    by_cases hAA : c.header = 0xAA
    · rw [if_pos hAA]
      exact ⟨st, rfl, rfl, rfl, rfl⟩
    · rw [if_neg hAA, caseDefault_eq]
      exact ⟨afterDefault st c.inDataBuffer, rfl, rfl, rfl, rfl⟩
  · have hrej : c.accepted = false := by simpa using hacc
    exact ⟨st, step_rejected T st c hrej, rfl, rfl, rfl⟩

end Kinds

end Hlw8032
end LinuxLearn
