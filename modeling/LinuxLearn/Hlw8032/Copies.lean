import LinuxLearn.Hlw8032.CallSpec

/-!
# Copies — the two copies of the measuring code in `DealUartInf`

Case `0x55` and the default case each contain the code that filters and scales the three channels.
Here both copies are written out, statement by statement and in the order of the source.  They are
compared with the blocks of `Decoder`, and with each other:

- `dealUartInfCopies_eq`: the function with the copies written out is `dealUartInf`;
- `copies_agree`: a channel without a fault pattern in the header is treated as under header
  `0x55`, and a channel with one is left alone.
-/

namespace LinuxLearn
namespace Hlw8032

/-! ## Case `0x55`, lines 177-306 -/

section Case55

variable (T : Target) (b : Packet)

def voltage55 (ch : Channel) : Except Fault (Channel × Nat) := do
  let mut voltageA := ch.arr
  let mut voltageCnt := ch.cnt
  let mut voltage := 0
  if updateBit b 0x40 then
    let voltageK := register24 b UART_IND_VK
    let mut voltageT := register24 b UART_IND_VT
    if isUpdataNewData voltageA voltageT then
      voltageA := updataVIPvalue voltageA voltageT
      voltageCnt := 0
    else
      voltageCnt := uint (voltageCnt + 1)
      if COUNT_NUM ≤ voltageCnt then
        voltageCnt := 0
        voltageA := updataVIPvalue voltageA voltageT
    voltageT ← vipValue voltageA
    if voltageT = 0 then
      voltage := 0
    else
      voltage ← udiv .voltage (T.ulong (voltageK * 100)) voltageT
      voltage := T.ulong (voltage * 10)
  return ({ arr := voltageA, cnt := voltageCnt }, voltage)

def electricity55 (ch : Channel) : Except Fault (Channel × Nat) := do
  let mut electricityA := ch.arr
  let mut electricityCnt := ch.cnt
  let mut electricity := 0
  if updateBit b 0x20 then
    let electricityK := register24 b UART_IND_IK
    let mut electricityT := register24 b UART_IND_IT
    if isUpdataNewData electricityA electricityT then
      electricityA := updataVIPvalue electricityA electricityT
      electricityCnt := 0
    else
      electricityCnt := uint (electricityCnt + 1)
      if COUNT_NUM ≤ electricityCnt then
        electricityCnt := 0
        electricityA := updataVIPvalue electricityA electricityT
    electricityT ← vipValue electricityA
    if electricityT = 0 then
      electricity := 0
    else
      electricity ← udiv .electricity (T.ulong (electricityK * 100)) electricityT
      electricity := T.ulong (electricity * 10)
  return ({ arr := electricityA, cnt := electricityCnt }, electricity)

/-- What the power part leaves behind. -/
structure PowerPart where
  channel : Channel
  powerNewFlag : Nat
  powerK : Nat
  power : Nat
  deriving DecidableEq, Repr

def power55 (ch : Channel) (flag : Nat) : Except Fault PowerPart := do
  let mut powerA := ch.arr
  let mut powerCnt := ch.cnt
  let mut powerNewFlag := flag
  let mut powerK := 0
  let mut power := 0
  if updateBit b 0x10 then
    powerNewFlag := 0
    powerK := register24 b UART_IND_PK
    let mut powerT := register24 b UART_IND_PT
    if isUpdataNewData powerA powerT then
      powerA := updataVIPvalue powerA powerT
      powerCnt := 0
    else
      powerCnt := uint (powerCnt + 1)
      if COUNT_NUM ≤ powerCnt then
        powerCnt := 0
        powerA := updataVIPvalue powerA powerT
    powerT ← vipValue powerA
    if powerT = 0 then
      power := 0
    else
      power ← udiv .power (T.ulong (powerK * 100)) powerT
      power := T.ulong (power * 10)
  else if powerNewFlag = 0 then
    powerK := register24 b UART_IND_PK
    let mut powerT := register24 b UART_IND_PT
    if isUpdataNewData powerA powerT then
      let powerData ← vipValue powerA
      if powerT > powerData then
        if powerT - powerData > powerData >>> 2 then
          powerA := resetVIPvalue powerA powerT
    powerT ← vipValue powerA
    if powerT = 0 then
      power := 0
    else
      power ← udiv .power (T.ulong (powerK * 100)) powerT
      power := T.ulong (power * 10)
  return {
    channel := { arr := powerA, cnt := powerCnt }
    powerNewFlag := powerNewFlag
    powerK := powerK
    power := power }

/-- The variables when case `0x55` reaches its energy part. -/
structure Measured where
  state : State
  powerK : Nat
  readings : Readings
  deriving DecidableEq, Repr

/-- Case `0x55` up to its energy part. -/
def measure55 (st : State) : Except Fault Measured := do
  let (voltageCh, voltage) ← voltage55 T b st.voltage
  let (electricityCh, electricity) ← electricity55 T b st.electricity
  let p ← power55 T b st.power st.powerNewFlag
  return {
    state :=
      { st with
        voltage := voltageCh
        electricity := electricityCh
        power := p.channel
        powerNewFlag := p.powerNewFlag }
    powerK := p.powerK
    readings := ⟨voltage, electricity, p.power⟩ }

end Case55

/-! ## The default case, lines 342-489 -/

section Default

variable (T : Target) (b : Packet)

def powerDefault (r : RuningInf) (ch : Channel) (flag : Nat) :
    Except Fault (RuningInf × PowerPart) := do
  let mut runingInf := r
  let mut powerA := ch.arr
  let mut powerCnt := ch.cnt
  let mut powerNewFlag := flag
  let mut powerK := 0
  let mut power := 0
  if faultHeader b 0xF2 then
    runingInf := { runingInf with power := 0 }
    power := 0
  else
    if updateBit b 0x10 then
      powerNewFlag := 0
      powerK := register24 b UART_IND_PK
      let mut powerT := register24 b UART_IND_PT
      if isUpdataNewData powerA powerT then
        powerA := updataVIPvalue powerA powerT
        powerCnt := 0
      else
        powerCnt := uint (powerCnt + 1)
        if COUNT_NUM ≤ powerCnt then
          powerCnt := 0
          powerA := updataVIPvalue powerA powerT
      powerT ← vipValue powerA
      if powerT = 0 then
        power := 0
      else
        power ← udiv .power (T.ulong (powerK * 100)) powerT
        power := T.ulong (power * 10)
    else if powerNewFlag = 0 then
      powerK := register24 b UART_IND_PK
      let mut powerT := register24 b UART_IND_PT
      if isUpdataNewData powerA powerT then
        let powerData ← vipValue powerA
        if powerT > powerData then
          if powerT - powerData > powerData >>> 2 then
            powerA := resetVIPvalue powerA powerT
      powerT ← vipValue powerA
      if powerT = 0 then
        power := 0
      else
        power ← udiv .power (T.ulong (powerK * 100)) powerT
        power := T.ulong (power * 10)
  return (runingInf, {
    channel := { arr := powerA, cnt := powerCnt }
    powerNewFlag := powerNewFlag
    powerK := powerK
    power := power })

def electricityDefault (r : RuningInf) (ch : Channel) :
    Except Fault (RuningInf × Channel × Nat) := do
  let mut runingInf := r
  let mut electricityA := ch.arr
  let mut electricityCnt := ch.cnt
  let mut electricity := 0
  if faultHeader b 0xF4 then
    runingInf := { runingInf with electricity := 0 }
    electricity := 0
  else
    if updateBit b 0x20 then
      let electricityK := register24 b UART_IND_IK
      let mut electricityT := register24 b UART_IND_IT
      if isUpdataNewData electricityA electricityT then
        electricityA := updataVIPvalue electricityA electricityT
        electricityCnt := 0
      else
        electricityCnt := uint (electricityCnt + 1)
        if COUNT_NUM ≤ electricityCnt then
          electricityCnt := 0
          electricityA := updataVIPvalue electricityA electricityT
      electricityT ← vipValue electricityA
      if electricityT = 0 then
        electricity := 0
      else
        electricity ← udiv .electricity (T.ulong (electricityK * 100)) electricityT
        electricity := T.ulong (electricity * 10)
  return (runingInf, { arr := electricityA, cnt := electricityCnt }, electricity)

def voltageDefault (r : RuningInf) (ch : Channel) : Except Fault (RuningInf × Channel × Nat) := do
  let mut runingInf := r
  let mut voltageA := ch.arr
  let mut voltageCnt := ch.cnt
  let mut voltage := 0
  if faultHeader b 0xF8 then
    runingInf := { runingInf with voltage := 0 }
    voltage := 0
  else
    if updateBit b 0x40 then
      let voltageK := register24 b UART_IND_VK
      let mut voltageT := register24 b UART_IND_VT
      if isUpdataNewData voltageA voltageT then
        voltageA := updataVIPvalue voltageA voltageT
        voltageCnt := 0
      else
        voltageCnt := uint (voltageCnt + 1)
        if COUNT_NUM ≤ voltageCnt then
          voltageCnt := 0
          voltageA := updataVIPvalue voltageA voltageT
      voltageT ← vipValue voltageA
      if voltageT = 0 then
        voltage := 0
      else
        voltage ← udiv .voltage (T.ulong (voltageK * 100)) voltageT
        voltage := T.ulong (voltage * 10)
  return (runingInf, { arr := voltageA, cnt := voltageCnt }, voltage)

def measureDefault (st : State) : Except Fault Outcome := do
  let (runingInf, p) ← powerDefault T b st.runingInf st.power st.powerNewFlag
  let (runingInf, electricityCh, electricity) ← electricityDefault T b runingInf st.electricity
  let (runingInf, voltageCh, voltage) ← voltageDefault T b runingInf st.voltage
  return {
    state :=
      { voltage := voltageCh
        electricity := electricityCh
        power := p.channel
        powerNewFlag := p.powerNewFlag
        runingInf := runingInf }
    ret := 1
    readings := ⟨voltage, electricity, p.power⟩ }

end Default

/-- `DealUartInf` with both copies written out. -/
def dealUartInfCopies (T : Target) (st : State) (inDataBuffer : Packet) (recvlen : Int) :
    Except Fault Outcome :=
  if recvlen ≠ 24 then
    .ok { state := st, ret := -1, readings := .zero }
  else if checksum inDataBuffer ≠ (sumByte inDataBuffer).toNat then
    .ok { state := st, ret := -2, readings := .zero }
  else if startFlag inDataBuffer = 0x55 then do
    let m ← measure55 T inDataBuffer st
    let r ← (m.state.runingInf.accumulate T inDataBuffer).rescale T m.powerK
    return { state := { m.state with runingInf := r }, ret := 1, readings := m.readings }
  else if startFlag inDataBuffer = 0xAA then
    .ok { state := st, ret := 1, readings := .zero }
  else
    measureDefault T inDataBuffer st

/-! ## The copies compute the same values -/

/-- The part of one channel as both copies write it, for any update bit and registers; `f` is
what the copy returns of the channel and its value. -/
def measureWritten {α : Type} (T : Target) (q : Quotient) (bit : Bool) (k t : Nat)
    (f : Channel → Nat → α) (ch : Channel) : Except Fault α := do
  let mut arr := ch.arr
  let mut cnt := ch.cnt
  let mut x := 0
  if bit then
    let mut t := t
    if isUpdataNewData arr t then
      arr := updataVIPvalue arr t
      cnt := 0
    else
      cnt := uint (cnt + 1)
      if COUNT_NUM ≤ cnt then
        cnt := 0
        arr := updataVIPvalue arr t
    t ← vipValue arr
    if t = 0 then
      x := 0
    else
      x ← udiv q (T.ulong (k * 100)) t
      x := T.ulong (x * 10)
  return f { arr := arr, cnt := cnt } x

/-- The power part as both copies write it; `f` is what the copy returns of it. -/
def powerWritten {α : Type} (T : Target) (b : Packet) (f : PowerPart → α) (ch : Channel)
    (flag : Nat) : Except Fault α := do
  let mut powerA := ch.arr
  let mut powerCnt := ch.cnt
  let mut powerNewFlag := flag
  let mut powerK := 0
  let mut power := 0
  if updateBit b 0x10 then
    powerNewFlag := 0
    powerK := register24 b UART_IND_PK
    let mut powerT := register24 b UART_IND_PT
    if isUpdataNewData powerA powerT then
      powerA := updataVIPvalue powerA powerT
      powerCnt := 0
    else
      powerCnt := uint (powerCnt + 1)
      if COUNT_NUM ≤ powerCnt then
        powerCnt := 0
        powerA := updataVIPvalue powerA powerT
    powerT ← vipValue powerA
    if powerT = 0 then
      power := 0
    else
      power ← udiv .power (T.ulong (powerK * 100)) powerT
      power := T.ulong (power * 10)
  else if powerNewFlag = 0 then
    powerK := register24 b UART_IND_PK
    let mut powerT := register24 b UART_IND_PT
    if isUpdataNewData powerA powerT then
      let powerData ← vipValue powerA
      if powerT > powerData then
        if powerT - powerData > powerData >>> 2 then
          powerA := resetVIPvalue powerA powerT
    powerT ← vipValue powerA
    if powerT = 0 then
      power := 0
    else
      power ← udiv .power (T.ulong (powerK * 100)) powerT
      power := T.ulong (power * 10)
  return f {
    channel := { arr := powerA, cnt := powerCnt }
    powerNewFlag := powerNewFlag
    powerK := powerK
    power := power }

/-- The scaling at the end of each part, whatever is done with its result. -/
theorem written_scaled {α : Type} (T : Target) (q : Quotient) (k m : Nat) (f : Nat → α) :
    (if m = 0 then pure (f 0)
      else (fun x => f (T.ulong (x * 10))) <$> udiv q (T.ulong (k * 100)) m) =
      (.ok (f (reading T k m)) : Except Fault α) := by
  by_cases hm : m = 0
  · simp [hm, reading, pure, Except.pure]
  · simp [hm, reading, udiv, Functor.map, Except.map]

theorem ok_bind {α β : Type} (a : α) (f : α → Except Fault β) : (Except.ok a >>= f) = f a := rfl

theorem measureWritten_eq {α : Type} (T : Target) (q : Quotient) (bit : Bool) (k t : Nat)
    (f : Channel → Nat → α) (ch : Channel) :
    measureWritten T q bit k t f ch =
      if bit then .ok (f (ch.enter t) (reading T k (middle (ch.enter t).arr)))
      else .ok (f ch 0) := by
  cases bit with
  | false => rfl
  | true =>
      have hscale := fun ch' : Channel => written_scaled T q k (middle ch'.arr) (f ch')
      -- Two of the three ways through the counting code enter the period.
      by_cases hnew : isUpdataNewData ch.arr t
      · simpa [measureWritten, Channel.enter, vipValue_eq, ok_bind, hnew] using hscale (ch.enter t)
      · by_cases hcnt : COUNT_NUM ≤ uint (ch.cnt + 1)
        · simpa [measureWritten, Channel.enter, vipValue_eq, ok_bind, hnew, hcnt] using
            hscale (ch.enter t)
        · simpa [measureWritten, Channel.enter, vipValue_eq, ok_bind, hnew, hcnt] using
            hscale (ch.enter t)

section Values

variable (T : Target) (b : Packet) (r : RuningInf) (ch : Channel)

theorem voltage55_eq :
    voltage55 T b ch = .ok (voltageAfter b ch, voltageReading T b ch) := by
  have hfamily : voltage55 T b ch = measureWritten T .voltage (updateBit b 0x40)
      (register24 b UART_IND_VK) (register24 b UART_IND_VT) Prod.mk ch := rfl
  by_cases hbit : updateBit b 0x40
  · simp [hfamily, measureWritten_eq, voltageAfter, voltageReading, hbit]
  · simp [hfamily, measureWritten_eq, voltageAfter, voltageReading, hbit]

theorem electricity55_eq :
    electricity55 T b ch = .ok (electricityAfter b ch, electricityReading T b ch) := by
  have hfamily : electricity55 T b ch = measureWritten T .electricity (updateBit b 0x20)
      (register24 b UART_IND_IK) (register24 b UART_IND_IT) Prod.mk ch := rfl
  by_cases hbit : updateBit b 0x20
  · simp [hfamily, measureWritten_eq, electricityAfter, electricityReading, hbit]
  · simp [hfamily, measureWritten_eq, electricityAfter, electricityReading, hbit]

theorem electricityDefault_eq :
    electricityDefault T b r ch =
      if faultHeader b 0xF4 then .ok ({ r with electricity := 0 }, ch, 0)
      else .ok (r, electricityAfter b ch, electricityReading T b ch) := by
  by_cases hfault : faultHeader b 0xF4
  · simp [electricityDefault, hfault, pure, Except.pure]
  · have hfamily : electricityDefault T b r ch = measureWritten T .electricity (updateBit b 0x20)
        (register24 b UART_IND_IK) (register24 b UART_IND_IT) (fun ch x => (r, ch, x)) ch := by
      simp only [electricityDefault, if_neg hfault]
      rfl
    by_cases hbit : updateBit b 0x20
    · simp [hfamily, measureWritten_eq, electricityAfter, electricityReading, hbit, hfault]
    · simp [hfamily, measureWritten_eq, electricityAfter, electricityReading, hbit, hfault]

theorem voltageDefault_eq :
    voltageDefault T b r ch =
      if faultHeader b 0xF8 then .ok ({ r with voltage := 0 }, ch, 0)
      else .ok (r, voltageAfter b ch, voltageReading T b ch) := by
  by_cases hfault : faultHeader b 0xF8
  · simp [voltageDefault, hfault, pure, Except.pure]
  · have hfamily : voltageDefault T b r ch = measureWritten T .voltage (updateBit b 0x40)
        (register24 b UART_IND_VK) (register24 b UART_IND_VT) (fun ch x => (r, ch, x)) ch := by
      simp only [voltageDefault, if_neg hfault]
      rfl
    by_cases hbit : updateBit b 0x40
    · simp [hfamily, measureWritten_eq, voltageAfter, voltageReading, hbit, hfault]
    · simp [hfamily, measureWritten_eq, voltageAfter, voltageReading, hbit, hfault]

/-- The power part after a packet that is measured. -/
def powerPart (flag : Nat) : PowerPart :=
  { channel := powerAfter b ch flag
    powerNewFlag := powerNewFlagAfter b flag
    powerK := powerK b flag
    power := powerReading T b ch flag }

theorem powerWritten_eq {α : Type} (f : PowerPart → α) (flag : Nat) :
    powerWritten T b f ch flag = .ok (f (powerPart T b ch flag)) := by
  by_cases hbit : updateBit b 0x10
  · -- The update branch is that of the other channels.
    have hfamily : powerWritten T b f ch flag =
        measureWritten T .power true (register24 b UART_IND_PK) (register24 b UART_IND_PT)
          (fun ch x => f ⟨ch, 0, register24 b UART_IND_PK, x⟩) ch := by
      simp only [powerWritten, if_pos hbit]
      rfl
    simp [hfamily, measureWritten_eq, powerPart, powerAfter, powerNewFlagAfter, powerK,
      powerReading, hbit]
  · by_cases hflag : flag = 0
    · have hscale := fun ch' : Channel => written_scaled T .power (register24 b UART_IND_PK)
        (middle ch'.arr) (fun x => f (PowerPart.mk ch' 0 (register24 b UART_IND_PK) x))
      have hpart : powerPart T b ch flag =
          ⟨ch.stretched (register24 b UART_IND_PT), 0, register24 b UART_IND_PK,
            reading T (register24 b UART_IND_PK)
              (middle (ch.stretched (register24 b UART_IND_PT)).arr)⟩ := by
        simp [powerPart, powerAfter, powerNewFlagAfter, powerK, powerReading, hbit, hflag]
      rw [hpart]
      -- Of the four ways through the nested tests one resets the window.
      by_cases hnew : isUpdataNewData ch.arr (register24 b UART_IND_PT)
      · by_cases hgt : register24 b UART_IND_PT > middle ch.arr
        · by_cases hquarter : register24 b UART_IND_PT - middle ch.arr > middle ch.arr >>> 2
          · simpa [powerWritten, Channel.stretched, vipValue_eq, ok_bind, hbit, hflag, hnew, hgt,
              hquarter] using hscale (ch.stretched (register24 b UART_IND_PT))
          · simpa [powerWritten, Channel.stretched, vipValue_eq, ok_bind, hbit, hflag, hnew, hgt,
              hquarter] using hscale (ch.stretched (register24 b UART_IND_PT))
        · simpa [powerWritten, Channel.stretched, vipValue_eq, ok_bind, hbit, hflag, hnew, hgt]
            using hscale (ch.stretched (register24 b UART_IND_PT))
      · simpa [powerWritten, Channel.stretched, vipValue_eq, ok_bind, hbit, hflag, hnew] using
          hscale (ch.stretched (register24 b UART_IND_PT))
    · simp [powerWritten, powerPart, powerAfter, powerNewFlagAfter, powerK, powerReading, hbit,
        hflag, pure, Except.pure]

theorem power55_eq (flag : Nat) : power55 T b ch flag = .ok (powerPart T b ch flag) :=
  powerWritten_eq T b ch id flag

theorem powerDefault_eq (flag : Nat) :
    powerDefault T b r ch flag =
      if faultHeader b 0xF2 then .ok ({ r with power := 0 }, ⟨ch, flag, 0, 0⟩)
      else .ok (r, powerPart T b ch flag) := by
  by_cases hfault : faultHeader b 0xF2
  · simp [powerDefault, hfault, pure, Except.pure]
  · have hfamily : powerDefault T b r ch flag = powerWritten T b (Prod.mk r) ch flag := by
      simp only [powerDefault, if_neg hfault]
      rfl
    rw [hfamily, powerWritten_eq, if_neg hfault]

end Values

/-! ## The whole function -/

section Whole

variable (T : Target) (b : Packet) (st : State)

theorem measure55_eq :
    measure55 T b st =
      .ok {
        state :=
          { st with
            voltage := voltageAfter b st.voltage
            electricity := electricityAfter b st.electricity
            power := powerAfter b st.power st.powerNewFlag
            powerNewFlag := powerNewFlagAfter b st.powerNewFlag }
        powerK := powerK b st.powerNewFlag
        readings := readings55 T st b } := by
  simp [measure55, voltage55_eq, electricity55_eq, power55_eq, powerPart, readings55, ok_bind,
    pure, Except.pure]

theorem measureDefault_eq :
    measureDefault T b st =
      .ok { state := afterDefault st b, ret := 1, readings := readingsDefault T st b } := by
  -- The three fault patterns are independent of each other.
  by_cases hP : faultHeader b 0xF2 <;> by_cases hI : faultHeader b 0xF4 <;>
    by_cases hV : faultHeader b 0xF8 <;>
      simp [measureDefault, powerDefault_eq, electricityDefault_eq, voltageDefault_eq, powerPart,
        afterDefault, readingsDefault, ok_bind, hP, hI, hV, pure, Except.pure]

/-- The blocks of `Decoder` are the code of both copies. -/
theorem dealUartInfCopies_eq (recvlen : Int) :
    dealUartInfCopies T st b recvlen = dealUartInf T st b recvlen := by
  have h55 : (do
        let m ← measure55 T b st
        let r ← (m.state.runingInf.accumulate T b).rescale T m.powerK
        return { state := { m.state with runingInf := r }, ret := 1, readings := m.readings }) =
      case55 T st b := by
    simp [measure55_eq, case55, voltageBlock_eq, electricityBlock_eq, powerBlock_eq, readings55,
      ok_bind]
  simp only [dealUartInfCopies, dealUartInf, h55, measureDefault_eq, caseDefault_eq]

end Whole

/-! ## Agreement of the copies -/

/-- The packet with another header. -/
def withHeader (body : Packet) (h : UInt8) : Packet :=
  body.set 0 h

section Header

variable (body : Packet) (h : UInt8)

@[simp] theorem startFlag_withHeader : startFlag (withHeader body h) = h := by
  simp [startFlag, withHeader, UART_IND_HD]

theorem withHeader_getElem {i : Nat} (hi : i < 24) (hpos : 0 < i) :
    (withHeader body h)[i] = body[i] := by
  simp [withHeader, hpos.ne]

@[simp] theorem sumByte_withHeader : sumByte (withHeader body h) = sumByte body :=
  withHeader_getElem body h _ (by decide)

/-- The checksum leaves the header out. -/
@[simp] theorem checksum_withHeader : checksum (withHeader body h) = checksum body := by
  simp [checksum, withHeader_getElem]

@[simp] theorem updateBit_withHeader (mask : UInt8) :
    updateBit (withHeader body h) mask = updateBit body mask := by
  have hflags : (withHeader body h)[UART_IND_FG] = body[UART_IND_FG] :=
    withHeader_getElem body h _ (by decide)
  simp [updateBit, hflags]

theorem register24_withHeader {i : Fin 24} (hpos : 0 < i.val) (hi : i.val + 2 < 24) :
    register24 (withHeader body h) i = register24 body i := by
  have h1 : (i + 1).val = i.val + 1 := by
    simp [Fin.val_add]
    omega
  have h2 : (i + 2).val = i.val + 2 := by
    simp [Fin.val_add]
    omega
  simp [register24, withHeader_getElem, hpos, h1, h2]

theorem registers_withHeader :
    register24 (withHeader body h) UART_IND_VK = register24 body UART_IND_VK ∧
      register24 (withHeader body h) UART_IND_VT = register24 body UART_IND_VT ∧
      register24 (withHeader body h) UART_IND_IK = register24 body UART_IND_IK ∧
      register24 (withHeader body h) UART_IND_IT = register24 body UART_IND_IT ∧
      register24 (withHeader body h) UART_IND_PK = register24 body UART_IND_PK ∧
      register24 (withHeader body h) UART_IND_PT = register24 body UART_IND_PT := by
  refine ⟨?_, ?_, ?_, ?_, ?_, ?_⟩ <;>
    exact register24_withHeader body h (by decide) (by decide)

/-- Nothing that the voltage part computes depends on the header. -/
theorem voltage_withHeader (T : Target) :
    voltageAfter (withHeader body h) = voltageAfter body ∧
      voltageReading T (withHeader body h) = voltageReading T body := by
  have hafter : voltageAfter (withHeader body h) = voltageAfter body := by
    funext ch
    simp [voltageAfter, registers_withHeader body h]
  refine ⟨hafter, ?_⟩
  funext ch
  simp [voltageReading, hafter, registers_withHeader body h]

theorem electricity_withHeader (T : Target) :
    electricityAfter (withHeader body h) = electricityAfter body ∧
      electricityReading T (withHeader body h) = electricityReading T body := by
  have hafter : electricityAfter (withHeader body h) = electricityAfter body := by
    funext ch
    simp [electricityAfter, registers_withHeader body h]
  refine ⟨hafter, ?_⟩
  funext ch
  simp [electricityReading, hafter, registers_withHeader body h]

theorem power_withHeader (T : Target) :
    powerAfter (withHeader body h) = powerAfter body ∧
      powerNewFlagAfter (withHeader body h) = powerNewFlagAfter body ∧
      powerReading T (withHeader body h) = powerReading T body := by
  have hafter : powerAfter (withHeader body h) = powerAfter body := by
    funext ch flag
    simp [powerAfter, registers_withHeader body h]
  refine ⟨hafter, ?_, ?_⟩
  · funext flag
    simp [powerNewFlagAfter]
  · funext ch flag
    simp [powerReading, hafter, registers_withHeader body h]

end Header

/-- How a channel is treated under a header that matches its fault pattern or not: `before` is
what the call finds, `ours` what it leaves, and `theirs` what header `0x55` leaves. -/
structure ChannelAgrees {α : Type} (fault : Prop) (before ours theirs : α)
    (reading reading55 : Nat) : Prop where
  measured : ¬ fault → ours = theirs ∧ reading = reading55
  skipped : fault → ours = before ∧ reading = 0

/-- The energy fields are the same. -/
structure SameEnergy (r r' : RuningInf) : Prop where
  energy : r'.energy = r.energy
  energyLast : r'.energyLast = r.energyLast
  energyFlowFlag : r'.energyFlowFlag = r.energyFlowFlag
  energyCurrent : r'.energyCurrent = r.energyCurrent
  energyUnit : r'.energyUnit = r.energyUnit

theorem channelAgrees_ite {α : Type} (fault : Prop) [Decidable fault] (before theirs : α)
    (reading55 : Nat) :
    ChannelAgrees fault before (if fault then before else theirs) theirs
      (if fault then 0 else reading55) reading55 where
  measured hfault := by simp [hfault]
  skipped hfault := by simp [hfault]

theorem copies_agree (T : Target) (st : State) (body : Packet) (h : UInt8) (h55 : h ≠ 0x55)
    (hAA : h ≠ 0xAA) (hsum : checksum body = (sumByte body).toNat) :
    ∃ o m, dealUartInfCopies T st (withHeader body h) 24 = .ok o ∧
      measure55 T (withHeader body 0x55) st = .ok m ∧
      ChannelAgrees (h &&& 0xF8 = 0xF8) st.voltage o.state.voltage m.state.voltage
        o.readings.voltage m.readings.voltage ∧
      ChannelAgrees (h &&& 0xF4 = 0xF4) st.electricity o.state.electricity m.state.electricity
        o.readings.electricity m.readings.electricity ∧
      ChannelAgrees (h &&& 0xF2 = 0xF2) (st.power, st.powerNewFlag)
        (o.state.power, o.state.powerNewFlag) (m.state.power, m.state.powerNewFlag)
        o.readings.power m.readings.power ∧
      SameEnergy st.runingInf o.state.runingInf := by
  have hfault : ∀ p, faultHeader (withHeader body h) p = true ↔ h &&& p = p := by
    intro p
    rw [faultHeader, startFlag_withHeader, beq_iff_eq]
  have hcall : dealUartInfCopies T st (withHeader body h) 24 =
      .ok {
        state := afterDefault st (withHeader body h)
        ret := 1
        readings := readingsDefault T st (withHeader body h) } := by
    simp only [dealUartInfCopies, startFlag_withHeader, sumByte_withHeader, checksum_withHeader,
      hsum, h55, hAA, measureDefault_eq, ne_eq, not_true_eq_false, if_false]
  rcases voltage_withHeader body h T with ⟨hV, hVr⟩
  rcases voltage_withHeader body 0x55 T with ⟨hV55, hVr55⟩
  rcases electricity_withHeader body h T with ⟨hI, hIr⟩
  rcases electricity_withHeader body 0x55 T with ⟨hI55, hIr55⟩
  rcases power_withHeader body h T with ⟨hP, hPf, hPr⟩
  rcases power_withHeader body 0x55 T with ⟨hP55, hPf55, hPr55⟩
  refine ⟨_, _, hcall, measure55_eq T _ st, ?_, ?_, ?_, ?_⟩
  · simp only [afterDefault, readingsDefault, readings55, hfault, hV, hVr, hV55, hVr55]
    exact channelAgrees_ite (h &&& 0xF8 = 0xF8) _ _ _
  · simp only [afterDefault, readingsDefault, readings55, hfault, hI, hIr, hI55, hIr55]
    exact channelAgrees_ite (h &&& 0xF4 = 0xF4) _ _ _
  · simp only [afterDefault, readingsDefault, readings55, hfault, hP, hPf, hPr, hP55, hPf55, hPr55]
    have hpair := channelAgrees_ite (h &&& 0xF2 = 0xF2) (st.power, st.powerNewFlag)
      (powerAfter body st.power st.powerNewFlag, powerNewFlagAfter body st.powerNewFlag)
      (powerReading T body st.power st.powerNewFlag)
    convert hpair using 1
    split <;> rfl
  · exact ⟨rfl, rfl, rfl, rfl, rfl⟩

/-- A packet that updates all three channels. -/
def measuredBody : Packet :=
  #v[0x55, 0x5A, 0, 0, 100, 0, 0, 10, 0, 0, 100, 0, 0, 10, 0, 0, 100, 0, 0, 10, 0x70, 0, 0, 0xBA]

/-- Under the header of a power fault its voltage is measured and its power is not. -/
theorem power_fault_skips_power :
    ∃ o m, dealUartInfCopies lp64 initial (withHeader measuredBody 0xF2) 24 = .ok o ∧
      measure55 lp64 (withHeader measuredBody 0x55) initial = .ok m ∧
      o.state.voltage = m.state.voltage ∧ o.readings.voltage = m.readings.voltage ∧
      o.state.power = initial.power ∧ o.readings.power = 0 := by
  obtain ⟨o, m, ho, hm, hV, -, hP, -⟩ :=
    copies_agree lp64 initial measuredBody 0xF2 (by decide) (by decide) (by decide)
  have hvoltage := hV.measured (by decide)
  have hpower := hP.skipped (by decide)
  exact ⟨o, m, ho, hm, hvoltage.1, hvoltage.2, congrArg Prod.fst hpower.1, hpower.2⟩

end Hlw8032
end LinuxLearn
