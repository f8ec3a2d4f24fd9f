import LinuxLearn.Lib.Machine
import LinuxLearn.Hlw8032.Filter

/-!
# Decoder — `DealUartInf` of `wt_hlw8032.c`

One call of `DealUartInf` takes a buffer of 24 bytes and the number of bytes the caller read.  The
static variables of the function and the global `runingInf` are the state that calls share.

Conventions:

- `unsigned int` is 32 bits wide; the width of `unsigned long` is a parameter (`Target`), and
  results of `unsigned long` arithmetic are reduced by `Target.ulong`;
- a division by zero, or the run off the end of `getVIPvalue`, is a `Fault` that ends the process;
- `SAMPLE_RESISTANCE_MR` is `1`, so the halving branches are not compiled;
- the `printf` calls are left out, except that the three readings they show are returned.
-/

namespace LinuxLearn
namespace Hlw8032

open Lib

/-! ## Machine arithmetic -/

/-- The platform the decoder is compiled for. -/
structure Target where
  ulongBits : Nat
  ulongBits_ge : 32 ≤ ulongBits

/-- Platforms with a 64-bit `unsigned long`. -/
def lp64 : Target := ⟨64, by decide⟩

/-- Platforms with a 32-bit `unsigned long`. -/
def ilp32 : Target := ⟨32, by decide⟩

/-- Reduction to the range of `unsigned long`. -/
def Target.ulong (T : Target) (x : Nat) : Nat :=
  x % 2 ^ T.ulongBits

/-- Conversion of an `int` to `unsigned int`. -/
def uintOfInt (z : Int) : Nat :=
  (z % 2 ^ 32).toNat

/-- Reduction to the range of `unsigned int`. -/
def uint (x : Nat) : Nat :=
  x % 2 ^ 32

/-- The quotients that `DealUartInf` computes. -/
inductive Quotient
  | voltage
  | electricity
  | power
  | energyUnit
  deriving DecidableEq, Repr

/-- Ways in which a call ends the process. -/
inductive Fault
  | divByZero (q : Quotient)
  | noReturnValue
  deriving DecidableEq, Repr

def udiv (q : Quotient) (a b : Nat) : Except Fault Nat :=
  if b = 0 then .error (.divByZero q) else .ok (a / b)

/-! ## Packets -/

abbrev Packet := Vector UInt8 24

def UART_IND_HD : Fin 24 := 0
def UART_IND_5A : Fin 24 := 1
def UART_IND_VK : Fin 24 := 2
def UART_IND_VT : Fin 24 := 5
def UART_IND_IK : Fin 24 := 8
def UART_IND_IT : Fin 24 := 11
def UART_IND_PK : Fin 24 := 14
def UART_IND_PT : Fin 24 := 17
def UART_IND_FG : Fin 24 := 20
def UART_IND_EN : Fin 24 := 21
def UART_IND_SM : Fin 24 := 23

/-- `(b[i] << 16) | (b[i + 1] << 8) | b[i + 2]` -/
def register24 (b : Packet) (i : Fin 24) : Nat :=
  (b[i].toNat <<< 16) ||| (b[i + 1].toNat <<< 8) ||| b[i + 2].toNat

/-- `(b[UART_IND_EN] << 8) | b[UART_IND_EN + 1]` -/
def energyRegister (b : Packet) : Nat :=
  (b[UART_IND_EN].toNat <<< 8) ||| b[UART_IND_EN + 1].toNat

/-- `b[UART_IND_FG] >> 7` -/
def overflowBit (b : Packet) : Nat :=
  b[UART_IND_FG].toNat >>> 7

/-- The header of the packet. -/
abbrev startFlag (b : Packet) : UInt8 :=
  b[UART_IND_HD]

/-- The checksum that the packet carries. -/
abbrev sumByte (b : Packet) : UInt8 :=
  b[UART_IND_SM]

/-- The test `(b[UART_IND_FG] & mask) == mask` of an update bit. -/
def updateBit (b : Packet) (mask : UInt8) : Bool :=
  b[UART_IND_FG] &&& mask == mask

/-- The test `(startFlag & pattern) == pattern` of a fault header. -/
def faultHeader (b : Packet) (pattern : UInt8) : Bool :=
  startFlag b &&& pattern == pattern

/-- The sum of bytes 2 to 22, masked to eight bits. -/
def checksum (b : Packet) : Nat :=
  (List.finRange 21).foldl (fun sum j => sum + b[j.val + 2].toNat) 0 &&& 0xFF

/-! ## State -/

/-- The global `runingInf`. -/
structure RuningInf where
  voltage : Nat
  electricity : Nat
  power : Nat
  energy : Nat
  energyCurrent : Nat
  energyLast : Nat
  energyFlowFlag : Nat
  energyUnit : Nat
  deriving DecidableEq, Repr

/-- The two static variables of a channel: its window (`voltage_a`, …) and its count of repeated
values (`voltageCnt`, …). -/
structure Channel where
  arr : Vector Nat ARRAY_LEN
  cnt : Nat
  deriving DecidableEq, Repr

structure State where
  voltage : Channel
  electricity : Channel
  power : Channel
  powerNewFlag : Nat
  runingInf : RuningInf
  deriving DecidableEq, Repr

def Channel.zero : Channel :=
  { arr := #v[0, 0, 0], cnt := 0 }

/-- Static and global variables at program start. -/
def initial : State :=
  { voltage := .zero
    electricity := .zero
    power := .zero
    powerNewFlag := 1
    runingInf := ⟨0, 0, 0, 0, 0, 0, 0, 0⟩ }

/-- The local variables `voltage`, `electricity` and `power` at the end of a call. -/
structure Readings where
  voltage : Nat
  electricity : Nat
  power : Nat
  deriving DecidableEq, Repr

def Readings.zero : Readings := ⟨0, 0, 0⟩

structure Outcome where
  state : State
  ret : Int
  readings : Readings
  deriving DecidableEq, Repr

/-! ## The blocks that both copies of the decoder contain -/

def vipValue (arr : Vector Nat ARRAY_LEN) : Except Fault Nat :=
  match getVIPvalue arr with
  | some v => .ok v
  | none => .error .noReturnValue

/-- Enter a new period: at once if it differs from the newest entry, else when the count of
repetitions reaches `COUNT_NUM`. -/
def Channel.enter (ch : Channel) (t : Nat) : Channel :=
  if isUpdataNewData ch.arr t then
    -- A new value is entered at once.
    { arr := updataVIPvalue ch.arr t, cnt := 0 }
  else
    let cnt := uint (ch.cnt + 1)
    if COUNT_NUM ≤ cnt then
      { arr := updataVIPvalue ch.arr t, cnt := 0 }
    else
      { ch with cnt := cnt }

/-- `x = k * 100 / t; x = x * 10;` unless the filtered period `t` is zero. -/
def scaled (T : Target) (q : Quotient) (k t : Nat) : Except Fault Nat :=
  if t = 0 then
    .ok 0
  else do
    let x ← udiv q (T.ulong (k * 100)) t
    return T.ulong (x * 10)

/-- Enter a period and compute the reading. -/
def Channel.measure (T : Target) (q : Quotient) (ch : Channel) (k t : Nat) :
    Except Fault (Channel × Nat) := do
  let ch := ch.enter t
  let m ← vipValue ch.arr
  let x ← scaled T q k m
  return (ch, x)

/-- A packet without power update: the window is overwritten as a whole when the period has grown
by more than a quarter of the filtered one. -/
def Channel.stretch (ch : Channel) (t : Nat) : Except Fault Channel :=
  if isUpdataNewData ch.arr t then do
    -- The window is left alone unless the period has grown by more than a quarter.
    let powerData ← vipValue ch.arr
    if t > powerData ∧ t - powerData > powerData >>> 2 then
      return { ch with arr := resetVIPvalue ch.arr t }
    else
      return ch
  else
    .ok ch

/-- Voltage, lines 177-205 of case `0x55` and lines 461-488 of the default case. -/
def voltageBlock (T : Target) (st : State) (b : Packet) : Except Fault (State × Nat) :=
  if updateBit b 0x40 then do
    let (ch, voltage) ←
      st.voltage.measure T .voltage (register24 b UART_IND_VK) (register24 b UART_IND_VT)
    return ({ st with voltage := ch }, voltage)
  else
    .ok (st, 0)

/-- Current, lines 207-241 of case `0x55` and lines 421-454 of the default case. -/
def electricityBlock (T : Target) (st : State) (b : Packet) : Except Fault (State × Nat) :=
  if updateBit b 0x20 then do
    let (ch, electricity) ←
      st.electricity.measure T .electricity (register24 b UART_IND_IK) (register24 b UART_IND_IT)
    return ({ st with electricity := ch }, electricity)
  else
    .ok (st, 0)

/-- Power, lines 243-306 of case `0x55` and lines 353-414 of the default case; the result holds
`power_k` and `power`. -/
def powerBlock (T : Target) (st : State) (b : Packet) : Except Fault (State × Nat × Nat) :=
  let k := register24 b UART_IND_PK
  let t := register24 b UART_IND_PT
  -- The flag is cleared by the first power update and never set again.
  if updateBit b 0x10 then do
    let (ch, power) ← st.power.measure T .power k t
    return ({ st with power := ch, powerNewFlag := 0 }, k, power)
  else if st.powerNewFlag = 0 then do
    let ch ← st.power.stretch t
    let m ← vipValue ch.arr
    let power ← scaled T .power k m
    return ({ st with power := ch }, k, power)
  else
    .ok (st, 0, 0)

/-! ## Energy -/

abbrev ENERGY_FLOW_NUM : Nat := 65536

/-- Lines 308-322: accumulate the pulses counted since the last packet. -/
def RuningInf.accumulate (T : Target) (r : RuningInf) (b : Packet) : RuningInf :=
  let energyFlowFlag := overflowBit b
  let energyCurrent := energyRegister b
  -- The overflow bit has toggled: one register period lies between the two values.
  if r.energyFlowFlag ≠ energyFlowFlag then
    let energyCurrent := if energyCurrent > r.energyLast then 0 else energyCurrent
    let energyCnt := uintOfInt ((energyCurrent : Int) + ENERGY_FLOW_NUM - r.energyLast)
    { r with
      energyFlowFlag := energyFlowFlag
      energyCurrent := energyCurrent
      energyLast := energyCurrent
      energy := T.ulong (r.energy + uint (energyCnt * 10)) }
  else
    -- The register is taken to have moved forward; nothing checks that it has.
    let energyCnt := uintOfInt ((energyCurrent : Int) - r.energyLast)
    { r with
      energyCurrent := energyCurrent
      energyLast := energyCurrent
      energy := T.ulong (r.energy + uint (energyCnt * 10)) }

/-- Lines 324-332: the number of pulses for 0.001 units of energy. -/
def RuningInf.rescale (T : Target) (r : RuningInf) (powerK : Nat) : Except Fault RuningInf := do
  let q ← udiv .energyUnit (0xD693A400 >>> 1) (powerK >>> 1)
  return { r with energyUnit := T.ulong (q * 10) }

/-! ## `DealUartInf` -/

/-- `case 0x55`. -/
def case55 (T : Target) (st : State) (b : Packet) : Except Fault Outcome := do
  let (st, voltage) ← voltageBlock T st b
  let (st, electricity) ← electricityBlock T st b
  let (st, powerK, power) ← powerBlock T st b
  let r ← (st.runingInf.accumulate T b).rescale T powerK
  return {
    state := { st with runingInf := r }
    ret := 1
    readings := ⟨voltage, electricity, power⟩ }

/-- The default case: a header with the fault pattern of a channel zeroes its value instead of
measuring it. -/
def caseDefault (T : Target) (st : State) (b : Packet) : Except Fault Outcome := do
  -- The pattern 0xF1 of a broken chip is reported and has no other effect.
  let (st, power) ←
    if faultHeader b 0xF2 then
      pure ({ st with runingInf := { st.runingInf with power := 0 } }, 0)
    else do
      let (st, _, power) ← powerBlock T st b
      pure (st, power)
  let (st, electricity) ←
    if faultHeader b 0xF4 then
      pure ({ st with runingInf := { st.runingInf with electricity := 0 } }, 0)
    else
      electricityBlock T st b
  let (st, voltage) ←
    if faultHeader b 0xF8 then
      pure ({ st with runingInf := { st.runingInf with voltage := 0 } }, 0)
    else
      voltageBlock T st b
  return { state := st, ret := 1, readings := ⟨voltage, electricity, power⟩ }

def dealUartInf (T : Target) (st : State) (inDataBuffer : Packet) (recvlen : Int) :
    Except Fault Outcome :=
  if recvlen ≠ 24 then
    .ok { state := st, ret := -1, readings := .zero }
  else if checksum inDataBuffer ≠ (sumByte inDataBuffer).toNat then
    .ok { state := st, ret := -2, readings := .zero }
  else if startFlag inDataBuffer = 0x55 then
    case55 T st inDataBuffer
  -- An uncalibrated chip is reported, nothing else.
  else if startFlag inDataBuffer = 0xAA then
    .ok { state := st, ret := 1, readings := .zero }
  else
    caseDefault T st inDataBuffer

/-! ## Runs of calls -/

/-- The arguments of one call. -/
structure Call where
  inDataBuffer : Packet
  recvlen : Int
  deriving DecidableEq, Repr

/-- The decoder as a machine whose inputs are the calls. -/
def decoder (T : Target) : Machine State Call Fault where
  init := initial
  step st c := (dealUartInf T st c.inDataBuffer c.recvlen).map Outcome.state

end Hlw8032
end LinuxLearn
