import LinuxLearn.Hlw8032.PowerHold

/-!
# Overflow — the readings where `unsigned long` has 32 bits

The comments of `DealUartInf` divide before they multiply by ten to avoid an overflow.  The first
product always fits into 32 bits, but the second one does so only up to a quotient of 429496729.
`exactValues_iff` gives the coefficients and periods for which that is the case.
-/

namespace LinuxLearn
namespace Hlw8032

open Lib

/-! ## What a call computes -/

/-- The call computes a power, with or without a power update. -/
def computesPower (st : State) (c : Call) : Bool :=
  c.accepted && (updateBit c.inDataBuffer 0x10 || st.powerNewFlag == 0) &&
    (c.header == 0x55 || (c.header != 0xAA && !faultHeader c.inDataBuffer 0xF2))

/-- The median that the power is computed from. -/
def powerMedian (st : State) (b : Packet) : Nat :=
  middle (powerAfter b st.power st.powerNewFlag).arr

/-- The median that the reading of a quantity is computed from. -/
def Quantity.medianAfter (m : Quantity) (st : State) (b : Packet) : Nat :=
  middle ((m.channel st).enter (m.period b)).arr

/-- The energy unit over the integers. -/
def exactEnergyUnit (k : Nat) : Nat :=
  1800000000 / (k / 2) * 10

/-- Everything that the call computes has its value over the integers. -/
structure ExactValues (T : Target) (st : State) (c : Call) : Prop where
  measured : ∀ m : Quantity, m.effective c = true → ∃ rs, computedReadings T st c = .ok rs ∧
    m.value rs =
      exactReading (m.coefficient c.inDataBuffer) (m.medianAfter st c.inDataBuffer)
  power : computesPower st c = true → ∃ rs, computedReadings T st c = .ok rs ∧
    rs.power = exactReading c.powerCoefficient (powerMedian st c.inDataBuffer)
  energyUnit : c.measures = true → ∀ t, (decoder T).step st c = .ok t →
    t.runingInf.energyUnit = exactEnergyUnit (powerK c.inDataBuffer st.powerNewFlag)

section Computed

variable (T : Target) (st : State) {c : Call}

theorem computedReadings_power (h : computesPower st c = true) :
    ∃ rs, computedReadings T st c = .ok rs ∧
      rs.power = reading T c.powerCoefficient (powerMedian st c.inDataBuffer) := by
  have hkind : (c.accepted = true ∧
      (updateBit c.inDataBuffer 0x10 = true ∨ st.powerNewFlag = 0)) ∧
        (c.header = 0x55 ∨ c.header ≠ 0xAA ∧ faultHeader c.inDataBuffer 0xF2 = false) := by
    simpa [computesPower] using h
  rcases hkind with ⟨⟨hacc, hcomputed⟩, hheader⟩
  have hreading : powerReading T c.inDataBuffer st.power st.powerNewFlag =
      reading T c.powerCoefficient (powerMedian st c.inDataBuffer) := by
    rw [powerReading, if_pos hcomputed]
    rfl
  by_cases h55 : c.header = 0x55
  · have hm : c.measures = true := by simp [Call.measures, hacc, h55]
    exact ⟨_, computedReadings_of_measures hm, hreading⟩
  · rcases hheader.resolve_left h55 with ⟨hAA, hfault⟩
    have hcall : dealUartInf T st c.inDataBuffer c.recvlen = .ok {
        state := afterDefault st c.inDataBuffer
        ret := 1
        readings := readingsDefault T st c.inDataBuffer } := by
      rw [dealUartInf_accepted T st c hacc, if_neg h55, if_neg hAA, caseDefault_eq]
    refine ⟨_, computedReadings_of_ok hcall, ?_⟩
    simpa [readingsDefault, hfault] using hreading

/-- The energy unit of a call, which succeeds if half of the coefficient is not zero. -/
theorem energyUnit_step (h : c.measures = true) :
    (2 ≤ powerK c.inDataBuffer st.powerNewFlag ∧ ∃ t, (decoder T).step st c = .ok t ∧
        t.runingInf.energyUnit =
          T.ulong (exactEnergyUnit (powerK c.inDataBuffer st.powerNewFlag))) ∨
      (¬ 2 ≤ powerK c.inDataBuffer st.powerNewFlag ∧ ∀ t, (decoder T).step st c ≠ .ok t) := by
  have hunit : (0xD693A400 : Nat) >>> 1 = 1800000000 := by decide
  rw [step_measures T st c h]
  by_cases hK : powerK c.inDataBuffer st.powerNewFlag < 2
  · rw [if_pos hK]
    exact Or.inr ⟨Nat.not_le.2 hK, fun t ht => nomatch ht⟩
  · rw [if_neg hK]
    refine Or.inl ⟨Nat.not_lt.1 hK, _, rfl, ?_⟩
    simp only [after55, hunit, Nat.shiftRight_one, exactEnergyUnit]

end Computed

/-! ## When the products fit into 32 bits -/

/-- Ten times a quotient. -/
theorem div_mul_ten_lt_iff {a b : Nat} (hb : 0 < b) :
    a / b * 10 < 2 ^ 32 ↔ a < 429496730 * b := by
  rw [← Nat.div_lt_iff_lt_mul hb]
  omega

theorem exactReading_lt_iff (k m : Nat) :
    exactReading k m < 2 ^ 32 ↔ (m ≠ 0 → 100 * k < 429496730 * m) := by
  by_cases hm : m = 0
  · simp [exactReading, hm]
  · rw [exactReading, if_neg hm, div_mul_ten_lt_iff (Nat.pos_of_ne_zero hm)]
    exact ⟨fun h _ => h, fun h => h hm⟩

theorem exactEnergyUnit_lt_iff {k : Nat} (hk : 2 ≤ k) : exactEnergyUnit k < 2 ^ 32 ↔ 10 ≤ k := by
  rw [exactEnergyUnit, div_mul_ten_lt_iff (Nat.div_pos hk (by decide))]
  omega

/-- On the 32-bit target a reading is exact if its last product fits. -/
theorem reading_exact_iff {k : Nat} (hk : k < 2 ^ 24) (m : Nat) :
    reading ilp32 k m = exactReading k m ↔ (m ≠ 0 → 100 * k < 429496730 * m) := by
  rw [reading_eq ilp32 hk, ← exactReading_lt_iff]
  exact Nat.mod_eq_iff_lt (by decide)

theorem coefficient_lt (m : Quantity) (b : Packet) : m.coefficient b < 2 ^ 24 := by
  cases m with
  | voltage => exact register24_lt _ _
  | electricity => exact register24_lt _ _

section Values

variable (st : State) (c : Call)

theorem measured_iff {m : Quantity} (h : m.effective c = true) :
    (∃ rs, computedReadings ilp32 st c = .ok rs ∧
        m.value rs =
          exactReading (m.coefficient c.inDataBuffer) (m.medianAfter st c.inDataBuffer)) ↔
      (m.medianAfter st c.inDataBuffer ≠ 0 →
        100 * m.coefficient c.inDataBuffer < 429496730 * m.medianAfter st c.inDataBuffer) := by
  have hcomputed : ∃ rs, computedReadings ilp32 st c = .ok rs ∧ m.value rs =
      reading ilp32 (m.coefficient c.inDataBuffer) (m.medianAfter st c.inDataBuffer) :=
    computedReadings_effective m h
  rcases hcomputed with ⟨rs, hrs, hvalue⟩
  rw [← reading_exact_iff (coefficient_lt m _), hrs]
  constructor
  · rintro ⟨rs', heq, hexact⟩
    cases heq
    exact hvalue.symm.trans hexact
  · intro hexact
    exact ⟨rs, rfl, hvalue.trans hexact⟩

theorem power_iff (h : computesPower st c = true) :
    (∃ rs, computedReadings ilp32 st c = .ok rs ∧
        rs.power = exactReading c.powerCoefficient (powerMedian st c.inDataBuffer)) ↔
      (powerMedian st c.inDataBuffer ≠ 0 →
        100 * c.powerCoefficient < 429496730 * powerMedian st c.inDataBuffer) := by
  rcases computedReadings_power ilp32 st h with ⟨rs, hrs, hvalue⟩
  rw [← reading_exact_iff (register24_lt _ _), hrs]
  constructor
  · rintro ⟨rs', heq, hexact⟩
    cases heq
    exact hvalue.symm.trans hexact
  · intro hexact
    exact ⟨rs, rfl, hvalue.trans hexact⟩

theorem energyUnit_iff (h : c.measures = true) :
    (∀ t, (decoder ilp32).step st c = .ok t →
        t.runingInf.energyUnit = exactEnergyUnit (powerK c.inDataBuffer st.powerNewFlag)) ↔
      (2 ≤ powerK c.inDataBuffer st.powerNewFlag →
        10 ≤ powerK c.inDataBuffer st.powerNewFlag) := by
  rcases energyUnit_step ilp32 st h with ⟨hK, t, ht, hunit⟩ | ⟨hK, hnone⟩
  · rw [ht, ← exactEnergyUnit_lt_iff hK]
    constructor
    · intro hall _
      rw [hall t rfl] at hunit
      exact (Nat.mod_eq_iff_lt (by decide)).1 hunit.symm
    · intro hlarge t' ht'
      cases ht'
      exact hunit.trans (Nat.mod_eq_of_lt (hlarge hK))
  · exact iff_of_true (fun t ht => absurd ht (hnone t)) fun hK' => absurd hK' hK

/-- No product wraps exactly if every quotient that a call computes is at most 429496729. -/
theorem exactValues_iff :
    ExactValues ilp32 st c ↔
      (∀ m : Quantity, m.effective c = true → m.medianAfter st c.inDataBuffer ≠ 0 →
          100 * m.coefficient c.inDataBuffer < 429496730 * m.medianAfter st c.inDataBuffer) ∧
        (computesPower st c = true → powerMedian st c.inDataBuffer ≠ 0 →
          100 * c.powerCoefficient < 429496730 * powerMedian st c.inDataBuffer) ∧
        (c.measures = true → 2 ≤ powerK c.inDataBuffer st.powerNewFlag →
          10 ≤ powerK c.inDataBuffer st.powerNewFlag) := by
  constructor
  · intro h
    exact ⟨fun m hm => (measured_iff st c hm).1 (h.measured m hm),
      fun hp => (power_iff st c hp).1 (h.power hp),
      fun hm => (energyUnit_iff st c hm).1 (h.energyUnit hm)⟩
  · rintro ⟨hmeasured, hpower, hunit⟩
    exact ⟨fun m hm => (measured_iff st c hm).2 (hmeasured m hm),
      fun hp => (power_iff st c hp).2 (hpower hp),
      fun hm => (energyUnit_iff st c hm).2 (hunit hm)⟩

end Values

/-- A power update with coefficient `2`. -/
def smallCoefficientPacket : Packet :=
  #v[0x55, 0x5A, 0, 0, 0, 0, 0, 0, 0, 0, 0, 0, 0, 0, 0, 0, 2, 0, 0, 0, 0x10, 0, 0, 0x12]

/-- The first packet of a run can make the energy unit wrap, and the second one a voltage. -/
theorem products_wrap :
    ¬ ExactValues ilp32 initial ⟨smallCoefficientPacket, 24⟩ ∧
      ∃ st, (decoder ilp32).Reachable st ∧ ¬ ExactValues ilp32 st ⟨largeVoltagePacket, 24⟩ := by
  refine ⟨?_, ?_⟩
  · intro h
    have hm : (⟨smallCoefficientPacket, 24⟩ : Call).measures = true := by decide
    have hlarge := (energyUnit_iff _ _ hm).1 (h.energyUnit hm) (by decide)
    exact absurd hlarge (by decide)
  · let st : State := { initial with voltage := ⟨#v[1, 0, 0], 0⟩ }
    refine ⟨st, ⟨[⟨largeVoltagePacket, 24⟩], by decide⟩, fun h => ?_⟩
    have heff : Quantity.voltage.effective ⟨largeVoltagePacket, 24⟩ = true := by decide
    have hfits := (measured_iff st _ heff).1 (h.measured .voltage heff)
    exact absurd (hfits (by decide)) (by decide)

end Hlw8032
end LinuxLearn
