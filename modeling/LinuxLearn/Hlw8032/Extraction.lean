import LinuxLearn.Hlw8032.Serial

/-!
# Extraction — which frames of a read reach `DealUartInf`

The search loop of `deal_data` looks for the check byte `0x5A` at any of the first 24 positions,
but it copies from the start of the read and passes on the length of the whole read.  A frame that
the read contains is therefore processed only if the read consists of that frame.
-/

namespace LinuxLearn
namespace Hlw8032

/-! ## What accepting means -/

/-- `DealUartInf` refuses a packet by returning `-1` or `-2`, and only then. -/
theorem not_accepted_iff_ret (T : Target) (st : State) (b : Packet) (recvlen : Int) :
    accepted b recvlen = false ↔
      ∃ o, dealUartInf T st b recvlen = .ok o ∧ (o.ret = -1 ∨ o.ret = -2) := by
  by_cases hlen : recvlen = 24
  · by_cases hsum : checksum b = (sumByte b).toNat
    · have hacc : accepted b recvlen = true := by
        simp [accepted, hlen, hsum]
      -- All three cases behind the tests return `1`.
      have hret : ∀ o, dealUartInf T st b recvlen = .ok o → o.ret = 1 := by
        intro o ho
        simp only [dealUartInf, hlen, hsum, ne_eq, not_true_eq_false, if_false] at ho
        split at ho
        · rw [case55_eq] at ho
          split at ho
          · cases ho
          · cases ho
            rfl
        · split at ho
          · cases ho
            rfl
          · rw [caseDefault_eq] at ho
            cases ho
            rfl
      constructor
      · intro hrej
        simp [hacc] at hrej
      · rintro ⟨o, ho, hneg⟩
        have hone := hret o ho
        omega
    · have hrej : accepted b recvlen = false :=
        Bool.and_eq_false_iff.2 (Or.inr (beq_false_of_ne hsum))
      have hcall : dealUartInf T st b recvlen =
          .ok { state := st, ret := -2, readings := .zero } := by
        simp only [dealUartInf, hlen, hsum, ne_eq, not_true_eq_false, not_false_eq_true, if_false,
          if_true]
      exact iff_of_true hrej ⟨_, hcall, Or.inr rfl⟩
  · have hrej : accepted b recvlen = false :=
      Bool.and_eq_false_iff.2 (Or.inl (beq_false_of_ne hlen))
    have hcall : dealUartInf T st b recvlen =
        .ok { state := st, ret := -1, readings := .zero } := by
      simp only [dealUartInf, hlen, ne_eq, not_false_eq_true, if_true]
    exact iff_of_true hrej ⟨_, hcall, Or.inl rfl⟩

/-! ## Frames of a read -/

/-- The read contains the complete frame `p` at offset `k`, and the check byte of the frame is the
first `0x5A` of the read. -/
structure FrameAt (rd : Read) (k : Nat) (p : Packet) : Prop where
  fits : k + 24 ≤ rd.data.length
  bytes : p.toList = (rd.data.drop k).take 24
  check : p[UART_IND_5A] = 0x5A
  sum : checksum p = (sumByte p).toNat
  first : 0x5A ∉ rd.data.take (k + 1)

/-- A read that consists of the frame leaves it in `hlw_buff`. -/
theorem FrameAt.frameAfter_eq {rd : Read} {k : Nat} {p : Packet} (h : FrameAt rd k p)
    (hlen : rd.data.length = 24) (st : SerialState) : st.frameAfter rd = p := by
  have hk : k = 0 := by
    have := h.fits
    omega
  have hbytes : p.toList = rd.data := by
    have htake : rd.data.take 24 = rd.data := List.take_of_length_le hlen.le
    simpa [hk, htake] using h.bytes
  have hmem : 0x5A ∈ rd.data := by
    rw [← hbytes, ← h.check]
    exact Vector.mem_toList_iff.2 (Vector.getElem_mem _)
  apply Vector.toList_inj.1
  exact (frameAfter_of_mem hlen hmem).trans hbytes.symm

/-- A frame in a read is processed exactly if there are no other bytes in the read. -/
theorem frame_extracted_iff {rd : Read} {k : Nat} {p : Packet} (h : FrameAt rd k p)
    (st : SerialState) : st.acceptedPacket rd = some p ↔ rd.data.length = 24 := by
  constructor
  · intro hp
    by_contra hlen
    rw [acceptedPacket_eq_none st hlen] at hp
    cases hp
  · intro hlen
    have hframe : st.frameAfter rd = p := h.frameAfter_eq hlen st
    have hacc : accepted p rd.res = true := by
      simp [accepted, (res_eq_iff rd).2 hlen, h.sum]
    simp [SerialState.acceptedPacket, hframe, h.check, hacc]

theorem uncalibratedFrameAt : FrameAt uncalibratedRead 0 uncalibratedFrame where
  fits := by decide
  bytes := by decide
  check := by decide
  sum := by decide
  first := by decide

theorem aligned_frame_extracted :
    FrameAt uncalibratedRead 0 uncalibratedFrame ∧
      (serial lp64).init.acceptedPacket uncalibratedRead = some uncalibratedFrame :=
  ⟨uncalibratedFrameAt, (frame_extracted_iff uncalibratedFrameAt _).2 (by decide)⟩

/-- The same frame behind one byte of noise. -/
def shiftedRead : Read :=
  .bytes (0 :: uncalibratedFrame.toList) (by decide)

theorem shifted_frame_lost :
    ¬ ∀ (st : SerialState) (rd : Read) (k : Nat) (p : Packet),
      FrameAt rd k p → st.acceptedPacket rd = some p := by
  intro h
  have hframe : FrameAt shiftedRead 1 uncalibratedFrame :=
    { fits := by decide
      bytes := by decide
      check := by decide
      sum := by decide
      first := by decide }
  have hnone : (serial lp64).init.acceptedPacket shiftedRead = none :=
    acceptedPacket_eq_none _ (by decide)
  have hsome := h (serial lp64).init shiftedRead 1 uncalibratedFrame hframe
  simp [hnone] at hsome

end Hlw8032
end LinuxLearn
