import LinuxLearn.Hlw8032.CallSpec

/-!
# Serial — the read loop `deal_data` of `wt_hlw8032.c`

Every pass of the loop that finds `wait_flag` set reads up to 48 bytes into `buf`, copies the first
24 of them to `hlw_buff` if one of those is the check byte `0x5A`, and hands `hlw_buff` to
`DealUartInf` if its second byte is `0x5A`, together with the return value of the read.  Both
buffers live on between passes.  A pass that finds `wait_flag` cleared changes nothing and is left
out.

The main result says when every packet that passes the tests of `DealUartInf` is made of bytes
that the same pass has read.
-/

namespace LinuxLearn
namespace Hlw8032

open Lib

/-! ## One pass of the loop -/

/-- What `read(*fd, buf, 48)` may do. -/
inductive Read
  | error
  | bytes (data : List UInt8) (fits : data.length ≤ 48)

namespace Read

/-- The return value `res`. -/
def res : Read → Int
  | error => -1
  | bytes data _ => data.length

def data : Read → List UInt8
  | error => []
  | bytes data _ => data

end Read

/-- The buffer after a read: the bytes beyond those delivered keep their old values. -/
def readInto (buf : Vector UInt8 48) (rd : Read) : Vector UInt8 48 :=
  Vector.ofFn fun i => rd.data.getD i buf[i]

/-- `for (num = 0; num <= size - 1; num++) p_dest[num] = p_src[num];` -/
def cpy (src : Vector UInt8 48) : (size : Nat) → size ≤ 24 → Packet → Packet
  | 0, _, dest => dest
  | num + 1, h, dest => (cpy src num (by omega) dest).set num src[num]

/-- The search loop: a copy for every check byte among the first 24 bytes. -/
def searchAndCopy (buf : Vector UInt8 48) (hlwBuff : Packet) : Packet :=
  (List.finRange 24).foldl
    (fun hlwBuff i => if buf[i.val] = 0x5A then cpy buf 24 le_rfl hlwBuff else hlwBuff) hlwBuff

structure SerialState where
  buf : Vector UInt8 48
  hlwBuff : Packet
  decoder : State

namespace SerialState

/-- `hlw_buff` when the pass decides whether to process it. -/
def frameAfter (st : SerialState) (rd : Read) : Packet :=
  searchAndCopy (readInto st.buf rd) st.hlwBuff

/-- The packet that `DealUartInf` accepts in this pass, if any. -/
def acceptedPacket (st : SerialState) (rd : Read) : Option Packet :=
  if (st.frameAfter rd)[UART_IND_5A] = 0x5A ∧ accepted (st.frameAfter rd) rd.res = true then
    some (st.frameAfter rd)
  else
    none

end SerialState

def dealData (T : Target) (st : SerialState) (rd : Read) : Except Fault SerialState :=
  -- The length passed on is that of this read, whatever the frame is made of.
  if (st.frameAfter rd)[UART_IND_5A] = 0x5A then do
    let o ← dealUartInf T st.decoder (st.frameAfter rd) rd.res
    return { buf := readInto st.buf rd, hlwBuff := st.frameAfter rd, decoder := o.state }
  else
    .ok { st with buf := readInto st.buf rd, hlwBuff := st.frameAfter rd }

/-- The loop as a machine whose inputs are the results of the reads. -/
def serial (T : Target) : Machine SerialState Read Fault where
  init :=
    { buf := Vector.replicate 48 0
      hlwBuff := Vector.replicate 24 0
      decoder := initial }
  step := dealData T

/-- A pass whose call of `DealUartInf` returns. -/
theorem step_of_call {T : Target} {st : SerialState} {rd : Read} {p : Packet} {o : Outcome}
    (hframe : st.frameAfter rd = p) (hcheck : p[UART_IND_5A] = 0x5A)
    (hcall : dealUartInf T st.decoder p rd.res = .ok o) :
    (serial T).step st rd =
      .ok { buf := readInto st.buf rd, hlwBuff := p, decoder := o.state } := by
  subst hframe
  simp only [serial, dealData, hcheck, if_true, hcall, bind, Except.bind, pure, Except.pure]

/-! ## The buffers -/

theorem readInto_getElem (buf : Vector UInt8 48) (rd : Read) (i : Nat) (hi : i < 48)
    (hlen : i < rd.data.length) : (readInto buf rd)[i] = rd.data[i] := by
  simp [readInto, hlen]

theorem cpy_getElem (src : Vector UInt8 48) (size : Nat) (h : size ≤ 24) (dest : Packet)
    (i : Nat) (hi : i < 24) :
    (cpy src size h dest)[i] = if i < size then src[i] else dest[i] := by
  induction size with
  | zero => simp [cpy]
  | succ num ih =>
      rw [cpy, Vector.getElem_set, ih (by omega)]
      by_cases heq : num = i
      · subst heq
        simp
      · by_cases hlt : i < num
        · simp [heq, hlt, Nat.lt_succ_of_lt hlt]
        · have hge : ¬ i < num + 1 := by omega
          simp [heq, hlt, hge]

/-- A full copy forgets the old frame. -/
theorem cpy_eq_of_full (src : Vector UInt8 48) (dest dest' : Packet) :
    cpy src 24 le_rfl dest = cpy src 24 le_rfl dest' := by
  apply Vector.ext
  intro i hi
  rw [cpy_getElem, cpy_getElem, if_pos hi, if_pos hi]

/-- The search loop copies the buffer once or not at all. -/
theorem searchAndCopy_eq (buf : Vector UInt8 48) (hlwBuff : Packet) :
    searchAndCopy buf hlwBuff =
      if ∃ i : Fin 24, buf[i.val] = 0x5A then cpy buf 24 le_rfl hlwBuff else hlwBuff := by
  -- By induction on the indices: a second copy does the same as the first.
  have hloop : ∀ (is : List (Fin 24)) (p : Packet),
      is.foldl (fun q i => if buf[i.val] = 0x5A then cpy buf 24 le_rfl q else q) p =
        if ∃ i ∈ is, buf[i.val] = 0x5A then cpy buf 24 le_rfl p else p := by
    intro is
    induction is with
    | nil =>
        intro p
        simp
    | cons i is ih =>
        intro p
        rw [List.foldl_cons, ih]
        by_cases hi : buf[i.val] = 0x5A
        · by_cases hrest : ∃ j ∈ is, buf[j.val] = 0x5A
          · simp [hi, hrest, cpy_eq_of_full buf (cpy buf 24 le_rfl p) p]
          · simp [hi, hrest]
        · simp [hi]
  have hall := hloop (List.finRange 24) hlwBuff
  simpa [searchAndCopy] using hall

/-! ## Fresh and stale packets -/

/-- `p` is a window of 24 consecutive bytes of the read. -/
def WindowOf (p : Packet) (rd : Read) : Prop :=
  ∃ k, k + 24 ≤ rd.data.length ∧ p.toList = (rd.data.drop k).take 24

/-- Every packet that the pass accepts is a window of the bytes it has read. -/
def FreshPacket (st : SerialState) (rd : Read) : Prop :=
  ∀ p, st.acceptedPacket rd = some p → WindowOf p rd

/-- The read delivers exactly 24 bytes without a check byte, and `hlw_buff` still holds a frame
with its check byte in place and a correct checksum. -/
def StaleFrame (st : SerialState) (rd : Read) : Prop :=
  rd.data.length = 24 ∧ 0x5A ∉ rd.data ∧ st.hlwBuff[UART_IND_5A] = 0x5A ∧
    checksum st.hlwBuff = (sumByte st.hlwBuff).toNat

theorem res_eq_iff (rd : Read) : rd.res = 24 ↔ rd.data.length = 24 := by
  cases rd with
  | error => simp [Read.res, Read.data]
  | bytes data fits =>
      simp only [Read.res, Read.data]
      omega

/-- A read of any other length passes on a length that `DealUartInf` refuses. -/
theorem acceptedPacket_eq_none (st : SerialState) {rd : Read} (hlen : rd.data.length ≠ 24) :
    st.acceptedPacket rd = none := by
  have hres : rd.res ≠ 24 := fun h => hlen ((res_eq_iff rd).1 h)
  simp [SerialState.acceptedPacket, accepted, hres]

/-- A read of 24 bytes with a check byte replaces the frame by these bytes. -/
theorem frameAfter_of_mem {st : SerialState} {rd : Read} (hlen : rd.data.length = 24)
    (hmem : 0x5A ∈ rd.data) : (st.frameAfter rd).toList = rd.data := by
  -- The check byte lies among the first 24 bytes, as there are no others.
  have hfound : ∃ i : Fin 24, (readInto st.buf rd)[i.val] = 0x5A := by
    rcases List.mem_iff_getElem.1 hmem with ⟨i, hi, heq⟩
    refine ⟨⟨i, by omega⟩, ?_⟩
    rw [readInto_getElem st.buf rd i (by omega) hi, heq]
  apply List.ext_getElem
  · simp [hlen]
  · intro i hi hi'
    have hframe : st.frameAfter rd = cpy (readInto st.buf rd) 24 le_rfl st.hlwBuff := by
      rw [SerialState.frameAfter, searchAndCopy_eq, if_pos hfound]
    simp only [hframe, Vector.getElem_toList]
    rw [cpy_getElem, if_pos (by omega), readInto_getElem st.buf rd i (by omega) hi']

theorem frameAfter_of_not_mem {st : SerialState} {rd : Read} (hlen : rd.data.length = 24)
    (hmem : 0x5A ∉ rd.data) : st.frameAfter rd = st.hlwBuff := by
  -- All 24 bytes searched are those of this read.
  have hnone : ¬ ∃ i : Fin 24, (readInto st.buf rd)[i.val] = 0x5A := by
    rintro ⟨i, heq⟩
    have hi : i.val < rd.data.length := by omega
    rw [readInto_getElem st.buf rd i (by omega) hi] at heq
    exact hmem (heq ▸ List.getElem_mem hi)
  rw [SerialState.frameAfter, searchAndCopy_eq, if_neg hnone]

theorem freshPacket_iff (st : SerialState) (rd : Read) :
    FreshPacket st rd ↔ ¬ StaleFrame st rd := by
  -- Only a read of 24 bytes passes the length test.
  by_cases hlen : rd.data.length = 24
  · have hres : rd.res = 24 := (res_eq_iff rd).2 hlen
    by_cases hmem : 0x5A ∈ rd.data
    · have hfresh : FreshPacket st rd := by
        intro p hp
        have hpeq : st.frameAfter rd = p := by
          unfold SerialState.acceptedPacket at hp
          split at hp
          · exact Option.some.inj hp
          · cases hp
        refine ⟨0, by omega, ?_⟩
        rw [← hpeq, frameAfter_of_mem hlen hmem, List.drop_zero, ← hlen, List.take_length]
      have hnot : ¬ StaleFrame st rd := fun h => h.2.1 hmem
      exact ⟨fun _ => hnot, fun _ => hfresh⟩
    · have hframe : st.frameAfter rd = st.hlwBuff := frameAfter_of_not_mem hlen hmem
      constructor
      · intro hfresh hstale
        -- The old frame is accepted, so its check byte would have to be among the new bytes.
        have hacc : st.acceptedPacket rd = some st.hlwBuff := by
          have htests : accepted st.hlwBuff rd.res = true := by
            simp [accepted, hres, hstale.2.2.2]
          rw [SerialState.acceptedPacket, hframe, if_pos ⟨hstale.2.2.1, htests⟩]
        rcases hfresh _ hacc with ⟨k, _, hwin⟩
        have hcheck : (0x5A : UInt8) ∈ st.hlwBuff.toList := by
          rw [← hstale.2.2.1]
          exact Vector.mem_toList_iff.2 (Vector.getElem_mem _)
        rw [hwin] at hcheck
        exact hmem (List.mem_of_mem_drop (List.mem_of_mem_take hcheck))
      · intro hnot p hp
        exfalso
        apply hnot
        unfold SerialState.acceptedPacket at hp
        rw [hframe] at hp
        split at hp
        · rename_i htests
          have hsum : checksum st.hlwBuff = (sumByte st.hlwBuff).toNat :=
            eq_of_beq (Bool.and_eq_true_iff.1 htests.2).2
          exact ⟨hlen, hmem, htests.1, hsum⟩
        · cases hp
  · have hnone : st.acceptedPacket rd = none := acceptedPacket_eq_none st hlen
    refine ⟨fun _ hstale => hlen hstale.1, fun _ p hp => ?_⟩
    rw [hnone] at hp
    cases hp

/-! ## Whole runs -/

/-- Over a whole run, all accepted packets are fresh exactly if no pass meets a stale frame. -/
theorem no_stale_packet_iff (T : Target) (reads : List Read) :
    (serial T).EveryStep FreshPacket (serial T).init reads ↔
      (serial T).EveryStep (fun st rd => ¬ StaleFrame st rd) (serial T).init reads :=
  (serial T).everyStep_congr (A := fun _ => True) (fun _ _ _ _ _ => trivial)
    (fun st rd _ => freshPacket_iff st rd) trivial reads

/-- A frame of an uncalibrated chip: it passes both tests and no value is computed from it. -/
def uncalibratedFrame : Packet :=
  #v[0xAA, 0x5A, 0, 0, 0, 0, 0, 0, 0, 0, 0, 0, 0, 0, 0, 0, 0, 0, 0, 0, 0, 0, 0, 0]

/-- A read that delivers this frame. -/
def uncalibratedRead : Read :=
  .bytes uncalibratedFrame.toList (by decide)

/-- After this frame, 24 zero bytes make the loop process the frame a second time. -/
theorem zero_bytes_replay_frame :
    ¬ ∀ reads, (serial lp64).EveryStep FreshPacket (serial lp64).init reads := by
  intro h
  have hframe : (serial lp64).init.frameAfter uncalibratedRead = uncalibratedFrame :=
    Vector.toList_inj.1 (frameAfter_of_mem (by decide) (by decide))
  have hcall : dealUartInf lp64 initial uncalibratedFrame 24 =
      .ok { state := initial, ret := 1, readings := .zero } := by decide
  have hstep := step_of_call hframe (by decide) hcall
  have hfresh := ((h [uncalibratedRead, .bytes (List.replicate 24 0) (by decide)]).2 _ hstep).1
  refine (freshPacket_iff _ _).1 hfresh ⟨by decide, by decide, ?_, ?_⟩
  · change uncalibratedFrame[UART_IND_5A] = 0x5A
    decide
  · change checksum uncalibratedFrame = (sumByte uncalibratedFrame).toNat
    decide

end Hlw8032
end LinuxLearn
