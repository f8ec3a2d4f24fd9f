import LinuxLearn.Lib.Text

/-!
# Packet — the packets that ping receives

`icmp_unpack` of `ping.c` on a receive buffer, and the echo replies that it is meant to accept.
The two-byte fields of a packet are read in the byte order of a little-endian host, as `icmp_pack`
writes them.
-/

namespace LinuxLearn
namespace Ping

open Lib

abbrev Bytes := List UInt8

abbrev PACKET_SEND_MAX_NUM : Nat := 3

abbrev ICMP_ECHOREPLY : Nat := 0

inductive Fault
  | divisionByZero
  | outOfBounds
  | impossible
  deriving DecidableEq, Repr

/-! ## Fields -/

def shortAt (buf : Bytes) (i : Nat) : Nat :=
  byteAt buf i + 256 * byteAt buf (i + 1)

/-- The length of the IP header, `ip_hl * 4`. -/
def iphdrLen (buf : Bytes) : Nat :=
  byteAt buf 0 % 16 * 4

def icmpType (buf : Bytes) : Nat :=
  byteAt buf (iphdrLen buf)

def icmpId (buf : Bytes) : Nat :=
  shortAt buf (iphdrLen buf + 4)

def icmpSeq (buf : Bytes) : Nat :=
  shortAt buf (iphdrLen buf + 6)

/-! ## `icmp_unpack` -/

/-- The flags of `ping_packet` afterwards, and the result. -/
def icmpUnpack (pid : Nat) (flags : List Bool) (buf : Bytes) (len : Int) :
    Except Fault (List Bool × Int) :=
  let len := len - iphdrLen buf
  if len < 8 then .ok (flags, -1)
  else if icmpType buf = ICMP_ECHOREPLY ∧ icmpId buf = pid % 65536 then
    -- The field is unsigned, and one number too many passes.
    if PACKET_SEND_MAX_NUM < icmpSeq buf then .ok (flags, -1)
    else if icmpSeq buf < flags.length then .ok (flags.set (icmpSeq buf) false, 0)
    else .error .outOfBounds
  else .ok (flags, -1)

theorem icmpUnpack_error {pid : Nat} {flags : List Bool} {buf : Bytes} {len : Int} {e : Fault}
    (h : icmpUnpack pid flags buf len = .error e) : e = .outOfBounds := by
  grind [icmpUnpack]

/-- The datagram is an echo reply to this process for the packet `seq`. -/
def EchoReply (pid : Nat) (d : Bytes) (seq : Nat) : Prop :=
  iphdrLen d + 8 ≤ d.length ∧ icmpType d = ICMP_ECHOREPLY ∧ icmpId d = pid % 65536 ∧
    icmpSeq d = seq

instance (pid : Nat) (d : Bytes) (seq : Nat) : Decidable (EchoReply pid d seq) :=
  inferInstanceAs (Decidable (_ ∧ _))

/-- A datagram answers at most one packet. -/
theorem EchoReply.unique {pid seq seq' : Nat} {d : Bytes} (h : EchoReply pid d seq)
    (h' : EchoReply pid d seq') : seq = seq' :=
  h.2.2.2.symm.trans h'.2.2.2

/-! ## Old bytes in the buffer -/

theorem shortAt_append {d : Bytes} {i : Nat} (h : i + 1 < d.length) (rest : Bytes) :
    shortAt (d ++ rest) i = shortAt d i := by
  rw [shortAt, shortAt, byteAt_append (Nat.lt_of_succ_lt h), byteAt_append h]

theorem iphdrLen_append {d : Bytes} (h : d ≠ []) (rest : Bytes) :
    iphdrLen (d ++ rest) = iphdrLen d := by
  rw [iphdrLen, iphdrLen, byteAt_append (List.length_pos_of_ne_nil h)]

/-- What an earlier datagram has left behind the new one is not looked at. -/
theorem icmpUnpack_append (pid : Nat) (flags : List Bool) (d rest : Bytes) :
    icmpUnpack pid flags (d ++ rest) d.length = icmpUnpack pid flags d d.length := by
  by_cases hnil : d = []
  · subst hnil
    have hshort : ∀ buf : Bytes, ((0 : Nat) : Int) - iphdrLen buf < 8 := by
      intro buf
      omega
    simp only [icmpUnpack, List.length_nil, hshort, if_true]
  · have hlen := iphdrLen_append hnil rest
    by_cases hshort : ((d.length : Nat) : Int) - iphdrLen d < 8
    · simp only [icmpUnpack, hlen, hshort, if_true]
    · -- The header lies within the datagram.
      have htype : icmpType (d ++ rest) = icmpType d := by
        rw [icmpType, icmpType, hlen, byteAt_append (by omega)]
      have hid : icmpId (d ++ rest) = icmpId d := by
        rw [icmpId, icmpId, hlen, shortAt_append (by omega)]
      have hseq : icmpSeq (d ++ rest) = icmpSeq d := by
        rw [icmpSeq, icmpSeq, hlen, shortAt_append (by omega)]
      simp only [icmpUnpack, hlen, htype, hid, hseq]

/-! ## What is accepted -/

section Accepted

variable {pid seq : Nat} {flags : List Bool} {d : Bytes}

/-- A reply for one of the packets clears the flag of this packet. -/
theorem icmpUnpack_reply (h : EchoReply pid d seq) (hseq : seq < PACKET_SEND_MAX_NUM)
    (hflags : flags.length = PACKET_SEND_MAX_NUM) :
    icmpUnpack pid flags d d.length = .ok (flags.set seq false, 0) := by
  rcases h with ⟨hlen, htype, hid, rfl⟩
  have hlong : ¬ ((d.length : Nat) : Int) - iphdrLen d < 8 := by omega
  have hrange : ¬ PACKET_SEND_MAX_NUM < icmpSeq d := Nat.not_lt_of_lt hseq
  simp [icmpUnpack, hlong, htype, hid, hrange, hflags, hseq]

/-- A datagram that is no reply, or for no number up to the bound, is refused. -/
theorem icmpUnpack_other (h : ∀ seq ≤ PACKET_SEND_MAX_NUM, ¬ EchoReply pid d seq) :
    icmpUnpack pid flags d d.length = .ok (flags, -1) := by
  by_cases hlong : ((d.length : Nat) : Int) - iphdrLen d < 8
  · simp only [icmpUnpack, hlong, if_true]
  · by_cases hours : icmpType d = ICMP_ECHOREPLY ∧ icmpId d = pid % 65536
    · have hrange : PACKET_SEND_MAX_NUM < icmpSeq d := by
        by_contra hle
        exact h (icmpSeq d) (Nat.le_of_not_lt hle) ⟨by omega, hours.1, hours.2, rfl⟩
      simp only [icmpUnpack, hlong, if_false, hours, and_self, if_true, hrange]
    · simp only [icmpUnpack, hlong, if_false, hours]

end Accepted

end Ping
end LinuxLearn
