import LinuxLearn.Ping.Packet

/-!
# Reply — what `icmp_unpack` does to the table of packets

Here `icmp_unpack` works on the whole table `ping_packet`, whose flags are all that `Packet` keeps;
`icmpUnpackTable_flags` relates the two.  The range test lets one sequence number too many pass, and
for this number the function writes behind the table.
-/

namespace LinuxLearn
namespace Ping

/-! ## The table -/

structure Timeval where
  tvSec : Int
  tvUsec : Int
  deriving DecidableEq, Repr

structure PingPacketStatus where
  beginTime : Timeval
  endTime : Timeval
  flag : Int
  seq : Int
  deriving DecidableEq, Repr

abbrev Table := Vector PingPacketStatus PACKET_SEND_MAX_NUM

/-- `ping_packet[seq].flag = 0`; the reads of `begin_time` that follow have the same index. -/
def clearFlag (table : Table) (seq : Nat) : Except Fault Table :=
  if h : seq < PACKET_SEND_MAX_NUM then
    .ok (table.set seq { table[seq] with flag := 0 })
  else .error .outOfBounds

def icmpUnpackTable (pid : Nat) (table : Table) (buf : Bytes) (len : Int) :
    Except Fault (Table × Int) :=
  let len := len - iphdrLen buf
  if len < 8 then .ok (table, -1)
  else if icmpType buf = ICMP_ECHOREPLY ∧ icmpId buf = pid % 65536 then
    if PACKET_SEND_MAX_NUM < icmpSeq buf then .ok (table, -1)
    else (clearFlag table (icmpSeq buf)).map fun table => (table, 0)
  else .ok (table, -1)

/-- The flags as `Packet` has them. -/
def flagsOf (table : Table) : List Bool :=
  (table.map fun p => decide (p.flag ≠ 0)).toList

theorem flagsOf_set (table : Table) {seq : Nat} (h : seq < PACKET_SEND_MAX_NUM) :
    flagsOf (table.set seq { table[seq] with flag := 0 }) = (flagsOf table).set seq false := by
  simp [flagsOf, Vector.map_set, Vector.toList_set]

/-- On the flags the function does what `icmpUnpack` does. -/
theorem icmpUnpackTable_flags (pid : Nat) (table : Table) (buf : Bytes) (len : Int) :
    icmpUnpack pid (flagsOf table) buf len =
      (icmpUnpackTable pid table buf len).map fun p => (flagsOf p.1, p.2) := by
  have hsize : (flagsOf table).length = PACKET_SEND_MAX_NUM := by simp [flagsOf]
  by_cases hshort : len - iphdrLen buf < 8
  · simp [icmpUnpack, icmpUnpackTable, hshort, Except.map]
  · by_cases hours : icmpType buf = ICMP_ECHOREPLY ∧ icmpId buf = pid % 65536
    · by_cases hrange : PACKET_SEND_MAX_NUM < icmpSeq buf
      · simp [icmpUnpack, icmpUnpackTable, hshort, hours, hrange, Except.map]
      · by_cases hseq : icmpSeq buf < PACKET_SEND_MAX_NUM
        · simp [icmpUnpack, icmpUnpackTable, clearFlag, hshort, hours, hrange, hseq, hsize,
            flagsOf_set, Except.map]
        · simp [icmpUnpack, icmpUnpackTable, clearFlag, hshort, hours, hrange, hseq, hsize,
            Except.map]
    · simp [icmpUnpack, icmpUnpackTable, hshort, hours, Except.map]

/-! ## Which replies are decoded right -/

/-- The buffer holds an echo reply to this process. -/
def OwnReply (pid : Nat) (buf : Bytes) (len : Int) : Prop :=
  8 ≤ len - iphdrLen buf ∧ icmpType buf = ICMP_ECHOREPLY ∧ icmpId buf = pid % 65536

instance (pid : Nat) (buf : Bytes) (len : Int) : Decidable (OwnReply pid buf len) :=
  inferInstanceAs (Decidable (_ ∧ _))

/-- A reply with the number of a packet clears the flag of this packet and nothing else; everything
else is refused and leaves the table alone. -/
def DecodesRight (pid : Nat) (table : Table) (buf : Bytes) (len : Int) : Prop :=
  (∀ _ : icmpSeq buf < PACKET_SEND_MAX_NUM, OwnReply pid buf len →
      icmpUnpackTable pid table buf len =
        .ok (table.set (icmpSeq buf) { table[icmpSeq buf] with flag := 0 }, 0)) ∧
    (¬ (OwnReply pid buf len ∧ icmpSeq buf < PACKET_SEND_MAX_NUM) →
      icmpUnpackTable pid table buf len = .ok (table, -1))

theorem icmpUnpackTable_other {pid : Nat} {table : Table} {buf : Bytes} {len : Int}
    (h : ¬ OwnReply pid buf len) : icmpUnpackTable pid table buf len = .ok (table, -1) := by
  by_cases hshort : len - iphdrLen buf < 8
  · simp [icmpUnpackTable, hshort]
  · have hother : ¬ (icmpType buf = ICMP_ECHOREPLY ∧ icmpId buf = pid % 65536) := by
      intro hours
      exact h ⟨Int.not_lt.1 hshort, hours⟩
    simp [icmpUnpackTable, hshort, hother]

theorem icmpUnpackTable_own {pid : Nat} {table : Table} {buf : Bytes} {len : Int}
    (h : OwnReply pid buf len) :
    icmpUnpackTable pid table buf len =
      if PACKET_SEND_MAX_NUM < icmpSeq buf then .ok (table, -1)
      else (clearFlag table (icmpSeq buf)).map fun table => (table, 0) := by
  have hlong : ¬ len - iphdrLen buf < 8 := Int.not_lt.2 h.1
  simp [icmpUnpackTable, hlong, h.2]

/-- Only the number of entries itself goes wrong. -/
theorem decodesRight_iff (pid : Nat) (table : Table) (buf : Bytes) (len : Int) :
    DecodesRight pid table buf len ↔
      ¬ (OwnReply pid buf len ∧ icmpSeq buf = PACKET_SEND_MAX_NUM) := by
  constructor
  · rintro ⟨_, hrefused⟩ ⟨hown, hseq⟩
    -- The entry behind the table would have to be refused.
    have hout : ¬ icmpSeq buf < PACKET_SEND_MAX_NUM := Nat.not_lt.2 (Nat.le_of_eq hseq.symm)
    have hpasses : ¬ PACKET_SEND_MAX_NUM < icmpSeq buf := Nat.not_lt.2 (Nat.le_of_eq hseq)
    have hok := hrefused fun h => hout h.2
    rw [icmpUnpackTable_own hown, if_neg hpasses, clearFlag, dif_neg hout] at hok
    cases hok
  · intro hbad
    refine ⟨?_, ?_⟩
    · intro hseq hown
      rw [icmpUnpackTable_own hown, if_neg (Nat.not_lt_of_lt hseq), clearFlag, dif_pos hseq]
      rfl
    · intro hnot
      by_cases hown : OwnReply pid buf len
      · have hge : PACKET_SEND_MAX_NUM ≤ icmpSeq buf := Nat.not_lt.1 fun h => hnot ⟨hown, h⟩
        have hrange : PACKET_SEND_MAX_NUM < icmpSeq buf :=
          Nat.lt_of_le_of_ne hge fun heq => hbad ⟨hown, heq.symm⟩
        rw [icmpUnpackTable_own hown, if_pos hrange]
      · exact icmpUnpackTable_other hown

/-- An echo reply for process 1 with sequence number 3, behind an IP header of 20 bytes. -/
def replyPastTable : Bytes :=
  0x45 :: List.replicate 19 0 ++ [0, 0, 0, 0, 1, 0, 3, 0]

theorem reply_past_table_written (table : Table) :
    icmpUnpackTable 1 table replyPastTable 28 = .error .outOfBounds := by
  have hown : OwnReply 1 replyPastTable 28 := by decide
  rw [icmpUnpackTable_own hown]
  rfl

theorem reply_past_table_accepted :
    ¬ ∀ pid table buf len, DecodesRight pid table buf len := by
  intro h
  let table : Table := Vector.replicate PACKET_SEND_MAX_NUM ⟨⟨0, 0⟩, ⟨0, 0⟩, 1, 0⟩
  have hrefused := (h 1 table replyPastTable 28).2 (by decide)
  rw [reply_past_table_written] at hrefused
  cases hrefused

end Ping
end LinuxLearn
