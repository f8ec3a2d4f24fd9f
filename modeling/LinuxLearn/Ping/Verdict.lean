import LinuxLearn.Lib.Machine
import LinuxLearn.Ping.Packet

/-!
# Verdict — what ping_test returns

The two threads of `ping_test`, the SIGINT handler and the evaluation at the end.  `ping_stats_show`
compares the number of packets sent with the number of packets received, where `ping_recv` counts
every reply, also a second one for the same packet, and from the fourth refused datagram on every
datagram.  `verdict_right` says under which inputs the verdict is right.

The handler only clears the two `alive` flags, and the bodies of the loops do not read them, so it
is enough to let it run between the steps.
-/

namespace LinuxLearn
namespace Ping

open Lib

/-! ## State -/

abbrev RECV_BUF_SIZE : Nat := 512

/-- Where `ping_send` is, with its counter `i` of failures. -/
inductive Sender
  | test (i : Nat)
  | sending (i : Nat)
  | done
  deriving DecidableEq, Repr

/-- Where `ping_recv` is, with its counter `i` of refused datagrams. -/
inductive Receiver
  | test (i : Nat)
  | selecting (i : Nat)
  | receiving (i : Nat)
  | done
  deriving DecidableEq, Repr

/-- The datagrams refused so far. -/
def Receiver.refused : Receiver → Nat
  | test i => i
  | selecting i => i
  | receiving i => i
  | done => 0

structure PingTest where
  aliveSend : Bool
  aliveRecv : Bool
  sendCount : Nat
  recvCount : Nat
  pingFlag : Int
  /-- the flags of `ping_packet` -/
  flags : List Bool
  recvBuf : Bytes
  sender : Sender
  receiver : Receiver
  /-- the datagrams received so far -/
  received : List Bytes
  /-- what `ping_test` has returned -/
  result : Option Int
  deriving DecidableEq, Repr

/-- When the threads start. -/
def PingTest.initial : PingTest where
  aliveSend := true
  aliveRecv := true
  sendCount := 0
  recvCount := 0
  pingFlag := 0
  flags := List.replicate PACKET_SEND_MAX_NUM false
  recvBuf := List.replicate RECV_BUF_SIZE 0
  sender := .test 0
  receiver := .test 0
  received := []
  result := none

/-! ## Steps -/

inductive Event
  /-- `ping_send` tests `alive_send` -/
  | testSend
  | sendto (size : Int)
  /-- `ping_recv` tests `alive_recv` -/
  | testRecv
  | select (ret : Int)
  /-- the datagram, or a failure of `recv` -/
  | recv (d : Option Bytes)
  | sigint
  /-- `ping_test` has joined both threads -/
  | join
  deriving DecidableEq, Repr

namespace PingTest

def testSend (s : PingTest) : Except Fault PingTest :=
  match s.sender with
  | .test i => .ok { s with sender := if s.aliveSend then .sending i else .done }
  | _ => .error .impossible

/-- The body of the loop of `ping_send`. -/
def sendPacket (s : PingTest) (size : Int) : Except Fault PingTest :=
  match s.sender with
  | .sending i =>
      if s.sendCount < s.flags.length then
        let s :=
          { s with
            flags := s.flags.set s.sendCount true
            sendCount := s.sendCount + 1 }
        if PACKET_SEND_MAX_NUM ≤ s.sendCount then
          .ok { s with aliveSend := false, sender := .done }
        else if size < 0 then
          if 3 ≤ i then .ok { s with pingFlag := -1, sender := .done }
          else .ok { s with sender := .test (i + 1) }
        else .ok { s with sender := .test i }
      else .error .outOfBounds
  | _ => .error .impossible

def testRecv (s : PingTest) : Except Fault PingTest :=
  match s.receiver with
  | .test i => .ok { s with receiver := if s.aliveRecv then .selecting i else .done }
  | _ => .error .impossible

def selectSocket (s : PingTest) (ret : Int) : Except Fault PingTest :=
  match s.receiver with
  | .selecting i =>
      if ret = -1 ∨ ret = 0 then .ok { s with pingFlag := -1, receiver := .done }
      else .ok { s with receiver := .receiving i }
  | _ => .error .impossible

/-- The counting of a packet in `ping_recv`. -/
def countPacket (s : PingTest) (i : Nat) : PingTest :=
  let s := { s with recvCount := s.recvCount + 1 }
  if PACKET_SEND_MAX_NUM ≤ s.recvCount then { s with aliveRecv := false, receiver := .done }
  else { s with receiver := .test i }

def recvPacket (pid : Nat) (s : PingTest) (d : Option Bytes) : Except Fault PingTest :=
  match s.receiver, d with
  | .receiving i, none => .ok { s with receiver := .test i }
  | .receiving i, some d =>
      if d.length ≤ RECV_BUF_SIZE then
        let s :=
          { s with
            recvBuf := d ++ s.recvBuf.drop d.length
            received := s.received ++ [d] }
        match icmpUnpack pid s.flags s.recvBuf d.length with
        | .error e => .error e
        | .ok (flags, ret) =>
            let s := { s with flags := flags }
            if ret = -1 then
              -- From the fourth refused datagram on there is no `continue`.
              if 3 ≤ i then .ok ({ s with pingFlag := -1 }.countPacket (i + 1))
              else .ok { s with receiver := .test (i + 1) }
            else .ok (s.countPacket i)
      else .error .impossible
  | _, _ => .error .impossible

def icmpSigint (s : PingTest) : PingTest :=
  { s with aliveRecv := false, aliveSend := false }

/-- The new `ping_flag`. -/
def pingStatsShow (s : PingTest) : Except Fault Int :=
  if s.sendCount = 0 then .error .divisionByZero
  else
    let tmp := (((s.sendCount : Int) - s.recvCount) * 100).tdiv s.sendCount
    .ok (if tmp = 0 then 0 else -1)

/-- The end of `ping_test`. -/
def join (s : PingTest) : Except Fault PingTest :=
  if s.sender = .done ∧ s.receiver = .done ∧ s.result = none then
    s.pingStatsShow.map fun flag => { s with pingFlag := flag, result := some flag }
  else .error .impossible

def step (pid : Nat) (s : PingTest) : Event → Except Fault PingTest
  | .testSend => s.testSend
  | .sendto size => s.sendPacket size
  | .testRecv => s.testRecv
  | .select ret => s.selectSocket ret
  | .recv d => s.recvPacket pid d
  | .sigint => .ok s.icmpSigint
  | .join => s.join

end PingTest

def pingTest (pid : Nat) : Machine PingTest Event Fault where
  init := PingTest.initial
  step := PingTest.step pid

/-! ## What the verdict should say -/

/-- ping_test returns 0 only if each packet sent was answered. -/
def VerdictRight (pid : Nat) (s : PingTest) : Prop :=
  s.result = some 0 → ∀ seq < s.sendCount, ∃ d ∈ s.received, EchoReply pid d seq

instance (pid : Nat) (s : PingTest) : Decidable (VerdictRight pid s) :=
  inferInstanceAs (Decidable (_ → _))

/-- SIGINT comes after the first packet or while it is sent, and a datagram is the first reply to
a packet that was sent, or one of the first three to be refused. -/
def Orderly (pid : Nat) (s : PingTest) : Event → Prop
  | .sigint => s.sendCount = 0 → ∃ i, s.sender = .sending i
  | .recv (some d) =>
      (∃ seq < s.sendCount, EchoReply pid d seq ∧ ∀ d' ∈ s.received, ¬ EchoReply pid d' seq) ∨
        (∀ seq ≤ PACKET_SEND_MAX_NUM, ¬ EchoReply pid d seq) ∧ s.receiver.refused < 3
  | _ => True

instance (x : Sender) : Decidable (∃ i, x = .sending i) :=
  match x with
  | .test _ => isFalse nofun
  | .sending i => isTrue ⟨i, rfl⟩
  | .done => isFalse nofun

instance (pid : Nat) (s : PingTest) (e : Event) : Decidable (Orderly pid s e) :=
  match e with
  | .sigint => inferInstanceAs (Decidable (s.sendCount = 0 → ∃ i, s.sender = .sending i))
  | .recv (some _) => inferInstanceAs (Decidable (_ ∨ _))
  | .recv none | .testSend | .sendto _ | .testRecv | .select _ | .join => isTrue trivial

/-! ## The invariant -/

/-- The packets sent that have been answered. -/
def answered (pid : Nat) (s : PingTest) : Finset Nat :=
  (Finset.range s.sendCount).filter fun seq => ∃ d ∈ s.received, EchoReply pid d seq

/-- Not more packets are counted than answered, and `ping_send` does not end before its first
packet. -/
structure Sound (pid : Nat) (s : PingTest) : Prop where
  counted : s.recvCount ≤ (answered pid s).card
  started : s.sendCount = 0 →
    (∃ i, s.sender = .sending i) ∨ (∃ i, s.sender = .test i) ∧ s.aliveSend = true
  bounded : s.sendCount ≤ PACKET_SEND_MAX_NUM
  unfinished : s.sender ≠ .done → s.sendCount < PACKET_SEND_MAX_NUM
  flags : s.flags.length = PACKET_SEND_MAX_NUM
  verdict : s.result ≠ none → s.sender = .done ∧ s.receiver = .done
  right : VerdictRight pid s

theorem sound_initial (pid : Nat) : Sound pid PingTest.initial where
  counted := Nat.zero_le _
  started := fun _ => Or.inr ⟨⟨0, rfl⟩, rfl⟩
  bounded := by decide
  unfinished := fun _ => by decide
  flags := rfl
  verdict := fun h => absurd rfl h
  right := nofun

section Answered

variable {pid : Nat} {s s' : PingTest}

/-- Packets stay answered. -/
theorem answered_mono (hsend : s.sendCount ≤ s'.sendCount)
    (hreceived : ∀ d ∈ s.received, d ∈ s'.received) : answered pid s ⊆ answered pid s' := by
  intro seq hseq
  rw [answered, Finset.mem_filter, Finset.mem_range] at hseq ⊢
  rcases hseq with ⟨hlt, d, hd, hreply⟩
  exact ⟨Nat.lt_of_lt_of_le hlt hsend, d, hreceived d hd, hreply⟩

/-- A first reply answers one more. -/
theorem card_answered_reply {seq : Nat} {d : Bytes} (hseq : seq < s.sendCount)
    (hreply : EchoReply pid d seq) (hfirst : ∀ d' ∈ s.received, ¬ EchoReply pid d' seq)
    (hsend : s'.sendCount = s.sendCount) (hreceived : s'.received = s.received ++ [d]) :
    (answered pid s).card + 1 ≤ (answered pid s').card := by
  have hnew : seq ∉ answered pid s := by
    intro hmem
    rcases (Finset.mem_filter.1 hmem).2 with ⟨d', hd', hreply'⟩
    exact hfirst d' hd' hreply'
  have hsub : insert seq (answered pid s) ⊆ answered pid s' := by
    refine Finset.insert_subset ?_ (answered_mono (by rw [hsend]) ?_)
    · rw [answered, Finset.mem_filter, Finset.mem_range]
      exact ⟨hsend ▸ hseq, d, by simp [hreceived], hreply⟩
    · intro d' hd'
      simp [hreceived, hd']
  calc
    (answered pid s).card + 1
        = (insert seq (answered pid s)).card := (Finset.card_insert_of_notMem hnew).symm
    _ ≤ (answered pid s').card := Finset.card_le_card hsub

theorem card_answered_le (pid : Nat) (s : PingTest) : (answered pid s).card ≤ s.sendCount := by
  calc
    (answered pid s).card ≤ (Finset.range s.sendCount).card := Finset.card_filter_le _ _
    _ = s.sendCount := Finset.card_range s.sendCount

/-- If as many are answered as sent, all are. -/
theorem answered_all (h : s.sendCount ≤ (answered pid s).card) :
    ∀ seq < s.sendCount, ∃ d ∈ s.received, EchoReply pid d seq := by
  have hall : answered pid s = Finset.range s.sendCount :=
    Finset.eq_of_subset_of_card_le (Finset.filter_subset _ _) (by simpa using h)
  intro seq hseq
  have hmem : seq ∈ answered pid s := by
    rw [hall]
    exact Finset.mem_range.2 hseq
  exact (Finset.mem_filter.1 hmem).2

end Answered

/-! ## Steps of the sender -/

section Steps

variable {pid : Nat} {s s' : PingTest}

theorem Sound.no_result_of_sender (hs : Sound pid s) (h : s.sender ≠ .done) : s.result = none := by
  by_contra hsome
  exact h (hs.verdict hsome).1

theorem Sound.no_result_of_receiver (hs : Sound pid s) (h : s.receiver ≠ .done) :
    s.result = none := by
  by_contra hsome
  exact h (hs.verdict hsome).2

theorem testSend_sound (h : s.testSend = .ok s') (hs : Sound pid s) : Sound pid s' := by
  cases hsender : s.sender with
  | test i =>
      have hresult := hs.no_result_of_sender (by simp [hsender])
      have hlt := hs.unfinished (by simp [hsender])
      simp only [PingTest.testSend, hsender] at h
      cases h
      refine ⟨hs.counted, fun hzero => ?_, hs.bounded, fun _ => hlt, hs.flags,
        fun hsome => absurd hresult hsome, hs.right⟩
      -- Before the first packet, only SIGINT could have cleared the flag.
      rcases hs.started hzero with ⟨j, hsending⟩ | ⟨_, halive⟩
      · simp [hsender] at hsending
      · exact Or.inl ⟨i, by simp [halive]⟩
  | sending i => simp [PingTest.testSend, hsender] at h
  | done => simp [PingTest.testSend, hsender] at h

/-- What `ping_send` does with a packet, apart from the flags. -/
theorem sendPacket_cases {size : Int} (h : s.sendPacket size = .ok s') :
    (∃ i, s.sender = .sending i) ∧ s'.sendCount = s.sendCount + 1 ∧
      s'.recvCount = s.recvCount ∧ s'.received = s.received ∧ s'.result = s.result ∧
      s'.flags.length = s.flags.length ∧
      (s'.sender ≠ .done → s'.sendCount < PACKET_SEND_MAX_NUM) := by
  cases hsender : s.sender with
  | test i => simp [PingTest.sendPacket, hsender] at h
  | done => simp [PingTest.sendPacket, hsender] at h
  | sending i =>
      refine ⟨⟨i, rfl⟩, ?_⟩
      simp only [PingTest.sendPacket, hsender] at h
      split at h
      · split at h
        · cases h
          simp
        · have hlt : s.sendCount + 1 < PACKET_SEND_MAX_NUM := Nat.lt_of_not_le ‹_›
          split at h
          · split at h
            · cases h
              simp
            · cases h
              simpa using hlt
          · cases h
            simpa using hlt
      · cases h

theorem sendPacket_sound {size : Int} (h : s.sendPacket size = .ok s') (hs : Sound pid s) :
    Sound pid s' := by
  rcases sendPacket_cases h with
    ⟨⟨i, hsender⟩, hsend, hrecv, hreceived, hresult, hflags, hunfinished⟩
  have hnone := hs.no_result_of_sender (by simp [hsender])
  have hlt := hs.unfinished (by simp [hsender])
  have hmono : answered pid s ⊆ answered pid s' :=
    answered_mono (by omega) fun d hd => hreceived ▸ hd
  refine ⟨?_, fun hzero => by omega, by omega, hunfinished, hflags.trans hs.flags,
    fun hsome => absurd (hresult.trans hnone) hsome, fun hzero => ?_⟩
  · calc
      s'.recvCount = s.recvCount := hrecv
      _ ≤ (answered pid s).card := hs.counted
      _ ≤ (answered pid s').card := Finset.card_le_card hmono
  · rw [hresult, hnone] at hzero
    cases hzero

/-! ## Steps of the receiver -/

/-- What `ping_recv` leaves alone. -/
structure SenderSame (s s' : PingTest) : Prop where
  sender : s'.sender = s.sender
  sendCount : s'.sendCount = s.sendCount
  aliveSend : s'.aliveSend = s.aliveSend
  result : s'.result = s.result
  flags : s'.flags.length = s.flags.length

/-- A step of the receiver has only its count to justify. -/
theorem Sound.of_receiver (hs : Sound pid s) (hsame : SenderSame s s')
    (hrunning : s.receiver ≠ .done) (hcounted : s'.recvCount ≤ (answered pid s').card) :
    Sound pid s' := by
  have hnone : s'.result = none := hsame.result.trans (hs.no_result_of_receiver hrunning)
  refine ⟨hcounted, ?_, ?_, ?_, hsame.flags.trans hs.flags, fun hsome => absurd hnone hsome, ?_⟩
  · rw [hsame.sendCount, hsame.sender, hsame.aliveSend]
    exact hs.started
  · rw [hsame.sendCount]
    exact hs.bounded
  · rw [hsame.sender, hsame.sendCount]
    exact hs.unfinished
  · intro hzero
    rw [hnone] at hzero
    cases hzero

theorem testRecv_sound (h : s.testRecv = .ok s') (hs : Sound pid s) : Sound pid s' := by
  cases hreceiver : s.receiver with
  | test i =>
      simp only [PingTest.testRecv, hreceiver] at h
      cases h
      exact hs.of_receiver ⟨rfl, rfl, rfl, rfl, rfl⟩ (by simp [hreceiver]) hs.counted
  | _ => simp [PingTest.testRecv, hreceiver] at h

theorem selectSocket_sound {ret : Int} (h : s.selectSocket ret = .ok s') (hs : Sound pid s) :
    Sound pid s' := by
  cases hreceiver : s.receiver with
  | selecting i =>
      simp only [PingTest.selectSocket, hreceiver] at h
      split at h
      · cases h
        exact hs.of_receiver ⟨rfl, rfl, rfl, rfl, rfl⟩ (by simp [hreceiver]) hs.counted
      · cases h
        exact hs.of_receiver ⟨rfl, rfl, rfl, rfl, rfl⟩ (by simp [hreceiver]) hs.counted
  | _ => simp [PingTest.selectSocket, hreceiver] at h

theorem countPacket_same (s : PingTest) (i : Nat) :
    SenderSame s (s.countPacket i) ∧ (s.countPacket i).recvCount = s.recvCount + 1 ∧
      (s.countPacket i).received = s.received := by
  dsimp only [PingTest.countPacket]
  split
  · exact ⟨⟨rfl, rfl, rfl, rfl, rfl⟩, rfl, rfl⟩
  · exact ⟨⟨rfl, rfl, rfl, rfl, rfl⟩, rfl, rfl⟩

/-- The state when the datagram has been read. -/
def readDatagram (s : PingTest) (d : Bytes) : PingTest :=
  { s with
    recvBuf := d ++ s.recvBuf.drop d.length
    received := s.received ++ [d] }

/-- A reply is counted. -/
theorem recvPacket_reply {i seq : Nat} {d : Bytes} (hreceiver : s.receiver = .receiving i)
    (hreply : EchoReply pid d seq) (hseq : seq < PACKET_SEND_MAX_NUM)
    (hflags : s.flags.length = PACKET_SEND_MAX_NUM) (hd : d.length ≤ RECV_BUF_SIZE) :
    s.recvPacket pid (some d) =
      .ok ({ readDatagram s d with flags := s.flags.set seq false }.countPacket i) := by
  have hunpack : icmpUnpack pid s.flags (d ++ s.recvBuf.drop d.length) d.length =
      .ok (s.flags.set seq false, 0) :=
    (icmpUnpack_append pid s.flags d _).trans (icmpUnpack_reply hreply hseq hflags)
  simp [PingTest.recvPacket, hreceiver, hd, hunpack, readDatagram]

/-- One of the first three others is not. -/
theorem recvPacket_other {i : Nat} {d : Bytes} (hreceiver : s.receiver = .receiving i)
    (hother : ∀ seq ≤ PACKET_SEND_MAX_NUM, ¬ EchoReply pid d seq) (hi : i < 3)
    (hd : d.length ≤ RECV_BUF_SIZE) :
    s.recvPacket pid (some d) = .ok { readDatagram s d with receiver := .test (i + 1) } := by
  have hunpack : icmpUnpack pid s.flags (d ++ s.recvBuf.drop d.length) d.length =
      .ok (s.flags, -1) :=
    (icmpUnpack_append pid s.flags d _).trans (icmpUnpack_other hother)
  simp [PingTest.recvPacket, hreceiver, hd, hunpack, readDatagram, hi]

theorem recvPacket_sound {d : Option Bytes} (h : s.recvPacket pid d = .ok s')
    (horderly : Orderly pid s (.recv d)) (hs : Sound pid s) : Sound pid s' := by
  cases hreceiver : s.receiver with
  | receiving i =>
      have hrunning : s.receiver ≠ .done := by simp [hreceiver]
      cases d with
      | none =>
          simp only [PingTest.recvPacket, hreceiver] at h
          cases h
          exact hs.of_receiver ⟨rfl, rfl, rfl, rfl, rfl⟩ hrunning hs.counted
      | some d =>
          have hd : d.length ≤ RECV_BUF_SIZE := by
            by_contra hlong
            simp [PingTest.recvPacket, hreceiver, hlong] at h
          rcases horderly with ⟨seq, hseq, hreply, hfirst⟩ | ⟨hother, hrefused⟩
          · have hlt : seq < PACKET_SEND_MAX_NUM := Nat.lt_of_lt_of_le hseq hs.bounded
            rw [recvPacket_reply hreceiver hreply hlt hs.flags hd] at h
            cases h
            rcases countPacket_same { readDatagram s d with flags := s.flags.set seq false } i with
              ⟨hsame, hcount, hreceived⟩
            refine hs.of_receiver ⟨hsame.sender, hsame.sendCount, hsame.aliveSend, hsame.result,
              hsame.flags.trans (List.length_set ..)⟩ hrunning ?_
            -- One packet more is counted, and one more is answered.
            have hcard := card_answered_reply hseq hreply hfirst hsame.sendCount hreceived
            rw [hcount]
            exact (Nat.succ_le_succ hs.counted).trans hcard
          · have hi : i < 3 := by simpa [hreceiver, Receiver.refused] using hrefused
            rw [recvPacket_other hreceiver hother hi hd] at h
            cases h
            refine hs.of_receiver ⟨rfl, rfl, rfl, rfl, rfl⟩ hrunning ?_
            refine hs.counted.trans (Finset.card_le_card (answered_mono (Nat.le_refl _) ?_))
            intro d' hd'
            exact List.mem_append_left _ hd'
  | _ => simp [PingTest.recvPacket, hreceiver] at h

/-! ## The signal and the end -/

theorem icmpSigint_sound (horderly : Orderly pid s .sigint) (hs : Sound pid s) :
    Sound pid s.icmpSigint :=
  ⟨hs.counted, fun hzero => Or.inl (horderly hzero), hs.bounded, hs.unfinished, hs.flags,
    hs.verdict, hs.right⟩

/-- With at most as many packets received as sent, and no more than three of these, the verdict is
0 only if the numbers are equal. -/
theorem pingStatsShow_zero (h : s.pingStatsShow = .ok 0) (hbound : s.sendCount ≤ 3)
    (hle : s.recvCount ≤ s.sendCount) : s.sendCount = s.recvCount := by
  by_contra hne
  unfold PingTest.pingStatsShow at h
  split at h
  · cases h
  · have hquotient : (((s.sendCount : Int) - s.recvCount) * 100).tdiv s.sendCount ≠ 0 := by
      rw [Int.tdiv_eq_ediv_of_nonneg (by omega)]
      have hpos : (s.sendCount : Int) ≤ ((s.sendCount : Int) - s.recvCount) * 100 := by omega
      have hone : 1 ≤ ((s.sendCount : Int) - s.recvCount) * 100 / s.sendCount :=
        Int.le_ediv_of_mul_le (by omega) (by simpa using hpos)
      omega
    simp [hquotient] at h

theorem join_sound (h : s.join = .ok s') (hs : Sound pid s) : Sound pid s' := by
  unfold PingTest.join at h
  split at h
  · have hdone := ‹s.sender = .done ∧ s.receiver = .done ∧ s.result = none›
    cases hstats : s.pingStatsShow with
    | error e => simp [hstats, Except.map] at h
    | ok flag =>
        simp only [hstats, Except.map] at h
        cases h
        refine ⟨hs.counted, hs.started, hs.bounded, hs.unfinished, hs.flags,
          fun _ => ⟨hdone.1, hdone.2.1⟩, fun hzero => ?_⟩
        cases hzero
        have hle := hs.counted.trans (card_answered_le pid s)
        have heq := pingStatsShow_zero hstats hs.bounded hle
        exact answered_all (heq ▸ hs.counted)
  · cases h

theorem step_sound {e : Event} (h : s.step pid e = .ok s') (horderly : Orderly pid s e)
    (hs : Sound pid s) : Sound pid s' := by
  cases e with
  | testSend => exact testSend_sound h hs
  | sendto size => exact sendPacket_sound h hs
  | testRecv => exact testRecv_sound h hs
  | select ret => exact selectSocket_sound h hs
  | recv d => exact recvPacket_sound h horderly hs
  | sigint =>
      cases h
      exact icmpSigint_sound horderly hs
  | join => exact join_sound h hs

end Steps

/-! ## Runs -/

/-- Only the end of ping_test divides. -/
theorem join_of_divisionByZero {pid : Nat} {s : PingTest} {e : Event}
    (h : s.step pid e = .error .divisionByZero) : e = .join := by
  cases e with
  | testSend => grind [PingTest.step, PingTest.testSend]
  | sendto size => grind [PingTest.step, PingTest.sendPacket]
  | testRecv => grind [PingTest.step, PingTest.testRecv]
  | select ret => grind [PingTest.step, PingTest.selectSocket]
  | recv d =>
      simp only [PingTest.step, PingTest.recvPacket] at h
      grind [icmpUnpack_error]
  | sigint => cases h
  | join => rfl

theorem not_divisionByZero {pid : Nat} {s : PingTest} (hs : Sound pid s) (e : Event) :
    s.step pid e ≠ .error .divisionByZero := by
  intro h
  cases join_of_divisionByZero h
  simp only [PingTest.step, PingTest.join] at h
  split at h
  · -- The sender has ended, so it has sent a packet.
    have hdone := ‹s.sender = .done ∧ s.receiver = .done ∧ s.result = none›
    have hsent : s.sendCount ≠ 0 := by
      intro hzero
      simpa [hdone.1] using hs.started hzero
    simp [PingTest.pingStatsShow, hsent, Except.map] at h
  · cases h

/-- In a run whose inputs are all orderly, ping_test never divides by zero, and its verdict is
right. -/
theorem verdict_right (pid : Nat) {is : List Event}
    (h : (pingTest pid).EveryStep (Orderly pid) (pingTest pid).init is) :
    (pingTest pid).EveryStep (fun s e => s.step pid e ≠ .error .divisionByZero)
        (pingTest pid).init is ∧
      (pingTest pid).EveryState (VerdictRight pid) (pingTest pid).init is := by
  have hstep : ∀ s e s', Sound pid s → Orderly pid s e → (pingTest pid).step s e = .ok s' →
      Sound pid s' := fun _ _ _ hs horderly hstep => step_sound hstep horderly hs
  constructor
  · exact (pingTest pid).everyStep_of_everyStep hstep (fun _ e hs _ => not_divisionByZero hs e)
      (sound_initial pid) h
  · exact (pingTest pid).everyState_of_everyStep hstep (fun _ hs => hs.right) (sound_initial pid) h

/-- An echo reply to process 7 for the first packet. -/
def firstReply : Bytes :=
  69 :: List.replicate 19 0 ++ [0, 0, 0, 0, 7, 0, 0, 0]

/-- One packet, its reply, and SIGINT. -/
theorem interrupted_ping_right :
    (pingTest 7).EveryStep (fun s e => s.step 7 e ≠ .error .divisionByZero) (pingTest 7).init
        [.testSend, .sendto 64, .testRecv, .select 1, .recv (some firstReply), .sigint, .testSend,
          .testRecv, .join] ∧
      (pingTest 7).EveryState (VerdictRight 7) (pingTest 7).init
        [.testSend, .sendto 64, .testRecv, .select 1, .recv (some firstReply), .sigint, .testSend,
          .testRecv, .join] :=
  verdict_right 7 (by decide +kernel)

/-- A message that the destination cannot be reached. -/
def unreachable : Bytes :=
  69 :: List.replicate 19 0 ++ [3, 1, 0, 0, 0, 0, 0, 0]

/-- A packet is sent. -/
def sendOne : List Event :=
  [.testSend, .sendto 64]

/-- One such message is received. -/
def receiveUnreachable : List Event :=
  [.testRecv, .select 1, .recv (some unreachable)]

/-- Three packets are sent, and six such messages received. -/
def unreachableRun : List Event :=
  (List.replicate 3 sendOne).flatten ++ (List.replicate 6 receiveUnreachable).flatten ++
    [Event.join]

/-- The last three are counted, and the verdict is that all is well. -/
theorem unreachable_host_passes :
    ¬ ∀ (pid : Nat) (is : List Event),
      (pingTest pid).EveryStep (fun s e => s.step pid e ≠ .error .divisionByZero)
          (pingTest pid).init is ∧
        (pingTest pid).EveryState (VerdictRight pid) (pingTest pid).init is := by
  intro h
  have hright := (h 7 unreachableRun).2
  revert hright
  decide +kernel

end Ping
end LinuxLearn
