import LinuxLearn.Lib.Lines
import LinuxLearn.Lib.Machine

/-!
# EchoServer — the epoll echo server

The event loop of `epoll_socket/server.c`.  `epoll_wait` hands over a batch of events, at most one
for each connection, according to what each connection is registered for at that moment; the loop
then handles them one by one.  A message is read in one event and written back in a later one, and
in between it lies in the one buffer `buf`, with its length in `n`.

The machine keeps the bytes read from and written to each connection.  A connection is named by
its position in the order of acceptance.
-/

namespace LinuxLearn
namespace Epoll

open Lib

abbrev Bytes := List UInt8

abbrev CONNECT_SIZE : Nat := 256
abbrev MAX_LINE : Nat := 2048

/-- The length of the array `events`. -/
abbrev EVENTS_LEN : Nat := 20

/-! ## State -/

/-- What a connection is registered for. -/
inductive Interest
  | epollin
  | epollout
  | closed
  deriving DecidableEq, Repr

structure Conn where
  interest : Interest
  got : Bytes
  sent : Bytes
  deriving DecidableEq, Repr

/-- An entry of `events`; `other` has neither EPOLLIN nor EPOLLOUT. -/
inductive Ready
  | listen
  | readable (id : Nat)
  | writable (id : Nat)
  | other (id : Nat)
  deriving DecidableEq, Repr

structure Server where
  buf : Bytes
  n : Int
  conns : List Conn
  /-- the events of the current batch that are still to be handled -/
  batch : List Ready
  /-- whether `epoll_wait` has written past the end of `events` -/
  overrun : Bool
  deriving DecidableEq, Repr

def Server.initial : Server :=
  ⟨List.replicate MAX_LINE 0, 0, [], [], false⟩

/-! ## Steps -/

/-- The result of the system call that an event leads to: `accept`, `read` or a complete `write`. -/
inductive Io
  | none
  | accepted
  | refused
  | data (d : Bytes)
  | noData (n : Int)
  | complete
  deriving DecidableEq, Repr

inductive Event
  | wait (batch : List Ready)
  | handle (io : Io)
  deriving DecidableEq, Repr

inductive Stop
  | impossible
  | exits
  deriving DecidableEq, Repr

/-- An event that `epoll_wait` can report: what the connection is registered for, or neither. -/
def Reportable (conns : List Conn) : Ready → Prop
  | .listen => True
  | .readable id => ∃ c, conns[id]? = some c ∧ c.interest = .epollin
  | .writable id => ∃ c, conns[id]? = some c ∧ c.interest = .epollout
  | .other id => ∃ c, conns[id]? = some c ∧ c.interest ≠ .closed

instance (conns : List Conn) (e : Ready) : Decidable (Reportable conns e) := by
  cases e with
  | listen => exact inferInstanceAs (Decidable True)
  | readable id => exact inferInstanceAs (Decidable (∃ c ∈ conns[id]?, c.interest = .epollin))
  | writable id => exact inferInstanceAs (Decidable (∃ c ∈ conns[id]?, c.interest = .epollout))
  | other id => exact inferInstanceAs (Decidable (∃ c ∈ conns[id]?, c.interest ≠ .closed))

/-- The descriptor of an event. -/
def Ready.source : Ready → Option Nat
  | listen => none
  | readable id => some id
  | writable id => some id
  | other id => some id

/-- The events of one batch come from different descriptors. -/
def BatchOk (conns : List Conn) (batch : List Ready) : Prop :=
  (batch.map Ready.source).Nodup ∧ ∀ e ∈ batch, Reportable conns e

instance (conns : List Conn) (batch : List Ready) : Decidable (BatchOk conns batch) :=
  inferInstanceAs (Decidable (_ ∧ _))

def Server.setConn (s : Server) (id : Nat) (c : Conn) : Server :=
  { s with conns := s.conns.set id c }

/-- The handling of an EPOLLIN event. -/
def readEvent (s : Server) (id : Nat) (c : Conn) : Io → Except Stop Server
  | .data d =>
      if 0 < d.length ∧ d.length < MAX_LINE then
        -- The buffer is cleared, filled, and its connection set to wait for EPOLLOUT.
        let s :=
          { s with
            buf := overwrite (List.replicate MAX_LINE 0) 0 d
            n := d.length }
        .ok (s.setConn id { c with interest := .epollout, got := c.got ++ d })
      else .error .impossible
  | .noData n =>
      if n ≤ 0 then
        let s :=
          { s with
            buf := List.replicate MAX_LINE 0
            n := n }
        .ok (s.setConn id { c with interest := .closed })
      else .error .impossible
  | _ => .error .impossible

/-- The handling of an EPOLLOUT event, with a complete write. -/
def writeEvent (s : Server) (id : Nat) (c : Conn) : Io → Except Stop Server
  | .complete =>
      .ok
        (s.setConn id { c with interest := .epollin, sent := c.sent ++ s.buf.take s.n.toNat })
  | _ => .error .impossible

def handleEvent (s : Server) (e : Ready) (io : Io) : Except Stop Server :=
  match e with
  | .listen =>
      match io with
      | .accepted => .ok { s with conns := s.conns ++ [⟨.epollin, [], []⟩] }
      | .refused => .error .exits
      | _ => .error .impossible
  | .readable id =>
      -- EPOLLIN is tested before EPOLLOUT, as in the source.
      match s.conns[id]? with
      | some c => readEvent s id c io
      | none => .error .impossible
  | .writable id =>
      match s.conns[id]? with
      | some c => writeEvent s id c io
      | none => .error .impossible
  | .other _ => if io = .none then .ok s else .error .impossible

/-- `epoll_wait` is told that `events` has `CONNECT_SIZE` entries. -/
def waitEvent (s : Server) (batch : List Ready) : Except Stop Server :=
  if s.batch = [] ∧ s.overrun = false ∧ batch.length ≤ CONNECT_SIZE ∧ BatchOk s.conns batch then
    .ok { s with batch := batch, overrun := decide (EVENTS_LEN < batch.length) }
  else .error .impossible

def serverStep (s : Server) : Event → Except Stop Server
  | .wait batch => waitEvent s batch
  | .handle io =>
      match s.batch with
      | [] => .error .impossible
      | e :: batch =>
          if s.overrun then .error .impossible else handleEvent { s with batch := batch } e io

def server : Machine Server Event Stop where
  init := .initial
  step := serverStep

/-! ## The law and the condition -/

/-- The bytes sent are the first bytes got; while no message is waiting to be sent, they are all of
them. -/
def EchoesOwn (c : Conn) : Prop :=
  c.sent <+: c.got ∧ (c.interest ≠ .epollout → c.sent = c.got)

def Intact (s : Server) : Prop :=
  s.overrun = false ∧ ∀ c ∈ s.conns, EchoesOwn c

instance (c : Conn) : Decidable (EchoesOwn c) :=
  inferInstanceAs (Decidable (_ ∧ _))

instance (s : Server) : Decidable (Intact s) :=
  inferInstanceAs (Decidable (_ ∧ _))

/-- A batch fits the array, and the buffer holds what a connection waits for when its turn to be
written to comes: no other message was read in between, unless it was the same. -/
def BufferKept (s : Server) : Event → Prop
  | .wait batch => batch.length ≤ EVENTS_LEN
  | .handle _ =>
      match s.batch with
      | .writable id :: _ =>
          ∀ c, s.conns[id]? = some c → s.buf.take s.n.toNat = c.got.drop c.sent.length
      | _ => True

/-! ## One step -/

/-- The events still to be handled match what their connections are registered for. -/
def BatchCurrent (s : Server) : Prop :=
  BatchOk s.conns s.batch

/-- Events of other connections stay as they are when one connection changes. -/
theorem reportable_set {conns : List Conn} {id : Nat} {c : Conn} {e : Ready}
    (h : Reportable conns e) (hne : e.source ≠ some id) : Reportable (conns.set id c) e := by
  have hget : ∀ id', some id' ≠ some id → (conns.set id c)[id']? = conns[id']? := by
    intro id' hid
    exact List.getElem?_set_ne fun heq => hid (congrArg some heq.symm)
  cases e with
  | listen => trivial
  | readable id' =>
      rw [Reportable, hget id' hne]
      exact h
  | writable id' =>
      rw [Reportable, hget id' hne]
      exact h
  | other id' =>
      rw [Reportable, hget id' hne]
      exact h

theorem reportable_append {conns new : List Conn} {e : Ready} (h : Reportable conns e) :
    Reportable (conns ++ new) e := by
  have hget : ∀ {id : Nat} {c : Conn}, conns[id]? = some c → (conns ++ new)[id]? = some c := by
    intro id c hc
    rw [List.getElem?_append_left (List.getElem?_eq_some_iff.1 hc).1, hc]
  cases e with
  | listen => trivial
  | readable id =>
      rcases h with ⟨c, hc, hinterest⟩
      exact ⟨c, hget hc, hinterest⟩
  | writable id =>
      rcases h with ⟨c, hc, hinterest⟩
      exact ⟨c, hget hc, hinterest⟩
  | other id =>
      rcases h with ⟨c, hc, hinterest⟩
      exact ⟨c, hget hc, hinterest⟩

/-- The rest of a batch after its first event changed its own connection. -/
theorem batchOk_rest {conns : List Conn} {e : Ready} {batch : List Ready} {id : Nat} {c : Conn}
    (h : BatchOk conns (e :: batch)) (he : e.source = some id) :
    BatchOk (conns.set id c) batch := by
  have hnodup := h.1
  rw [List.map_cons, List.nodup_cons] at hnodup
  refine ⟨hnodup.2, ?_⟩
  intro e' he'
  refine reportable_set (h.2 e' (List.mem_cons_of_mem _ he')) ?_
  intro heq
  apply hnodup.1
  rw [he, ← heq]
  exact List.mem_map_of_mem he'

theorem batchOk_tail {conns : List Conn} {e : Ready} {batch : List Ready}
    (h : BatchOk conns (e :: batch)) : BatchOk conns batch := by
  have hnodup := h.1
  rw [List.map_cons, List.nodup_cons] at hnodup
  exact ⟨hnodup.2, fun e' he' => h.2 e' (List.mem_cons_of_mem _ he')⟩

/-- Replacing one connection keeps the server intact exactly if the new one echoes its own. -/
theorem intact_setConn {s : Server} {id : Nat} {c c' : Conn} (hs : Intact s)
    (hget : s.conns[id]? = some c) : Intact (s.setConn id c') ↔ EchoesOwn c' := by
  constructor
  · intro h
    have hlt := (List.getElem?_eq_some_iff.1 hget).1
    exact h.2 c' (List.mem_of_getElem? (List.getElem?_set_self hlt))
  · intro h
    refine ⟨hs.1, ?_⟩
    intro d hd
    rcases List.mem_or_eq_of_mem_set hd with hold | rfl
    · exact hs.2 d hold
    · exact h

theorem intact_read {s t : Server} {id : Nat} {c : Conn} {io : Io} (hs : Intact s)
    (hget : s.conns[id]? = some c) (hin : c.interest = .epollin)
    (hstep : readEvent s id c io = .ok t) :
    Intact t ∧ ∃ c', t.conns = s.conns.set id c' ∧ t.batch = s.batch := by
  have hown := hs.2 c (List.mem_of_getElem? hget)
  have hsame : c.sent = c.got := hown.2 (by rw [hin]; decide)
  -- What was sent so far is all that was got, and stays a prefix of more.
  cases io with
  | data d =>
      simp only [readEvent] at hstep
      split at hstep
      · cases hstep
        refine ⟨(intact_setConn (c := c) ⟨hs.1, hs.2⟩ hget).2 ⟨?_, ?_⟩, _, rfl, rfl⟩
        · rw [hsame]
          exact List.prefix_append _ _
        · intro hout
          exact absurd rfl hout
      · cases hstep
  | noData n =>
      simp only [readEvent] at hstep
      split at hstep
      · cases hstep
        exact ⟨(intact_setConn (c := c) ⟨hs.1, hs.2⟩ hget).2 ⟨hown.1, fun _ => hsame⟩, _, rfl, rfl⟩
      · cases hstep
  | _ => cases hstep

theorem intact_write {s t : Server} {id : Nat} {c : Conn} {io : Io} (hs : Intact s)
    (hget : s.conns[id]? = some c) (hstep : writeEvent s id c io = .ok t) :
    (Intact t ↔ s.buf.take s.n.toNat = c.got.drop c.sent.length) ∧
      ∃ c', t.conns = s.conns.set id c' ∧ t.batch = s.batch := by
  rcases (hs.2 c (List.mem_of_getElem? hget)).1 with ⟨rest, hrest⟩
  cases io with
  | complete =>
      cases hstep
      refine ⟨?_, _, rfl, rfl⟩
      -- The bytes still owed are those that follow the bytes sent.
      have hdrop : c.got.drop c.sent.length = rest := by rw [← hrest, List.drop_left]
      rw [intact_setConn hs hget, hdrop]
      constructor
      · intro h
        have heq : c.sent ++ s.buf.take s.n.toNat = c.got := h.2 fun hout => nomatch hout
        rw [← hrest] at heq
        exact List.append_cancel_left heq
      · intro h
        have heq : c.sent ++ s.buf.take s.n.toNat = c.got := by rw [h, hrest]
        exact ⟨⟨[], by rw [List.append_nil]; exact heq⟩, fun _ => heq⟩
  | _ => cases hstep

theorem intact_wait {s t : Server} {batch : List Ready} (hs : Intact s)
    (hstep : waitEvent s batch = .ok t) :
    (Intact t ↔ batch.length ≤ EVENTS_LEN) ∧ BatchCurrent t := by
  simp only [waitEvent] at hstep
  split at hstep
  · rename_i hpossible
    cases hstep
    have hfits : decide (EVENTS_LEN < batch.length) = false ↔ batch.length ≤ EVENTS_LEN := by
      rw [decide_eq_false_iff_not, Nat.not_lt]
    exact ⟨(and_iff_left hs.2).trans hfits, hpossible.2.2.2⟩
  · cases hstep

/-- A new connection has got and sent nothing yet. -/
theorem intact_listen {s t : Server} {io : Io} (hs : Intact s)
    (hstep : handleEvent s .listen io = .ok t) :
    Intact t ∧ ∃ new, t.conns = s.conns ++ new ∧ t.batch = s.batch := by
  cases io with
  | accepted =>
      cases hstep
      refine ⟨⟨hs.1, ?_⟩, _, rfl, rfl⟩
      intro c hc
      rcases List.mem_append.1 hc with hold | hnew
      · exact hs.2 c hold
      · cases List.mem_singleton.1 hnew
        exact ⟨List.prefix_refl _, fun _ => rfl⟩
  | _ => cases hstep

/-- One step, by the event: only a batch and a write can break the law. -/
theorem intact_step {s t : Server} {e : Event} (hA : BatchCurrent s) (hP : Intact s)
    (hstep : serverStep s e = .ok t) :
    (Intact t ↔ BufferKept s e) ∧ (Intact t → BatchCurrent t) := by
  cases e with
  | wait batch =>
      rcases intact_wait hP hstep with ⟨hiff, hcurrent⟩
      exact ⟨hiff, fun _ => hcurrent⟩
  | handle io =>
      simp only [serverStep] at hstep
      rw [BatchCurrent] at hA
      rw [BufferKept]
      cases hbatch : s.batch with
      | nil =>
          rw [hbatch] at hstep
          cases hstep
      | cons e batch =>
          rw [hbatch] at hstep hA
          simp only [hP.1, Bool.false_eq_true, if_false] at hstep
          have hP' : Intact { s with batch := batch, overrun := false } := ⟨rfl, hP.2⟩
          cases e with
          | listen =>
              rcases intact_listen hP' hstep with ⟨hintact, new, hconns, hrest⟩
              refine ⟨iff_of_true hintact trivial, fun _ => ?_⟩
              have htail := batchOk_tail hA
              rw [BatchCurrent, hconns, hrest]
              exact ⟨htail.1, fun e' he' => reportable_append (htail.2 e' he')⟩
          | readable id =>
              rcases hA.2 _ List.mem_cons_self with ⟨c, hget, hin⟩
              simp only [handleEvent, hget] at hstep
              rcases intact_read hP' hget hin hstep with ⟨hintact, c', hconns, hrest⟩
              refine ⟨iff_of_true hintact trivial, fun _ => ?_⟩
              rw [BatchCurrent, hconns, hrest]
              exact batchOk_rest hA rfl
          | writable id =>
              rcases hA.2 _ List.mem_cons_self with ⟨c, hget, _⟩
              simp only [handleEvent, hget] at hstep
              rcases intact_write hP' hget hstep with ⟨hiff, c', hconns, hrest⟩
              refine ⟨?_, fun _ => ?_⟩
              · rw [hiff]
                constructor
                · intro h d hd
                  cases hget.symm.trans hd
                  exact h
                · intro h
                  exact h c hget
              · rw [BatchCurrent, hconns, hrest]
                exact batchOk_rest hA rfl
          | other id =>
              simp only [handleEvent] at hstep
              split at hstep
              · cases hstep
                exact ⟨iff_of_true hP' trivial, fun _ => batchOk_tail hA⟩
              · cases hstep

/-! ## Whole runs -/

/-- In every run, each connection gets back its own bytes in all states, exactly if the buffer is
kept for each connection until its turn to be written to. -/
theorem intact_iff_bufferKept (events : List Event) :
    server.EveryState Intact server.init events ↔
      server.EveryTakenStep BufferKept server.init events := by
  have hbatch : BatchCurrent server.init := ⟨List.nodup_nil, fun e he => nomatch he⟩
  have hintact : Intact server.init := ⟨rfl, fun c hc => nomatch hc⟩
  exact server.everyState_iff_everyTakenStep (fun s e t hA hP hstep => intact_step hA hP hstep)
    hbatch hintact events

/-- Two clients connect, and their messages are read in one batch. -/
def twoMessages : List Event :=
  [.wait [.listen], .handle .accepted, .wait [.listen], .handle .accepted,
    .wait [.readable 0, .readable 1], .handle (.data [65]), .handle (.data [66]),
    .wait [.writable 0, .writable 1], .handle .complete]

/-- The first client gets the second one's message. -/
theorem message_of_another_client :
    ¬ ∀ events, server.EveryState Intact server.init events := by
  intro h
  have hrun := h twoMessages
  revert hrun
  decide +kernel

end Epoll
end LinuxLearn
