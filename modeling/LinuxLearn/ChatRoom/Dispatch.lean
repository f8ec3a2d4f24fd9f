import Mathlib.Data.Finset.Image
import LinuxLearn.Lib.Machine

/-!
# Dispatch — the select loop of the chat server and its handler threads

The loop of `main` in `server.c`, one access to a shared variable at a time, interleaved with the
steps of the threads that it creates.  Every thread gets the address of the loop's variable
`sockfd` and reads its descriptor from there when it first runs.

A descriptor is modelled together with the connection that it was accepted for.  The program only
sees its number; the connection tells apart two uses of one number.
-/

namespace LinuxLearn
namespace ChatRoom

open Lib

/-! ## State -/

/-- The size of a descriptor set, as `sys/select.h` has it. -/
abbrev FD_SETSIZE : Nat := 1024

/-- A descriptor, and the connection that it belonged to when it was accepted. -/
structure Desc where
  fd : Nat
  conn : Nat
  deriving DecidableEq, Repr

/-- Where the main thread is.  In the body of the inner loop, `i` is the loop variable and `d` the
entry that was loaded. -/
inductive Pc
  | select
  | load (i : Nat)
  | test (i : Nat) (d : Desc)
  | create (i : Nat) (d : Desc)
  | clear (i : Nat) (d : Desc)
  /-- after `FD_ISSET`, `FD_SET` or `FD_CLR` of a number outside the set -/
  | undefined
  deriving DecidableEq, Repr

/-- Where a handler thread is, with its own variable `sockfd`; `none` is -1. -/
inductive HandlerPhase
  | created
  | running (sockfd : Option Desc)
  /-- `enterChat` has closed the descriptor -/
  | ended (sockfd : Option Desc)
  /-- `handleRequest` has closed it -/
  | closed
  | finished
  deriving DecidableEq, Repr

structure Handler where
  conn : Nat
  phase : HandlerPhase
  deriving DecidableEq, Repr

structure Loop where
  clientSockfd : List (Option Desc)
  allset : Finset Nat
  rset : Finset Nat
  maxi : Int
  maxfd : Nat
  sockfd : Option Desc
  nready : Int
  pc : Pc
  handlers : List Handler
  /-- the descriptor number of each accepted connection -/
  conns : List Nat
  /-- the connections that some round has reported readable -/
  reported : List Nat
  /-- the connection that a number is open for -/
  owner : Nat → Option Nat

namespace Loop

def initial (listenfd : Nat) : Loop where
  clientSockfd := List.replicate FD_SETSIZE none
  allset := ∅
  rset := ∅
  maxi := -1
  maxfd := listenfd
  sockfd := none
  nready := 0
  pc := .select
  handlers := []
  conns := []
  reported := []
  owner := fun _ => none

/-- The entries of `client_sockfd`, in order. -/
def entries (table : List (Option Desc)) : List Desc :=
  table.filterMap id

/-! ## Steps -/

inductive Event
  /-- `select` reports the client descriptors in `ready`, and `accept` returns a descriptor if the
  listening socket is ready -/
  | select (ready : Finset Nat) (accepted : Option Nat)
  | main
  | start (h : Nat)
  | endSession (h : Nat)
  | close (h : Nat)
  | store (h : Nat)
  deriving DecidableEq

/-- `impossible` is an event that the environment cannot cause; `exits` ends the server. -/
inductive Stop
  | impossible
  | exits
  deriving DecidableEq, Repr

/-- The connection `fd` is entered in the first free place.  A full table ends the server. -/
def accept (s : Loop) (fd : Nat) : Except Stop Loop :=
  match s.clientSockfd.findIdx? fun d => d = none with
  | none => .error .exits
  | some i =>
      .ok
        { s with
          clientSockfd := s.clientSockfd.set i (some ⟨fd, s.conns.length⟩)
          allset := insert fd s.allset
          maxfd := max fd s.maxfd
          maxi := max i s.maxi
          conns := s.conns ++ [fd]
          owner := Function.update s.owner fd (some s.conns.length) }

def selectStep (s : Loop) (ready : Finset Nat) : Option Nat → Except Stop Loop
  -- The listening socket is not ready: the scan starts at once.
  | none =>
      .ok
        { s with
          rset := ready
          nready := ready.card
          reported :=
            s.reported ++ ((entries s.clientSockfd).filter fun d => d.fd ∈ ready).map Desc.conn
          pc := .load 0 }
  | some fd =>
      match s.accept fd with
      | .error e => .error e
      | .ok t =>
          -- The listening socket is counted in `nready` and subtracted again.
          let nready : Int := ready.card + 1 - 1
          .ok
            { t with
              rset := ready
              nready := nready
              reported :=
                s.reported ++ ((entries s.clientSockfd).filter fun d => d.fd ∈ ready).map Desc.conn
              pc :=
                if FD_SETSIZE ≤ fd then .undefined
                else if nready ≤ 0 then .select
                else .load 0 }

/-- One step of the inner loop. -/
def mainStep (s : Loop) : Except Stop Loop :=
  match s.pc with
  | .select => .error .impossible
  | .undefined => .error .impossible
  | .load i =>
      if (i : Int) ≤ s.maxi then
        match s.clientSockfd[i]? with
        | none => .ok { s with pc := .undefined }
        -- The assignment in the condition of the `if` also takes place for a free entry.
        | some none => .ok { s with sockfd := none, pc := .load (i + 1) }
        | some (some d) => .ok { s with sockfd := some d, pc := .test i d }
      else .ok { s with pc := .select }
  | .test i d =>
      match s.sockfd with
      | none => .ok { s with pc := .undefined }
      | some e =>
          if e.fd ∈ s.rset then
            let nready := s.nready - 1
            .ok { s with nready := nready, pc := if nready < 0 then .select else .create i d }
          else .ok { s with pc := .clear i d }
  | .create i d => .ok { s with handlers := s.handlers ++ [⟨d.conn, .created⟩], pc := .clear i d }
  -- This stands behind the `if`, so it happens whether or not the entry was ready.
  | .clear i _ =>
      match s.sockfd with
      | none => .ok { s with pc := .undefined }
      | some e =>
          .ok
            { s with
              allset := s.allset.erase e.fd
              clientSockfd := s.clientSockfd.set i none
              pc := .load (i + 1) }

def setHandler (s : Loop) (h : Nat) (conn : Nat) (phase : HandlerPhase) : Loop :=
  { s with handlers := s.handlers.set h ⟨conn, phase⟩ }

/-- The kernel's side of `close`: the number is free, whoever had it. -/
def release (s : Loop) : Option Desc → Loop
  | none => s
  | some d => { s with owner := Function.update s.owner d.fd none }

def loopStep (listenfd : Nat) (s : Loop) : Event → Except Stop Loop
  | .select ready accepted =>
      if s.pc = .select ∧ (∀ fd ∈ ready, fd ∈ s.allset ∧ fd ≤ s.maxfd) ∧
          (∀ fd ∈ accepted, s.owner fd = none ∧ fd ≠ listenfd) then
        s.selectStep ready accepted
      else .error .impossible
  | .main => s.mainStep
  | .start h =>
      match s.handlers[h]? with
      | some ⟨conn, .created⟩ => .ok (s.setHandler h conn (.running s.sockfd))
      | _ => .error .impossible
  | .endSession h =>
      match s.handlers[h]? with
      | some ⟨conn, .running d⟩ => .ok ((s.release d).setHandler h conn (.ended d))
      | _ => .error .impossible
  | .close h =>
      match s.handlers[h]? with
      | some ⟨conn, .running d⟩ => .ok ((s.release d).setHandler h conn .closed)
      | some ⟨conn, .ended d⟩ => .ok ((s.release d).setHandler h conn .closed)
      | _ => .error .impossible
  | .store h =>
      match s.handlers[h]? with
      | some ⟨conn, .closed⟩ => .ok { s.setHandler h conn .finished with sockfd := none }
      | _ => .error .impossible

end Loop

open Loop

def dispatch (listenfd : Nat) : Machine Loop Loop.Event Loop.Stop where
  init := .initial listenfd
  step := loopStep listenfd

/-! ## The law of the loop -/

/-- The descriptor is in the part of the table in use, and in the set passed to `select`. -/
def Registered (s : Loop) (d : Desc) : Prop :=
  (∃ k : Nat, (k : Int) ≤ s.maxi ∧ s.clientSockfd[k]? = some (some d)) ∧ d.fd ∈ s.allset

/-- The handler's variable holds the descriptor of its own connection, still open for it. -/
def OwnDescriptor (s : Loop) (h : Handler) (sockfd : Option Desc) : Prop :=
  ∃ fd, s.conns[h.conn]? = some fd ∧ sockfd = some ⟨fd, h.conn⟩ ∧ s.owner fd = some h.conn

/-- A connection stays registered until a round reports it; it has one handler at the end of that
round, and never a second one; a running handler works on its own descriptor. -/
structure WellDispatched (s : Loop) : Prop where
  defined : s.pc ≠ .undefined
  waiting : ∀ id fd, s.conns[id]? = some fd → id ∉ s.reported → Registered s ⟨fd, id⟩
  handed : s.pc = .select → ∀ id ∈ s.reported, (s.handlers.map Handler.conn).count id = 1
  once : ∀ id, (s.handlers.map Handler.conn).count id ≤ 1
  afterReport : ∀ h ∈ s.handlers, h.conn ∈ s.reported
  own : ∀ h ∈ s.handlers, ∀ sockfd, h.phase = .running sockfd → OwnDescriptor s h sockfd

/-- No thread has still to read its descriptor from the loop's variable. -/
def NonePending (s : Loop) : Prop :=
  ∀ h ∈ s.handlers, h.phase ≠ .created

instance (s : Loop) : Decidable (NonePending s) :=
  inferInstanceAs (Decidable (∀ h ∈ s.handlers, h.phase ≠ .created))

/-- The runs that the loop is good for.  A round reports the listening socket alone, with a number
that fits the set, or it reports every connection that waits; the loop goes on to the next entry
only when no thread has still to read `sockfd`; a thread writes -1 there only between the rounds
or the entries, and again only when no thread has still to read; and nothing is closed twice after
its number went to another connection. -/
def Synchronized (s : Loop) : Loop.Event → Prop
  | .select ready (some fd) => ready = ∅ ∧ fd < FD_SETSIZE
  | .select ready none => ∀ d ∈ entries s.clientSockfd, d.conn ∉ s.reported → d.fd ∈ ready
  | .main =>
      match s.pc with
      | .load i => (i : Int) ≤ s.maxi → NonePending s
      | _ => True
  | .store _ =>
      NonePending s ∧
        match s.pc with
        | .select => True
        | .load _ => True
        | _ => False
  | .close h =>
      match s.handlers[h]? with
      | some ⟨_, .ended (some d)⟩ => s.owner d.fd = none
      | _ => True
  | _ => True

/-! ## Invariant -/

/-- The first place of the table that the current round has not dealt with. -/
def Pc.next : Pc → Nat
  | select => 0
  | load i => i
  | test i _ => i
  | create i _ => i
  | clear i _ => i + 1
  | undefined => 0

/-- The entries that wait for a handler. -/
def waiting (s : Loop) : List Desc :=
  entries (s.clientSockfd.drop s.pc.next)

def fds (ds : List Desc) : Finset Nat :=
  (ds.map Desc.fd).toFinset

/-- What holds inside a round, with `n` ready descriptors still to be counted. -/
structure InRound (s : Loop) (n : Nat) : Prop where
  reported : ∀ id < s.conns.length, id ∈ s.reported
  ready : ∀ d ∈ waiting s, d.fd ∈ s.rset
  count : s.nready = n

/-- The entry `d` has been loaded and is still in the table. -/
structure Loaded (s : Loop) (i : Nat) (d : Desc) : Prop where
  entry : s.clientSockfd[i]? = some (some d)
  held : s.sockfd = some d

def AtPc (s : Loop) : Prop :=
  match s.pc with
  | .select =>
      s.allset = fds (waiting s) ∧
        ∀ id < s.conns.length, id ∈ s.reported ↔ id ∈ s.handlers.map Handler.conn
  | .load _ => s.allset = fds (waiting s) ∧ InRound s (waiting s).length
  | .test i d =>
      s.allset = fds (waiting s) ∧ InRound s (waiting s).length ∧ Loaded s i d ∧ NonePending s
  | .create i d =>
      s.allset = fds (waiting s) ∧ InRound s ((waiting s).length - 1) ∧ Loaded s i d ∧
        NonePending s
  | .clear i d =>
      s.allset = insert d.fd (fds (waiting s)) ∧ InRound s (waiting s).length ∧ Loaded s i d ∧
        d.fd ∉ fds (waiting s)
  | .undefined => False

def HandlerOk (s : Loop) (h : Handler) : Prop :=
  match h.phase with
  | .created => OwnDescriptor s h s.sockfd
  | .running sockfd => OwnDescriptor s h sockfd
  | _ => True

structure Inv (s : Loop) : Prop where
  /-- the table has been cleared up to the current place and is empty above `maxi` -/
  inUse : ∀ (k : Nat) d, s.clientSockfd[k]? = some (some d) → (k : Int) ≤ s.maxi
  passed : ∀ (k : Nat) d, s.clientSockfd[k]? = some (some d) → s.pc.next ≤ k ∨ s.pc = .clear k d
  inTable : s.maxi < s.clientSockfd.length
  /-- every connection either waits in the table or has a handler -/
  members : ((waiting s).map Desc.conn ++ s.handlers.map Handler.conn).Perm
    (List.range s.conns.length)
  owned : ∀ d ∈ waiting s, s.conns[d.conn]? = some d.fd ∧ s.owner d.fd = some d.conn
  known : ∀ id ∈ s.reported, id < s.conns.length
  handlers : ∀ h ∈ s.handlers, HandlerOk s h
  atPc : AtPc s

theorem Inv.nodup {s : Loop} (h : Inv s) :
    ((waiting s).map Desc.conn ++ s.handlers.map Handler.conn).Nodup :=
  h.members.nodup_iff.2 List.nodup_range

theorem Inv.lt_of_handler {s : Loop} (h : Inv s) {x : Handler} (hx : x ∈ s.handlers) :
    x.conn < s.conns.length := by
  have hmem : x.conn ∈ List.range s.conns.length :=
    h.members.mem_iff.1 (List.mem_append_right _ (List.mem_map_of_mem hx))
  exact List.mem_range.1 hmem

/-- Outside a round, exactly the connections that have not been reported wait. -/
theorem Inv.reported_iff {s : Loop} (h : Inv s) (hpc : s.pc = .select) {id : Nat}
    (hid : id < s.conns.length) : id ∈ s.reported ↔ id ∈ s.handlers.map Handler.conn := by
  have hat := h.atPc
  rw [AtPc, hpc] at hat
  exact hat.2 id hid

/-- Inside a round everything has been reported. -/
theorem Inv.reported_of_round {s : Loop} (h : Inv s) (hpc : s.pc ≠ .select) {id : Nat}
    (hid : id < s.conns.length) : id ∈ s.reported := by
  have hat := h.atPc
  unfold AtPc at hat
  split at hat
  · exact absurd ‹_› hpc
  · exact hat.2.reported id hid
  · exact hat.2.1.reported id hid
  · exact hat.2.1.reported id hid
  · exact hat.2.1.reported id hid
  · exact hat.elim

theorem wellDispatched_of_inv {s : Loop} (h : Inv s) : WellDispatched s := by
  have honce : ∀ id, (s.handlers.map Handler.conn).count id ≤ 1 := by
    intro id
    exact List.nodup_iff_count_le_one.1 (List.nodup_append.1 h.nodup).2.1 id
  refine ⟨?_, ?_, ?_, honce, ?_, ?_⟩
  · intro hpc
    have hat := h.atPc
    rw [AtPc, hpc] at hat
    exact hat
  · intro id fd hconn hreported
    have hid : id < s.conns.length := (List.getElem?_eq_some_iff.1 hconn).1
    have hpc : s.pc = .select := by
      by_contra hne
      exact hreported (h.reported_of_round hne hid)
    -- Between the rounds, not reported means without a handler, hence waiting.
    rw [h.reported_iff hpc hid] at hreported
    have hmem : id ∈ (waiting s).map Desc.conn := by
      rcases List.mem_append.1 (h.members.mem_iff.2 (List.mem_range.2 hid)) with hw | hh
      · exact hw
      · exact absurd hh hreported
    rcases List.mem_map.1 hmem with ⟨d, hd, rfl⟩
    have hdfd : fd = d.fd := Option.some.inj (hconn.symm.trans (h.owned d hd).1)
    subst hdfd
    have hall := h.atPc
    rw [AtPc, hpc] at hall
    refine ⟨?_, ?_⟩
    · have hentry : some d ∈ s.clientSockfd := by
        have hdrop : s.clientSockfd.drop s.pc.next = s.clientSockfd := by simp [hpc, Pc.next]
        rw [waiting, hdrop, entries, List.mem_filterMap] at hd
        rcases hd with ⟨x, hx, rfl⟩
        exact hx
      rcases List.getElem?_of_mem hentry with ⟨k, hk⟩
      exact ⟨k, h.inUse k d hk, hk⟩
    · rw [hall.1, fds, List.mem_toFinset]
      exact List.mem_map_of_mem hd
  · intro hpc id hreported
    have hmem := (h.reported_iff hpc (h.known id hreported)).1 hreported
    exact le_antisymm (honce id) (List.one_le_count_iff.2 hmem)
  · intro x hx
    by_cases hpc : s.pc = .select
    · exact (h.reported_iff hpc (h.lt_of_handler hx)).2 (List.mem_map_of_mem hx)
    · exact h.reported_of_round hpc (h.lt_of_handler hx)
  · intro x hx sockfd hphase
    have hok := h.handlers x hx
    rw [HandlerOk, hphase] at hok
    exact hok

/-! ## Steps of the handlers -/

/-- A handler that has still to read the loop's variable depends on it, the others do not. -/
theorem HandlerOk.transfer {s t : Loop} {x : Handler} (h : HandlerOk s x)
    (hown : ∀ sockfd, OwnDescriptor s x sockfd → OwnDescriptor t x sockfd)
    (hsockfd : x.phase = .created → t.sockfd = s.sockfd) : HandlerOk t x := by
  rcases x with ⟨conn, phase⟩
  cases phase with
  | created =>
      have hmoved : OwnDescriptor t ⟨conn, .created⟩ s.sockfd := hown _ h
      rwa [← hsockfd rfl] at hmoved
  | running sockfd => exact hown _ h
  | ended sockfd => trivial
  | closed => trivial
  | finished => trivial

/-- What is known about the main thread does not depend on how far the handlers are, as long as
none is added and the loop's variable is not changed under its feet. -/
theorem atPc_of_same {s t : Loop} (h : AtPc s) (hpc : t.pc = s.pc)
    (htable : t.clientSockfd = s.clientSockfd) (hallset : t.allset = s.allset)
    (hrset : t.rset = s.rset) (hnready : t.nready = s.nready) (hconns : t.conns = s.conns)
    (hreported : t.reported = s.reported)
    (hhandlers : t.handlers.map Handler.conn = s.handlers.map Handler.conn)
    (hpending : NonePending s → NonePending t)
    (hsockfd : t.sockfd = s.sockfd ∨ s.pc = .select ∨ ∃ i, s.pc = .load i) : AtPc t := by
  have hwaiting : waiting t = waiting s := by rw [waiting, waiting, hpc, htable]
  have hround : ∀ {n}, InRound s n → InRound t n := by
    intro n hr
    refine ⟨?_, ?_, ?_⟩
    · rw [hconns, hreported]
      exact hr.reported
    · rw [hwaiting, hrset]
      exact hr.ready
    · rw [hnready]
      exact hr.count
  have hloaded : ∀ {i d}, t.sockfd = s.sockfd → Loaded s i d → Loaded t i d := by
    intro i d hsame hl
    exact ⟨by rw [htable]; exact hl.entry, by rw [hsame]; exact hl.held⟩
  unfold AtPc at h ⊢
  rw [hpc, hallset, hwaiting, hconns, hreported, hhandlers]
  -- Inside the body of the loop the variable must not change under the main thread.
  cases hcase : s.pc with
  | undefined =>
      rw [hcase] at h
      exact h
  | select =>
      rw [hcase] at h
      exact h
  | load i =>
      rw [hcase] at h
      exact ⟨h.1, hround h.2⟩
  | test i d =>
      rw [hcase] at h hsockfd
      have hsame : t.sockfd = s.sockfd := by simpa using hsockfd
      exact ⟨h.1, hround h.2.1, hloaded hsame h.2.2.1, hpending h.2.2.2⟩
  | create i d =>
      rw [hcase] at h hsockfd
      have hsame : t.sockfd = s.sockfd := by simpa using hsockfd
      exact ⟨h.1, hround h.2.1, hloaded hsame h.2.2.1, hpending h.2.2.2⟩
  | clear i d =>
      rw [hcase] at h hsockfd
      have hsame : t.sockfd = s.sockfd := by simpa using hsockfd
      exact ⟨h.1, hround h.2.1, hloaded hsame h.2.2.1, h.2.2.2⟩

/-- A step of one handler, which may also free a number or overwrite the loop's variable. -/
theorem inv_handlerStep {s t : Loop} (hs : Inv s) (owner : Nat → Option Nat)
    (sockfd : Option Desc) {h conn : Nat} {phase phase' : HandlerPhase}
    (hget : s.handlers[h]? = some ⟨conn, phase⟩) (ht : t =
      { s with
        handlers := s.handlers.set h ⟨conn, phase'⟩
        owner := owner
        sockfd := sockfd })
    (hphase : phase' ≠ .created) (howned : ∀ d ∈ waiting s, owner d.fd = some d.conn)
    (hnew : HandlerOk t ⟨conn, phase'⟩)
    (hothers : ∀ x ∈ s.handlers, x.conn ≠ conn → HandlerOk s x → HandlerOk t x)
    (hsockfd : sockfd = s.sockfd ∨ s.pc = .select ∨ ∃ i, s.pc = .load i) : Inv t := by
  rcases Machine.exists_split_of_getElem? hget with ⟨l₁, l₂, hl, _, hset⟩
  have hhandlers : t.handlers = l₁ ++ ⟨conn, phase'⟩ :: l₂ := by rw [ht, ← hset]
  have hconns : t.handlers.map Handler.conn = s.handlers.map Handler.conn := by
    rw [hhandlers, hl]
    simp
  have hpending : NonePending s → NonePending t := by
    intro hnone x hx
    rw [hhandlers] at hx
    rw [NonePending, hl] at hnone
    rcases List.mem_append.1 hx with hx₁ | hx₂
    · exact hnone x (List.mem_append_left _ hx₁)
    · rcases List.mem_cons.1 hx₂ with rfl | hx₂
      · exact hphase
      · exact hnone x (List.mem_append_right _ (List.mem_cons_of_mem _ hx₂))
  have hwaiting : waiting t = waiting s := by rw [ht, waiting, waiting]
  -- Every connection has one handler at most, so the others belong to other connections.
  have hdistinct : ∀ x ∈ l₁ ++ l₂, x.conn ≠ conn := by
    have hnodup := (List.nodup_append.1 hs.nodup).2.1
    rw [hl, List.map_append, List.map_cons, List.nodup_middle, List.nodup_cons,
      ← List.map_append] at hnodup
    intro x hx heq
    have hmem : x.conn ∈ (l₁ ++ l₂).map Handler.conn := List.mem_map_of_mem hx
    rw [heq] at hmem
    exact hnodup.1 hmem
  have hat : AtPc t := by
    subst ht
    exact atPc_of_same hs.atPc rfl rfl rfl rfl rfl rfl rfl hconns hpending hsockfd
  refine ⟨?_, ?_, ?_, ?_, ?_, ?_, ?_, hat⟩
  · rw [ht]
    exact hs.inUse
  · rw [ht]
    exact hs.passed
  · rw [ht]
    exact hs.inTable
  · rw [hwaiting, hconns, ht]
    exact hs.members
  · rw [hwaiting]
    intro d hd
    rw [ht]
    exact ⟨(hs.owned d hd).1, howned d hd⟩
  · rw [ht]
    exact hs.known
  · intro x hx
    have hkeep : ∀ y ∈ l₁ ++ l₂, HandlerOk t y := by
      intro y hy
      have hmem : y ∈ s.handlers := by
        rw [hl]
        rcases List.mem_append.1 hy with hy₁ | hy₂
        · exact List.mem_append_left _ hy₁
        · exact List.mem_append_right _ (List.mem_cons_of_mem _ hy₂)
      exact hothers y hmem (hdistinct y hy) (hs.handlers y hmem)
    rw [hhandlers] at hx
    rcases List.mem_append.1 hx with hx₁ | hx₂
    · exact hkeep x (List.mem_append_left _ hx₁)
    · rcases List.mem_cons.1 hx₂ with rfl | hx₂
      · exact hnew
      · exact hkeep x (List.mem_append_right _ hx₂)

theorem inv_start {s : Loop} (hs : Inv s) {h conn : Nat}
    (hget : s.handlers[h]? = some ⟨conn, .created⟩) :
    Inv (s.setHandler h conn (.running s.sockfd)) := by
  have hok := hs.handlers _ (List.mem_of_getElem? hget)
  refine inv_handlerStep hs s.owner s.sockfd hget rfl (by simp)
    (fun d hd => (hs.owned d hd).2) hok ?_ (Or.inl rfl)
  intro x _ _ hx
  exact hx

/-- A running handler closes the descriptor of its own connection and of no other. -/
theorem inv_closeOwn {s : Loop} (hs : Inv s) {h conn : Nat} {d : Option Desc}
    {phase' : HandlerPhase} (hget : s.handlers[h]? = some ⟨conn, .running d⟩)
    (hphase : phase' = .ended d ∨ phase' = .closed) :
    Inv ((s.release d).setHandler h conn phase') := by
  have hmem := List.mem_of_getElem? hget
  rcases hs.handlers _ hmem with ⟨fd, _, hd, howner⟩
  dsimp only at hd howner
  subst hd
  -- A number is open for one connection only.
  have hne : ∀ fd' conn', s.owner fd' = some conn' → conn' ≠ conn → fd' ≠ fd := by
    intro fd' conn' howner' hconn' heq
    rw [heq, howner] at howner'
    exact hconn' (Option.some.inj howner').symm
  have hkeep : ∀ fd' conn', s.owner fd' = some conn' → conn' ≠ conn →
      Function.update s.owner fd none fd' = some conn' := by
    intro fd' conn' howner' hconn'
    rw [Function.update_of_ne (hne fd' conn' howner' hconn'), howner']
  refine inv_handlerStep hs (Function.update s.owner fd none) s.sockfd hget rfl ?_ ?_ ?_ ?_
    (Or.inl rfl)
  · rcases hphase with rfl | rfl <;> simp
  · intro e he
    have hdisjoint : e.conn ≠ conn :=
      (List.nodup_append.1 hs.nodup).2.2 _ (List.mem_map_of_mem he) _ (List.mem_map_of_mem hmem)
    exact hkeep _ _ (hs.owned e he).2 hdisjoint
  · rcases hphase with rfl | rfl <;> trivial
  · intro x _ hx hok
    refine hok.transfer ?_ fun _ => rfl
    rintro sockfd ⟨fd', hconn', hsockfd, howner'⟩
    exact ⟨fd', hconn', hsockfd, hkeep fd' _ howner' hx⟩

/-- The second `close` of a handler, when the number is still free. -/
theorem inv_closeAgain {s : Loop} (hs : Inv s) {h conn : Nat} {d : Option Desc}
    (hget : s.handlers[h]? = some ⟨conn, .ended d⟩)
    (hfree : ∀ e, d = some e → s.owner e.fd = none) :
    Inv ((s.release d).setHandler h conn .closed) := by
  have hsame : s.release d = s := by
    cases d with
    | none => rfl
    | some e =>
        have howner : Function.update s.owner e.fd none = s.owner := by
          rw [← hfree e rfl, Function.update_eq_self]
        rw [release, howner]
  rw [hsame]
  refine inv_handlerStep hs s.owner s.sockfd hget rfl (by simp)
    (fun e he => (hs.owned e he).2) trivial ?_ (Or.inl rfl)
  intro x _ _ hx
  exact hx

/-- A handler resets the loop's variable while nobody needs it. -/
theorem inv_store {s : Loop} (hs : Inv s) {h conn : Nat}
    (hget : s.handlers[h]? = some ⟨conn, .closed⟩) (hnone : NonePending s)
    (hpc : s.pc = .select ∨ ∃ i, s.pc = .load i) :
    Inv { s.setHandler h conn .finished with sockfd := none } := by
  refine inv_handlerStep hs s.owner none hget rfl (by simp)
    (fun e he => (hs.owned e he).2) trivial ?_ (Or.inr hpc)
  intro x hx _ hok
  exact hok.transfer (fun _ hown => hown) fun hcreated => absurd hcreated (hnone x hx)

/-! ## Steps of the main thread -/

theorem mem_entries_iff {table : List (Option Desc)} {d : Desc} :
    d ∈ entries table ↔ ∃ k : Nat, table[k]? = some (some d) := by
  rw [entries, List.mem_filterMap]
  constructor
  · rintro ⟨x, hx, rfl⟩
    exact List.getElem?_of_mem hx
  · rintro ⟨k, hk⟩
    exact ⟨some d, List.mem_of_getElem? hk, rfl⟩

theorem drop_of_getElem? {table : List (Option Desc)} {i : Nat} {x : Option Desc}
    (h : table[i]? = some x) : table.drop i = x :: table.drop (i + 1) := by
  rcases List.getElem?_eq_some_iff.1 h with ⟨hlt, hget⟩
  rw [List.drop_eq_getElem_cons hlt, hget]

/-- Except for the entry that is about to be cleared, the table is empty up to the current place. -/
theorem Inv.le_of_entry {s : Loop} (hs : Inv s) (hpc : ∀ i d, s.pc ≠ .clear i d) {k : Nat}
    {d : Desc} (hk : s.clientSockfd[k]? = some (some d)) : s.pc.next ≤ k :=
  (hs.passed k d hk).resolve_right (hpc k d)

/-- A step of the main thread that neither adds an entry nor takes one from those that wait. -/
theorem inv_of_waiting_eq {s t : Loop} (hs : Inv s) (hwaiting : waiting t = waiting s)
    (hhandlers : t.handlers = s.handlers) (hconns : t.conns = s.conns)
    (hreported : t.reported = s.reported) (howner : t.owner = s.owner) (hmaxi : t.maxi = s.maxi)
    (hlength : t.clientSockfd.length = s.clientSockfd.length)
    (htable : ∀ (k : Nat) d, t.clientSockfd[k]? = some (some d) →
      s.clientSockfd[k]? = some (some d) ∧ t.pc.next ≤ k)
    (hsockfd : NonePending s ∨ t.sockfd = s.sockfd) (hat : AtPc t) : Inv t := by
  refine ⟨?_, ?_, ?_, ?_, ?_, ?_, ?_, hat⟩
  · intro k d hk
    rw [hmaxi]
    exact hs.inUse k d (htable k d hk).1
  · intro k d hk
    exact Or.inl (htable k d hk).2
  · rw [hmaxi, hlength]
    exact hs.inTable
  · rw [hwaiting, hhandlers, hconns]
    exact hs.members
  · rw [hwaiting, hconns, howner]
    exact hs.owned
  · rw [hreported, hconns]
    exact hs.known
  · rw [hhandlers]
    intro x hx
    refine (hs.handlers x hx).transfer ?_ ?_
    · intro sockfd hown
      rwa [OwnDescriptor, hconns, howner]
    · intro hcreated
      exact hsockfd.resolve_left fun hnone => hnone x hx hcreated

/-- Entries that wait have different numbers. -/
theorem Inv.fd_ne {s : Loop} (hs : Inv s) {d e : Desc} (hd : d ∈ waiting s) (he : e ∈ waiting s)
    (hne : d.conn ≠ e.conn) : d.fd ≠ e.fd := by
  intro heq
  have hd' := (hs.owned d hd).2
  rw [heq, (hs.owned e he).2] at hd'
  exact hne (Option.some.inj hd').symm

theorem Inv.card_fds {s : Loop} (hs : Inv s) : (fds (waiting s)).card = (waiting s).length := by
  have hconns : ((waiting s).map Desc.conn).Nodup := (List.nodup_append.1 hs.nodup).1
  -- Two waiting entries with one number would belong to one connection.
  have hnodup : ((waiting s).map Desc.fd).Nodup := by
    refine (List.Nodup.of_map _ hconns).map_on ?_
    intro d hd e he heq
    by_contra hne
    refine hs.fd_ne hd he ?_ heq
    intro hconn
    apply hne
    cases d
    cases e
    simp_all
  rw [fds, List.toFinset_card_of_nodup hnodup, List.length_map]

/-- The round is over. -/
theorem inv_load_end {s : Loop} (hs : Inv s) {i : Nat} (hpc : s.pc = .load i)
    (hi : ¬ (i : Int) ≤ s.maxi) : Inv { s with pc := .select } := by
  have hat := hs.atPc
  rw [AtPc, hpc] at hat
  -- What is left in the table lies at or above `i`, but nothing lies above `maxi`.
  have hempty : ∀ (k : Nat) d, s.clientSockfd[k]? ≠ some (some d) := by
    intro k d hk
    have hmax := hs.inUse k d hk
    have hle : i ≤ k := by
      have hnext := hs.le_of_entry (by simp [hpc]) hk
      rwa [hpc] at hnext
    have hik : (i : Int) ≤ k := by exact_mod_cast hle
    exact hi (hik.trans hmax)
  have hnone : ∀ n, entries (s.clientSockfd.drop n) = [] := by
    intro n
    rw [List.eq_nil_iff_forall_not_mem]
    intro d hd
    rcases mem_entries_iff.1 hd with ⟨k, hk⟩
    rw [List.getElem?_drop] at hk
    exact hempty _ d hk
  have hbefore : waiting s = [] := hnone _
  have hafter : waiting { s with pc := .select } = [] := hnone _
  have hmembers := hs.members
  rw [hbefore] at hmembers
  refine ⟨hs.inUse, fun k d hk => absurd hk (hempty k d), hs.inTable, ?_, ?_, hs.known, hs.handlers,
    ?_⟩
  · rwa [hafter]
  · rw [hafter]
    intro d hd
    cases hd
  · refine ⟨?_, ?_⟩
    · rw [hafter]
      rw [hbefore] at hat
      exact hat.1
    · intro id hid
      have hmem : id ∈ s.handlers.map Handler.conn := by
        have hrange := hmembers.mem_iff.2 (List.mem_range.2 hid)
        simpa using hrange
      exact iff_of_true (hat.2.reported id hid) hmem

/-- An empty place is passed over. -/
theorem inv_load_empty {s : Loop} (hs : Inv s) {i : Nat} (hpc : s.pc = .load i)
    (hentry : s.clientSockfd[i]? = some none) (hnone : NonePending s) :
    Inv { s with sockfd := none, pc := .load (i + 1) } := by
  have hat := hs.atPc
  rw [AtPc, hpc] at hat
  have hwaiting : waiting { s with sockfd := none, pc := .load (i + 1) } = waiting s := by
    have hdrop := drop_of_getElem? hentry
    simp [waiting, hpc, Pc.next, hdrop, entries]
  refine inv_of_waiting_eq hs hwaiting rfl rfl rfl rfl rfl rfl ?_ (Or.inl hnone) ?_
  · intro k d hk
    have hle := hs.le_of_entry (by simp [hpc]) hk
    rw [hpc] at hle
    have hne : i ≠ k := by
      rintro rfl
      cases hentry.symm.trans hk
    exact ⟨hk, Nat.lt_of_le_of_ne hle hne⟩
  · refine ⟨by rw [hwaiting]; exact hat.1, hat.2.reported, ?_, ?_⟩
    · rw [hwaiting]
      exact hat.2.ready
    · rw [hwaiting]
      exact hat.2.count

theorem inv_load_entry {s : Loop} (hs : Inv s) {i : Nat} {d : Desc} (hpc : s.pc = .load i)
    (hentry : s.clientSockfd[i]? = some (some d)) (hnone : NonePending s) :
    Inv { s with sockfd := some d, pc := .test i d } := by
  have hat := hs.atPc
  rw [AtPc, hpc] at hat
  have hwaiting : waiting { s with sockfd := some d, pc := .test i d } = waiting s := by
    simp [waiting, hpc, Pc.next]
  refine inv_of_waiting_eq hs hwaiting rfl rfl rfl rfl rfl rfl ?_ (Or.inl hnone) ?_
  · intro k e hk
    have hle := hs.le_of_entry (by simp [hpc]) hk
    rw [hpc] at hle
    exact ⟨hk, hle⟩
  · refine ⟨by rw [hwaiting]; exact hat.1, ⟨hat.2.reported, ?_, ?_⟩, ⟨hentry, rfl⟩, hnone⟩
    · rw [hwaiting]
      exact hat.2.ready
    · rw [hwaiting]
      exact hat.2.count

/-- The entry at the current place waits first. -/
theorem waiting_eq_cons {s : Loop} {i : Nat} {d : Desc} (hnext : s.pc.next = i)
    (hentry : s.clientSockfd[i]? = some (some d)) :
    waiting s = d :: entries (s.clientSockfd.drop (i + 1)) := by
  rw [waiting, hnext, drop_of_getElem? hentry]
  rfl

/-- The loaded entry is found ready, and is counted. -/
theorem inv_test {s : Loop} (hs : Inv s) {i : Nat} {d : Desc} (hpc : s.pc = .test i d) :
    s.sockfd = some d ∧ d.fd ∈ s.rset ∧ ¬ s.nready - 1 < 0 ∧
      Inv { s with nready := s.nready - 1, pc := .create i d } := by
  have hat := hs.atPc
  rw [AtPc, hpc] at hat
  rcases hat with ⟨hallset, hround, hloaded, hnone⟩
  have hnext : s.pc.next = i := by rw [hpc]; rfl
  have hcons := waiting_eq_cons hnext hloaded.entry
  have hwaiting : waiting { s with nready := s.nready - 1, pc := .create i d } = waiting s := by
    simp [waiting, hpc, Pc.next]
  have hready : d.fd ∈ s.rset := hround.ready d (by rw [hcons]; exact List.mem_cons_self)
  have hcount := hround.count
  rw [hcons, List.length_cons] at hcount
  refine ⟨hloaded.held, hready, by omega,
    inv_of_waiting_eq hs hwaiting rfl rfl rfl rfl rfl rfl ?_ (Or.inr rfl) ?_⟩
  · intro k e hk
    have hle := hs.le_of_entry (by simp [hpc]) hk
    rw [hpc] at hle
    exact ⟨hk, hle⟩
  · refine ⟨by rw [hwaiting]; exact hallset, ⟨hround.reported, ?_, ?_⟩,
      ⟨hloaded.entry, hloaded.held⟩, hnone⟩
    · rw [hwaiting]
      exact hround.ready
    · rw [hwaiting, hcons, List.length_cons, Nat.add_sub_cancel]
      change s.nready - 1 = _
      omega

/-- A handler is created for the loaded entry, which stops waiting. -/
theorem inv_create {s : Loop} (hs : Inv s) {i : Nat} {d : Desc} (hpc : s.pc = .create i d) :
    Inv { s with handlers := s.handlers ++ [⟨d.conn, .created⟩], pc := .clear i d } := by
  have hat := hs.atPc
  rw [AtPc, hpc] at hat
  rcases hat with ⟨hallset, hround, hloaded, hnone⟩
  have hnext : s.pc.next = i := by rw [hpc]; rfl
  have hcons := waiting_eq_cons hnext hloaded.entry
  have hd : d ∈ waiting s := by
    rw [hcons]
    exact List.mem_cons_self
  have hafter : waiting { s with
      handlers := s.handlers ++ [⟨d.conn, .created⟩], pc := .clear i d } =
      entries (s.clientSockfd.drop (i + 1)) := rfl
  have hsub : ∀ e ∈ entries (s.clientSockfd.drop (i + 1)), e ∈ waiting s := by
    intro e he
    rw [hcons]
    exact List.mem_cons_of_mem _ he
  -- The entries behind the current one have other numbers.
  have hother : ∀ e ∈ entries (s.clientSockfd.drop (i + 1)), d.fd ≠ e.fd := by
    have hnodup := (List.nodup_append.1 hs.nodup).1
    rw [hcons, List.map_cons, List.nodup_cons] at hnodup
    intro e he
    refine hs.fd_ne hd (hsub e he) ?_
    intro heq
    exact hnodup.1 (heq ▸ List.mem_map_of_mem he)
  refine ⟨hs.inUse, ?_, hs.inTable, ?_, ?_, hs.known, ?_, ?_⟩
  · intro k e hk
    have hle := hs.le_of_entry (by simp [hpc]) hk
    rw [hnext] at hle
    rcases Nat.eq_or_lt_of_le hle with rfl | hlt
    · have hde : d = e := by simpa using hloaded.entry.symm.trans hk
      exact Or.inr (by rw [hde])
    · exact Or.inl hlt
  · have hmembers := hs.members
    rw [hcons] at hmembers
    rw [hafter]
    refine List.Perm.trans ?_ hmembers
    simp only [List.map_append, List.map_cons, List.map_nil, List.cons_append]
    rw [← List.append_assoc]
    exact List.perm_append_singleton _ _
  · rw [hafter]
    intro e he
    exact hs.owned e (hsub e he)
  · intro x hx
    rcases List.mem_append.1 hx with hold | hnew
    · exact (hs.handlers x hold).transfer (fun _ hown => hown) fun _ => rfl
    · cases List.mem_singleton.1 hnew
      exact ⟨d.fd, (hs.owned d hd).1, hloaded.held, (hs.owned d hd).2⟩
  · refine ⟨?_, ⟨hround.reported, ?_, ?_⟩, ⟨hloaded.entry, hloaded.held⟩, ?_⟩
    · rw [hafter]
      change s.allset = _
      rw [hallset, hcons]
      simp [fds]
    · rw [hafter]
      intro e he
      exact hround.ready e (hsub e he)
    · have hcount := hround.count
      rw [hcons, List.length_cons, Nat.add_sub_cancel] at hcount
      rw [hafter]
      exact hcount
    · rw [hafter, fds, List.mem_toFinset, List.mem_map]
      rintro ⟨e, he, heq⟩
      exact hother e he heq.symm

/-- The entry is removed from the set and from the table. -/
theorem inv_clear {s : Loop} (hs : Inv s) {i : Nat} {d : Desc} (hpc : s.pc = .clear i d) :
    s.sockfd = some d ∧
      Inv { s with
        allset := s.allset.erase d.fd
        clientSockfd := s.clientSockfd.set i none
        pc := .load (i + 1) } := by
  have hat := hs.atPc
  rw [AtPc, hpc] at hat
  rcases hat with ⟨hallset, hround, hloaded, hnot⟩
  have hwaiting : waiting { s with
      allset := s.allset.erase d.fd
      clientSockfd := s.clientSockfd.set i none
      pc := .load (i + 1) } = waiting s := by
    simp [waiting, hpc, Pc.next, List.drop_set]
  have hold : ∀ (k : Nat) e, (s.clientSockfd.set i none)[k]? = some (some e) →
      k ≠ i ∧ s.clientSockfd[k]? = some (some e) := by
    intro k e hk
    by_cases hki : k = i
    · subst hki
      simp [List.getElem?_set] at hk
    · rw [List.getElem?_set_ne (Ne.symm hki)] at hk
      exact ⟨hki, hk⟩
  refine ⟨hloaded.held, inv_of_waiting_eq hs hwaiting rfl rfl rfl rfl rfl List.length_set ?_
    (Or.inr rfl) ?_⟩
  · intro k e hk
    rcases hold k e hk with ⟨hki, hk⟩
    rcases hs.passed k e hk with hle | hclear
    · rw [hpc] at hle
      exact ⟨hk, hle⟩
    · rw [hpc] at hclear
      cases hclear
      exact absurd rfl hki
  · refine ⟨?_, hround.reported, ?_, ?_⟩
    · rw [hwaiting]
      change s.allset.erase d.fd = _
      rw [hallset, Finset.erase_insert hnot]
    · rw [hwaiting]
      exact hround.ready
    · rw [hwaiting]
      exact hround.count

/-- A round that reports every waiting connection. -/
theorem inv_select {s t : Loop} (hs : Inv s) {ready : Finset Nat} (hpc : s.pc = .select)
    (hready : ready ⊆ s.allset)
    (hall : ∀ d ∈ entries s.clientSockfd, d.conn ∉ s.reported → d.fd ∈ ready)
    (hstep : s.selectStep ready none = .ok t) : Inv t := by
  have hat := hs.atPc
  rw [AtPc, hpc] at hat
  have hentries : waiting s = entries s.clientSockfd := by simp [waiting, hpc, Pc.next]
  have hwaits : ∀ d ∈ waiting s, d.conn ∉ s.reported := by
    intro d hd hreported
    have hlt : d.conn < s.conns.length := (List.getElem?_eq_some_iff.1 (hs.owned d hd).1).1
    have hhandler := (hs.reported_iff hpc hlt).1 hreported
    exact (List.nodup_append.1 hs.nodup).2.2 _ (List.mem_map_of_mem hd) _ hhandler rfl
  -- As every waiting connection is reported, `ready` is the whole set.
  have hsame : ready = s.allset := by
    refine Finset.Subset.antisymm hready ?_
    rw [hat.1]
    intro fd hfd
    rw [fds, List.mem_toFinset, List.mem_map] at hfd
    rcases hfd with ⟨d, hd, rfl⟩
    exact hall d (hentries ▸ hd) (hwaits d hd)
  cases hstep
  have hwaiting : waiting { s with
      rset := ready
      nready := ready.card
      reported :=
        s.reported ++ ((entries s.clientSockfd).filter fun d => d.fd ∈ ready).map Desc.conn
      pc := .load 0 } = waiting s := by
    simp [waiting, hpc, Pc.next]
  refine ⟨hs.inUse, fun k d _ => Or.inl (Nat.zero_le k), hs.inTable, ?_, ?_, ?_, hs.handlers, ?_⟩
  · rw [hwaiting]
    exact hs.members
  · rw [hwaiting]
    exact hs.owned
  · intro id hid
    rcases List.mem_append.1 hid with hold | hnew
    · exact hs.known id hold
    · rcases List.mem_map.1 hnew with ⟨d, hd, rfl⟩
      have hmem : d ∈ waiting s := hentries ▸ List.mem_of_mem_filter hd
      exact (List.getElem?_eq_some_iff.1 (hs.owned d hmem).1).1
  · refine ⟨by rw [hwaiting]; exact hat.1, ?_, ?_, ?_⟩
    · intro id hid
      rcases List.mem_append.1 (hs.members.mem_iff.2 (List.mem_range.2 hid)) with hw | hh
      · rcases List.mem_map.1 hw with ⟨d, hd, rfl⟩
        have hfd := hall d (hentries ▸ hd) (hwaits d hd)
        refine List.mem_append_right _ (List.mem_map_of_mem (List.mem_filter.2 ⟨hentries ▸ hd, ?_⟩))
        simpa using hfd
      · exact List.mem_append_left _ ((hs.reported_iff hpc hid).2 hh)
    · rw [hwaiting]
      intro d hd
      exact hall d (hentries ▸ hd) (hwaits d hd)
    · rw [hwaiting, ← hs.card_fds, ← hat.1, ← hsame]

theorem OwnDescriptor.accept {s t : Loop} {x : Handler} {sockfd : Option Desc} {fd : Nat}
    (h : OwnDescriptor s x sockfd) (hfree : s.owner fd = none) (hconns : t.conns = s.conns ++ [fd])
    (howner : t.owner = Function.update s.owner fd (some s.conns.length)) :
    OwnDescriptor t x sockfd := by
  rcases h with ⟨fd', hconn, hsockfd, howner'⟩
  have hne : fd' ≠ fd := by
    rintro rfl
    rw [hfree] at howner'
    cases howner'
  refine ⟨fd', ?_, hsockfd, ?_⟩
  · rw [hconns, List.getElem?_append_left (List.getElem?_eq_some_iff.1 hconn).1, hconn]
  · rw [howner, Function.update_of_ne hne, howner']

/-- A connection entered in a free place of the table joins those that wait. -/
theorem inv_enter {s t : Loop} (hs : Inv s) {fd i : Nat} (hpc : s.pc = .select)
    (hfree : s.owner fd = none) (hentry : s.clientSockfd[i]? = some none)
    (htable : t.clientSockfd = s.clientSockfd.set i (some ⟨fd, s.conns.length⟩))
    (hallset : t.allset = insert fd s.allset) (hmaxi : t.maxi = max (i : Int) s.maxi)
    (hsockfd : t.sockfd = s.sockfd) (htpc : t.pc = .select) (hhandlers : t.handlers = s.handlers)
    (hconns : t.conns = s.conns ++ [fd]) (hreported : t.reported = s.reported)
    (howner : t.owner = Function.update s.owner fd (some s.conns.length)) : Inv t := by
  have hat := hs.atPc
  rw [AtPc, hpc] at hat
  rcases Machine.exists_split_of_getElem? hentry with ⟨l₁, l₂, hl, hlength, hset⟩
  have hbefore : waiting s = entries l₁ ++ entries l₂ := by
    simp [waiting, hpc, Pc.next, hl, entries]
  have hafter : waiting t = entries l₁ ++ ⟨fd, s.conns.length⟩ :: entries l₂ := by
    rw [waiting, htpc, htable, hset]
    simp [Pc.next, entries]
  -- The table keeps the order of its places, not that of the connections.
  have hperm : (waiting t).Perm (⟨fd, s.conns.length⟩ :: waiting s) := by
    rw [hafter, hbefore]
    exact List.perm_middle
  have hlt : t.conns.length = s.conns.length + 1 := by simp [hconns]
  refine ⟨?_, fun k d _ => Or.inl (by rw [htpc]; exact Nat.zero_le k), ?_, ?_, ?_, ?_, ?_, ?_⟩
  · intro k d hk
    rw [hmaxi]
    rw [htable] at hk
    by_cases hki : k = i
    · rw [hki]
      exact le_max_left _ _
    · rw [List.getElem?_set_ne (Ne.symm hki)] at hk
      exact (hs.inUse k d hk).trans (le_max_right _ _)
  · have hi : (i : Int) < s.clientSockfd.length := by
      exact_mod_cast (List.getElem?_eq_some_iff.1 hentry).1
    rw [hmaxi, htable, List.length_set]
    exact max_lt hi hs.inTable
  · rw [hhandlers, hlt, List.range_succ]
    have hmap := (hperm.map Desc.conn).append_right (s.handlers.map Handler.conn)
    refine hmap.trans ?_
    rw [List.map_cons, List.cons_append]
    exact (hs.members.cons _).trans (List.perm_append_singleton _ _).symm
  · intro d hd
    rw [hconns, howner]
    rcases List.mem_cons.1 (hperm.mem_iff.1 hd) with rfl | hold
    · simp
    · have hd' := hs.owned d hold
      have hne : d.fd ≠ fd := by
        intro heq
        rw [heq, hfree] at hd'
        cases hd'.2
      rw [List.getElem?_append_left (List.getElem?_eq_some_iff.1 hd'.1).1,
        Function.update_of_ne hne]
      exact hd'
  · rw [hreported, hlt]
    intro id hid
    exact Nat.lt_succ_of_lt (hs.known id hid)
  · rw [hhandlers]
    intro x hx
    exact (hs.handlers x hx).transfer (fun _ hown => hown.accept hfree hconns howner)
      fun _ => hsockfd
  · rw [AtPc, htpc, hallset, hat.1, hreported, hhandlers, hlt]
    refine ⟨?_, ?_⟩
    · rw [fds, fds, List.toFinset_eq_of_perm _ _ (hperm.map Desc.fd)]
      simp
    · intro id hid
      rcases Nat.lt_succ_iff_lt_or_eq.1 hid with hold | rfl
      · exact hat.2 id hold
      · refine iff_of_false (fun h => absurd (hs.known _ h) (Nat.lt_irrefl _)) ?_
        intro hmem
        rcases List.mem_map.1 hmem with ⟨x, hx, heq⟩
        exact absurd (hs.lt_of_handler hx) (by rw [heq]; exact Nat.lt_irrefl _)

/-- A round that only accepts a new connection. -/
theorem inv_accept {s t : Loop} (hs : Inv s) {fd : Nat} (hpc : s.pc = .select)
    (hfree : s.owner fd = none) (hfd : fd < FD_SETSIZE)
    (hstep : s.selectStep ∅ (some fd) = .ok t) : Inv t := by
  simp only [selectStep, Loop.accept] at hstep
  split at hstep
  · cases hstep
  · rename_i t' haccept
    split at haccept
    · cases haccept
    · rename_i i hfind
      cases haccept
      cases hstep
      have hentry : s.clientSockfd[i]? = some none := by
        rcases List.findIdx?_eq_some_iff_getElem.1 hfind with ⟨hlt, hnone, _⟩
        rw [List.getElem?_eq_getElem hlt]
        exact congrArg some (of_decide_eq_true hnone)
      refine inv_enter hs hpc hfree hentry rfl rfl rfl rfl ?_ rfl rfl ?_ rfl
      · simp [Nat.not_le.2 hfd]
      · simp

theorem inv_initial (listenfd : Nat) : Inv (.initial listenfd) := by
  have hempty : ∀ (k : Nat) d,
      (List.replicate FD_SETSIZE (none : Option Desc))[k]? ≠ some (some d) := by
    intro k d hk
    have hmem := List.eq_of_mem_replicate (List.mem_of_getElem? hk)
    cases hmem
  have hwaiting : waiting (.initial listenfd) = [] := by
    rw [List.eq_nil_iff_forall_not_mem]
    intro d hd
    rcases mem_entries_iff.1 hd with ⟨k, hk⟩
    rw [List.getElem?_drop] at hk
    exact hempty _ d hk
  refine ⟨fun k d hk => absurd hk (hempty k d), fun k d hk => absurd hk (hempty k d), ?_, ?_, ?_,
    ?_, ?_, ?_⟩
  · simp [initial]
  · rw [hwaiting]
    exact List.Perm.refl _
  · rw [hwaiting]
    intro d hd
    cases hd
  · intro id hid
    cases hid
  · intro x hx
    cases hx
  · refine ⟨?_, ?_⟩
    · rw [hwaiting]
      rfl
    · intro id hid
      cases hid

theorem inv_main {s t : Loop} (hs : Inv s) (hsync : Synchronized s .main)
    (hstep : s.mainStep = .ok t) : Inv t := by
  unfold mainStep at hstep
  -- One case for each place of the main thread.
  cases hpc : s.pc with
  | select =>
      rw [hpc] at hstep
      cases hstep
  | undefined =>
      rw [hpc] at hstep
      cases hstep
  | load i =>
      rw [hpc] at hstep
      rw [Synchronized, hpc] at hsync
      dsimp only at hstep hsync
      split at hstep
      · rename_i hle
        split at hstep
        · -- The places up to `maxi` are in the table.
          rename_i hout
          have hlt := hs.inTable
          have hge := List.getElem?_eq_none_iff.1 hout
          omega
        · cases hstep
          exact inv_load_empty hs hpc ‹_› (hsync hle)
        · cases hstep
          exact inv_load_entry hs hpc ‹_› (hsync hle)
      · cases hstep
        exact inv_load_end hs hpc ‹_›
  | test i d =>
      rcases inv_test hs hpc with ⟨hheld, hready, hcount, hinv⟩
      rw [hpc] at hstep
      simp only [hheld, hready, if_true, hcount, if_false] at hstep
      rw [hheld] at hinv
      cases hstep
      exact hinv
  | create i d =>
      rw [hpc] at hstep
      cases hstep
      exact inv_create hs hpc
  | clear i d =>
      rcases inv_clear hs hpc with ⟨hheld, hinv⟩
      rw [hpc] at hstep
      simp only [hheld] at hstep
      rw [hheld] at hinv
      cases hstep
      exact hinv

theorem inv_step {listenfd : Nat} {s t : Loop} {e : Loop.Event} (hs : Inv s)
    (hsync : Synchronized s e) (hstep : loopStep listenfd s e = .ok t) : Inv t := by
  cases e with
  | select ready accepted =>
      simp only [loopStep] at hstep
      split at hstep
      · rename_i hpossible
        rcases hpossible with ⟨hpc, hready, haccepted⟩
        cases accepted with
        | none => exact inv_select hs hpc (fun fd hfd => (hready fd hfd).1) hsync hstep
        | some fd =>
            rcases hsync with ⟨rfl, hfd⟩
            exact inv_accept hs hpc (haccepted fd rfl).1 hfd hstep
      · cases hstep
  | main => exact inv_main hs hsync hstep
  | start h =>
      simp only [loopStep] at hstep
      split at hstep
      · cases hstep
        exact inv_start hs ‹_›
      · cases hstep
  | endSession h =>
      simp only [loopStep] at hstep
      split at hstep
      · cases hstep
        exact inv_closeOwn hs ‹_› (Or.inl rfl)
      · cases hstep
  | close h =>
      simp only [loopStep] at hstep
      split at hstep
      · cases hstep
        exact inv_closeOwn hs ‹_› (Or.inr rfl)
      · rename_i conn d hget
        cases hstep
        refine inv_closeAgain hs hget ?_
        rintro e rfl
        rw [Synchronized, hget] at hsync
        exact hsync
      · cases hstep
  | store h =>
      simp only [loopStep] at hstep
      split at hstep
      · cases hstep
        refine inv_store hs ‹_› hsync.1 ?_
        have hplace := hsync.2
        split at hplace
        · exact Or.inl ‹_›
        · exact Or.inr ⟨_, ‹_›⟩
        · exact hplace.elim
      · cases hstep

/-! ## Whole runs -/

/-- In every run whose steps are synchronized, all states are well dispatched. -/
theorem wellDispatched_of_synchronized (listenfd : Nat) (events : List Loop.Event) :
    (dispatch listenfd).EveryStep Synchronized (dispatch listenfd).init events →
      (dispatch listenfd).EveryState WellDispatched (dispatch listenfd).init events := by
  intro h
  exact (dispatch listenfd).everyState_of_everyStep (fun s e t hs hsync => inv_step hs hsync)
    (fun s => wellDispatched_of_inv) (inv_initial listenfd) h

instance (s : Loop) (e : Loop.Event) : Decidable (Synchronized s e) := by
  unfold Synchronized
  split
  · infer_instance
  · infer_instance
  · split <;> infer_instance
  · refine @instDecidableAnd _ _ _ ?_
    split <;> infer_instance
  · split <;> infer_instance
  · infer_instance

/-- Two clients served one after the other; the second gets the number of the first. -/
def twoClients : List Loop.Event :=
  [.select ∅ (some 4), .select {4} none, .main, .main, .main, .start 0, .main, .main,
    .close 0, .store 0, .select ∅ (some 4), .select {4} none, .main, .main, .main, .start 1, .main]

theorem two_clients_well_dispatched :
    (dispatch 3).EveryState WellDispatched (dispatch 3).init twoClients :=
  wellDispatched_of_synchronized 3 twoClients (by decide +kernel)

/-- Two clients connect and one of them becomes readable. -/
def idleClient : List Loop.Event :=
  [.select ∅ (some 4), .select ∅ (some 5), .select {4} none, .main, .main, .main, .start 0, .main,
    .main, .main, .main]

/-- The idle one is removed from the table and from the set. -/
theorem idle_client_is_dropped :
    ¬ ∀ events, (dispatch 3).EveryState WellDispatched (dispatch 3).init events := by
  intro h
  have hrun := (((((((((((h idleClient).2 _ rfl).2 _ rfl).2 _ rfl).2 _ rfl).2 _ rfl).2 _ rfl).2 _
    rfl).2 _ rfl).2 _ rfl).2 _ rfl).2 _ rfl
  have hmem := (hrun.waiting 1 5 rfl (by decide +kernel)).2
  revert hmem
  decide +kernel

end ChatRoom
end LinuxLearn
