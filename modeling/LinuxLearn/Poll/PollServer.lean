import LinuxLearn.Lib.Machine

/-!
# PollServer — the poll echo server

The loop of `poll_socket/server.c`.  Each round asks `poll` about the listening descriptor and the
clients up to the index `maxi`, accepts at most one client, and then serves the clients whose
`revents` say that there is something to read, until it has served as many as `poll` has announced.

`revents` is only written for the slots that `poll` has looked at.  A client that is accepted into
a slot behind them is served or not according to what the uninitialised array happens to hold there,
as soon as the loop gets that far.  `reads_right_iff` says what a round has to be like for this and
for the ways to leave a round early to do no harm.
-/

namespace LinuxLearn
namespace Poll

open Lib

abbrev Bytes := List UInt8

abbrev OPEN_MAX : Nat := 1024
abbrev MAX_LINE : Nat := 2048

abbrev POLLERR : UInt16 := 0x008
abbrev POLLHUP : UInt16 := 0x010
abbrev POLLNVAL : UInt16 := 0x020
abbrev POLLRDNORM : UInt16 := 0x040

/-! ## State -/

structure Pollfd where
  fd : Int
  events : UInt16
  revents : UInt16
  deriving DecidableEq, Repr

namespace Pollfd

/-- A connection with `revents & (POLLRDNORM | POLLERR)`. -/
def Wanted (p : Pollfd) : Prop :=
  0 ≤ p.fd ∧ p.revents &&& (POLLRDNORM ||| POLLERR) ≠ 0

instance (p : Pollfd) : Decidable p.Wanted :=
  inferInstanceAs (Decidable (_ ∧ _))

/-- What `poll` makes of a slot, given what happened at the descriptors. -/
def polled (happened : Int → UInt16) (p : Pollfd) : Pollfd :=
  { p with
    revents :=
      if p.fd < 0 then 0
      else happened p.fd &&& (p.events ||| POLLERR ||| POLLHUP ||| POLLNVAL) }

/-- The slot of a client that has been accepted. -/
def entered (connfd : Int) (p : Pollfd) : Pollfd :=
  { p with fd := connfd, events := POLLRDNORM }

end Pollfd

/-- The descriptors of the slots that are not free. -/
def inUse (slots : List Pollfd) : List Int :=
  (slots.map Pollfd.fd).filter fun fd => 0 ≤ fd

structure Server where
  /-- `client[0]` -/
  listening : Pollfd
  /-- `client[1]`, `client[2]`, … -/
  client : List Pollfd
  maxi : Nat
  deriving DecidableEq, Repr

namespace Server

/-- The slots up to `maxi`. -/
def slots (s : Server) : List Pollfd :=
  s.client.take s.maxi

def clients (s : Server) : List Int :=
  inUse s.client

/-- The connections that `revents` asks to be served. -/
def wanted (s : Server) : List Pollfd :=
  s.slots.filter Pollfd.Wanted

/-- All but the descriptors and the events of `listening` is uninitialised. -/
def initial (listenfd : Int) (uninitialised : Nat → Pollfd) : Server where
  listening := ⟨listenfd, POLLRDNORM, (uninitialised 0).revents⟩
  client := (List.range' 1 (OPEN_MAX - 1)).map fun i => { uninitialised i with fd := -1 }
  maxi := 0

end Server

/-! ## One round -/

/-- What `read` returns: some bytes, or a count that is not positive. -/
inductive ReadResult
  | data (d : Bytes) (fits : 0 < d.length ∧ d.length ≤ MAX_LINE)
  | noData (n : Int) (none : n ≤ 0)

inductive Call
  | accept
  | read (sockfd : Int)
  | write (sockfd : Int) (d : Bytes)
  | close (sockfd : Int)
  deriving DecidableEq, Repr

def Call.readFd : Call → Option Int
  | read sockfd => some sockfd
  | _ => none

/-- What happened at the descriptors, and what the system calls of the round return. -/
structure Round where
  happened : Int → UInt16
  connfd : Int
  reads : Int → ReadResult
  writes : Int → Int

def Server.poll (s : Server) (happened : Int → UInt16) : Server :=
  { s with
    listening := s.listening.polled happened
    client := s.slots.map (Pollfd.polled happened) ++ s.client.drop s.maxi }

/-- What `poll` returns. -/
def Server.nready (s : Server) : Nat :=
  (s.listening :: s.slots).countP fun p => p.revents ≠ 0

/-- `client[0].revents & POLLRDNORM` -/
def Server.Accepts (s : Server) : Prop :=
  s.listening.revents &&& POLLRDNORM ≠ 0

instance (s : Server) : Decidable s.Accepts :=
  inferInstanceAs (Decidable (_ ≠ _))

/-- `none` if the server exits. -/
def acceptClient (s : Server) (connfd : Int) : Option Server :=
  if connfd < 0 then none
  else
    match s.client.findIdx? fun p => p.fd < 0 with
    | none => none
    | some i =>
        some
          { s with
            client := s.client.modify i (Pollfd.entered connfd)
            maxi := if s.maxi < i + 1 then i + 1 else s.maxi }

/-- The echo to this client is not written as a whole. -/
def Round.Fails (r : Round) (sockfd : Int) : Prop :=
  match r.reads sockfd with
  | .data d _ => r.writes sockfd ≠ d.length
  | .noData _ _ => False

instance (r : Round) (sockfd : Int) : Decidable (r.Fails sockfd) :=
  match h : r.reads sockfd with
  | .data d _ => decidable_of_iff (r.writes sockfd ≠ d.length) (by rw [Round.Fails, h])
  | .noData _ _ => isFalse (by rw [Round.Fails, h]; exact id)

/-- The calls for one client, and the slot afterwards. -/
def serveClient (r : Round) (p : Pollfd) : List Call × Pollfd :=
  match r.reads p.fd with
  | .data d _ => ([.read p.fd, .write p.fd d], p)
  | .noData _ _ => ([.read p.fd, .close p.fd], { p with fd := -1 })

/-- The loop over the remaining slots: the calls, and the slots afterwards. -/
def serveClients (r : Round) : Int → List Pollfd → List Call × List Pollfd
  | _, [] => ([], [])
  | nready, p :: slots =>
      if p.Wanted then
        let served := serveClient r p
        if r.Fails p.fd ∨ nready - 1 ≤ 0 then (served.1, served.2 :: slots)
        else
          let rest := serveClients r (nready - 1) slots
          (served.1 ++ rest.1, served.2 :: rest.2)
      else
        let rest := serveClients r nready slots
        (rest.1, p :: rest.2)

def serveSlots (r : Round) (nready : Int) (s : Server) : List Call × Server :=
  let served := serveClients r nready s.slots
  (served.1, { s with client := served.2 ++ s.client.drop s.maxi })

/-- The calls of a round, and the server afterwards unless it has exited. -/
def round (s : Server) (r : Round) : List Call × Option Server :=
  let s := s.poll r.happened
  let nready : Int := s.nready
  if s.Accepts then
    match acceptClient s r.connfd with
    | none => ([.accept], none)
    | some s =>
        -- The count is compared with `< 0`, so the loop runs even if nobody else is ready.
        if nready - 1 < 0 then ([.accept], some s)
        else
          let served := serveSlots r (nready - 1) s
          (.accept :: served.1, some served.2)
  else
    let served := serveSlots r nready s
    (served.1, some served.2)

inductive Stop
  | impossible
  | exits
  deriving DecidableEq, Repr

/-- `accept` returns no descriptor in use. -/
def Possible (s : Server) (r : Round) : Prop :=
  (s.poll r.happened).Accepts → r.connfd ∉ s.listening.fd :: s.clients

instance (s : Server) (r : Round) : Decidable (Possible s r) :=
  inferInstanceAs (Decidable (_ → _))

def roundStep (s : Server) (r : Round) : Except Stop Server :=
  if Possible s r then
    match (round s r).2 with
    | none => .error .exits
    | some s => .ok s
  else .error .impossible

def server (listenfd : Int) (uninitialised : Nat → Pollfd) : Machine Server Round Stop where
  init := .initial listenfd uninitialised
  step := roundStep

/-! ## What a round has to read -/

/-- The connections for which the `poll` of the round reports `POLLRDNORM` or `POLLERR`. -/
def reported (s : Server) (r : Round) : List Int :=
  (s.poll r.happened).wanted.map Pollfd.fd

/-- The round reads the connections reported, each of them once, and nothing else. -/
def RoundRight (s : Server) (r : Round) : Prop :=
  ((round s r).1.filterMap Call.readFd).Nodup ∧
    ∀ fd, fd ∈ (round s r).1.filterMap Call.readFd ↔ fd ∈ reported s r

/-- The client is not accepted, or there is no slot for it. -/
def Exits (s : Server) (connfd : Int) : Prop :=
  s.Accepts ∧ (connfd < 0 ∨ ∀ p ∈ s.client, 0 ≤ p.fd)

/-- A client is accepted into a slot that `poll` has not looked at, and the old content of this slot
asks for it to be served. -/
def EntersStale (s : Server) (connfd : Int) : Prop :=
  s.Accepts ∧ 0 ≤ connfd ∧ (∀ p ∈ s.slots, 0 ≤ p.fd) ∧
    ∃ p, s.client[s.maxi]? = some p ∧ p.revents &&& (POLLRDNORM ||| POLLERR) ≠ 0

/-- Nothing ends the round before all connections reported are read, and something ends it then if
there is a stale slot behind them: a write that fails, or the number that `poll` has returned. -/
structure RoundOk (s : Server) (r : Round) : Prop where
  stays : (s.poll r.happened).wanted ≠ [] → ¬ Exits (s.poll r.happened) r.connfd
  written : ∀ p ∈ (s.poll r.happened).wanted.dropLast, ¬ r.Fails p.fd
  notReached : EntersStale (s.poll r.happened) r.connfd → (s.poll r.happened).wanted ≠ [] ∧
    ((∃ p, (s.poll r.happened).wanted.getLast? = some p ∧ r.Fails p.fd) ∨
      ∀ p ∈ (s.poll r.happened).slots, p.revents ≠ 0 → p.Wanted)

/-! ## The loop over the slots -/

/-- The reads of the loop, if all slots are wanted. -/
def readsFrom (r : Round) : Int → List Pollfd → List Int
  | _, [] => []
  | nready, p :: ps =>
      p.fd :: if r.Fails p.fd ∨ nready - 1 ≤ 0 then [] else readsFrom r (nready - 1) ps

section Loop

variable {r : Round} {n : Int} {A B W R S : List Pollfd} {p : Pollfd}

theorem readFd_serveClient : (serveClient r p).1.filterMap Call.readFd = [p.fd] := by
  rw [serveClient]
  split
  · rfl
  · rfl

/-- Slots that are not wanted are passed over. -/
theorem readFd_serveClients (r : Round) (n : Int) (slots : List Pollfd) :
    (serveClients r n slots).1.filterMap Call.readFd =
      readsFrom r n (slots.filter Pollfd.Wanted) := by
  induction slots generalizing n with
  | nil => rfl
  | cons p slots ih =>
      rw [serveClients]
      by_cases hp : p.Wanted
      · rw [if_pos hp, List.filter_cons_of_pos (by simpa using hp), readsFrom]
        by_cases hstop : r.Fails p.fd ∨ n - 1 ≤ 0
        · rw [if_pos hstop, if_pos hstop, readFd_serveClient]
        · rw [if_neg hstop, if_neg hstop]
          simp only [List.filterMap_append, readFd_serveClient, ih, List.singleton_append]
      · rw [if_neg hp, List.filter_cons_of_neg (by simpa using hp)]
        exact ih n

theorem readsFrom_isPrefix (r : Round) (n : Int) (W : List Pollfd) :
    readsFrom r n W <+: W.map Pollfd.fd := by
  induction W generalizing n with
  | nil => exact List.prefix_rfl
  | cons p W ih =>
      rw [readsFrom, List.map_cons, List.prefix_cons_inj]
      split
      · exact List.nil_prefix
      · exact ih (n - 1)

/-- Without a failure the loop gets as far as the number allows. -/
theorem readsFrom_append (hA : ∀ p ∈ A, ¬ r.Fails p.fd) (hn : A.length < n) (B : List Pollfd) :
    readsFrom r n (A ++ B) = A.map Pollfd.fd ++ readsFrom r (n - A.length) B := by
  induction A generalizing n with
  | nil => simp
  | cons p A ih =>
      rw [List.forall_mem_cons] at hA
      rw [List.length_cons, Nat.cast_succ] at hn
      have hruns : ¬ (r.Fails p.fd ∨ n - 1 ≤ 0) := by
        rintro (hfails | hless)
        · exact hA.1 hfails
        · omega
      have hcount : n - ((p :: A).length : Int) = n - 1 - A.length := by
        rw [List.length_cons, Nat.cast_succ]
        omega
      rw [List.cons_append, readsFrom, if_neg hruns, ih hA.2 (by omega), hcount]
      rfl

theorem length_readsFrom_of_fails (n : Int) (A B : List Pollfd) (hp : r.Fails p.fd) :
    (readsFrom r n (A ++ p :: B)).length ≤ A.length + 1 := by
  induction A generalizing n with
  | nil =>
      rw [List.nil_append, readsFrom, if_pos (Or.inl hp)]
      exact le_rfl
  | cons q A ih =>
      rw [List.cons_append, readsFrom, List.length_cons]
      split
      · simp
      · exact Nat.succ_le_succ (ih (n - 1))

theorem readsFrom_eq_nil : readsFrom r n W = [] ↔ W = [] := by
  cases W with
  | nil => exact iff_of_true rfl rfl
  | cons p W => simp [readsFrom]

/-- How many clients are read if there are the wanted ones `R` and others, `S`, behind them. -/
theorem length_readsFrom_iff (hn : R.length ≤ n) :
    (readsFrom r n (R ++ S)).length = R.length ↔
      (∀ p ∈ R.dropLast, ¬ r.Fails p.fd) ∧
        (S ≠ [] → R ≠ [] ∧ ((∃ p, R.getLast? = some p ∧ r.Fails p.fd) ∨ n = R.length)) := by
  rcases List.eq_nil_or_concat R with rfl | ⟨A, p, rfl⟩
  · rw [List.nil_append, List.length_nil, List.length_eq_zero_iff, readsFrom_eq_nil]
    simp
  · rw [List.concat_eq_append] at hn ⊢
    rw [List.dropLast_concat, List.append_assoc, List.singleton_append]
    rw [List.length_append, List.length_singleton] at hn ⊢
    by_cases hA : ∀ q ∈ A, ¬ r.Fails q.fd
    · rw [readsFrom_append hA (by omega), readsFrom, List.length_append, List.length_map]
      by_cases hstop : r.Fails p.fd ∨ n - A.length - 1 ≤ 0
      · rw [if_pos hstop]
        refine iff_of_true rfl ⟨hA, fun _ => ⟨by simp, ?_⟩⟩
        rcases hstop with hfails | hless
        · exact Or.inl ⟨p, by simp, hfails⟩
        · exact Or.inr (by omega)
      · rw [if_neg hstop, List.length_cons]
        have hzero : A.length + ((readsFrom r (n - A.length - 1) S).length + 1) = A.length + 1 ↔
            S = [] := by
          rw [← readsFrom_eq_nil (r := r) (n := n - A.length - 1), ← List.length_eq_zero_iff]
          omega
        rw [hzero]
        rw [not_or] at hstop
        constructor
        · exact fun hS => ⟨hA, fun hne => absurd hS hne⟩
        · rintro ⟨-, hS⟩
          by_contra hne
          rcases (hS hne).2 with ⟨q, hq, hfails⟩ | hexact
          · rw [List.getLast?_concat] at hq
            cases hq
            exact hstop.1 hfails
          · exact hstop.2 (by omega)
    · refine iff_of_false ?_ fun h => hA h.1
      push Not at hA
      obtain ⟨q, hq, hfails⟩ := hA
      obtain ⟨A₁, A₂, rfl⟩ := List.append_of_mem hq
      have hless := length_readsFrom_of_fails n A₁ (A₂ ++ p :: S) hfails
      rw [← List.cons_append, ← List.append_assoc] at hless
      rw [List.length_append, List.length_cons]
      omega

end Loop

/-! ## The slots -/

theorem ne_zero_of_and {a b : UInt16} (h : a &&& b ≠ 0) : a ≠ 0 := by
  rintro rfl
  exact h UInt16.zero_and

theorem Pollfd.Wanted.revents_ne {p : Pollfd} (h : p.Wanted) : p.revents ≠ 0 :=
  ne_zero_of_and h.2

/-- No two slots hold the same connection, and the slots behind `maxi` are free. -/
structure SlotsOk (s : Server) : Prop where
  distinct : s.clients.Nodup
  free : ∀ p ∈ s.client.drop s.maxi, p.fd < 0

/-- The slots up to `maxi` and those behind them, if the former are replaced. -/
theorem replaceSlots {α : Type*} {front l : List α} {n : Nat}
    (h : front.length = (l.take n).length) :
    (front ++ l.drop n).take n = front ∧ (front ++ l.drop n).drop n = l.drop n := by
  rw [List.length_take] at h
  rcases Nat.le_total n l.length with hle | hle
  · have hfront : front.length = n := by omega
    exact ⟨List.take_left' hfront, List.drop_left' hfront⟩
  · rw [List.drop_eq_nil_of_le hle, List.append_nil]
    exact ⟨List.take_of_length_le (by omega), List.drop_eq_nil_of_le (by omega)⟩

section Slots

variable {s t : Server} {r : Round} {happened : Int → UInt16} {connfd : Int}

theorem slots_poll : (s.poll happened).slots = s.slots.map (Pollfd.polled happened) :=
  (replaceSlots (List.length_map _)).1

theorem inUse_append (slots slots' : List Pollfd) :
    inUse (slots ++ slots') = inUse slots ++ inUse slots' := by
  rw [inUse, List.map_append, List.filter_append]
  rfl

theorem inUse_cons (p : Pollfd) (slots : List Pollfd) :
    inUse (p :: slots) = if 0 ≤ p.fd then p.fd :: inUse slots else inUse slots := by
  simp only [inUse, List.map_cons, List.filter_cons, decide_eq_true_eq]

theorem clients_eq_append : s.clients = inUse s.slots ++ inUse (s.client.drop s.maxi) := by
  rw [← inUse_append, Server.slots, List.take_append_drop]
  rfl

theorem clients_poll (s : Server) (happened : Int → UInt16) :
    (s.poll happened).clients = s.clients := by
  have hslots : inUse (s.slots.map (Pollfd.polled happened)) = inUse s.slots := by
    rw [inUse, List.map_map]
    rfl
  rw [clients_eq_append (s := s), ← hslots]
  exact inUse_append (s.slots.map (Pollfd.polled happened)) (s.client.drop s.maxi)

theorem SlotsOk.poll (h : SlotsOk s) (happened : Int → UInt16) : SlotsOk (s.poll happened) := by
  refine ⟨by rw [clients_poll]; exact h.distinct, fun p hp => h.free p ?_⟩
  have hdrop : (s.poll happened).client.drop s.maxi = s.client.drop s.maxi :=
    (replaceSlots (List.length_map _)).2
  exact hdrop ▸ hp

/-- `poll` clears `revents` of the free slots that it looks at. -/
theorem revents_poll : ∀ p ∈ (s.poll happened).slots, p.fd < 0 → p.revents = 0 := by
  rw [slots_poll]
  intro p hp hfree
  rcases List.mem_map.1 hp with ⟨q, _, rfl⟩
  exact if_pos hfree

/-- A connection that is wanted is one of the slots. -/
theorem nodup_wanted (h : SlotsOk s) : (s.wanted.map Pollfd.fd).Nodup := by
  have hslots : (inUse s.slots).Nodup := by
    have hdistinct := h.distinct
    rw [clients_eq_append] at hdistinct
    exact hdistinct.of_append_left
  rw [inUse, List.filter_map] at hslots
  refine hslots.sublist (List.Sublist.map _ ?_)
  exact List.monotone_filter_right _ fun p hp => by
    simpa using (of_decide_eq_true hp : p.Wanted).1

theorem modify_append {α : Type*} (l₁ : List α) (a : α) (l₂ : List α) (f : α → α) :
    (l₁ ++ a :: l₂).modify l₁.length f = l₁ ++ f a :: l₂ := by
  induction l₁ with
  | nil => rfl
  | cons b l₁ ih => simp [ih]

/-- The server exits, or the client gets the first free slot. -/
theorem acceptClient_cases (h : SlotsOk s) (connfd : Int) :
    (acceptClient s connfd = none ∧ (connfd < 0 ∨ ∀ p ∈ s.client, 0 ≤ p.fd)) ∨
      (0 ≤ connfd ∧ ∃ l₁ p l₂, s.client = l₁ ++ p :: l₂ ∧ (∀ q ∈ l₁, 0 ≤ q.fd) ∧ p.fd < 0 ∧
        l₁.length ≤ s.maxi ∧
        acceptClient s connfd = some
          { s with
            client := l₁ ++ p.entered connfd :: l₂
            maxi := max s.maxi (l₁.length + 1) }) := by
  rw [acceptClient]
  by_cases hconnfd : connfd < 0
  · exact Or.inl ⟨if_pos hconnfd, Or.inl hconnfd⟩
  · rw [if_neg hconnfd]
    cases hfind : s.client.findIdx? fun p => p.fd < 0 with
    | none =>
        rw [List.findIdx?_eq_none_iff] at hfind
        exact Or.inl ⟨rfl, Or.inr fun p hp => by simpa using hfind p hp⟩
    | some i =>
        rcases List.findIdx?_eq_some_iff_getElem.1 hfind with ⟨hi, hp, hbefore⟩
        rcases Machine.exists_split_of_getElem? (List.getElem?_eq_getElem hi) with
          ⟨l₁, l₂, hclient, hlength, _⟩
        generalize s.client[i] = p at hclient hp
        have hopen : ∀ q ∈ l₁, 0 ≤ q.fd := by
          intro q hq
          rcases List.getElem_of_mem hq with ⟨j, hj, rfl⟩
          have hentry := hbefore j (hlength ▸ hj)
          simp only [hclient, List.getElem_append_left hj] at hentry
          simpa using hentry
        refine Or.inr ⟨Int.not_lt.1 hconnfd, l₁, p, l₂, hclient, hopen, by simpa using hp, ?_, ?_⟩
        · -- The slot at `maxi` is free, if there is one.
          by_contra hmaxi
          have hless : s.maxi < l₁.length := Nat.not_le.1 hmaxi
          have hmem : l₁[s.maxi] ∈ s.client.drop s.maxi := by
            rw [hclient, List.drop_append_of_le_length hless.le, List.drop_eq_getElem_cons hless]
            exact List.mem_append_left _ List.mem_cons_self
          exact absurd (h.free _ hmem) (Int.not_lt.2 (hopen _ (List.getElem_mem hless)))
        · subst hlength
          dsimp only
          rw [hclient, modify_append]
          have hmax : (if s.maxi < l₁.length + 1 then l₁.length + 1 else s.maxi) =
              max s.maxi (l₁.length + 1) := by
            rw [max_def]
            split <;> split <;> omega
          simp only [hmax]

/-- The new client is wanted only in a slot behind those that `poll` has looked at. -/
theorem wanted_entered {l₁ l₂ : List Pollfd} {p : Pollfd}
    (hrevents : ∀ p ∈ s.slots, p.fd < 0 → p.revents = 0) (hclient : s.client = l₁ ++ p :: l₂)
    (hopen : ∀ q ∈ l₁, 0 ≤ q.fd) (hp : p.fd < 0) (hmaxi : l₁.length ≤ s.maxi)
    (hconnfd : 0 ≤ connfd)
    (ht : t = { s with
      client := l₁ ++ p.entered connfd :: l₂
      maxi := max s.maxi (l₁.length + 1) }) :
    ∃ S, t.wanted = s.wanted ++ S ∧ (S ≠ [] ↔ (∀ q ∈ s.slots, 0 ≤ q.fd) ∧
      ∃ q, s.client[s.maxi]? = some q ∧ q.revents &&& (POLLRDNORM ||| POLLERR) ≠ 0) := by
  rcases Nat.lt_or_eq_of_le hmaxi with hless | heq
  · obtain ⟨k, hk⟩ : ∃ k, s.maxi = l₁.length + (k + 1) := ⟨s.maxi - l₁.length - 1, by omega⟩
    have hmax : max s.maxi (l₁.length + 1) = s.maxi := max_eq_left hless
    have hslots : ∀ q, (l₁ ++ q :: l₂).take s.maxi = l₁ ++ q :: l₂.take k := by
      intro q
      rw [hk, List.take_length_add_append, List.take_succ_cons]
    have hbefore : s.slots = l₁ ++ p :: l₂.take k := by rw [Server.slots, hclient, hslots]
    have hmem : p ∈ s.slots := by
      rw [hbefore]
      exact List.mem_append_right _ List.mem_cons_self
    have hzero := hrevents p hmem hp
    have hnot : ¬ p.Wanted := fun h => absurd h.1 (Int.not_le.2 hp)
    have hnot' : ¬ (p.entered connfd).Wanted := fun h => h.revents_ne hzero
    refine ⟨[], ?_, iff_of_false (fun h => h rfl) fun h => absurd (h.1 p hmem) (Int.not_le.2 hp)⟩
    have hafter : t.slots = l₁ ++ p.entered connfd :: l₂.take k := by
      rw [ht, Server.slots, hmax, hslots]
    rw [Server.wanted, Server.wanted, hbefore, hafter, List.append_nil, List.filter_append,
      List.filter_append, List.filter_cons_of_neg (by simpa using hnot'),
      List.filter_cons_of_neg (by simpa using hnot)]
  · have hmax : max s.maxi (l₁.length + 1) = l₁.length + 1 := max_eq_right (by omega)
    have hbefore : s.slots = l₁ := by rw [Server.slots, hclient, ← heq, List.take_left]
    have hafter : t.slots = l₁ ++ [p.entered connfd] := by
      rw [ht, Server.slots, hmax, List.take_length_add_append]
      rfl
    have hentry : s.client[s.maxi]? = some p := by
      rw [hclient, ← heq]
      simp
    refine ⟨[p.entered connfd].filter Pollfd.Wanted, ?_, ?_⟩
    · rw [Server.wanted, Server.wanted, hbefore, hafter, List.filter_append]
    · rw [hbefore, hentry]
      have hwanted : (p.entered connfd).Wanted ↔
          p.revents &&& (POLLRDNORM ||| POLLERR) ≠ 0 := and_iff_right hconnfd
      simp only [ne_eq, List.filter_eq_nil_iff, List.mem_singleton, forall_eq, decide_eq_true_eq,
        hwanted, not_not, Option.some.injEq, exists_eq_left']
      exact (and_iff_right hopen).symm

/-- `poll` counts at least the connections wanted. -/
theorem length_wanted_le (s : Server) :
    s.wanted.length ≤ s.slots.countP fun p => p.revents ≠ 0 := by
  rw [Server.wanted, ← List.countP_eq_length_filter]
  exact List.countP_mono_left fun p _ hp => decide_eq_true (of_decide_eq_true hp).revents_ne

/-- The listening descriptor is counted as well. -/
theorem nready_of_accepts (h : s.Accepts) :
    s.nready = (s.slots.countP fun p => p.revents ≠ 0) + 1 :=
  List.countP_cons_of_pos (decide_eq_true (ne_zero_of_and h))

theorem countP_le_nready (s : Server) : (s.slots.countP fun p => p.revents ≠ 0) ≤ s.nready :=
  (List.sublist_cons_self _ _).countP_le

theorem length_wanted_eq_iff (s : Server) :
    s.slots.countP (fun p => p.revents ≠ 0) = s.wanted.length ↔
      ∀ p ∈ s.slots, p.revents ≠ 0 → p.Wanted := by
  have hfilter : s.wanted = (s.slots.filter fun p => p.revents ≠ 0).filter Pollfd.Wanted := by
    rw [List.filter_filter, Server.wanted]
    refine List.filter_congr fun p _ => ?_
    by_cases hp : p.Wanted
    · simp [hp, hp.revents_ne]
    · simp [hp]
  rw [hfilter, List.countP_eq_length_filter, eq_comm, List.length_filter_eq_length_iff]
  simp

end Slots

/-! ## One round -/

section Rounds

variable {s t : Server} {r : Round}

/-- The reads of a round that the server survives; `S` is the new client if it is wanted. -/
theorem reads_round (hs : SlotsOk (s.poll r.happened)) :
    (Exits (s.poll r.happened) r.connfd ∧ (round s r).1.filterMap Call.readFd = []) ∨
      (¬ Exits (s.poll r.happened) r.connfd ∧ ∃ (n : Nat) (S : List Pollfd),
        (round s r).1.filterMap Call.readFd =
          readsFrom r n ((s.poll r.happened).wanted ++ S) ∧
        (s.poll r.happened).wanted.length ≤ n ∧
        (S ≠ [] ↔ EntersStale (s.poll r.happened) r.connfd) ∧
        (S ≠ [] → n = (s.poll r.happened).slots.countP fun p => p.revents ≠ 0)) := by
  have hcount := length_wanted_le (s.poll r.happened)
  by_cases haccepts : (s.poll r.happened).Accepts
  · have hnready := nready_of_accepts haccepts
    rcases acceptClient_cases hs r.connfd with
      ⟨hnone, hexits⟩ | ⟨hconnfd, l₁, p, l₂, hclient, hopen, hp, hmaxi, hsome⟩
    · refine Or.inl ⟨⟨haccepts, hexits⟩, ?_⟩
      simp [round, haccepts, hnone, Call.readFd]
    · obtain ⟨S, hwanted, hS⟩ := wanted_entered revents_poll hclient hopen hp hmaxi hconnfd rfl
      have hstays : ¬ Exits (s.poll r.happened) r.connfd := by
        rintro ⟨-, hneg | hall⟩
        · exact absurd hneg (Int.not_lt.2 hconnfd)
        · refine absurd hp (Int.not_lt.2 (hall p ?_))
          rw [hclient]
          exact List.mem_append_right _ List.mem_cons_self
      refine Or.inr ⟨hstays, _, S, ?_, hcount, ?_, fun _ => rfl⟩
      · rw [← hwanted, Server.wanted, ← readFd_serveClients]
        have hleft : ((s.poll r.happened).nready : Int) - 1 =
            (s.poll r.happened).slots.countP fun p => p.revents ≠ 0 := by omega
        simp only [round, if_pos haccepts, hsome, hleft]
        rfl
      · rw [hS, EntersStale, and_iff_right haccepts, and_iff_right hconnfd]
  · refine Or.inr ⟨fun h => haccepts h.1, (s.poll r.happened).nready, [], ?_, ?_, ?_, ?_⟩
    · rw [List.append_nil, Server.wanted, ← readFd_serveClients]
      simp only [round, if_neg haccepts]
      rfl
    · exact hcount.trans (countP_le_nready _)
    · exact iff_of_false (fun h => h rfl) fun h => haccepts h.1
    · exact fun h => absurd rfl h

/-- A prefix of the connections reported and more holds each of them once exactly if it is as long
as the list of them. -/
theorem right_iff_length {reads R S : List Int} (hreads : reads <+: R ++ S) (hR : R.Nodup) :
    (reads.Nodup ∧ ∀ fd, fd ∈ reads ↔ fd ∈ R) ↔ reads.length = R.length := by
  constructor
  · rintro ⟨hnodup, hmem⟩
    exact ((List.perm_ext_iff_of_nodup hnodup hR).2 hmem).length_eq
  · intro hlength
    have hpre : R <+: R ++ S := List.prefix_append R S
    have heq : reads = R :=
      (List.prefix_of_prefix_length_le hreads hpre hlength.le).eq_of_length hlength
    rw [heq]
    exact ⟨hR, fun _ => Iff.rfl⟩

theorem roundRight_iff_roundOk (h : SlotsOk s) : RoundRight s r ↔ RoundOk s r := by
  have hs := h.poll r.happened
  have hnodup : (reported s r).Nodup := nodup_wanted hs
  have hlength : (reported s r).length = (s.poll r.happened).wanted.length := List.length_map _
  rw [RoundRight]
  rcases reads_round hs with ⟨hexits, hreads⟩ | ⟨hstays, n, S, hreads, hn, hS, hexact⟩
  · have hpre : (round s r).1.filterMap Call.readFd <+: reported s r ++ [] := by
      rw [hreads]
      exact List.nil_prefix
    rw [right_iff_length hpre hnodup, hreads, hlength, List.length_nil, eq_comm,
      List.length_eq_zero_iff]
    constructor
    · intro hnone
      refine ⟨fun h => absurd hnone h, fun p hp => ?_, ?_⟩
      · rw [hnone] at hp
        exact absurd hp List.not_mem_nil
      · -- A server that exits has not found a slot for the client.
        rintro ⟨-, hconnfd, -, p, hp, -⟩
        have hfree : p.fd < 0 := by
          refine hs.free p (List.mem_of_getElem? (i := 0) ?_)
          rw [List.getElem?_drop]
          exact hp
        rcases hexits.2 with hneg | hall
        · exact absurd hneg (Int.not_lt.2 hconnfd)
        · exact absurd hfree (Int.not_lt.2 (hall p (List.mem_of_getElem? hp)))
    · intro hok
      by_contra hne
      exact hok.stays hne hexits
  · have hpre : (round s r).1.filterMap Call.readFd <+: reported s r ++ S.map Pollfd.fd := by
      rw [hreads, reported, ← List.map_append]
      exact readsFrom_isPrefix r n _
    rw [right_iff_length hpre hnodup, hlength, hreads,
      length_readsFrom_iff (by exact_mod_cast hn)]
    have hall : S ≠ [] → ((n : Int) = ((s.poll r.happened).wanted.length : Int) ↔
        ∀ p ∈ (s.poll r.happened).slots, p.revents ≠ 0 → p.Wanted) := by
      intro hne
      rw [hexact hne, Nat.cast_inj, length_wanted_eq_iff]
    constructor
    · rintro ⟨hwritten, hreached⟩
      refine ⟨fun _ => hstays, hwritten, fun hstale => ?_⟩
      rw [← hall (hS.2 hstale)]
      exact hreached (hS.2 hstale)
    · intro hok
      refine ⟨hok.written, fun hne => ?_⟩
      rw [hall hne]
      exact hok.notReached (hS.1 hne)

/-! ## Whole runs -/

theorem slotsOk_initial (listenfd : Int) (uninitialised : Nat → Pollfd) :
    SlotsOk (.initial listenfd uninitialised) := by
  have hfree : ∀ p ∈ (Server.initial listenfd uninitialised).client, p.fd < 0 := by
    intro p hp
    rcases List.mem_map.1 hp with ⟨i, _, rfl⟩
    exact neg_one_lt_zero
  refine ⟨?_, fun p hp => hfree p (List.mem_of_mem_drop hp)⟩
  have hnone : (Server.initial listenfd uninitialised).clients = [] := by
    rw [Server.clients, inUse, List.filter_eq_nil_iff]
    intro fd hfd
    rcases List.mem_map.1 hfd with ⟨p, hp, rfl⟩
    simpa using hfree p hp
  rw [hnone]
  exact List.nodup_nil

/-- A connection that is accepted is a new one. -/
theorem slotsOk_acceptClient (hs : SlotsOk s) {connfd : Int} (hnew : connfd ∉ s.clients)
    (h : acceptClient s connfd = some t) : SlotsOk t := by
  rcases acceptClient_cases hs connfd with
    ⟨hnone, -⟩ | ⟨hconnfd, l₁, p, l₂, hclient, hopen, hp, hmaxi, hsome⟩
  · rw [hnone] at h
    cases h
  · cases Option.some.inj (hsome.symm.trans h)
    have hbefore : s.clients = inUse l₁ ++ inUse l₂ := by
      rw [Server.clients, hclient, inUse_append, inUse_cons, if_neg (Int.not_le.2 hp)]
    have hdistinct := hs.distinct
    rw [hbefore] at hnew hdistinct
    refine ⟨?_, fun q hq => ?_⟩
    · have hentered : (0 : Int) ≤ (p.entered connfd).fd := hconnfd
      rw [Server.clients, inUse_append, inUse_cons, if_pos hentered, List.nodup_middle]
      exact List.nodup_cons.2 ⟨hnew, hdistinct⟩
    · -- Behind the slots looked at, the array has not changed.
      obtain ⟨k, hk⟩ := Nat.exists_eq_add_of_le (le_max_right s.maxi (l₁.length + 1))
      have hbehind : ∀ x, (l₁ ++ x :: l₂).drop (max s.maxi (l₁.length + 1)) = l₂.drop k := by
        intro x
        rw [hk, Nat.add_assoc, Nat.add_comm 1 k, List.drop_length_add_append, List.drop_succ_cons]
      have hq' : q ∈ s.client.drop (max s.maxi (l₁.length + 1)) := by
        rw [hclient, hbehind, ← hbehind (p.entered connfd)]
        exact hq
      exact hs.free q (List.drop_subset_drop_left _ (le_max_left _ _) hq')

theorem serveClient_slot (r : Round) (p : Pollfd) (slots : List Pollfd) :
    (inUse ((serveClient r p).2 :: slots)).Sublist (inUse (p :: slots)) := by
  have hfree : (inUse slots).Sublist (inUse (p :: slots)) := by
    rw [inUse_cons]
    split
    · exact List.sublist_cons_self _ _
    · exact List.Sublist.refl _
  rw [serveClient]
  split
  · exact List.Sublist.refl _
  · have hclosed : ¬ (0 : Int) ≤ -1 := by decide
    rw [inUse_cons { p with fd := -1 }, if_neg hclosed]
    exact hfree

theorem inUse_cons_sublist {slots slots' : List Pollfd} (p : Pollfd)
    (h : (inUse slots).Sublist (inUse slots')) :
    (inUse (p :: slots)).Sublist (inUse (p :: slots')) := by
  rw [inUse_cons, inUse_cons]
  split
  · exact h.cons_cons p.fd
  · exact h

/-- The loop leaves a slot as it is or frees it. -/
theorem serveClients_slots (r : Round) (n : Int) (slots : List Pollfd) :
    (serveClients r n slots).2.length = slots.length ∧
      (inUse (serveClients r n slots).2).Sublist (inUse slots) := by
  induction slots generalizing n with
  | nil => exact ⟨rfl, List.Sublist.refl _⟩
  | cons p slots ih =>
      rw [serveClients]
      by_cases hp : p.Wanted
      · rw [if_pos hp]
        by_cases hstop : r.Fails p.fd ∨ n - 1 ≤ 0
        · simp only [if_pos hstop]
          exact ⟨rfl, serveClient_slot r p slots⟩
        · simp only [if_neg hstop]
          rcases ih (n - 1) with ⟨hlength, hslots⟩
          exact ⟨congrArg Nat.succ hlength,
            (serveClient_slot r p _).trans (inUse_cons_sublist p hslots)⟩
      · rw [if_neg hp]
        rcases ih n with ⟨hlength, hslots⟩
        exact ⟨congrArg Nat.succ hlength, inUse_cons_sublist p hslots⟩

theorem slotsOk_serveSlots (hs : SlotsOk s) (r : Round) (n : Int) :
    SlotsOk (serveSlots r n s).2 := by
  rcases serveClients_slots r n s.slots with ⟨hlength, hslots⟩
  rcases replaceSlots hlength with ⟨hfront, hbehind⟩
  refine ⟨?_, fun p hp => hs.free p (hbehind ▸ hp)⟩
  have hclients : (serveSlots r n s).2.clients =
      inUse (serveClients r n s.slots).2 ++ inUse (s.client.drop s.maxi) :=
    inUse_append _ _
  rw [hclients]
  have hdistinct := hs.distinct
  rw [clients_eq_append] at hdistinct
  exact hdistinct.sublist (hslots.append_right _)

theorem slotsOk_roundStep (hs : SlotsOk s) (h : roundStep s r = .ok t) : SlotsOk t := by
  have hpolled := hs.poll r.happened
  rw [roundStep] at h
  split at h
  · rename_i hpossible
    rw [round] at h
    by_cases haccepts : (s.poll r.happened).Accepts
    · simp only [if_pos haccepts] at h
      cases haccept : acceptClient (s.poll r.happened) r.connfd with
      | none => simp [haccept] at h
      | some u =>
          have hnew : r.connfd ∉ (s.poll r.happened).clients := by
            rw [clients_poll]
            exact fun hmem => hpossible haccepts (List.mem_cons_of_mem _ hmem)
          have hu := slotsOk_acceptClient hpolled hnew haccept
          by_cases hless : ((s.poll r.happened).nready : Int) - 1 < 0
          · simp only [haccept, if_pos hless] at h
            cases h
            exact hu
          · simp only [haccept, if_neg hless] at h
            cases h
            exact slotsOk_serveSlots hu r _
    · simp only [if_neg haccepts] at h
      cases h
      exact slotsOk_serveSlots hpolled r _
  · cases h

/-- In every run, the rounds read the connections reported, each of them once and nothing else,
exactly if they are rounds like that. -/
theorem reads_right_iff (listenfd : Int) (uninitialised : Nat → Pollfd) (rounds : List Round) :
    (server listenfd uninitialised).EveryStep RoundRight (.initial listenfd uninitialised) rounds ↔
      (server listenfd uninitialised).EveryStep RoundOk (.initial listenfd uninitialised)
        rounds :=
  (server listenfd uninitialised).everyStep_congr (fun _ _ _ hs => slotsOk_roundStep hs)
    (fun _ _ hs => roundRight_iff_roundOk hs) (slotsOk_initial listenfd uninitialised) rounds

end Rounds

/-- The first client is accepted into a slot whose old content has `POLLRDNORM`. -/
theorem stale_slot_read :
    ¬ ∀ (listenfd : Int) (uninitialised : Nat → Pollfd) (rounds : List Round),
      (server listenfd uninitialised).EveryStep RoundRight (.initial listenfd uninitialised)
        rounds := by
  intro h
  have hright := (h 3 (fun _ => ⟨0, 0, POLLRDNORM⟩)
    [⟨fun _ => POLLRDNORM, 4, fun _ => .noData 0 le_rfl, fun _ => 0⟩]).1
  have hok := (roundRight_iff_roundOk (slotsOk_initial _ _)).1 hright
  refine (hok.notReached ⟨by decide, by decide, ?_, _, rfl, by decide⟩).1 rfl
  exact fun p hp => absurd hp List.not_mem_nil

end Poll
end LinuxLearn
