import LinuxLearn.Lib.Machine

/-!
# SelectServer — the select echo server

The loop of `select_socket/server.c`.  Each round asks `select` which of the descriptors in
`allset` are ready, accepts at most one client, and then walks through the array `client` up to the
index `maxi`, until it has served as many clients as `select` has announced.

A round is one step of the machine.  Its input says what the system calls of the round return, and
the calls that it makes on the descriptors are kept in `calls`.
-/

namespace LinuxLearn
namespace Select

open Lib

abbrev Bytes := List UInt8

abbrev FdSet := Finset Int

abbrev FD_SETSIZE : Nat := 1024
abbrev MAX_LINE : Nat := 2048

/-! ## State -/

/-- What `read` returns: some bytes, or a count that is not positive. -/
inductive ReadResult
  | data (d : Bytes) (fits : 0 < d.length ∧ d.length ≤ MAX_LINE)
  | noData (n : Int) (none : n ≤ 0)

inductive Call
  | accept (connfd : Int)
  | read (sockfd : Int)
  | write (sockfd : Int) (d : Bytes)
  | close (sockfd : Int)
  deriving DecidableEq, Repr

structure Server where
  client : List Int
  maxi : Int
  maxfd : Int
  allset : FdSet
  /-- the calls of the last round -/
  calls : List Call

/-- The non-negative entries of `client`. -/
def Server.clients (s : Server) : List Int :=
  s.client.filter fun fd => 0 ≤ fd

def Server.initial (listenfd : Int) : Server :=
  ⟨List.replicate FD_SETSIZE (-1), -1, listenfd, {listenfd}, []⟩

inductive Stop
  | impossible
  | exits
  | outOfBounds
  deriving DecidableEq, Repr

/-! ## One round -/

/-- What the system calls of a round return; `connfd` is used if a client is accepted. -/
structure Round where
  ready : FdSet
  connfd : Int
  reads : Int → ReadResult

/-- A client is entered at the first free index. -/
def acceptClient (s : Server) (connfd : Int) : Except Stop Server :=
  match s.client.findIdx? fun fd => fd < 0 with
  | none => .error .exits
  | some i =>
      .ok
        { client := s.client.set i connfd
          maxi := if s.maxi < i then i else s.maxi
          maxfd := if s.maxfd < connfd then connfd else s.maxfd
          allset := insert connfd s.allset
          calls := s.calls ++ [.accept connfd] }

/-- The client at index `i` is read, and then echoed or closed and removed. -/
def serveClient (s : Server) (i : Nat) (sockfd : Int) : ReadResult → Server
  | .noData _ _ =>
      { s with
        client := s.client.set i (-1)
        allset := s.allset.erase sockfd
        calls := s.calls ++ [.read sockfd, .close sockfd] }
  | .data d _ =>
      { s with calls := s.calls ++ [.read sockfd, .write sockfd d] }

/-- The loop over the remaining indices. -/
def serveClients (r : Round) : List Nat → Int → Server → Except Stop Server
  | [], _, s => .ok s
  | i :: is, nready, s =>
      match s.client[i]? with
      | none => .error .outOfBounds
      | some sockfd =>
          if sockfd < 0 then serveClients r is nready s
          else if sockfd ∈ r.ready then
            let s := serveClient s i sockfd (r.reads sockfd)
            if nready - 1 ≤ 0 then .ok s else serveClients r is (nready - 1) s
          else serveClients r is nready s

def indices (s : Server) : List Nat :=
  List.range (s.maxi + 1).toNat

/-- `select` reports registered descriptors, at least one, and `accept` returns a descriptor that
is not in use. -/
def Possible (listenfd : Int) (s : Server) (r : Round) : Prop :=
  r.ready.Nonempty ∧ r.ready ⊆ s.allset ∧
    (listenfd ∈ r.ready →
      0 ≤ r.connfd ∧ r.connfd < FD_SETSIZE ∧ r.connfd ≠ listenfd ∧ r.connfd ∉ s.client)

instance (listenfd : Int) (s : Server) (r : Round) : Decidable (Possible listenfd s r) :=
  inferInstanceAs (Decidable (_ ∧ _))

def roundStep (listenfd : Int) (s : Server) (r : Round) : Except Stop Server :=
  if Possible listenfd s r then
    let s := { s with calls := [] }
    let nready : Int := r.ready.card
    if listenfd ∈ r.ready then
      match acceptClient s r.connfd with
      | .error e => .error e
      | .ok s =>
          -- The count is compared with `< 0`, so the loop runs even if nobody else is ready.
          if nready - 1 < 0 then .ok s else serveClients r (indices s) (nready - 1) s
    else serveClients r (indices s) nready s
  else .error .impossible

def server (listenfd : Int) : Machine Server Round Stop where
  init := .initial listenfd
  step := roundStep listenfd

/-! ## What the table says -/

/-- The structures agree with each other: the array, its bounds `maxi` and `maxfd`, and `allset`. -/
structure TableOk (listenfd : Int) (s : Server) : Prop where
  size : s.client.length = FD_SETSIZE
  distinct : s.clients.Nodup
  index_le : ∀ (i : Nat) (fd : Int), s.client[i]? = some fd → 0 ≤ fd → (i : Int) ≤ s.maxi
  maxi_lt : s.maxi < FD_SETSIZE
  le_maxfd : ∀ fd ∈ s.clients, fd ≤ s.maxfd
  listenfd_le : listenfd ≤ s.maxfd
  notListening : listenfd ∉ s.clients
  allset_eq : s.allset = insert listenfd s.clients.toFinset

/-- The calls that serve one client. -/
def served (r : Round) (sockfd : Int) : List Call :=
  match r.reads sockfd with
  | .data d _ => [.read sockfd, .write sockfd d]
  | .noData _ _ => [.read sockfd, .close sockfd]

def Closes (r : Round) (sockfd : Int) : Prop :=
  match r.reads sockfd with
  | .data _ _ => False
  | .noData _ _ => True

def accepted (listenfd : Int) (r : Round) : List Int :=
  if listenfd ∈ r.ready then [r.connfd] else []

/-- The round accepts a client if one is waiting, reads every ready client exactly once and no
other, and echoes what it has read or closes and removes the client. -/
structure RoundRight (listenfd : Int) (s : Server) (r : Round) (t : Server) : Prop where
  calls : ∃ order : List Int, order.Nodup ∧
    (∀ fd, fd ∈ order ↔ fd ∈ r.ready ∧ fd ≠ listenfd) ∧
    t.calls = (accepted listenfd r).map Call.accept ++ order.flatMap (served r)
  clients : ∀ fd, fd ∈ t.clients ↔
    (fd ∈ s.clients ∨ fd ∈ accepted listenfd r) ∧ ¬ (fd ∈ r.ready ∧ Closes r fd)

/-! ## The client array -/

theorem mem_clients {s : Server} {fd : Int} : fd ∈ s.clients ↔ fd ∈ s.client ∧ 0 ≤ fd := by
  simp [Server.clients]

/-- Replacing an entry of the array, seen on the non-negative entries. -/
theorem exists_clients_set {s : Server} {i : Nat} {x : Int} (h : s.client[i]? = some x) :
    ∃ l₁ l₂ : List Int,
      s.clients = l₁ ++ [x].filter (fun fd => 0 ≤ fd) ++ l₂ ∧
      ∀ y, (s.client.set i y).filter (fun fd => 0 ≤ fd) =
        l₁ ++ [y].filter (fun fd => 0 ≤ fd) ++ l₂ := by
  rcases Machine.exists_split_of_getElem? h with ⟨l₁, l₂, hl, _, hset⟩
  refine ⟨l₁.filter fun fd => 0 ≤ fd, l₂.filter fun fd => 0 ≤ fd, ?_, fun y => ?_⟩
  · rw [Server.clients, hl, ← List.singleton_append, ← List.append_assoc, List.filter_append,
      List.filter_append]
  · rw [hset y, ← List.singleton_append, ← List.append_assoc, List.filter_append,
      List.filter_append]

/-- While fewer than `FD_SETSIZE` clients are connected, an index is free. -/
theorem exists_free {listenfd : Int} {s : Server} (hs : TableOk listenfd s)
    (hfew : s.clients.length < FD_SETSIZE) :
    ∃ i x, s.client.findIdx? (fun fd => fd < 0) = some i ∧ s.client[i]? = some x ∧ x < 0 := by
  cases hfind : s.client.findIdx? fun fd => fd < 0 with
  | none =>
      -- Without a negative entry all entries are clients.
      rw [List.findIdx?_eq_none_iff] at hfind
      have hall : s.clients = s.client := by
        rw [Server.clients, List.filter_eq_self]
        intro fd hfd
        simpa using hfind fd hfd
      rw [hall, hs.size] at hfew
      exact absurd hfew (Nat.lt_irrefl _)
  | some i =>
      rcases List.findIdx?_eq_some_iff_getElem.1 hfind with ⟨hi, hneg, _⟩
      exact ⟨i, s.client[i], rfl, List.getElem?_eq_getElem hi, by simpa using hneg⟩

/-- An entry of a changed array is the new one or an old one. -/
theorem getElem?_set_cases {l : List Int} {i j : Nat} {x fd : Int}
    (h : (l.set i x)[j]? = some fd) : i = j ∧ x = fd ∨ l[j]? = some fd := by
  rw [List.getElem?_set] at h
  split at h
  · rename_i heq
    split at h
    · exact Or.inl ⟨heq, by simpa using h⟩
    · cases h
  · exact Or.inr h

theorem acceptClient_ok {listenfd connfd : Int} {s t : Server} (hs : TableOk listenfd s)
    (hfd : 0 ≤ connfd) (hlisten : connfd ≠ listenfd) (hnew : connfd ∉ s.client)
    (h : acceptClient s connfd = .ok t) :
    TableOk listenfd t ∧ t.clients.Perm (connfd :: s.clients) ∧
      t.calls = s.calls ++ [.accept connfd] := by
  unfold acceptClient at h
  split at h
  · cases h
  · rename_i i hfind
    cases h
    rcases List.findIdx?_eq_some_iff_getElem.1 hfind with ⟨hi, hneg, _⟩
    have hneg' : ¬ 0 ≤ s.client[i] := by simpa using hneg
    rcases exists_clients_set (List.getElem?_eq_getElem hi) with ⟨l₁, l₂, hbefore, hafter⟩
    have hclients : s.clients = l₁ ++ l₂ := by simpa [hneg'] using hbefore
    have hperm : (s.client.set i connfd).filter (fun fd => 0 ≤ fd) |>.Perm
        (connfd :: s.clients) := by
      rw [hafter connfd, hclients]
      simp [hfd]
    have hnotin : connfd ∉ s.clients := fun hmem => hnew (mem_clients.1 hmem).1
    refine ⟨⟨?_, ?_, ?_, ?_, ?_, ?_, ?_, ?_⟩, hperm, rfl⟩
    · simpa using hs.size
    · exact hperm.nodup_iff.2 (List.nodup_cons.2 ⟨hnotin, hs.distinct⟩)
    · intro j fd hget hpos
      rcases getElem?_set_cases hget with ⟨rfl, _⟩ | hold
      · dsimp only
        split <;> omega
      · have hle := hs.index_le j fd hold hpos
        dsimp only
        split <;> omega
    · have hlt : i < FD_SETSIZE := hs.size ▸ hi
      have hmaxi := hs.maxi_lt
      dsimp only
      split <;> omega
    · intro fd hmem
      rcases List.mem_cons.1 (hperm.mem_iff.1 hmem) with rfl | hold
      · dsimp only
        split <;> omega
      · have hle := hs.le_maxfd fd hold
        dsimp only
        split <;> omega
    · have hle := hs.listenfd_le
      dsimp only
      split <;> omega
    · intro hmem
      rcases List.mem_cons.1 (hperm.mem_iff.1 hmem) with heq | hold
      · exact hlisten heq.symm
      · exact hs.notListening hold
    · have htoFinset := List.toFinset_eq_of_perm _ _ hperm
      rw [Server.clients, htoFinset, List.toFinset_cons, hs.allset_eq]
      exact Finset.insert_comm _ _ _

/-! ## Serving clients -/

theorem serveClient_ok {listenfd fd : Int} {s : Server} {i : Nat} (hs : TableOk listenfd s)
    (r : Round) (hget : s.client[i]? = some fd) (hfd : 0 ≤ fd) :
    TableOk listenfd (serveClient s i fd (r.reads fd)) ∧
      (∀ x, x ∈ (serveClient s i fd (r.reads fd)).clients ↔
        x ∈ s.clients ∧ ¬ (x = fd ∧ Closes r fd)) := by
  cases hread : r.reads fd with
  | data d fits =>
      refine ⟨⟨hs.size, hs.distinct, hs.index_le, hs.maxi_lt, hs.le_maxfd, hs.listenfd_le,
        hs.notListening, hs.allset_eq⟩, fun x => ?_⟩
      simp [serveClient, Server.clients, Closes, hread]
  | noData n hn =>
      rcases exists_clients_set hget with ⟨l₁, l₂, hbefore, hafter⟩
      have hclients : s.clients = l₁ ++ fd :: l₂ := by simpa [hfd] using hbefore
      have hset : (s.client.set i (-1)).filter (fun fd => 0 ≤ fd) = l₁ ++ l₂ := by
        simpa using hafter (-1)
      have hdistinct := hs.distinct
      rw [hclients, List.nodup_middle, List.nodup_cons] at hdistinct
      have hmem : ∀ x, x ∈ l₁ ++ l₂ ↔ x ∈ s.clients ∧ x ≠ fd := by
        intro x
        have hne : x ∈ l₁ ++ l₂ → x ≠ fd := fun hx heq => hdistinct.1 (heq ▸ hx)
        rw [hclients, List.perm_middle.mem_iff, List.mem_cons]
        grind
      refine ⟨⟨?_, ?_, ?_, hs.maxi_lt, ?_, hs.listenfd_le, ?_, ?_⟩, fun x => ?_⟩
      · simpa [serveClient] using hs.size
      · rw [Server.clients, serveClient, hset]
        exact hdistinct.2
      · intro j x hx hpos
        rcases getElem?_set_cases hx with ⟨_, rfl⟩ | hold
        · cases hpos
        · exact hs.index_le j x hold hpos
      · intro x hx
        rw [Server.clients, serveClient, hset] at hx
        exact hs.le_maxfd x ((hmem x).1 hx).1
      · intro hx
        rw [Server.clients, serveClient, hset] at hx
        exact hs.notListening ((hmem listenfd).1 hx).1
      · -- Only the closed descriptor leaves the set, and it is not the listening one.
        have hlisten : listenfd ≠ fd := by
          rintro rfl
          exact hs.notListening (mem_clients.2 ⟨List.mem_of_getElem? hget, hfd⟩)
        rw [Server.clients, serveClient, hset, hs.allset_eq]
        ext x
        rw [Finset.mem_erase, Finset.mem_insert, Finset.mem_insert, List.mem_toFinset,
          List.mem_toFinset, hmem x]
        grind
      · rw [Server.clients, serveClient, hset, hmem x]
        simp [Closes, hread]

theorem serveClient_frame (s : Server) (i : Nat) (fd : Int) (r : Round) :
    (serveClient s i fd (r.reads fd)).calls = s.calls ++ served r fd ∧
      ∀ j, i ≠ j → (serveClient s i fd (r.reads fd)).client[j]? = s.client[j]? := by
  cases hread : r.reads fd with
  | data d fits => exact ⟨by simp [serveClient, served, hread], fun j _ => rfl⟩
  | noData n hn =>
      exact ⟨by simp [serveClient, served, hread], fun j hne => List.getElem?_set_ne hne⟩

/-- The ready clients at the given indices. -/
def waiting (r : Round) (client : List Int) (is : List Nat) : List Int :=
  is.filterMap fun i => client[i]?.filter fun fd => 0 ≤ fd ∧ fd ∈ r.ready

theorem waiting_cons_skip {r : Round} {client : List Int} {i : Nat} {fd : Int} {is : List Nat}
    (hget : client[i]? = some fd) (h : ¬ (0 ≤ fd ∧ fd ∈ r.ready)) :
    waiting r client (i :: is) = waiting r client is := by
  simp only [waiting, List.filterMap_cons, hget, Option.filter_some, decide_eq_true_eq]
  rw [if_neg h]

theorem waiting_cons_ready {r : Round} {client : List Int} {i : Nat} {fd : Int} {is : List Nat}
    (hget : client[i]? = some fd) (h : 0 ≤ fd ∧ fd ∈ r.ready) :
    waiting r client (i :: is) = fd :: waiting r client is := by
  simp only [waiting, List.filterMap_cons, hget, Option.filter_some, decide_eq_true_eq]
  rw [if_pos h]

theorem waiting_append (r : Round) (client : List Int) (is js : List Nat) :
    waiting r client (is ++ js) = waiting r client is ++ waiting r client js :=
  List.filterMap_append ..

theorem waiting_congr {r : Round} {client client' : List Int} {is : List Nat}
    (h : ∀ j ∈ is, client'[j]? = client[j]?) : waiting r client' is = waiting r client is := by
  apply List.filterMap_congr
  intro j hj
  rw [h j hj]

/-- Serving one ready client leaves the others waiting. -/
theorem serveClient_waiting {listenfd fd : Int} {s : Server} {i : Nat} {is : List Nat}
    (hs : TableOk listenfd s) (r : Round) (hget : s.client[i]? = some fd) (hfd : 0 ≤ fd)
    (hnot : i ∉ is) :
    waiting r (serveClient s i fd (r.reads fd)).client is = waiting r s.client is ∧
      ∀ x, (x ∈ (serveClient s i fd (r.reads fd)).clients ∧
          ¬ (x ∈ waiting r s.client is ∧ Closes r x)) ↔
        (x ∈ s.clients ∧ ¬ (x ∈ fd :: waiting r s.client is ∧ Closes r x)) := by
  have hframe := (serveClient_frame s i fd r).2
  refine ⟨waiting_congr fun j hj => hframe j fun heq => hnot (heq ▸ hj), fun x => ?_⟩
  rw [(serveClient_ok hs r hget hfd).2 x, List.mem_cons]
  grind

/-- The loop serves all the ready clients at its indices, in order, if the count is their number. -/
theorem serveClients_ok {listenfd : Int} {s : Server} {r : Round} {is : List Nat} {nready : Int}
    (hs : TableOk listenfd s) (hnodup : is.Nodup) (hlt : ∀ i ∈ is, i < s.client.length)
    (hn : nready = (waiting r s.client is).length) :
    ∃ t, serveClients r is nready s = .ok t ∧ TableOk listenfd t ∧
      t.calls = s.calls ++ (waiting r s.client is).flatMap (served r) ∧
      ∀ x, x ∈ t.clients ↔ x ∈ s.clients ∧ ¬ (x ∈ waiting r s.client is ∧ Closes r x) := by
  -- By induction on the indices still to come; the count stays the number of clients still waiting.
  induction is generalizing s nready with
  | nil => exact ⟨s, rfl, hs, by simp [waiting], fun x => by simp [waiting]⟩
  | cons i is ih =>
      have hi : i < s.client.length := hlt i List.mem_cons_self
      have hget : s.client[i]? = some s.client[i] := List.getElem?_eq_getElem hi
      have hlt' : ∀ j ∈ is, j < s.client.length := fun j hj => hlt j (List.mem_cons_of_mem _ hj)
      rw [List.nodup_cons] at hnodup
      rw [serveClients, hget]
      dsimp only
      -- A free entry and a client that is not ready are passed over.
      by_cases hneg : s.client[i] < 0
      · rw [waiting_cons_skip hget fun h => absurd h.1 (not_le.2 hneg)] at hn ⊢
        rw [if_pos hneg]
        exact ih hs hnodup.2 hlt' hn
      by_cases hready : s.client[i] ∈ r.ready
      · have hpos := not_lt.1 hneg
        rw [waiting_cons_ready hget ⟨hpos, hready⟩] at hn ⊢
        rw [if_neg hneg, if_pos hready]
        have hs' := (serveClient_ok hs r hget hpos).1
        have hcalls := (serveClient_frame s i s.client[i] r).1
        rcases serveClient_waiting hs r hget hpos hnodup.1 with ⟨hwait, hclients⟩
        split
        · -- The count is used up: nobody else is waiting.
          rename_i hzero
          have hnil : waiting r s.client is = [] := by
            rw [List.length_cons] at hn
            apply List.eq_nil_of_length_eq_zero
            omega
          refine ⟨_, rfl, hs', ?_, fun x => ?_⟩
          · rw [hcalls, hnil]
            simp
          · rw [← hclients x, hnil]
            simp
        · have hn' : nready - 1 = (waiting r
              (serveClient s i s.client[i] (r.reads s.client[i])).client is).length := by
            rw [hwait, hn, List.length_cons]
            omega
          have hlt'' : ∀ j ∈ is,
              j < (serveClient s i s.client[i] (r.reads s.client[i])).client.length := by
            rw [hs'.size, ← hs.size]
            exact hlt'
          rcases ih hs' hnodup.2 hlt'' hn' with ⟨t, ht, htable, htcalls, htmem⟩
          rw [hwait] at htcalls htmem
          refine ⟨t, ht, htable, ?_, fun x => (htmem x).trans (hclients x)⟩
          rw [htcalls, hcalls, List.flatMap_cons, List.append_assoc]
      · rw [waiting_cons_skip hget fun h => hready h.2] at hn ⊢
        rw [if_neg hneg, if_neg hready]
        exact ih hs hnodup.2 hlt' hn

/-- Up to `maxi` the loop meets every ready client. -/
theorem waiting_indices {listenfd : Int} {s : Server} (hs : TableOk listenfd s) (r : Round) :
    waiting r s.client (indices s) = s.clients.filter fun fd => fd ∈ r.ready := by
  have hrange : ∀ n, waiting r s.client (List.range n) =
      (s.client.take n).filter fun fd => 0 ≤ fd ∧ fd ∈ r.ready := by
    intro n
    induction n with
    | zero => rfl
    | succ n ih =>
        rw [List.range_succ, waiting_append, ih, List.take_add_one, List.filter_append]
        cases hget : s.client[n]? with
        | none => simp [waiting, hget]
        | some fd =>
            by_cases hfd : 0 ≤ fd ∧ fd ∈ r.ready
            · rw [waiting_cons_ready hget hfd]
              simp [waiting, hfd]
            · rw [waiting_cons_skip hget hfd]
              simp [waiting, hfd]
  -- The entries behind `maxi` are all negative.
  have hdrop : (s.client.drop (s.maxi + 1).toNat).filter (fun fd => 0 ≤ fd ∧ fd ∈ r.ready) =
      [] := by
    rw [List.filter_eq_nil_iff]
    intro fd hfd
    rcases List.mem_iff_getElem?.1 hfd with ⟨j, hj⟩
    rw [List.getElem?_drop] at hj
    have hneg : ¬ 0 ≤ fd := by
      intro hpos
      have hle := hs.index_le _ fd hj hpos
      omega
    simp [hneg]
  have hsplit := congrArg (List.filter fun fd => decide (0 ≤ fd ∧ fd ∈ r.ready))
    (List.take_append_drop (s.maxi + 1).toNat s.client)
  rw [List.filter_append, hdrop, List.append_nil] at hsplit
  rw [indices, hrange, hsplit, Server.clients, List.filter_filter]
  apply List.filter_congr
  intro fd _
  simp [and_comm]

/-! ## Whole rounds -/

/-- The walk through the array, when the ready descriptors other than the listening one are clients
and `nready` is their number. -/
theorem serveClients_all {listenfd : Int} {s : Server} {r : Round} {nready : Int}
    (hs : TableOk listenfd s) (hready : ∀ fd ∈ r.ready, fd ≠ listenfd → fd ∈ s.clients)
    (hn : nready = (r.ready.erase listenfd).card) :
    ∃ t, serveClients r (indices s) nready s = .ok t ∧ TableOk listenfd t ∧
      (∃ order : List Int, order.Nodup ∧ (∀ fd, fd ∈ order ↔ fd ∈ r.ready ∧ fd ≠ listenfd) ∧
        t.calls = s.calls ++ order.flatMap (served r)) ∧
      ∀ x, x ∈ t.clients ↔ x ∈ s.clients ∧ ¬ (x ∈ r.ready ∧ Closes r x) := by
  have hwait := waiting_indices hs r
  have horder : ∀ fd, fd ∈ waiting r s.client (indices s) ↔ fd ∈ r.ready ∧ fd ≠ listenfd := by
    intro fd
    rw [hwait, List.mem_filter, decide_eq_true_eq]
    constructor
    · rintro ⟨hmem, hfd⟩
      exact ⟨hfd, fun heq => hs.notListening (heq ▸ hmem)⟩
    · rintro ⟨hfd, hne⟩
      exact ⟨hready fd hfd hne, hfd⟩
  have hdistinct : (waiting r s.client (indices s)).Nodup := by
    rw [hwait]
    exact hs.distinct.filter _
  have hcount : nready = (waiting r s.client (indices s)).length := by
    rw [hn, ← List.toFinset_card_of_nodup hdistinct]
    congr 2
    ext fd
    rw [List.mem_toFinset, horder fd, Finset.mem_erase, and_comm]
  have hindices : (indices s).Nodup := List.nodup_range
  have hlt : ∀ i ∈ indices s, i < s.client.length := by
    intro i hi
    have hmaxi := hs.maxi_lt
    rw [indices, List.mem_range] at hi
    rw [hs.size]
    omega
  rcases serveClients_ok hs hindices hlt hcount with ⟨t, ht, htable, hcalls, hmem⟩
  refine ⟨t, ht, htable, ⟨_, hdistinct, horder, hcalls⟩, fun x => ?_⟩
  rw [hmem x, horder x]
  -- The listening descriptor is not a client on either side.
  have hlisten : x ∈ s.clients → x ≠ listenfd := fun hx heq => hs.notListening (heq ▸ hx)
  grind

theorem tableOk_clear {listenfd : Int} {s : Server} (hs : TableOk listenfd s) :
    TableOk listenfd { s with calls := [] } :=
  ⟨hs.size, hs.distinct, hs.index_le, hs.maxi_lt, hs.le_maxfd, hs.listenfd_le, hs.notListening,
    hs.allset_eq⟩

/-- What a possible round does, once its client has been accepted. -/
theorem roundStep_accept {listenfd : Int} {s u : Server} {r : Round} (hs : TableOk listenfd s)
    (hp : Possible listenfd s r) (hlisten : listenfd ∈ r.ready)
    (hu : acceptClient { s with calls := [] } r.connfd = .ok u) :
    ∃ t, roundStep listenfd s r = .ok t ∧ TableOk listenfd t ∧ RoundRight listenfd s r t := by
  rcases hp.2.2 hlisten with ⟨hpos, _, hne, hnew⟩
  rcases acceptClient_ok (tableOk_clear hs) hpos hne hnew hu with ⟨hut, hperm, hcalls⟩
  have hready : ∀ fd ∈ r.ready, fd ≠ listenfd → fd ∈ u.clients := by
    intro fd hfd hfdne
    have hall := hp.2.1 hfd
    rw [hs.allset_eq, Finset.mem_insert, List.mem_toFinset] at hall
    exact hperm.mem_iff.2 (List.mem_cons_of_mem _ (hall.resolve_left hfdne))
  have hcard := Finset.card_erase_add_one hlisten
  have hn : (r.ready.card : Int) - 1 = (r.ready.erase listenfd).card := by omega
  rcases serveClients_all hut hready hn with ⟨t, ht, htable, ⟨order, hnodup, hmem, htcalls⟩, hx⟩
  refine ⟨t, ?_, htable, ⟨⟨order, hnodup, hmem, ?_⟩, fun fd => ?_⟩⟩
  · rw [roundStep, if_pos hp]
    dsimp only
    rw [if_pos hlisten, hu]
    dsimp only
    rw [if_neg (by omega), ht]
  · rw [htcalls, hcalls, accepted, if_pos hlisten]
    rfl
  · rw [hx fd, hperm.mem_iff, List.mem_cons, accepted, if_pos hlisten, List.mem_singleton,
      or_comm]
    rfl

theorem roundStep_quiet {listenfd : Int} {s : Server} {r : Round} (hs : TableOk listenfd s)
    (hp : Possible listenfd s r) (hlisten : listenfd ∉ r.ready) :
    ∃ t, roundStep listenfd s r = .ok t ∧ TableOk listenfd t ∧ RoundRight listenfd s r t := by
  have hready : ∀ fd ∈ r.ready, fd ≠ listenfd → fd ∈ s.clients := by
    intro fd hfd hfdne
    have hall := hp.2.1 hfd
    rw [hs.allset_eq, Finset.mem_insert, List.mem_toFinset] at hall
    exact hall.resolve_left hfdne
  have hn : (r.ready.card : Int) = (r.ready.erase listenfd).card := by
    rw [Finset.erase_eq_of_notMem hlisten]
  rcases serveClients_all (tableOk_clear hs) hready hn with
    ⟨t, ht, htable, ⟨order, hnodup, hmem, htcalls⟩, hx⟩
  refine ⟨t, ?_, htable, ⟨⟨order, hnodup, hmem, ?_⟩, fun fd => ?_⟩⟩
  · rw [roundStep, if_pos hp]
    dsimp only
    rw [if_neg hlisten]
    exact ht
  · rw [htcalls, accepted, if_neg hlisten]
    rfl
  · rw [hx fd, accepted, if_neg hlisten]
    simp [Server.clients]

/-- A possible round is right, unless the array is full when a client has to be accepted; then the
server exits. -/
theorem roundStep_cases {listenfd : Int} {s : Server} {r : Round} (hs : TableOk listenfd s)
    (hp : Possible listenfd s r) :
    (∃ t, roundStep listenfd s r = .ok t ∧ TableOk listenfd t ∧ RoundRight listenfd s r t) ∨
      (roundStep listenfd s r = .error .exits ∧ ¬ s.clients.length < FD_SETSIZE) := by
  by_cases hlisten : listenfd ∈ r.ready
  · cases hu : acceptClient { s with calls := [] } r.connfd with
    | ok u => exact Or.inl (roundStep_accept hs hp hlisten hu)
    | error e =>
        unfold acceptClient at hu
        split at hu
        · rename_i hfind
          cases hu
          refine Or.inr ⟨?_, fun hfew => ?_⟩
          · rw [roundStep, if_pos hp]
            dsimp only
            rw [if_pos hlisten, acceptClient, hfind]
          · rcases exists_free hs hfew with ⟨i, x, hsome, _⟩
            cases hfind.symm.trans hsome
        · cases hu
  · exact Or.inl (roundStep_quiet hs hp hlisten)

/-- A possible round, with fewer than `FD_SETSIZE` clients connected, goes through and is right. -/
def RoundOk (listenfd : Int) (s : Server) (r : Round) : Prop :=
  Possible listenfd s r → s.clients.length < FD_SETSIZE →
    ∃ t, roundStep listenfd s r = .ok t ∧ RoundRight listenfd s r t

theorem tableOk_initial (listenfd : Int) : TableOk listenfd (.initial listenfd) := by
  have hclients : (Server.initial listenfd).clients = [] := by
    rw [Server.clients, List.filter_eq_nil_iff]
    intro fd hfd
    rw [List.eq_of_mem_replicate hfd]
    decide
  refine ⟨List.length_replicate, ?_, ?_, Int.negSucc_lt_zero 0 |>.trans (by decide), ?_, le_rfl,
    ?_, ?_⟩
  · rw [hclients]
    exact List.nodup_nil
  · intro i fd hget hpos
    rw [List.eq_of_mem_replicate (List.mem_of_getElem? hget)] at hpos
    cases hpos
  · rw [hclients]
    intro fd hfd
    cases hfd
  · rw [hclients]
    exact List.not_mem_nil
  · rw [hclients]
    rfl

/-- In every run the table is consistent after each round, and each round is right. -/
theorem table_consistent (listenfd : Int) (rounds : List Round) :
    (server listenfd).EveryState (TableOk listenfd) (server listenfd).init rounds ∧
      (server listenfd).EveryStep (RoundOk listenfd) (server listenfd).init rounds := by
  have hstep : ∀ s r t, TableOk listenfd s → (server listenfd).step s r = .ok t →
      TableOk listenfd t := by
    intro s r t hs ht
    change roundStep listenfd s r = .ok t at ht
    have hp : Possible listenfd s r := by
      by_contra hp
      rw [roundStep, if_neg hp] at ht
      cases ht
    rcases roundStep_cases hs hp with ⟨t', ht', htable, _⟩ | ⟨hexit, _⟩
    · cases ht'.symm.trans ht
      exact htable
    · cases hexit.symm.trans ht
  have hround : ∀ s r, TableOk listenfd s → RoundOk listenfd s r := by
    intro s r hs hp hfew
    rcases roundStep_cases hs hp with ⟨t, ht, _, hright⟩ | ⟨_, hfull⟩
    · exact ⟨t, ht, hright⟩
    · exact absurd hfew hfull
  have hinit : TableOk listenfd (server listenfd).init := tableOk_initial listenfd
  exact ⟨(server listenfd).everyState_of_inv hstep (fun _ h => h) hinit rounds,
    (server listenfd).everyStep_of_inv hstep hround hinit rounds⟩

end Select
end LinuxLearn
