import Mathlib.Data.List.DropRight
import LinuxLearn.Lib.Machine
import LinuxLearn.Lib.NodeStore

/-!
# Linked queue — `queue.c` as a FIFO list

The queue is a chain of nodes behind a head node, with a pointer to the head node and one to the
last node of the chain, which is the head node when the queue is empty.  `malloc` succeeds here, so
the exit of `init_queue` is left out.

`Refines` relates a queue in a store to the list of its data; all operations keep it.  The program
itself fills a queue with 50 numbers and then lets each new one push the oldest one out.
-/

namespace LinuxLearn
namespace QueueTest

open Lib

/-! ## The functions -/

abbrev Store := NodeStore Int

structure LinkQueue where
  front : Ref
  rear : Ref
  deriving DecidableEq, Repr

def initQueue (st : Store) : Store × LinkQueue :=
  let (st, q) := st.alloc ⟨0, none⟩
  (st, ⟨some q, some q⟩)

def isEmpty (queue : LinkQueue) : Bool :=
  queue.rear == queue.front

def insertQueue (st : Store) (queue : LinkQueue) (temp : Int) :
    Except PointerFault (Store × LinkQueue) :=
  let (st, q) := st.alloc ⟨temp, none⟩
  match queue.rear with
  | none => .error .nullDereference
  | some rear =>
      match st.deref rear with
      | none => .error .useAfterFree
      | some c => .ok (st.update rear { c with next := some q }, { queue with rear := some q })

def deleteQueue (st : Store) (queue : LinkQueue) : Except PointerFault (Store × LinkQueue) :=
  -- `free(NULL)` does nothing.
  if isEmpty queue then .ok (st, queue)
  else
    match queue.front with
    | none => .error .nullDereference
    | some front =>
        match st.deref front with
        | none => .error .useAfterFree
        | some ⟨_, none⟩ => .error .nullDereference
        | some ⟨a, some q⟩ =>
            match st.deref q with
            | none => .error .useAfterFree
            | some c =>
                let rear := if queue.rear = some q then queue.front else queue.rear
                .ok ((st.update front ⟨a, c.next⟩).release q, { queue with rear := rear })

/-- The numbers printed. -/
def traversal (st : Store) (queue : LinkQueue) : Except PointerFault (List Int) :=
  match queue.front with
  | none => .error .nullDereference
  | some front =>
      match st.deref front with
      | none => .error .useAfterFree
      | some c => st.collect st.fuel c.next

/-- `while(i++<51) insert_queue(&queue_myself,i-1);` -/
def createLoop (st : Store) (queue : LinkQueue) (i : Nat) :
    Except PointerFault (Store × LinkQueue) :=
  if i < 51 then
    match insertQueue st queue (((i + 1 : Nat) : Int) - 1) with
    | .error e => .error e
    | .ok (st, queue) => createLoop st queue (i + 1)
  else .ok (st, queue)
termination_by 51 - i

def createRoom50ps (st : Store) : Except PointerFault (Store × LinkQueue) :=
  let (st, queue) := initQueue st
  createLoop st queue 1

def roomSurvive (st : Store) (queue : LinkQueue) (data : Int) :
    Except PointerFault (Store × LinkQueue) :=
  match deleteQueue st queue with
  | .error e => .error e
  | .ok (st, queue) => insertQueue st queue data

inductive Op
  | insert (temp : Int)
  | delete
  deriving DecidableEq, Repr

/-- Calls on a queue from its initialization on. -/
def calls (st : Store) : Machine (Store × LinkQueue) Op PointerFault where
  init := initQueue st
  step
    | (st, queue), .insert temp => insertQueue st queue temp
    | (st, queue), .delete => deleteQueue st queue

/-- The program: the room is created, and each number of the list survives in it. -/
def rooms (st : Store) (ds : List Int) : Except PointerFault (Store × LinkQueue) :=
  match createRoom50ps st with
  | .error e => .error e
  | .ok (st, queue) => ds.foldlM (fun p d => roomSurvive p.1 p.2 d) (st, queue)

/-! ## The queue as a list -/

/-- What a call does to the list of the data. -/
def Op.apply (l : List Int) : Op → List Int
  | insert temp => l ++ [temp]
  | delete => l.tail

/-- The queue consists of these nodes, with these data. -/
structure Refines (st : Store) (queue : LinkQueue) (nodes : List (Nat × Int)) (l : List Int) :
    Prop where
  chain : ∃ front a next, queue.front = some front ∧ st.deref front = some ⟨a, next⟩ ∧
    st.Chain next nodes ∧ front ∉ nodes.map Prod.fst
  acyclic : (nodes.map Prod.fst).Nodup
  rear : queue.rear = NodeStore.lastRef queue.front nodes
  empty : queue.rear = queue.front ↔ l = []
  live : ∀ r ∈ nodes.map Prod.fst, st.deref r ≠ none
  data : nodes.map Prod.snd = l

/-- The head node and the nodes behind it, and the pointer to the last of them. -/
def Linked (st : Store) (queue : LinkQueue) (nodes : List (Nat × Int)) : Prop :=
  ∃ front a, queue.front = some front ∧ st.Chain (some front) ((front, a) :: nodes) ∧
    queue.rear = NodeStore.lastRef (some front) nodes

section Linked

variable {st : Store} {queue : LinkQueue} {nodes : List (Nat × Int)}

/-- The last node is not the head node. -/
theorem Linked.rear_eq_front_iff (h : Linked st queue nodes) :
    queue.rear = queue.front ↔ nodes = [] := by
  rcases h with ⟨front, a, hfront, hchain, hrear⟩
  rw [hfront, hrear]
  constructor
  · intro heq
    by_contra hne
    rcases NodeStore.lastRef_of_ne_nil hne with ⟨r, hr, hlast⟩
    have hsame : r = front := Option.some.inj ((hlast _).symm.trans heq)
    have hnodup := hchain.nodup
    rw [List.map_cons, List.nodup_cons] at hnodup
    exact hnodup.1 (hsame ▸ hr)
  · rintro rfl
    rfl

theorem Linked.refines (h : Linked st queue nodes) :
    Refines st queue nodes (nodes.map Prod.snd) := by
  have hempty := h.rear_eq_front_iff
  rcases h with ⟨front, a, hfront, hchain, hrear⟩
  have hnodup := hchain.nodup
  rw [List.map_cons, List.nodup_cons] at hnodup
  rcases hchain with ⟨_, next, hcell, hnodes⟩
  refine ⟨⟨front, a, next, hfront, hcell, hnodes, hnodup.1⟩, hnodup.2, ?_, ?_, ?_, rfl⟩
  · rw [hfront, hrear]
  · rw [hempty, List.map_eq_nil_iff]
  · intro r hr
    rcases List.mem_map.1 hr with ⟨⟨q, b⟩, hq, rfl⟩
    rcases hnodes.deref_of_mem hq with ⟨_, hlive⟩
    simp [hlive]

theorem linked_init (st : Store) : Linked (initQueue st).1 (initQueue st).2 [] :=
  ⟨_, 0, rfl, ⟨rfl, none, st.deref_alloc_new ⟨0, none⟩, rfl⟩, rfl⟩

theorem Linked.isEmpty_eq (h : Linked st queue nodes) : isEmpty queue = decide (nodes = []) := by
  rw [isEmpty, Bool.eq_iff_iff]
  simp [h.rear_eq_front_iff]

theorem Linked.insert (h : Linked st queue nodes) (temp : Int) :
    ∃ st' queue' r, insertQueue st queue temp = .ok (st', queue') ∧
      Linked st' queue' (nodes ++ [(r, temp)]) := by
  rcases h with ⟨front, a, hfront, hchain, hrear⟩
  have halloc := hchain.alloc ⟨temp, none⟩
  have hcell := st.deref_alloc_new ⟨temp, none⟩
  have hfresh := hchain.fresh ⟨temp, none⟩
  rcases hst : st.alloc ⟨temp, none⟩ with ⟨st₁, r⟩
  rw [hst] at halloc hcell hfresh
  dsimp only at halloc hcell hfresh
  -- The chain ends at the node that `rear` points to, which may be the head node.
  rcases List.eq_nil_or_concat ((front, a) :: nodes) with heq | ⟨l, ⟨q, b⟩, heq⟩
  · cases heq
  · rw [List.concat_eq_append] at heq
    have hlast : queue.rear = some q := by
      have hsame : NodeStore.lastRef none ((front, a) :: nodes) = some q := by
        rw [heq, NodeStore.lastRef_concat]
      rw [hrear]
      exact hsame
    rcases halloc.deref_of_mem (r := q) (a := b) (by simp [heq]) with ⟨next, hq⟩
    refine ⟨st₁.update q ⟨b, some r⟩, { queue with rear := some r }, r, ?_, front, a, hfront, ?_,
      ?_⟩
    · simp [insertQueue, hst, hlast, hq]
    · rw [heq] at halloc hfresh
      have hsnoc := halloc.snoc hcell hfresh
      rw [← List.cons_append, heq]
      simpa using hsnoc
    · exact (NodeStore.lastRef_concat (some front) nodes (r, temp)).symm

theorem Linked.delete_empty (h : Linked st queue []) : deleteQueue st queue = .ok (st, queue) := by
  simp [deleteQueue, h.isEmpty_eq]

/-- When the last node goes, `rear` returns to the head node. -/
theorem Linked.delete {q : Nat} {b : Int} (h : Linked st queue ((q, b) :: nodes)) :
    ∃ st' queue', deleteQueue st queue = .ok (st', queue') ∧ Linked st' queue' nodes := by
  have hne : isEmpty queue = false := by simp [h.isEmpty_eq]
  rcases h with ⟨front, a, hfront, hchain, hrear⟩
  have hnodup := hchain.nodup
  simp only [List.map_cons, List.nodup_cons, List.mem_cons, not_or] at hnodup
  rcases hnodup with ⟨⟨hfq, hfront'⟩, hq, _⟩
  have hbypass := NodeStore.Chain.bypass (l := []) hchain
  have hq' : q ∉ (((front, a) :: nodes).map Prod.fst) := by
    simp only [List.map_cons, List.mem_cons, not_or]
    exact ⟨Ne.symm hfq, hq⟩
  have hreleased := hbypass.release hq'
  rcases hchain with ⟨_, next, hcell, rfl, next', hcell', hnodes⟩
  have hnext : next' = NodeStore.headRef nodes := hnodes.eq_headRef
  subst hnext
  refine ⟨(st.update front ⟨a, NodeStore.headRef nodes⟩).release q,
    { queue with rear := if queue.rear = some q then queue.front else queue.rear }, ?_,
    front, a, hfront, hreleased, ?_⟩
  · simp [deleteQueue, hne, hfront, hcell, hcell']
  · rw [hrear]
    rcases List.eq_nil_or_concat nodes with rfl | ⟨l, x, heq⟩
    · simp [NodeStore.lastRef, hfront]
    · -- The last node is another one, and stays the last.
      have hne' : nodes ≠ [] := by simp [heq]
      rcases NodeStore.lastRef_of_ne_nil hne' with ⟨r, hr, hlast⟩
      have hrq : some r ≠ some q := fun h => hq (Option.some.inj h ▸ hr)
      change (if NodeStore.lastRef (some q) nodes = some q then _ else
        NodeStore.lastRef (some q) nodes) = _
      rw [hlast, hlast, if_neg hrq]

end Linked

/-! ## Runs -/

/-- The queue holds these data. -/
def Represents (p : Store × LinkQueue) (l : List Int) : Prop :=
  ∃ nodes, Linked p.1 p.2 nodes ∧ nodes.map Prod.snd = l

section Represents

variable {p : Store × LinkQueue} {l : List Int}

theorem Represents.refines (h : Represents p l) : ∃ nodes, Refines p.1 p.2 nodes l := by
  rcases h with ⟨nodes, hlinked, rfl⟩
  exact ⟨nodes, hlinked.refines⟩

theorem Represents.insert (h : Represents p l) (temp : Int) :
    ∃ p', insertQueue p.1 p.2 temp = .ok p' ∧ Represents p' (l ++ [temp]) := by
  rcases h with ⟨nodes, hlinked, rfl⟩
  rcases hlinked.insert temp with ⟨st', queue', r, hinsert, hlinked'⟩
  exact ⟨(st', queue'), hinsert, _, hlinked', by simp⟩

theorem Represents.delete (h : Represents p l) :
    ∃ p', deleteQueue p.1 p.2 = .ok p' ∧ Represents p' l.tail := by
  rcases h with ⟨nodes, hlinked, rfl⟩
  cases nodes with
  | nil => exact ⟨p, hlinked.delete_empty, [], hlinked, rfl⟩
  | cons x nodes =>
      rcases hlinked.delete with ⟨st', queue', hdelete, hlinked'⟩
      exact ⟨(st', queue'), hdelete, nodes, hlinked', rfl⟩

theorem Represents.traversal (h : Represents p l) : traversal p.1 p.2 = .ok l := by
  rcases h with ⟨nodes, ⟨front, a, hfront, ⟨_, next, hcell, hnodes⟩, _⟩, rfl⟩
  have hfuel : nodes.length ≤ p.1.fuel := Nat.le_succ_of_le hnodes.length_le
  simp [QueueTest.traversal, hfront, hcell, NodeStore.collect_chain hnodes hfuel]

theorem represents_init (st : Store) : Represents (initQueue st) [] :=
  ⟨[], linked_init st, rfl⟩

theorem Represents.step (h : Represents p l) (st : Store) (op : Op) :
    ∃ p', (calls st).step p op = .ok p' ∧ Represents p' (op.apply l) := by
  cases op with
  | insert temp => exact h.insert temp
  | delete => exact h.delete

theorem Represents.runFrom (h : Represents p l) (st : Store) (ops : List Op) :
    ∃ p', (calls st).runFrom p ops = .ok p' ∧ Represents p' (ops.foldl Op.apply l) := by
  induction ops generalizing p l with
  | nil => exact ⟨p, rfl, h⟩
  | cons op ops ih =>
      rcases h.step st op with ⟨p₁, hstep, h₁⟩
      rcases ih h₁ with ⟨p', hrun, h'⟩
      exact ⟨p', ((calls st).runFrom_cons_ok hstep ops).trans hrun, h'⟩

/-! ## The room -/

theorem Represents.createLoop (h : Represents p l) {i k : Nat} (hi : i + k = 51) :
    ∃ p', createLoop p.1 p.2 i = .ok p' ∧
      Represents p' (l ++ (List.range' i k).map Int.ofNat) := by
  induction k generalizing p l i with
  | zero =>
      refine ⟨p, ?_, by simpa using h⟩
      rw [QueueTest.createLoop, if_neg (by omega)]
  | succ k ih =>
      rcases h.insert i with ⟨p₁, hinsert, h₁⟩
      rcases ih h₁ (i := i + 1) (by omega) with ⟨p', hloop, h'⟩
      -- The counter has moved on when the number is inserted.
      have hnumber : (((i + 1 : Nat) : Int) - 1) = i := by omega
      refine ⟨p', ?_, ?_⟩
      · rw [QueueTest.createLoop, if_pos (by omega), hnumber, hinsert]
        exact hloop
      · rw [List.range'_succ, List.map_cons]
        simpa using h'

theorem represents_createRoom50ps (st : Store) :
    ∃ p, createRoom50ps st = .ok p ∧ Represents p ((List.range' 1 50).map Int.ofNat) :=
  (represents_init st).createLoop (show 1 + 50 = 51 from rfl)

theorem Represents.roomSurvive (h : Represents p l) (data : Int) :
    ∃ p', roomSurvive p.1 p.2 data = .ok p' ∧ Represents p' (l.tail ++ [data]) := by
  rcases h.delete with ⟨p₁, hdelete, h₁⟩
  rcases h₁.insert data with ⟨p', hinsert, h'⟩
  exact ⟨p', by rw [QueueTest.roomSurvive, hdelete]; exact hinsert, h'⟩

/-- Each number that comes in pushes one out, so the last ones stay. -/
theorem Represents.survive (h : Represents p l) (hl : l ≠ []) (ds : List Int) :
    ∃ p', ds.foldlM (fun p d => QueueTest.roomSurvive p.1 p.2 d) p = .ok p' ∧
      Represents p' ((l ++ ds).drop ds.length) := by
  induction ds generalizing p l with
  | nil => exact ⟨p, rfl, by simpa using h⟩
  | cons d ds ih =>
      rcases h.roomSurvive d with ⟨p₁, hsurvive, h₁⟩
      rcases ih h₁ (by simp) with ⟨p', hrest, h'⟩
      refine ⟨p', ?_, ?_⟩
      · rw [List.foldlM_cons, hsurvive]
        exact hrest
      · cases l with
        | nil => exact absurd rfl hl
        | cons x l => simpa using h'

end Represents

/-- All calls succeed and treat the queue as a FIFO list; in particular the room keeps the last 50
numbers. -/
theorem queue_refines_list (st : Store) :
    (∀ ops, ∃ st' queue nodes, (calls st).run ops = .ok (st', queue) ∧
      Refines st' queue nodes (ops.foldl Op.apply [])) ∧
    (∀ ds, ∃ st' queue, rooms st ds = .ok (st', queue) ∧
      traversal st' queue = .ok (((List.range' 1 50).map Int.ofNat ++ ds).rtake 50)) := by
  constructor
  · intro ops
    rcases (represents_init st).runFrom st ops with ⟨⟨st', queue⟩, hrun, h⟩
    rcases h.refines with ⟨nodes, hrefines⟩
    exact ⟨st', queue, nodes, hrun, hrefines⟩
  · intro ds
    rcases represents_createRoom50ps st with ⟨p, hcreate, h⟩
    rcases h.survive (by simp) ds with ⟨⟨st', queue⟩, hsurvive, h'⟩
    refine ⟨st', queue, by rw [rooms, hcreate]; exact hsurvive, ?_⟩
    rw [h'.traversal, List.rtake]
    simp

end QueueTest
end LinuxLearn
