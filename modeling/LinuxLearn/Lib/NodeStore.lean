import Mathlib.Tactic

/-!
# NodeStore — singly linked lists in an explicit store

Nodes live in the cells of a store and refer to each other by cell number; `none` is the null
pointer.  A freed cell stays empty, so a reference to it dangles for good, and a new node never
gets the number of an old one.

`Chain st p l` says that the references from `p` on lead through exactly the cells and contents of
`l` to the null pointer.  The operations of linked lists are specified on chains:

- `Chain.append`, `Chain.bypass`: adding a node at the end and taking one out,
- `Chain.alloc`, `Chain.update`, `Chain.release`: frame rules for the cells outside a chain,
- `Chain.search`, `Chain.collect`: what the loops over a chain compute.
-/

namespace LinuxLearn
namespace Lib

/-- A reference to a node; `none` is the null pointer. -/
abbrev Ref := Option Nat

structure Node (α : Type*) where
  data : α
  next : Ref
  deriving DecidableEq, Repr

structure NodeStore (α : Type*) where
  cells : List (Option (Node α))
  deriving DecidableEq, Repr

namespace NodeStore

variable {α : Type*}

/-! ## Cells -/

def empty : NodeStore α :=
  ⟨[]⟩

/-- The node in cell `r`, unless the cell is free. -/
def deref (st : NodeStore α) (r : Nat) : Option (Node α) :=
  st.cells[r]?.join

/-- A fresh cell with contents `c`. -/
def alloc (st : NodeStore α) (c : Node α) : NodeStore α × Nat :=
  (⟨st.cells ++ [some c]⟩, st.cells.length)

def update (st : NodeStore α) (r : Nat) (c : Node α) : NodeStore α :=
  ⟨st.cells.set r (some c)⟩

def release (st : NodeStore α) (r : Nat) : NodeStore α :=
  ⟨st.cells.set r none⟩

theorem lt_of_deref {st : NodeStore α} {r : Nat} {c : Node α} (h : st.deref r = some c) :
    r < st.cells.length := by
  by_contra hge
  have hnone : st.cells[r]? = none := List.getElem?_eq_none (Nat.le_of_not_lt hge)
  simp [deref, hnone] at h

@[simp] theorem deref_alloc_new (st : NodeStore α) (c : Node α) :
    (st.alloc c).1.deref (st.alloc c).2 = some c := by
  simp [deref, alloc]

theorem deref_alloc_old {st : NodeStore α} {r : Nat} {c d : Node α} (h : st.deref r = some d) :
    (st.alloc c).1.deref r = some d := by
  have hlt := lt_of_deref h
  simpa [deref, alloc, List.getElem?_append_left hlt] using h

theorem deref_update_self {st : NodeStore α} {r : Nat} {c d : Node α} (h : st.deref r = some d) :
    (st.update r c).deref r = some c := by
  have hlt := lt_of_deref h
  simp [deref, update, hlt]

theorem deref_update_of_ne {st : NodeStore α} {q r : Nat} {c : Node α} (h : q ≠ r) :
    (st.update r c).deref q = st.deref q := by
  simp [deref, update, List.getElem?_set_ne h.symm]

theorem deref_release_of_ne {st : NodeStore α} {q r : Nat} (h : q ≠ r) :
    (st.release r).deref q = st.deref q := by
  simp [deref, release, List.getElem?_set_ne h.symm]

theorem deref_release_self (st : NodeStore α) (r : Nat) : (st.release r).deref r = none := by
  by_cases hr : r < st.cells.length
  · simp [deref, release, hr]
  · simp [deref, release, hr]

/-! ## Chains -/

/-- From `p` on, the references lead through the cells of `l`, with these contents, to the null
pointer. -/
def Chain (st : NodeStore α) : Ref → List (Nat × α) → Prop
  | p, [] => p = none
  | p, (r, a) :: l => p = some r ∧ ∃ next, st.deref r = some ⟨a, next⟩ ∧ Chain st next l

/-- The first reference of a chain. -/
def headRef (l : List (Nat × α)) : Ref :=
  l.head?.map Prod.fst

theorem Chain.eq_headRef {st : NodeStore α} {p : Ref} {l : List (Nat × α)} (h : st.Chain p l) :
    p = headRef l := by
  cases l with
  | nil => exact h
  | cons x l => exact h.1

/-- The cells of the store determine the chain. -/
theorem Chain.unique {st : NodeStore α} {p : Ref} {l m : List (Nat × α)} (hl : st.Chain p l)
    (hm : st.Chain p m) : l = m := by
  induction l generalizing p m with
  | nil =>
      have hp : p = none := hl
      cases m with
      | nil => rfl
      | cons y m => simp [Chain, hp] at hm
  | cons x l ih =>
      rcases x with ⟨r, a⟩
      rcases hl with ⟨rfl, next, hcell, hrest⟩
      cases m with
      | nil => cases hm
      | cons y m =>
          rcases y with ⟨q, b⟩
          rcases hm with ⟨hq, next', hcell', hrest'⟩
          cases hq
          -- Both chains read the same cell, so contents and link agree.
          have hsame : (⟨a, next⟩ : Node α) = ⟨b, next'⟩ :=
            Option.some.inj (hcell.symm.trans hcell')
          cases hsame
          rw [ih hrest hrest']

theorem Chain.deref_of_mem {st : NodeStore α} {p : Ref} {l : List (Nat × α)} (h : st.Chain p l)
    {r : Nat} {a : α} (hr : (r, a) ∈ l) : ∃ next, st.deref r = some ⟨a, next⟩ := by
  induction l generalizing p with
  | nil => cases hr
  | cons x l ih =>
      rcases x with ⟨q, b⟩
      rcases h with ⟨_, next, hcell, hrest⟩
      rcases List.mem_cons.1 hr with heq | htail
      · cases heq
        exact ⟨next, hcell⟩
      · exact ih hrest htail

theorem Chain.split {st : NodeStore α} {p : Ref} {l m : List (Nat × α)}
    (h : st.Chain p (l ++ m)) : st.Chain (headRef m) m := by
  induction l generalizing p with
  | nil => exact (Chain.eq_headRef h) ▸ h
  | cons x l ih =>
      rcases h with ⟨_, _, _, hrest⟩
      exact ih hrest

/-- No cell occurs twice: from its second occurrence the chain would have to be shorter. -/
theorem Chain.nodup {st : NodeStore α} {p : Ref} {l : List (Nat × α)} (h : st.Chain p l) :
    (l.map Prod.fst).Nodup := by
  induction l generalizing p with
  | nil => exact List.nodup_nil
  | cons x l ih =>
      rcases x with ⟨r, a⟩
      have hself : st.Chain (some r) ((r, a) :: l) := h.1 ▸ h
      rcases h with ⟨_, next, hcell, hrest⟩
      rw [List.map_cons, List.nodup_cons]
      refine ⟨?_, ih hrest⟩
      intro hmem
      rcases List.mem_map.1 hmem with ⟨⟨q, b⟩, hq, rfl⟩
      rcases List.append_of_mem hq with ⟨l₁, l₂, rfl⟩
      -- The chain from the second occurrence is the same as the one from the first.
      have hagain : st.Chain (some q) ((q, b) :: l₂) := Chain.split hrest
      have heq := congrArg List.length (Chain.unique hself hagain)
      simp only [List.length_cons, List.length_append] at heq
      omega

theorem Chain.length_le {st : NodeStore α} {p : Ref} {l : List (Nat × α)} (h : st.Chain p l) :
    l.length ≤ st.cells.length := by
  -- Different cells of the store are at most as many as its cells.
  have hsub : l.map Prod.fst ⊆ List.range st.cells.length := by
    intro r hr
    rcases List.mem_map.1 hr with ⟨⟨q, b⟩, hq, rfl⟩
    rcases h.deref_of_mem hq with ⟨next, hcell⟩
    exact List.mem_range.2 (lt_of_deref hcell)
  simpa using (List.subperm_of_subset h.nodup hsub).length_le

/-! ## Frame rules -/

/-- A chain depends only on its own cells. -/
theorem Chain.frame {st st' : NodeStore α} {p : Ref} {l : List (Nat × α)} (h : st.Chain p l)
    (hsame : ∀ r ∈ l.map Prod.fst, st'.deref r = st.deref r) : st'.Chain p l := by
  -- Only the cells of `l` are read along the way.
  induction l generalizing p with
  | nil => exact h
  | cons x l ih =>
      rcases x with ⟨r, a⟩
      rcases h with ⟨hp, next, hcell, hrest⟩
      refine ⟨hp, next, ?_, ih hrest ?_⟩
      · rw [hsame r (by simp), hcell]
      · intro q hq
        exact hsame q (by simp at hq ⊢; exact Or.inr hq)

theorem Chain.alloc {st : NodeStore α} {p : Ref} {l : List (Nat × α)} (h : st.Chain p l)
    (c : Node α) : (st.alloc c).1.Chain p l := by
  apply h.frame
  intro r hr
  rcases List.mem_map.1 hr with ⟨⟨q, b⟩, hq, rfl⟩
  rcases h.deref_of_mem hq with ⟨next, hcell⟩
  rw [deref_alloc_old hcell, hcell]

theorem Chain.fresh {st : NodeStore α} {p : Ref} {l : List (Nat × α)} (h : st.Chain p l)
    (c : Node α) : (st.alloc c).2 ∉ l.map Prod.fst := by
  intro hmem
  rcases List.mem_map.1 hmem with ⟨⟨q, b⟩, hq, heq⟩
  rcases h.deref_of_mem hq with ⟨next, hcell⟩
  have hlt := lt_of_deref hcell
  exact absurd heq (Nat.ne_of_lt hlt)

theorem Chain.release {st : NodeStore α} {p : Ref} {l : List (Nat × α)} (h : st.Chain p l)
    {r : Nat} (hr : r ∉ l.map Prod.fst) : (st.release r).Chain p l := by
  apply h.frame
  intro q hq
  exact deref_release_of_ne fun heq => hr (heq ▸ hq)

/-! ## Changing one link -/

/-- Redirecting the link of the last node of `l` replaces what follows it. -/
theorem Chain.relink {st : NodeStore α} {p : Ref} {l m m' : List (Nat × α)} {r : Nat} {a : α}
    (h : st.Chain p (l ++ (r, a) :: m)) (hm' : st.Chain (headRef m') m')
    (hr : r ∉ m'.map Prod.fst) :
    (st.update r ⟨a, headRef m'⟩).Chain p (l ++ (r, a) :: m') := by
  -- The nodes before `r` keep their links, as no cell occurs twice.
  induction l generalizing p with
  | nil =>
      rcases h with ⟨hp, next, hcell, _⟩
      refine ⟨hp, headRef m', deref_update_self hcell, ?_⟩
      apply hm'.frame
      intro q hq
      exact deref_update_of_ne fun heq => hr (heq ▸ hq)
  | cons x l ih =>
      rcases x with ⟨q, b⟩
      have hnodup := h.nodup
      rcases h with ⟨hp, next, hcell, hrest⟩
      have hne : q ≠ r := by
        intro heq
        rw [List.cons_append, List.map_cons, List.nodup_cons] at hnodup
        exact hnodup.1 (by simp [heq])
      exact ⟨hp, next, by rw [deref_update_of_ne hne, hcell], ih hrest⟩

/-- Taking the node `r` out of the chain, by redirecting the link before it. -/
theorem Chain.bypass {st : NodeStore α} {p : Ref} {l m : List (Nat × α)} {q r : Nat} {a b : α}
    (h : st.Chain p (l ++ (q, a) :: (r, b) :: m)) :
    (st.update q ⟨a, headRef m⟩).Chain p (l ++ (q, a) :: m) := by
  -- The rest behind `r` is a chain of its own and does not contain `q`.
  have hm : st.Chain (headRef m) m := by
    apply Chain.split (l := l ++ [(q, a), (r, b)]) (p := p)
    simpa using h
  have hnodup := h.nodup
  have hq : q ∉ m.map Prod.fst := by
    intro hmem
    rw [List.map_append, List.nodup_append] at hnodup
    have hcons := (List.nodup_cons.1 hnodup.2.1).1
    apply hcons
    rw [List.map_cons]
    exact List.mem_cons_of_mem _ hmem
  exact h.relink hm hq

/-- Hanging a node with a null link behind the last node. -/
theorem Chain.snoc {st : NodeStore α} {p : Ref} {l : List (Nat × α)} {q r : Nat} {a b : α}
    (h : st.Chain p (l ++ [(q, a)])) (hr : st.deref r = some ⟨b, none⟩)
    (hne : r ∉ (l ++ [(q, a)]).map Prod.fst) :
    (st.update q ⟨a, some r⟩).Chain p (l ++ [(q, a), (r, b)]) := by
  have hnew : st.Chain (headRef [(r, b)]) [(r, b)] := ⟨rfl, none, hr, rfl⟩
  have hqr : q ∉ [(r, b)].map Prod.fst := by
    intro hmem
    have heq : q = r := by simpa using hmem
    apply hne
    simp [heq]
  exact h.relink hnew hqr

/-! ## Dangling references -/

/-- The reference leads to a freed cell. -/
def Dangling (st : NodeStore α) (p : Ref) : Prop :=
  ∃ r, p = some r ∧ r < st.cells.length ∧ st.deref r = none

theorem Dangling.not_chain {st : NodeStore α} {p : Ref} (h : st.Dangling p)
    (l : List (Nat × α)) : ¬ st.Chain p l := by
  rcases h with ⟨r, rfl, _, hfreed⟩
  intro hl
  cases l with
  | nil => cases hl
  | cons x l =>
      rcases hl with ⟨hx, next, hcell, _⟩
      cases hx
      simp [hfreed] at hcell

/-- Freeing the first node of a chain. -/
theorem Chain.dangling_release {st : NodeStore α} {p : Ref} {l : List (Nat × α)} {r : Nat} {a : α}
    (h : st.Chain p ((r, a) :: l)) : (st.release r).Dangling p := by
  rcases h with ⟨hp, next, hcell, _⟩
  have hlt : r < (st.release r).cells.length := by simpa [NodeStore.release] using lt_of_deref hcell
  exact ⟨r, hp, hlt, deref_release_self st r⟩

theorem Dangling.alloc {st : NodeStore α} {p : Ref} (h : st.Dangling p) (c : Node α) :
    (st.alloc c).1.Dangling p := by
  rcases h with ⟨r, hp, hlt, hfreed⟩
  refine ⟨r, hp, ?_, ?_⟩
  · simp [NodeStore.alloc]
    omega
  · simpa [deref, NodeStore.alloc, List.getElem?_append_left hlt] using hfreed

/-! ## Loops over a chain -/

end NodeStore

/-- What can go wrong with a pointer. -/
inductive PointerFault
  | nullDereference
  | useAfterFree
  | endlessLoop
  deriving DecidableEq, Repr

namespace NodeStore

variable {α : Type*}

/-- `while (p != NULL && !test(p)) { pre = p; p = p->next; }`, giving `pre` and `p`. -/
def search (st : NodeStore α) (test : α → Bool) : Nat → Ref → Ref → Except PointerFault (Ref × Ref)
  | _, pre, none => .ok (pre, none)
  | 0, _, some _ => .error .endlessLoop
  | fuel + 1, pre, some r =>
      match st.deref r with
      | none => .error .useAfterFree
      | some c => if test c.data then .ok (pre, some r) else search st test fuel (some r) c.next

/-- `while (p->next != NULL) p = p->next;`, giving `p`. -/
def lastNode (st : NodeStore α) : Nat → Nat → Except PointerFault Nat
  | 0, _ => .error .endlessLoop
  | fuel + 1, r =>
      match st.deref r with
      | none => .error .useAfterFree
      | some c =>
          match c.next with
          | none => .ok r
          | some q => lastNode st fuel q

/-- `while (p != NULL) { visit(p); p = p->next; }`, giving what is visited. -/
def collect (st : NodeStore α) : Nat → Ref → Except PointerFault (List α)
  | _, none => .ok []
  | 0, some _ => .error .endlessLoop
  | fuel + 1, some r =>
      match st.deref r with
      | none => .error .useAfterFree
      | some c => (collect st fuel c.next).map (c.data :: ·)

/-- Enough passes for a loop over any chain of the store. -/
def fuel (st : NodeStore α) : Nat :=
  st.cells.length + 1

/-- The reference before the end of a list that started with `pre` before it. -/
def lastRef (pre : Ref) : List (Nat × α) → Ref
  | [] => pre
  | (r, _) :: l => lastRef (some r) l

theorem lastRef_concat (pre : Ref) (l : List (Nat × α)) (x : Nat × α) :
    lastRef pre (l ++ [x]) = some x.1 := by
  induction l generalizing pre with
  | nil => rfl
  | cons y l ih => exact ih (some y.1)

/-- The last reference of a list that is not empty. -/
theorem lastRef_of_ne_nil {l : List (Nat × α)} (hl : l ≠ []) :
    ∃ r ∈ l.map Prod.fst, ∀ pre, lastRef pre l = some r := by
  rcases List.eq_nil_or_concat l with rfl | ⟨m, x, rfl⟩
  · exact absurd rfl hl
  · rw [List.concat_eq_append]
    exact ⟨x.1, by simp, fun pre => lastRef_concat pre m x⟩

theorem search_none {st : NodeStore α} {test : α → Bool} {p pre : Ref} {l : List (Nat × α)}
    {n : Nat} (h : st.Chain p l) (hn : l.length ≤ n) (hl : ∀ x ∈ l, test x.2 = false) :
    st.search test n pre p = .ok (lastRef pre l, none) := by
  induction l generalizing p pre n with
  | nil =>
      have hp : p = none := h
      subst hp
      cases n <;> rfl
  | cons x l ih =>
      rcases x with ⟨r, a⟩
      rcases h with ⟨rfl, next, hcell, hrest⟩
      cases n with
      | zero => cases hn
      | succ n =>
          have ha : test a = false := hl (r, a) List.mem_cons_self
          have hrec : st.search test n (some r) next = .ok (lastRef (some r) l, none) :=
            ih hrest (Nat.le_of_succ_le_succ hn) fun y hy => hl y (List.mem_cons_of_mem _ hy)
          simp [search, hcell, ha, hrec, lastRef]

theorem search_found {st : NodeStore α} {test : α → Bool} {p pre : Ref} {l m : List (Nat × α)}
    {r n : Nat} {a : α} (h : st.Chain p (l ++ (r, a) :: m)) (hn : l.length < n)
    (hl : ∀ x ∈ l, test x.2 = false) (ha : test a = true) :
    st.search test n pre p = .ok (lastRef pre l, some r) := by
  -- Each node before `r` costs one unit of fuel and becomes `pre`.
  induction l generalizing p pre n with
  | nil =>
      rcases h with ⟨rfl, next, hcell, _⟩
      cases n with
      | zero => cases hn
      | succ n => simp [search, hcell, ha, lastRef]
  | cons x l ih =>
      rcases x with ⟨q, b⟩
      rcases h with ⟨rfl, next, hcell, hrest⟩
      cases n with
      | zero => cases hn
      | succ n =>
          have hb : test b = false := hl (q, b) List.mem_cons_self
          have hrec : st.search test n (some q) next = .ok (lastRef (some q) l, some r) :=
            ih hrest (Nat.lt_of_succ_lt_succ hn) fun y hy => hl y (List.mem_cons_of_mem _ hy)
          simp [search, hcell, hb, hrec, lastRef]

/-- A loop that starts at a freed cell reads it. -/
theorem Dangling.search {st : NodeStore α} {p pre : Ref} (h : st.Dangling p) (test : α → Bool) :
    st.search test st.fuel pre p = .error .useAfterFree := by
  rcases h with ⟨r, rfl, _, hfreed⟩
  simp [NodeStore.search, fuel, hfreed]

theorem Dangling.lastNode {st : NodeStore α} {r : Nat} (h : st.Dangling (some r)) :
    st.lastNode st.fuel r = .error .useAfterFree := by
  rcases h with ⟨_, heq, _, hfreed⟩
  cases heq
  simp [NodeStore.lastNode, fuel, hfreed]

theorem lastNode_chain {st : NodeStore α} {r q n : Nat} {a : α} {l : List (Nat × α)}
    (h : st.Chain (some r) (l ++ [(q, a)])) (hn : l.length < n) : st.lastNode n r = .ok q := by
  induction l generalizing r n with
  | nil =>
      rcases h with ⟨hr, next, hcell, hnext⟩
      cases hr
      have hnone : next = none := hnext
      cases n with
      | zero => cases hn
      | succ n => simp [lastNode, hcell, hnone]
  | cons x l ih =>
      rcases x with ⟨s, b⟩
      rcases h with ⟨hr, next, hcell, hrest⟩
      cases hr
      cases n with
      | zero => cases hn
      | succ n =>
          cases next with
          | none =>
              -- The rest of the chain is not empty.
              have hempty := Chain.eq_headRef hrest
              cases l <;> cases hempty
          | some next =>
              have hrec := ih hrest (Nat.lt_of_succ_lt_succ hn)
              simp [lastNode, hcell, hrec]

theorem collect_chain {st : NodeStore α} {p : Ref} {l : List (Nat × α)} {n : Nat}
    (h : st.Chain p l) (hn : l.length ≤ n) : st.collect n p = .ok (l.map Prod.snd) := by
  induction l generalizing p n with
  | nil =>
      have hp : p = none := h
      subst hp
      cases n <;> rfl
  | cons x l ih =>
      rcases x with ⟨r, a⟩
      rcases h with ⟨rfl, next, hcell, hrest⟩
      cases n with
      | zero => cases hn
      | succ n =>
          have hrec := ih hrest (Nat.le_of_succ_le_succ hn)
          simp [collect, hcell, hrec, Except.map]

end NodeStore

end Lib
end LinuxLearn
