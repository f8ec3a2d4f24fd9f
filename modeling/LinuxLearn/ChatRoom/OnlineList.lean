import LinuxLearn.Lib.NodeStore
import LinuxLearn.ChatRoom.Config

/-!
# OnlineList — the list of online users

`insertNode`, `isOnLine` and `deleteNode` of `list.c` over a store of nodes, and what they do to a
chain of nodes.  `deleteNode` takes the list by value: it can take any node but the first out of
the list that its caller sees, and it frees the first one as well.
-/

namespace LinuxLearn
namespace ChatRoom

open Lib

/-! ## The functions -/

abbrev Store := NodeStore User

/-- The new store, and the list to continue with. -/
def insertNode (st : Store) (list : Ref) (user : User) : Except PointerFault (Store × Ref) :=
  let (st, node) := st.alloc ⟨copyUser .zero user, none⟩
  match list with
  | none => .ok (st, some node)
  | some first =>
      match st.lastNode st.fuel first with
      | .error e => .error e
      | .ok p =>
          match st.deref p with
          | none => .error .useAfterFree
          | some c => .ok (st.update p { c with next := some node }, some first)

/-- `strcmp(p->user.userName, user.userName) == 0` -/
def hasName (name : CString) (user : User) : Bool :=
  user.userName == name

def isOnLine (st : Store) (list : Ref) (user : User) : Except PointerFault Bool :=
  (st.search (hasName user.userName) st.fuel list list).map fun p => p.2.isSome

def deleteNode (st : Store) (list : Ref) (user : User) : Except PointerFault Store :=
  match list with
  | none => .ok st
  | some _ =>
      match st.search (hasName user.userName) st.fuel list list with
      | .error e => .error e
      | .ok (_, none) => .ok st
      | .ok (pre, some p) =>
          -- The new head is assigned to the parameter only.
          if some p = list then .ok (st.release p)
          else
            match st.deref p with
            | none => .error .useAfterFree
            | some c =>
                match pre with
                | none => .error .nullDereference
                | some q =>
                    match st.deref q with
                    | none => .error .useAfterFree
                    | some d =>
                        match c.next with
                        | none => .ok ((st.update q { d with next := none }).release p)
                        | some next => .ok ((st.update q { d with next := some next }).release p)

/-! ## Their effect on a chain -/

/-- The names on a chain of nodes, in list order. -/
def names (l : List (Nat × User)) : List CString :=
  l.map fun x => x.2.userName

variable {st : Store} {list : Ref} {l : List (Nat × User)}

theorem fuel_of_chain (h : st.Chain list l) : l.length < st.fuel :=
  Nat.lt_succ_of_le h.length_le

/-- A list either has no node of a given name or splits at the first one. -/
theorem split_names (name : CString) (l : List (Nat × User)) :
    (name ∉ names l ∧ ∀ x ∈ l, hasName name x.2 = false) ∨
      ∃ l₁ r u l₂, l = l₁ ++ (r, u) :: l₂ ∧ u.userName = name ∧ name ∉ names l₁ ∧
        ∀ x ∈ l₁, hasName name x.2 = false := by
  have hclear : ∀ m : List (Nat × User), name ∉ names m → ∀ x ∈ m, hasName name x.2 = false := by
    intro m hm x hx
    have hne : x.2.userName ≠ name := by
      intro heq
      exact hm (List.mem_map.2 ⟨x, hx, heq⟩)
    exact beq_false_of_ne hne
  by_cases hmem : name ∈ names l
  · right
    -- The first node is the one, or the first one of the rest is.
    induction l with
    | nil => cases hmem
    | cons x l ih =>
        rcases x with ⟨r, u⟩
        by_cases hu : u.userName = name
        · exact ⟨[], r, u, l, rfl, hu, List.not_mem_nil, hclear [] List.not_mem_nil⟩
        · have htail : name ∈ names l := by
            rcases List.mem_cons.1 hmem with heq | htail
            · exact absurd heq.symm hu
            · exact htail
          rcases ih htail with ⟨l₁, r', u', l₂, rfl, hname, hnot, _⟩
          have hnot' : name ∉ names ((r, u) :: l₁) := by
            intro hmem'
            rcases List.mem_cons.1 hmem' with heq | htail'
            · exact hu heq.symm
            · exact hnot htail'
          exact ⟨(r, u) :: l₁, r', u', l₂, rfl, hname, hnot', hclear _ hnot'⟩
  · exact Or.inl ⟨hmem, hclear l hmem⟩

theorem isOnLine_chain (h : st.Chain list l) (user : User) :
    isOnLine st list user = .ok (decide (user.userName ∈ names l)) := by
  have hfuel := fuel_of_chain h
  -- The search ends at the null pointer or at the first node of the name.
  rcases split_names user.userName l with ⟨hnot, hclear⟩ | ⟨l₁, r, u, l₂, rfl, hname, _, hclear⟩
  · rw [isOnLine, NodeStore.search_none h (Nat.le_of_lt hfuel) hclear]
    simp [Except.map, hnot]
  · have hlt : l₁.length < st.fuel := by
      simp only [List.length_append, List.length_cons] at hfuel
      omega
    have hu : hasName user.userName u = true := by simp [hasName, hname]
    have hmem : user.userName ∈ names (l₁ ++ (r, u) :: l₂) := by simp [names, hname]
    rw [isOnLine, NodeStore.search_found h hlt hclear hu]
    simp [Except.map, hmem]

/-- The new node comes last. -/
theorem insertNode_chain (h : st.Chain list l) (user : User) :
    ∃ st' list' r, insertNode st list user = .ok (st', list') ∧
      st'.Chain list' (l ++ [(r, copyUser .zero user)]) := by
  have halloc := h.alloc ⟨copyUser .zero user, none⟩
  have hcell := st.deref_alloc_new ⟨copyUser .zero user, none⟩
  have hfresh := h.fresh ⟨copyUser .zero user, none⟩
  have hfuel := fuel_of_chain halloc
  rcases hst : st.alloc ⟨copyUser .zero user, none⟩ with ⟨st₁, node⟩
  rw [hst] at halloc hcell hfresh hfuel
  dsimp only at halloc hcell hfresh hfuel
  -- The new node is the head of an empty list and hangs behind the last node of another.
  rcases List.eq_nil_or_concat l with rfl | ⟨l₀, ⟨q, a⟩, rfl⟩
  · have hnull : list = none := h
    subst hnull
    exact ⟨st₁, some node, node, by simp [insertNode, hst], rfl, none, hcell, rfl⟩
  · rw [List.concat_eq_append] at *
    cases list with
    | none =>
        have hhead := h.eq_headRef
        cases l₀ <;> cases hhead
    | some first =>
        have hlast : st₁.lastNode st₁.fuel first = .ok q := by
          apply NodeStore.lastNode_chain halloc
          simp only [List.length_append, List.length_cons] at hfuel
          omega
        rcases halloc.deref_of_mem (r := q) (a := a) (by simp) with ⟨next, hq⟩
        refine ⟨st₁.update q ⟨a, some node⟩, some first, node, ?_, ?_⟩
        · simp [insertNode, hst, hlast, hq]
        · rw [List.append_assoc]
          exact halloc.snoc hcell hfresh

/-- Deleting a name that is not on the list. -/
theorem deleteNode_absent (h : st.Chain list l) {user : User}
    (huser : user.userName ∉ names l) : deleteNode st list user = .ok st := by
  rcases split_names user.userName l with ⟨_, hclear⟩ | ⟨l₁, r, u, l₂, rfl, hname, _⟩
  · cases list with
    | none => rfl
    | some first =>
        have hsearch : st.search (hasName user.userName) st.fuel (some first) (some first) =
            .ok (NodeStore.lastRef (some first) l, none) :=
          NodeStore.search_none h (Nat.le_of_lt (fuel_of_chain h)) hclear
        simp [deleteNode, hsearch]
  · exact absurd (by simp [names, hname]) huser

/-- Deleting the first name frees its node and leaves the caller's list pointing to it. -/
theorem deleteNode_first {r : Nat} {u : User} (h : st.Chain list ((r, u) :: l)) {user : User}
    (huser : user.userName = u.userName) : deleteNode st list user = .ok (st.release r) := by
  have hlist := h.1
  subst hlist
  have hu : hasName user.userName u = true := by simp [hasName, huser]
  have hsearch : st.search (hasName user.userName) st.fuel (some r) (some r) =
      .ok (some r, some r) :=
    NodeStore.search_found (l := []) h (Nat.succ_pos _) (fun _ hx => nomatch hx) hu
  simp [deleteNode, hsearch]

/-- Deleting a later name takes its node out of the list. -/
theorem deleteNode_later {l₁ l₂ : List (Nat × User)} {q r : Nat} {a u : User}
    (h : st.Chain list (l₁ ++ (q, a) :: (r, u) :: l₂)) {user : User}
    (huser : user.userName = u.userName)
    (hnot : user.userName ∉ names (l₁ ++ [(q, a)])) :
    ∃ st', deleteNode st list user = .ok st' ∧ st'.Chain list (l₁ ++ (q, a) :: l₂) := by
  have hassoc : l₁ ++ (q, a) :: (r, u) :: l₂ = (l₁ ++ [(q, a)]) ++ (r, u) :: l₂ := by simp
  have hclear : ∀ x ∈ l₁ ++ [(q, a)], hasName user.userName x.2 = false := by
    rcases split_names user.userName (l₁ ++ [(q, a)]) with ⟨_, hclear⟩ | ⟨m, s, v, m', hm, hv, _⟩
    · exact hclear
    · exact absurd (by simp [names, hm, hv]) hnot
  have hu : hasName user.userName u = true := by simp [hasName, huser]
  have hlength : (l₁ ++ [(q, a)]).length < st.fuel := by
    have hfuel := fuel_of_chain h
    rw [hassoc, List.length_append, List.length_cons] at hfuel
    omega
  have hsearch : st.search (hasName user.userName) st.fuel list list = .ok (some q, some r) := by
    rw [hassoc] at h
    rw [NodeStore.search_found h hlength hclear hu, NodeStore.lastRef_concat]
  have hnodup := h.nodup
  -- The node found is neither the first one nor among those that stay.
  have hr : r ∉ (l₁ ++ (q, a) :: l₂).map Prod.fst := by
    rw [hassoc, List.map_append, List.map_cons, List.nodup_middle, List.nodup_cons] at hnodup
    intro hmem
    apply hnodup.1
    simpa using hmem
  have hfirst : ¬ some r = list := by
    intro heq
    apply hr
    have hhead := h.eq_headRef
    rw [← heq] at hhead
    cases l₁ with
    | nil =>
        have hrq : r = q := by simpa [NodeStore.headRef] using hhead
        simp [hrq]
    | cons x l₁ =>
        have hrx : r = x.1 := by simpa [NodeStore.headRef] using hhead
        simp [hrx]
  have hsuffix : st.Chain (some r) ((r, u) :: l₂) := by
    rw [hassoc] at h
    exact h.split
  rcases hsuffix with ⟨_, next, hcell, hrest⟩
  rcases h.deref_of_mem (r := q) (a := a) (by simp) with ⟨next', hq⟩
  have hchain : ((st.update q ⟨a, next⟩).release r).Chain list (l₁ ++ (q, a) :: l₂) := by
    rw [hrest.eq_headRef]
    exact h.bypass.release hr
  -- Both branches of the source for a later node do the same to the link before it.
  refine ⟨_, ?_, hchain⟩
  cases list with
  | none =>
      have hhead := h.eq_headRef
      cases l₁ <;> cases hhead
  | some first =>
      cases next with
      | none => simp [deleteNode, hsearch, hfirst, hcell, hq]
      | some next => simp [deleteNode, hsearch, hfirst, hcell, hq]

theorem eraseP_absent {name : CString} (hclear : ∀ x ∈ l, hasName name x.2 = false) :
    (l.eraseP fun x => hasName name x.2) = l := by
  apply List.eraseP_of_forall_not
  intro x hx
  simp [hclear x hx]

theorem eraseP_name {name : CString} {l₁ l₂ : List (Nat × User)} {r : Nat} {u : User}
    (hclear : ∀ x ∈ l₁, hasName name x.2 = false) (hu : hasName name u = true) :
    ((l₁ ++ (r, u) :: l₂).eraseP fun x => hasName name x.2) = l₁ ++ l₂ := by
  rw [List.eraseP_append_right]
  · simp [hu]
  · intro x hx
    simp [hclear x hx]

/-- Every deletion on a chain: freeing the first node makes the caller's list dangle, any other
position loses its first node of the name. -/
theorem deleteNode_chain (h : st.Chain list l) (user : User) :
    ∃ st', deleteNode st list user = .ok st' ∧
      (((names l).head? = some user.userName ∧ st'.Dangling list) ∨
        ((names l).head? ≠ some user.userName ∧
          st'.Chain list (l.eraseP fun x => hasName user.userName x.2))) := by
  -- The node found is none, the first one or a later one.
  rcases split_names user.userName l with
    ⟨hnot, hclear⟩ | ⟨l₁, r, u, l₂, rfl, hname, hnot, hclear⟩
  · refine ⟨st, deleteNode_absent h hnot, Or.inr ⟨?_, ?_⟩⟩
    · intro hhead
      exact hnot (List.mem_of_mem_head? hhead)
    · rw [eraseP_absent hclear]
      exact h
  · rcases List.eq_nil_or_concat l₁ with rfl | ⟨l₀, ⟨q, a⟩, rfl⟩
    · refine ⟨st.release r, deleteNode_first h hname.symm, Or.inl ⟨?_, ?_⟩⟩
      · simp [names, hname]
      · -- The caller's reference leads to the freed cell.
        exact h.dangling_release
    · have hu : hasName user.userName u = true := by simp [hasName, hname]
      rw [List.concat_eq_append] at h hnot hclear ⊢
      rw [eraseP_name hclear hu, List.append_assoc l₀ [(q, a)] l₂, List.singleton_append]
      rw [List.append_assoc l₀] at h
      rcases deleteNode_later h hname.symm hnot with ⟨st', hdelete, hchain⟩
      refine ⟨st', hdelete, Or.inr ⟨?_, hchain⟩⟩
      intro hhead
      apply hnot
      cases l₀ with
      | nil =>
          have ha : a.userName = user.userName := by simpa [names] using hhead
          simp [names, ha]
      | cons x l₀ =>
          have hx : x.2.userName = user.userName := by simpa [names] using hhead
          simp [names, hx]

/-! ## A list built by insertions -/

/-- The list after `insertNode` for each of the users, from the empty list. -/
def built (st : Store) (users : List User) : Except PointerFault (Store × Ref) :=
  users.foldlM (fun p user => insertNode p.1 p.2 user) (st, none)

/-- `insertNode` hangs one node with the whole user behind the others. -/
def InsertsExactly (st : Store) (list : Ref) (l : List (Nat × User)) (user : User) : Prop :=
  ∃ st' list' r, insertNode st list user = .ok (st', list') ∧ st'.Chain list' (l ++ [(r, user)])

/-- `deleteNode` takes the first node of the name out of the list that its caller sees. -/
def DeletesExactly (st : Store) (list : Ref) (l : List (Nat × User)) (user : User) : Prop :=
  ∃ st', deleteNode st list user = .ok st' ∧
    st'.Chain list (l.eraseP fun x => hasName user.userName x.2)

def FindsExactly (st : Store) (list : Ref) (l : List (Nat × User)) (user : User) : Prop :=
  ∃ b, isOnLine st list user = .ok b ∧ (b = true ↔ user.userName ∈ names l)

/-- The three functions do to the chain what they are meant to do to a sequence of users. -/
structure RefinesSequence (st : Store) (list : Ref) (l : List (Nat × User)) (user : User) :
    Prop where
  insert : InsertsExactly st list l user
  delete : DeletesExactly st list l user
  find : FindsExactly st list l user

theorem copyUser_zero_eq_iff (user : User) :
    copyUser .zero user = user ↔ user.registerTime = [] := by
  cases user
  simp [copyUser, User.zero, eq_comm]

/-- The copy in the new node lacks the time of registration. -/
theorem insertsExactly_iff (h : st.Chain list l) (user : User) :
    InsertsExactly st list l user ↔ user.registerTime = [] := by
  rcases insertNode_chain h user with ⟨st₁, list₁, r, hinsert, hchain⟩
  rw [← copyUser_zero_eq_iff]
  constructor
  · rintro ⟨st', list', r', hinsert', hchain'⟩
    cases Except.ok.inj (hinsert.symm.trans hinsert')
    have hsame := List.append_cancel_left (hchain.unique hchain')
    simp only [List.cons.injEq, Prod.mk.injEq] at hsame
    exact hsame.1.2
  · intro hcopy
    rw [hcopy] at hchain
    exact ⟨st₁, list₁, r, hinsert, hchain⟩

theorem deletesExactly_iff (h : st.Chain list l) (user : User) :
    DeletesExactly st list l user ↔ (names l).head? ≠ some user.userName := by
  rcases deleteNode_chain h user with ⟨st₁, hdelete, ⟨hhead, hdangling⟩ | ⟨hhead, hchain⟩⟩
  · refine iff_of_false ?_ (not_not.2 hhead)
    rintro ⟨st', hdelete', hchain'⟩
    cases Except.ok.inj (hdelete.symm.trans hdelete')
    exact hdangling.not_chain _ hchain'
  · exact iff_of_true ⟨st₁, hdelete, hchain⟩ hhead

/-- Each insertion makes the chain longer by the copy of its user. -/
theorem foldlM_insertNode_chain (h : st.Chain list l) (users : List User) :
    ∃ st' list' l', users.foldlM (fun p user => insertNode p.1 p.2 user) (st, list) =
        .ok (st', list') ∧ st'.Chain list' l' ∧
      l'.map Prod.snd = l.map Prod.snd ++ users.map (copyUser .zero) := by
  induction users generalizing st list l with
  | nil => exact ⟨st, list, l, rfl, h, by simp⟩
  | cons user users ih =>
      rcases insertNode_chain h user with ⟨st₁, list₁, r, hinsert, hchain⟩
      rcases ih hchain with ⟨st', list', l', hrest, hchain', husers⟩
      refine ⟨st', list', l', ?_, hchain', ?_⟩
      · rw [List.foldlM_cons, hinsert]
        exact hrest
      · simpa using husers

/-- A list of any users, built from the empty one, meets the three specifications just when the
user has no time of registration to lose and is not the first of the list. -/
theorem refinesSequence_iff (st₀ : Store) (users : List User) (user : User) :
    ∃ st list l, built st₀ users = .ok (st, list) ∧ st.Chain list l ∧
      l.map Prod.snd = users.map (copyUser .zero) ∧
      (RefinesSequence st list l user ↔
        user.registerTime = [] ∧ users.head?.map User.userName ≠ some user.userName) := by
  have hempty : st₀.Chain none [] := rfl
  rcases foldlM_insertNode_chain hempty users with ⟨st, list, l, hbuilt, hchain, husers⟩
  have hhead : (names l).head? = users.head?.map User.userName := by
    have hnames : names l = (l.map Prod.snd).map User.userName := by simp [names]
    rw [hnames, husers]
    cases users <;> simp
  refine ⟨st, list, l, hbuilt, hchain, by simpa using husers, ?_⟩
  rw [← insertsExactly_iff hchain user, ← hhead, ← deletesExactly_iff hchain user]
  have hfind : FindsExactly st list l user :=
    ⟨_, isOnLine_chain hchain user, decide_eq_true_iff⟩
  exact ⟨fun h => ⟨h.insert, h.delete⟩, fun h => ⟨h.1, h.2, hfind⟩⟩

/-- The first of two users leaves: her node is freed, and the list of the other one is not the one
that the caller still refers to. -/
theorem first_of_two_not_deleted :
    let ann := { User.zero with userName := [97] }
    let bob := { User.zero with userName := [98] }
    ∃ st list l, built .empty [ann, bob] = .ok (st, list) ∧ st.Chain list l ∧
      l.map Prod.snd = [ann, bob] ∧ ¬ DeletesExactly st list l ann := by
  intro ann bob
  refine ⟨⟨[some ⟨ann, some 1⟩, some ⟨bob, none⟩]⟩, some 0, [(0, ann), (1, bob)], rfl,
    ⟨rfl, some 1, rfl, rfl, none, rfl, rfl⟩, rfl, ?_⟩
  rintro ⟨st', _, hchain⟩
  -- Bob's node is the second cell.
  have hhead : some 0 = some 1 := hchain.1
  cases hhead

/-! ## A freed first node -/

/-- After the first node has been freed, no function of the list gets past it. -/
theorem insertNode_dangling (h : st.Dangling list) (user : User) :
    insertNode st list user = .error .useAfterFree := by
  have halloc := h.alloc ⟨copyUser .zero user, none⟩
  cases list with
  | none =>
      rcases h with ⟨r, heq, _⟩
      cases heq
  | some first => simp [insertNode, halloc.lastNode]

theorem deleteNode_dangling (h : st.Dangling list) (user : User) :
    deleteNode st list user = .error .useAfterFree := by
  cases list with
  | none =>
      rcases h with ⟨r, heq, _⟩
      cases heq
  | some first => simp [deleteNode, h.search]

end ChatRoom
end LinuxLearn
