import Mathlib.Tactic
import Mathlib.Data.List.Chain

/-!
# Ring — circular doubly linked lists

`Links` holds two pointers for each node of any type.  `Ring L head l` says that from `head` on the
pointers lead through the nodes of `l` back to `head`, and the other way round.  All the changes of
such lists come from one operation, `link a b`, which puts `b` behind `a`, and all rules from one
about it:

- `Seg.bridge`: two segments are joined by linking their ends,
- `Seg.plug`: a segment between two others closes a ring,
- `Ring.insert`, `Ring.remove`, `Ring.replace`, `Ring.splice`, `Ring.cut`: what follows for rings,
- `Ring.frame`: a ring stays as it is when other nodes are changed,
- `Rings.set`: of several rings, all but one stay as they are.
-/

namespace LinuxLearn
namespace Lib

/-- Two pointers for each node. -/
@[ext] structure Links (α : Type*) where
  next : α → α
  prev : α → α

namespace Links

variable {α : Type*}

/-! ## Segments -/

/-- `b` follows `a`, and `a` precedes `b`. -/
def Adj (L : Links α) (a b : α) : Prop :=
  L.next a = b ∧ L.prev b = a

/-- Each node of the list follows the one in front of it. -/
def Seg (L : Links α) (l : List α) : Prop :=
  l.IsChain L.Adj

section Segments

variable {L L' : Links α} {l r : List α} {x y : α}

theorem seg_singleton (L : Links α) (a : α) : L.Seg [a] :=
  .singleton a

theorem Seg.append_left (h : L.Seg (l ++ r)) : L.Seg l :=
  (List.isChain_append.1 h).1

theorem Seg.append_right (h : L.Seg (l ++ r)) : L.Seg r :=
  (List.isChain_append.1 h).2.1

/-- A segment uses the `next` of all its nodes but the last, and the `prev` of all but the first. -/
theorem Seg.congr (h : L.Seg l) (hnext : ∀ x ∈ l.dropLast, L'.next x = L.next x)
    (hprev : ∀ x ∈ l.tail, L'.prev x = L.prev x) : L'.Seg l := by
  induction l with
  | nil => exact .nil
  | cons x l ih =>
      cases l with
      | nil => exact seg_singleton L' x
      | cons y l =>
          rcases List.isChain_cons_cons.1 h with ⟨hadj, hrest⟩
          refine List.isChain_cons_cons.2 ⟨⟨?_, ?_⟩, ih hrest ?_ ?_⟩
          · exact (hnext x List.mem_cons_self).trans hadj.1
          · exact (hprev y List.mem_cons_self).trans hadj.2
          · exact fun z hz => hnext z (List.mem_cons_of_mem x hz)
          · exact fun z hz => hprev z (List.mem_cons_of_mem y hz)

theorem head?_eq_headD (h : r ≠ []) (y : α) : r.head? = some (r.headD y) := by
  cases r with
  | nil => exact absurd rfl h
  | cons z r => rfl

theorem getLast?_eq_getLastD (x : α) (l : List α) : (x :: l).getLast? = some (l.getLastD x) := by
  rw [List.getLast?_cons, List.getLastD_eq_getLast?]

theorem not_mem_dropLast (h : (x :: l).Nodup) : l.getLastD x ∉ (x :: l).dropLast := by
  have hsplit := List.dropLast_append_getLast? _ (getLast?_eq_getLastD x l)
  rw [← hsplit, List.nodup_append] at h
  exact fun hmem => h.2.2 _ hmem _ List.mem_cons_self rfl

theorem not_mem_tail (h : r.Nodup) (hne : r ≠ []) (y : α) : r.headD y ∉ r.tail := by
  cases r with
  | nil => exact absurd rfl hne
  | cons z r => exact (List.nodup_cons.1 h).1

theorem headD_eq_iff {x : α} {l : List α} (h : (x :: l).Nodup) : l.headD x = x ↔ l = [] := by
  cases l with
  | nil => simp
  | cons y l =>
      have hne : y ≠ x := fun heq => (List.nodup_cons.1 h).1 (heq ▸ List.mem_cons_self)
      simp [hne]

theorem headD_mem (hne : r ≠ []) (y : α) : r.headD y ∈ r := by
  cases r with
  | nil => exact absurd rfl hne
  | cons z r => exact List.mem_cons_self

theorem getLastD_mem (hne : r ≠ []) (y : α) : r.getLastD y ∈ r := by
  cases r with
  | nil => exact absurd rfl hne
  | cons z r =>
      rw [List.getLastD_cons]
      exact List.getLastD_mem_cons

theorem headD_concat (l : List α) (y : α) : (l ++ [y]).headD y = l.headD y := by
  cases l <;> rfl

theorem headD_mem_concat (l : List α) (y : α) : l.headD y ∈ l ++ [y] := by
  rw [← headD_concat]
  exact headD_mem (List.append_ne_nil_of_right_ne_nil l (List.cons_ne_nil y [])) y

theorem getLastD_mem_append (x : α) (l r : List α) : l.getLastD x ∈ x :: (l ++ r) :=
  List.mem_append_left r List.getLastD_mem_cons

theorem headD_mem_append (x : α) (l r : List α) : r.headD x ∈ x :: (l ++ r) := by
  cases r with
  | nil => exact List.mem_cons_self
  | cons y r => exact List.mem_cons_of_mem x (List.mem_append_right l List.mem_cons_self)

theorem mem_middle (x y : α) (l r : List α) : y ∈ x :: (l ++ y :: r) :=
  List.mem_cons_of_mem x (List.mem_append_right l List.mem_cons_self)

theorem rest_subset (x y : α) (l r : List α) : x :: (l ++ r) ⊆ x :: (l ++ y :: r) :=
  ((List.sublist_cons_self y r).append_left l |>.cons_cons x).subset

theorem getLastD_append (hne : r ≠ []) (l : List α) (y : α) :
    (l ++ r).getLastD y = r.getLastD y := by
  rcases List.eq_nil_or_concat r with rfl | ⟨r, z, rfl⟩
  · exact absurd rfl hne
  · rw [List.concat_eq_append, ← List.append_assoc, List.getLastD_concat, List.getLastD_concat]

end Segments

/-! ## Rings -/

/-- From `head` on, the pointers lead through `l` and back to `head`. -/
structure Ring (L : Links α) (head : α) (l : List α) : Prop where
  seg : L.Seg (head :: l ++ [head])
  nodup : (head :: l).Nodup

/-- The pointers of all nodes outside `s` are the same. -/
def EqOff (s : List α) (L L' : Links α) : Prop :=
  ∀ x, x ∉ s → L'.next x = L.next x ∧ L'.prev x = L.prev x

section Rings

variable {L L' L'' : Links α} {head e : α} {l l₁ l₂ s : List α}

theorem eqOff_refl (s : List α) (L : Links α) : EqOff s L L :=
  fun _ _ => ⟨rfl, rfl⟩

theorem EqOff.trans (h : EqOff s L L') (h' : EqOff s L' L'') : EqOff s L L'' :=
  fun x hx => ⟨(h' x hx).1.trans (h x hx).1, (h' x hx).2.trans (h x hx).2⟩

theorem EqOff.mono {s' : List α} (h : EqOff s L L') (hs : s ⊆ s') : EqOff s' L L' :=
  fun x hx => h x fun hmem => hx (hs hmem)

theorem ring_nil (h : L.next head = head) (h' : L.prev head = head) : L.Ring head [] :=
  ⟨List.isChain_cons_cons.2 ⟨⟨h, h'⟩, seg_singleton L head⟩, List.nodup_singleton head⟩

/-- Other nodes may change. -/
theorem Ring.frame (h : L.Ring head l) (heq : EqOff s L L') (hs : ∀ x ∈ head :: l, x ∉ s) :
    L'.Ring head l := by
  refine ⟨h.seg.congr (fun x hx => ?_) fun x hx => ?_, h.nodup⟩
  · rw [List.dropLast_concat] at hx
    exact (heq x (hs x hx)).1
  · have hmem : x ∈ head :: l := by
      simpa [or_comm] using hx
    exact (heq x (hs x hmem)).2

/-- The segments in front of a node and behind it. -/
theorem Ring.split (h : L.Ring head (l₁ ++ e :: l₂)) :
    L.Seg (head :: l₁ ++ [e]) ∧ L.Seg (e :: (l₂ ++ [head])) := by
  have hseg : L.Seg ((head :: l₁) ++ e :: (l₂ ++ [head])) := by
    simpa using h.seg
  exact List.isChain_split.1 hseg

/-- The segments without the two seams at `e`. -/
theorem Ring.pieces (h : L.Ring head (l₁ ++ e :: l₂)) :
    L.Seg (head :: l₁) ∧ L.Seg (l₁ ++ [e]) ∧ L.Seg (l₂ ++ [head]) :=
  ⟨h.split.1.append_left, Seg.append_right (l := [head]) h.split.1,
    Seg.append_right (l := [e]) h.split.2⟩

/-- A ring can be seen from any of its nodes. -/
theorem Ring.rotate (h : L.Ring head (l₁ ++ e :: l₂)) : L.Ring e (l₂ ++ head :: l₁) := by
  rcases h.split with ⟨hfront, hbehind⟩
  refine ⟨?_, ?_⟩
  · have hjoin : L.Seg ((e :: l₂) ++ head :: (l₁ ++ [e])) :=
      List.isChain_split.2 ⟨hbehind, hfront⟩
    simpa using hjoin
  · have hperm : ((e :: l₂) ++ (head :: l₁)).Perm ((head :: l₁) ++ (e :: l₂)) :=
      List.perm_append_comm
    exact hperm.nodup_iff.2 h.nodup

theorem nodup_middle : (head :: (l₁ ++ e :: l₂)).Nodup ↔
    e ∉ head :: (l₁ ++ l₂) ∧ (head :: (l₁ ++ l₂)).Nodup := by
  have hperm : (head :: (l₁ ++ e :: l₂)).Perm (e :: head :: (l₁ ++ l₂)) :=
    (List.perm_middle.cons head).trans (.swap e head _)
  exact hperm.nodup_iff.trans List.nodup_cons

theorem Ring.notMem_rest (h : L.Ring head (l₁ ++ e :: l₂)) : e ∉ head :: (l₁ ++ l₂) :=
  (nodup_middle.1 h.nodup).1

theorem Ring.next_head (h : L.Ring head l) : L.next head = l.headD head := by
  cases l with
  | nil => exact (List.isChain_cons_cons.1 h.seg).1.1
  | cons x l => exact (List.isChain_cons_cons.1 h.seg).1.1

theorem Ring.prev_head (h : L.Ring head l) : L.prev head = l.getLastD head := by
  have hjoint := (List.isChain_append.1 h.seg).2.2
  exact (hjoint _ (getLast?_eq_getLastD head l) head rfl).2

theorem Ring.next_mem (h : L.Ring head (l₁ ++ e :: l₂)) : L.next e = l₂.headD head := by
  rw [h.rotate.next_head]
  cases l₂ <;> rfl

theorem Ring.prev_mem (h : L.Ring head (l₁ ++ e :: l₂)) : L.prev e = l₁.getLastD head := by
  rw [h.rotate.prev_head]
  simp only [List.getLastD_eq_getLast?, List.getLast?_append, List.getLast?_cons,
    Option.some_or, Option.getD_some]

end Rings

/-! ## Changes -/

section Changes

variable [DecidableEq α]

def setNext (L : Links α) (a b : α) : Links α :=
  { L with next := Function.update L.next a b }

def setPrev (L : Links α) (a b : α) : Links α :=
  { L with prev := Function.update L.prev a b }

/-- `b` comes behind `a`. -/
def link (L : Links α) (a b : α) : Links α :=
  (L.setNext a b).setPrev b a

variable {L : Links α} {a b c d x y : α} {s l r : List α}

@[simp] theorem setNext_prev (L : Links α) (a b : α) : (L.setNext a b).prev = L.prev :=
  rfl

@[simp] theorem setPrev_next (L : Links α) (a b : α) : (L.setPrev a b).next = L.next :=
  rfl

@[simp] theorem setNext_next_self (L : Links α) (a b : α) : (L.setNext a b).next a = b := by
  simp [setNext]

@[simp] theorem setPrev_prev_self (L : Links α) (a b : α) : (L.setPrev a b).prev a = b := by
  simp [setPrev]

theorem setNext_next_of_ne (L : Links α) (b : α) (h : x ≠ a) :
    (L.setNext a b).next x = L.next x := by
  simp [setNext, h]

theorem setPrev_prev_of_ne (L : Links α) (b : α) (h : x ≠ a) :
    (L.setPrev a b).prev x = L.prev x := by
  simp [setPrev, h]

@[simp] theorem link_next_self (L : Links α) (a b : α) : (L.link a b).next a = b :=
  L.setNext_next_self a b

@[simp] theorem link_prev_self (L : Links α) (a b : α) : (L.link a b).prev b = a :=
  (L.setNext a b).setPrev_prev_self b a

theorem link_next_of_ne (L : Links α) (b : α) (h : x ≠ a) : (L.link a b).next x = L.next x :=
  L.setNext_next_of_ne b h

theorem link_prev_of_ne (L : Links α) (a : α) (h : x ≠ b) : (L.link a b).prev x = L.prev x :=
  (L.setNext a b).setPrev_prev_of_ne a h

theorem link_comm (L : Links α) (hac : a ≠ c) (hbd : b ≠ d) :
    (L.link a b).link c d = (L.link c d).link a b := by
  simp only [link, setNext, setPrev, Links.mk.injEq]
  exact ⟨by rw [Function.update_comm hac], by rw [Function.update_comm hbd]⟩

theorem eqOff_setNext (L : Links α) (ha : a ∈ s) (b : α) : EqOff s L (L.setNext a b) :=
  fun _ hx => ⟨L.setNext_next_of_ne b fun heq => hx (heq ▸ ha), rfl⟩

theorem eqOff_setPrev (L : Links α) (ha : a ∈ s) (b : α) : EqOff s L (L.setPrev a b) :=
  fun _ hx => ⟨rfl, L.setPrev_prev_of_ne b fun heq => hx (heq ▸ ha)⟩

theorem eqOff_link (L : Links α) (ha : a ∈ s) (hb : b ∈ s) : EqOff s L (L.link a b) :=
  (eqOff_setNext L ha b).trans (eqOff_setPrev _ hb a)

theorem adj_link (L : Links α) (a b : α) : (L.link a b).Adj a b :=
  ⟨L.link_next_self a b, L.link_prev_self a b⟩

theorem Seg.link (h : L.Seg l) (ha : a ∉ l.dropLast) (hb : b ∉ l.tail) : (L.link a b).Seg l :=
  h.congr (fun _ hx => L.link_next_of_ne b fun heq => ha (heq ▸ hx))
    fun _ hx => L.link_prev_of_ne a fun heq => hb (heq ▸ hx)

/-- Two segments are joined at their ends. -/
theorem Seg.bridge (hleft : L.Seg (x :: l)) (hright : L.Seg r) (hne : r ≠ [])
    (hl : (x :: l).Nodup) (hr : r.Nodup) (hlast : l.getLastD x ∉ r.dropLast)
    (hfirst : r.headD y ∉ l) : (L.link (l.getLastD x) (r.headD y)).Seg (x :: l ++ r) := by
  refine List.isChain_append.2 ⟨?_, ?_, fun u hu v hv => ?_⟩
  · exact hleft.link (not_mem_dropLast hl) hfirst
  · exact hright.link hlast (not_mem_tail hr hne y)
  · rw [getLast?_eq_getLastD, Option.mem_some_iff] at hu
    rw [head?_eq_headD hne y, Option.mem_some_iff] at hv
    rw [← hu, ← hv]
    exact adj_link L _ _

end Changes

/-! ## Rules for rings -/

section Rules

variable [DecidableEq α] {L : Links α} {head e new list : α} {l l₁ l₂ m : List α}

/-- A segment between two others closes a ring. -/
theorem Seg.plug (hleft : L.Seg (head :: l₁)) (hm : L.Seg m) (hright : L.Seg (l₂ ++ [head]))
    (hne : m ≠ []) (hnodup : (head :: (l₁ ++ m ++ l₂)).Nodup) :
    ((L.link (l₁.getLastD head) (m.headD head)).link (m.getLastD head) (l₂.headD head)).Ring head
      (l₁ ++ m ++ l₂) := by
  have hperm : (head :: (l₁ ++ m ++ l₂)).Perm (l₁ ++ m ++ (l₂ ++ [head])) := by
    rw [← List.append_assoc]
    exact (List.perm_append_singleton head _).symm
  have hall : ((head :: (l₁ ++ m)) ++ l₂).Nodup := hnodup
  rcases List.nodup_append.1 hall with ⟨hfront, -, hapart⟩
  rcases List.nodup_append.1 (hperm.nodup_iff.1 hnodup) with ⟨-, hback, hapart'⟩
  have hfront' : ((head :: l₁) ++ m).Nodup := hfront
  rcases List.nodup_append.1 hfront' with ⟨hl₁, hmid, hapart''⟩
  -- The three pieces have no node in common but `head`.
  have hleft_m : ∀ z ∈ head :: l₁, z ∉ m := fun z hz hzm => hapart'' z hz z hzm rfl
  have hfront_l₂ : ∀ z ∈ head :: (l₁ ++ m), z ∉ l₂ := fun z hz hzl => hapart z hz z hzl rfl
  have hback_front : ∀ z ∈ l₂ ++ [head], z ∉ l₁ ++ m := fun z hz hzl => hapart' z hzl z hz rfl
  have hlast : l₁.getLastD head ∈ head :: l₁ := List.getLastD_mem_cons
  have hfirst : m.headD head ∈ m := headD_mem hne head
  have hfirst_back : m.headD head ∉ l₂ ++ [head] := fun hmem =>
    hback_front _ hmem (List.mem_append_right l₁ hfirst)
  have hjoined : (L.link (l₁.getLastD head) (m.headD head)).Seg (head :: (l₁ ++ m)) :=
    hleft.bridge hm hne hl₁ hmid (fun hmem => hleft_m _ hlast (List.mem_of_mem_dropLast hmem))
      fun hmem => hleft_m _ (List.mem_cons_of_mem head hmem) hfirst
  have hkept : (L.link (l₁.getLastD head) (m.headD head)).Seg (l₂ ++ [head]) := by
    refine hright.link ?_ fun hmem => hfirst_back (List.mem_of_mem_tail hmem)
    rw [List.dropLast_concat]
    exact hfront_l₂ _ (List.mem_append_left m hlast)
  have hring := hjoined.bridge hkept (List.append_ne_nil_of_right_ne_nil l₂ (List.cons_ne_nil _ _))
    hfront hback (y := head) ?_ ?_
  · rw [getLastD_append hne, headD_concat] at hring
    exact ⟨by simpa using hring, hnodup⟩
  · rw [getLastD_append hne, List.dropLast_concat]
    exact hfront_l₂ _ (List.mem_cons_of_mem head (List.mem_append_right l₁ (getLastD_mem hne head)))
  · rw [headD_concat]
    exact hback_front _ (headD_mem_concat l₂ head)

/-- A new node between two neighbours, or in the place of what stood between them. -/
theorem Seg.plug_one (hleft : L.Seg (head :: l₁)) (hright : L.Seg (l₂ ++ [head]))
    (hnodup : (head :: (l₁ ++ new :: l₂)).Nodup) :
    ((L.link (l₁.getLastD head) new).link new (l₂.headD head)).Ring head (l₁ ++ new :: l₂) := by
  have hring := hleft.plug (seg_singleton L new) hright (List.cons_ne_nil new [])
    (by simpa using hnodup)
  simpa using hring

theorem Ring.insert (h : L.Ring head (l₁ ++ l₂)) (hnew : new ∉ head :: (l₁ ++ l₂)) :
    ((L.link (l₁.getLastD head) new).link new (l₂.headD head)).Ring head (l₁ ++ new :: l₂) := by
  have hseg : L.Seg ((head :: l₁) ++ (l₂ ++ [head])) := by
    simpa using h.seg
  exact hseg.append_left.plug_one hseg.append_right (nodup_middle.2 ⟨hnew, h.nodup⟩)

theorem Ring.replace (h : L.Ring head (l₁ ++ e :: l₂)) (hnew : new ∉ head :: (l₁ ++ e :: l₂)) :
    ((L.link (l₁.getLastD head) new).link new (l₂.headD head)).Ring head (l₁ ++ new :: l₂) := by
  rcases h.pieces with ⟨hfront, -, hbehind⟩
  refine hfront.plug_one hbehind ?_
  refine nodup_middle.2 ⟨fun hmem => hnew ?_, (nodup_middle.1 h.nodup).2⟩
  simp only [List.mem_cons, List.mem_append] at hmem ⊢
  exact hmem.imp_right fun hmem => hmem.imp_right .inr

theorem Ring.remove (h : L.Ring head (l₁ ++ e :: l₂)) :
    (L.link (l₁.getLastD head) (l₂.headD head)).Ring head (l₁ ++ l₂) := by
  rcases h.pieces with ⟨hfront, -, hbehind⟩
  have hnodup : ((head :: l₁) ++ l₂).Nodup := (nodup_middle.1 h.nodup).2
  rcases List.nodup_append.1 hnodup with ⟨hl₁, hl₂, hapart⟩
  have hperm : ((head :: l₁) ++ l₂).Perm (l₁ ++ (l₂ ++ [head])) := by
    rw [← List.append_assoc]
    exact (List.perm_append_singleton head _).symm
  rcases List.nodup_append.1 (hperm.nodup_iff.1 hnodup) with ⟨-, hback, hapart'⟩
  have hseg := hfront.bridge hbehind (y := head)
    (List.append_ne_nil_of_right_ne_nil l₂ (List.cons_ne_nil _ _)) hl₁ hback ?_ ?_
  · rw [headD_concat] at hseg
    exact ⟨by simpa using hseg, hnodup⟩
  · rw [List.dropLast_concat]
    exact fun hmem => hapart _ List.getLastD_mem_cons _ hmem rfl
  · rw [headD_concat]
    exact fun hmem => hapart' _ hmem _ (headD_mem_concat l₂ head) rfl

/-- The nodes of another ring are put between two neighbours; its head is left out. -/
theorem Ring.splice (h : L.Ring head (l₁ ++ l₂)) (hm : L.Ring list m) (hne : m ≠ [])
    (hapart : ∀ x ∈ m, x ∉ head :: (l₁ ++ l₂)) :
    ((L.link (l₁.getLastD head) (m.headD list)).link (m.getLastD list) (l₂.headD head)).Ring head
      (l₁ ++ m ++ l₂) := by
  have hseg : L.Seg ((head :: l₁) ++ (l₂ ++ [head])) := by
    simpa using h.seg
  have hmid : L.Seg m := Seg.append_right (l := [list]) hm.seg.append_left
  have hfirst : m.headD list = m.headD head :=
    Option.some.inj ((head?_eq_headD hne list).symm.trans (head?_eq_headD hne head))
  have hlast : m.getLastD list = m.getLastD head := by
    rw [← getLastD_append hne [] list, ← getLastD_append hne [] head]
    cases m with
    | nil => exact absurd rfl hne
    | cons x m => rfl
  rw [hfirst, hlast]
  refine hseg.append_left.plug hmid hseg.append_right hne ?_
  have hperm : (head :: (l₁ ++ m ++ l₂)).Perm (m ++ head :: (l₁ ++ l₂)) := by
    rw [List.append_assoc]
    exact ((List.perm_append_comm_assoc l₁ m l₂).cons head).trans List.perm_middle.symm
  refine hperm.nodup_iff.2 (List.nodup_append.2 ⟨(List.nodup_cons.1 hm.nodup).2, h.nodup, ?_⟩)
  exact fun x hx y hy heq => hapart x hx (heq ▸ hy)

/-- The front part of a ring gets a head of its own. -/
theorem Ring.cut (h : L.Ring head (l₁ ++ e :: l₂)) (hlist : list ∉ head :: (l₁ ++ e :: l₂)) :
    (((L.link list ((l₁ ++ [e]).headD head)).link e list).link head (l₂.headD head)).Ring list
        (l₁ ++ [e]) ∧
      (((L.link list ((l₁ ++ [e]).headD head)).link e list).link head (l₂.headD head)).Ring head
        l₂ := by
  rcases h.pieces with ⟨-, hfront, hbehind⟩
  have hne : l₁ ++ [e] ≠ [] := List.append_ne_nil_of_right_ne_nil l₁ (List.cons_ne_nil e [])
  have hnodup : ((head :: (l₁ ++ [e])) ++ l₂).Nodup := by
    simpa using h.nodup
  rcases List.nodup_append.1 hnodup with ⟨hpart, hl₂, hapart⟩
  rcases List.nodup_cons.1 hpart with ⟨hhead, hmid⟩
  have hlist' : list ∉ (head :: (l₁ ++ [e])) ++ l₂ := by
    simpa using hlist
  have hlistFront : list ∉ l₁ ++ [e] := fun hmem =>
    hlist' (List.mem_append_left l₂ (List.mem_cons_of_mem head hmem))
  have hfirst : (l₁ ++ [e]).headD head ∈ l₁ ++ [e] := headD_mem hne head
  have hback : ∀ x ∈ l₁ ++ [e], x ∉ l₂ ++ [head] := fun x hx hmem => by
    rcases List.mem_append.1 hmem with hmem | hmem
    · exact hapart x (List.mem_cons_of_mem head hx) x hmem rfl
    · exact hhead (List.mem_singleton.1 hmem ▸ hx)
  have hlistBack : list ∉ l₂ ++ [head] := fun hmem => by
    rcases List.mem_append.1 hmem with hmem | hmem
    · exact hlist' (List.mem_append_right _ hmem)
    · exact hlist' (List.mem_singleton.1 hmem ▸ List.mem_cons_self)
  have hnew : ((L.link list ((l₁ ++ [e]).headD head)).link e list).Ring list (l₁ ++ [e]) := by
    have hring : ((L.link (([] : List α).getLastD list) ((l₁ ++ [e]).headD list)).link
        ((l₁ ++ [e]).getLastD list) (([] : List α).headD list)).Ring list
          ([] ++ (l₁ ++ [e]) ++ []) :=
      (seg_singleton L list).plug hfront (seg_singleton L list) hne
        (by simpa using List.nodup_cons.2 ⟨hlistFront, hmid⟩)
    have hfirst' : (l₁ ++ [e]).headD list = (l₁ ++ [e]).headD head :=
      Option.some.inj ((head?_eq_headD hne list).symm.trans (head?_eq_headD hne head))
    simpa only [List.getLastD_nil, List.headD_nil, List.getLastD_concat, hfirst', List.nil_append,
      List.append_nil] using hring
  have hkept : ((L.link list ((l₁ ++ [e]).headD head)).link e list).Seg (l₂ ++ [head]) := by
    have he : e ∉ l₂ ++ [head] := hback e (List.mem_append_right l₁ List.mem_cons_self)
    refine (hbehind.link ?_ ?_).link ?_ ?_
    · exact fun hmem => hlistBack (List.mem_of_mem_dropLast hmem)
    · exact fun hmem => hback _ hfirst (List.mem_of_mem_tail hmem)
    · exact fun hmem => he (List.mem_of_mem_dropLast hmem)
    · exact fun hmem => hlistBack (List.mem_of_mem_tail hmem)
  have hheadBack : head ∉ l₂ := fun hmem => hapart head List.mem_cons_self head hmem rfl
  have hback' : (l₂ ++ [head]).Nodup := by
    refine List.nodup_append.2 ⟨hl₂, List.nodup_singleton head, fun x hx y hy heq => hheadBack ?_⟩
    exact List.mem_singleton.1 hy ▸ heq ▸ hx
  have hclosed := (seg_singleton _ head).bridge hkept (y := head)
    (List.append_ne_nil_of_right_ne_nil l₂ (List.cons_ne_nil head [])) (List.nodup_singleton head)
    hback' (by rwa [List.dropLast_concat]) List.not_mem_nil
  rw [headD_concat, List.getLastD_nil] at hclosed
  refine ⟨hnew.frame (eqOff_link _ (s := l₂ ++ [head]) ?_ (headD_mem_concat l₂ head)) ?_, hclosed,
    List.nodup_cons.2 ⟨hheadBack, hl₂⟩⟩
  · exact List.mem_append_right l₂ List.mem_cons_self
  · exact List.forall_mem_cons.2 ⟨hlistBack, hback⟩

end Rules

/-! ## The other direction -/

/-- The same nodes with the two pointers exchanged. -/
def flip (L : Links α) : Links α :=
  ⟨L.prev, L.next⟩

theorem Ring.flip {L : Links α} {head : α} {l : List α} (h : L.Ring head l) :
    L.flip.Ring head l.reverse := by
  refine ⟨?_, ?_⟩
  · have hseg : L.flip.Seg (head :: l ++ [head]).reverse :=
      List.isChain_reverse.2 (h.seg.imp fun _ _ hadj => ⟨hadj.2, hadj.1⟩)
    simpa using hseg
  · have hperm : (head :: l.reverse).Perm (head :: l) := (List.reverse_perm l).cons head
    exact hperm.nodup_iff.2 h.nodup

/-! ## Several rings -/

/-- Lists by their heads. -/
abbrev HeadMap (α : Type*) : Type _ :=
  α → Option (List α)

/-- The node is no entry of a list; it may be a head. -/
def HeadMap.NoEntry (σ : HeadMap α) (a : α) : Prop :=
  ∀ head l, σ head = some l → a ∉ l

/-- The node is on no list. -/
def HeadMap.Fresh (σ : HeadMap α) (a : α) : Prop :=
  ∀ head l, σ head = some l → a ∉ head :: l

/-- All the lists are in memory, apart from each other. -/
structure Rings (L : Links α) (σ : HeadMap α) : Prop where
  ring : ∀ head l, σ head = some l → L.Ring head l
  apart : ∀ head l head' l', σ head = some l → σ head' = some l' → head ≠ head' →
    ∀ x ∈ head :: l, x ∉ head' :: l'

theorem HeadMap.Fresh.noEntry {σ : HeadMap α} {a : α} (h : σ.Fresh a) : σ.NoEntry a :=
  fun k m hk hmem => h k m hk (List.mem_cons_of_mem k hmem)

theorem fresh_none (a : α) : HeadMap.Fresh (fun _ => none) a :=
  fun _ _ h => nomatch h

theorem rings_none (L : Links α) : L.Rings fun _ => none :=
  ⟨fun _ _ h => (nomatch h), fun _ _ _ _ h => (nomatch h)⟩

theorem Rings.other_notMem {L : Links α} {σ : HeadMap α} {head k x : α} {l m : List α}
    (h : L.Rings σ) (hl : σ head = some l) (hk : σ k = some m) (hne : k ≠ head)
    (hx : x ∈ k :: m) : x ∉ head :: l :=
  h.apart k m head l hk hl hne x hx

/-- A head of a list is no entry. -/
theorem Rings.noEntry {L : Links α} {σ : HeadMap α} {head : α} {l : List α} (h : L.Rings σ)
    (hl : σ head = some l) : σ.NoEntry head := by
  intro k m hk hmem
  by_cases hne : k = head
  · subst hne
    exact (List.nodup_cons.1 (h.ring k m hk).nodup).1 hmem
  · exact h.other_notMem hl hk hne (List.mem_cons_of_mem k hmem) List.mem_cons_self

section Rings

variable [DecidableEq α] {L L' : Links α} {σ : HeadMap α} {head : α} {l s : List α}

def HeadMap.set (σ : HeadMap α) (head : α) (l : List α) : HeadMap α :=
  Function.update σ head (some l)

def HeadMap.forget (σ : HeadMap α) (head : α) : HeadMap α :=
  Function.update σ head none

theorem HeadMap.set_self (σ : HeadMap α) (head : α) (l : List α) : σ.set head l head = some l := by
  simp [set]

theorem HeadMap.set_of_ne (σ : HeadMap α) (l : List α) {k : α} (h : k ≠ head) :
    σ.set head l k = σ k := by
  simp [set, h]

theorem HeadMap.forget_eq_some {k : α} {m : List α} :
    σ.forget head k = some m ↔ k ≠ head ∧ σ k = some m := by
  by_cases hk : k = head
  · simp [forget, hk]
  · simp [forget, hk]

theorem HeadMap.set_eq_some {k : α} {m : List α} :
    σ.set head l k = some m ↔ k = head ∧ m = l ∨ k ≠ head ∧ σ k = some m := by
  by_cases hk : k = head
  · simp [set, hk, eq_comm]
  · simp [set, hk]

theorem HeadMap.Fresh.set {a : α} (h : σ.Fresh a) (ha : a ∉ head :: l) :
    (σ.set head l).Fresh a := by
  intro k m hk
  rcases set_eq_some.1 hk with ⟨rfl, rfl⟩ | ⟨-, hk⟩
  · exact ha
  · exact h k m hk

theorem HeadMap.set_same (h : σ head = some l) : σ.set head l = σ := by
  funext k
  by_cases hk : k = head
  · rw [hk, set_self, h]
  · rw [set_of_ne σ l hk]

theorem HeadMap.set_set (σ : HeadMap α) (head : α) (l m : List α) :
    (σ.set head l).set head m = σ.set head m := by
  simp only [set, Function.update_idem]

/-- A list is forgotten only until it is set. -/
theorem HeadMap.forget_set_set (σ : HeadMap α) (head k : α) (l m : List α) :
    ((σ.forget head).set k l).set head m = (σ.set k l).set head m := by
  funext a
  by_cases ha : a = head
  · rw [ha, set_self, set_self]
  · rw [set_of_ne _ m ha, set_of_ne _ m ha]
    by_cases hk : a = k
    · rw [hk, set_self, set_self]
    · rw [set_of_ne _ l hk, set_of_ne _ l hk]
      simp [forget, ha]

theorem Rings.forget (h : L.Rings σ) (head : α) : L.Rings (σ.forget head) := by
  refine ⟨fun k m hk => ?_, fun k m k' m' hk hk' hne => ?_⟩
  · exact h.ring k m (HeadMap.forget_eq_some.1 hk).2
  · exact h.apart k m k' m' (HeadMap.forget_eq_some.1 hk).2 (HeadMap.forget_eq_some.1 hk').2 hne

/-- Only nodes of `s` have changed, no other list has one of them, and they hold a list now. -/
theorem Rings.set (h : L.Rings σ) (heq : EqOff s L L')
    (hs : ∀ k m, σ k = some m → k ≠ head → ∀ x ∈ k :: m, x ∉ s) (hring : L'.Ring head l)
    (hsub : head :: l ⊆ s) : L'.Rings (σ.set head l) := by
  refine ⟨fun k m hk => ?_, fun k m k' m' hk hk' hne x hx hx' => ?_⟩
  · rcases HeadMap.set_eq_some.1 hk with ⟨rfl, rfl⟩ | ⟨hne, hold⟩
    · exact hring
    · exact (h.ring k m hold).frame heq (hs k m hold hne)
  · rcases HeadMap.set_eq_some.1 hk with ⟨rfl, rfl⟩ | ⟨hkh, hold⟩
    · rcases HeadMap.set_eq_some.1 hk' with ⟨rfl, rfl⟩ | ⟨hkh', hold'⟩
      · exact hne rfl
      · exact hs k' m' hold' hkh' x hx' (hsub hx)
    · rcases HeadMap.set_eq_some.1 hk' with ⟨rfl, rfl⟩ | ⟨hkh', hold'⟩
      · exact hs k m hold hkh x hx (hsub hx')
      · exact h.apart k m k' m' hold hold' hne x hx hx'

end Rings

end Links
end Lib
end LinuxLearn
