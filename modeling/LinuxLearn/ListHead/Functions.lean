import LinuxLearn.Lib.Ring

/-!
# Functions — the lists of `list.h`

The memory is `Links α`: the `next` and the `prev` of every `list_head`.  Each function is modelled
as its assignments in their order, with the pointers read when the source reads them.  Behind each
function stands what it does to a ring, and which nodes it touches.

The macros with `entry` in their names are these loops again: an entry and its `list_head` are one
node here.
-/

namespace LinuxLearn
namespace ListHead

open Lib Lib.Links

variable {α : Type} [DecidableEq α]

/-! ## Initialisation, insertion and deletion -/

/-- `LIST_POISON1` and `LIST_POISON2` -/
structure Poison (α : Type) where
  poison1 : α
  poison2 : α

/-- `INIT_LIST_HEAD` -/
def initListHead (L : Links α) (list : α) : Links α :=
  (L.setNext list list).setPrev list list

/-- `__list_add` -/
def rawListAdd (L : Links α) (new prev next : α) : Links α :=
  let L := L.setPrev next new
  let L := L.setNext new next
  let L := L.setPrev new prev
  L.setNext prev new

def listAdd (L : Links α) (new head : α) : Links α :=
  rawListAdd L new head (L.next head)

def listAddTail (L : Links α) (new head : α) : Links α :=
  rawListAdd L new (L.prev head) head

/-- `__list_del` -/
def rawListDel (L : Links α) (prev next : α) : Links α :=
  let L := L.setPrev next prev
  L.setNext prev next

/-- `__list_del_entry` -/
def rawListDelEntry (L : Links α) (entry : α) : Links α :=
  rawListDel L (L.prev entry) (L.next entry)

def listDel (P : Poison α) (L : Links α) (entry : α) : Links α :=
  let L := rawListDel L (L.prev entry) (L.next entry)
  let L := L.setNext entry P.poison1
  L.setPrev entry P.poison2

def listReplace (L : Links α) (old new : α) : Links α :=
  let L := L.setNext new (L.next old)
  let L := L.setPrev (L.next new) new
  let L := L.setPrev new (L.prev old)
  L.setNext (L.prev new) new

def listReplaceInit (L : Links α) (old new : α) : Links α :=
  initListHead (listReplace L old new) old

def listDelInit (L : Links α) (entry : α) : Links α :=
  initListHead (rawListDelEntry L entry) entry

def listMove (L : Links α) (list head : α) : Links α :=
  listAdd (rawListDelEntry L list) list head

def listMoveTail (L : Links α) (list head : α) : Links α :=
  listAddTail (rawListDelEntry L list) list head

/-! ## Tests -/

def listEmpty (L : Links α) (head : α) : Bool :=
  L.next head = head

def listIsSingular (L : Links α) (head : α) : Bool :=
  !listEmpty L head && L.next head = L.prev head

/-! ## Whole lists -/

def listRotateLeft (L : Links α) (head : α) : Links α :=
  if listEmpty L head then L
  else
    let first := L.next head
    listMoveTail L first head

/-- `__list_cut_position` -/
def rawListCutPosition (L : Links α) (list head entry : α) : Links α :=
  let newFirst := L.next entry
  let L := L.setNext list (L.next head)
  let L := L.setPrev (L.next list) list
  let L := L.setPrev list entry
  let L := L.setNext entry list
  let L := L.setNext head newFirst
  L.setPrev newFirst head

def listCutPosition (L : Links α) (list head entry : α) : Links α :=
  if listEmpty L head then L
  else if listIsSingular L head ∧ L.next head ≠ entry ∧ head ≠ entry then L
  else if entry = head then initListHead L list
  else rawListCutPosition L list head entry

/-- `__list_splice` -/
def rawListSplice (L : Links α) (list prev next : α) : Links α :=
  let first := L.next list
  let last := L.prev list
  let L := L.setPrev first prev
  let L := L.setNext prev first
  let L := L.setNext last next
  L.setPrev next last

def listSplice (L : Links α) (list head : α) : Links α :=
  if listEmpty L list then L else rawListSplice L list head (L.next head)

def listSpliceTail (L : Links α) (list head : α) : Links α :=
  if listEmpty L list then L else rawListSplice L list (L.prev head) head

def listSpliceInit (L : Links α) (list head : α) : Links α :=
  if listEmpty L list then L
  else initListHead (rawListSplice L list head (L.next head)) list

def listSpliceTailInit (L : Links α) (list head : α) : Links α :=
  if listEmpty L list then L
  else initListHead (rawListSplice L list (L.prev head) head) list

/-! ## Loops -/

/-- The turns of `list_for_each_safe`, with the memory after them. -/
def safeLoop (body : Links α → α → Links α) (head : α) :
    Nat → Links α → α → α → Option (Links α × List α)
  | 0, _, _, _ => none
  | k + 1, L, pos, n =>
      if pos = head then some (L, [])
      else
        let L := body L pos
        (safeLoop body head k L n (L.next n)).map (Prod.map id (pos :: ·))

/-- `list_for_each_safe` -/
def listForEachSafe (body : Links α → α → Links α) (L : Links α) (head : α) (k : Nat) :
    Option (Links α × List α) :=
  let pos := L.next head
  safeLoop body head k L pos (L.next pos)

/-! ## What the functions do to a ring -/

section Rules

variable {L : Links α} {P : Poison α} {head entry new list old : α} {l l₁ l₂ m s : List α}

theorem initListHead_spec (L : Links α) (list : α) :
    (initListHead L list).Ring list [] ∧ EqOff [list] L (initListHead L list) :=
  ⟨ring_nil (L.link_next_self list list) (L.link_prev_self list list),
    eqOff_link L List.mem_cons_self List.mem_cons_self⟩

theorem rawListAdd_spec (h : L.Ring head (l₁ ++ l₂)) (hnew : new ∉ head :: (l₁ ++ l₂)) :
    (rawListAdd L new (l₁.getLastD head) (l₂.headD head)).Ring head (l₁ ++ new :: l₂) ∧
      EqOff (new :: head :: (l₁ ++ l₂)) L
        (rawListAdd L new (l₁.getLastD head) (l₂.headD head)) := by
  have hprev := getLastD_mem_append head l₁ l₂
  have hnext := headD_mem_append head l₁ l₂
  have hadd : rawListAdd L new (l₁.getLastD head) (l₂.headD head) =
      (L.link (l₁.getLastD head) new).link new (l₂.headD head) :=
    link_comm L (fun heq => hnew (heq ▸ hprev)) fun heq => hnew (heq ▸ hnext)
  rw [hadd]
  have hmem : new ∈ new :: head :: (l₁ ++ l₂) := List.mem_cons_self
  exact ⟨h.insert hnew, (eqOff_link L (List.mem_cons_of_mem new hprev) hmem).trans
    (eqOff_link _ hmem (List.mem_cons_of_mem new hnext))⟩

theorem listAdd_spec (h : L.Ring head l) (hnew : new ∉ head :: l) :
    (listAdd L new head).Ring head (new :: l) ∧
      EqOff (new :: head :: l) L (listAdd L new head) := by
  have hadd := rawListAdd_spec (show L.Ring head ([] ++ l) from h) hnew
  rw [listAdd, h.next_head]
  exact hadd

theorem listAddTail_spec (h : L.Ring head l) (hnew : new ∉ head :: l) :
    (listAddTail L new head).Ring head (l ++ [new]) ∧
      EqOff (new :: head :: l) L (listAddTail L new head) := by
  rw [← List.append_nil l] at h hnew
  have hadd := rawListAdd_spec h hnew
  rw [listAddTail, h.prev_head]
  rw [List.append_nil] at hadd ⊢
  exact hadd

theorem rawListDelEntry_spec (h : L.Ring head (l₁ ++ entry :: l₂)) :
    (rawListDelEntry L entry).Ring head (l₁ ++ l₂) ∧
      EqOff (head :: (l₁ ++ l₂)) L (rawListDelEntry L entry) := by
  have hdel : rawListDelEntry L entry = L.link (l₁.getLastD head) (l₂.headD head) := by
    rw [rawListDelEntry, h.prev_mem, h.next_mem]
    rfl
  rw [hdel]
  exact ⟨h.remove, eqOff_link L (getLastD_mem_append head l₁ l₂) (headD_mem_append head l₁ l₂)⟩

/-- The fields of the deleted entry may be overwritten. -/
theorem listDel_spec (P : Poison α) (h : L.Ring head (l₁ ++ entry :: l₂)) :
    (listDel P L entry).Ring head (l₁ ++ l₂) ∧
      EqOff (head :: (l₁ ++ entry :: l₂)) L (listDel P L entry) := by
  rcases rawListDelEntry_spec h with ⟨hring, heq⟩
  have hpoison : ∀ s : List α, entry ∈ s →
      EqOff s (rawListDelEntry L entry) (listDel P L entry) := fun s hs =>
    (eqOff_setNext _ hs P.poison1).trans (eqOff_setPrev _ hs P.poison2)
  refine ⟨hring.frame (hpoison [entry] List.mem_cons_self) fun x hx hmem => ?_,
    (heq.mono (rest_subset head entry l₁ l₂)).trans (hpoison _ (mem_middle head entry l₁ l₂))⟩
  exact h.notMem_rest (List.mem_singleton.1 hmem ▸ hx)

/-- The neighbours of `old` become those of `new`; `old` itself still points at them. -/
theorem listReplace_entry (h : L.Ring head (l₁ ++ old :: l₂))
    (hnew : new ∉ head :: (l₁ ++ old :: l₂)) :
    (listReplace L old new).Ring head (l₁ ++ new :: l₂) ∧
      EqOff (new :: head :: (l₁ ++ l₂)) L (listReplace L old new) := by
  have hprev := getLastD_mem_append head l₁ l₂
  have hnext := headD_mem_append head l₁ l₂
  have hnew' : new ∉ head :: (l₁ ++ l₂) := fun hmem => hnew (rest_subset head old l₁ l₂ hmem)
  have hold : old ≠ l₂.headD head := fun heq => h.notMem_rest (heq ▸ hnext)
  have hreplace : listReplace L old new =
      (L.link (l₁.getLastD head) new).link new (l₂.headD head) := by
    have hcomm := link_comm L (fun heq : l₁.getLastD head = new => hnew' (heq ▸ hprev))
      fun heq : new = l₂.headD head => hnew' (heq ▸ hnext)
    rw [hcomm]
    simp only [listReplace, h.next_mem, setNext_next_self, setNext_prev,
      setPrev_prev_of_ne _ _ hold, h.prev_mem, setPrev_prev_self]
    rfl
  rw [hreplace]
  have hmem : new ∈ new :: head :: (l₁ ++ l₂) := List.mem_cons_self
  exact ⟨h.replace hnew, (eqOff_link L (List.mem_cons_of_mem new hprev) hmem).trans
    (eqOff_link _ hmem (List.mem_cons_of_mem new hnext))⟩

/-- A head is replaced as an entry of the same ring is. -/
theorem listReplace_head (h : L.Ring old l) (hnew : new ∉ old :: l) :
    (listReplace L old new).Ring new l ∧ EqOff (new :: old :: l) L (listReplace L old new) := by
  cases l with
  | nil =>
      -- The ring is `old` alone, so its neighbours are `old`, too, and then `new`.
      have hne : old ≠ new := fun heq => hnew (heq ▸ List.mem_cons_self)
      have hreplace : listReplace L old new =
          (((L.setNext new old).setPrev old new).setPrev new new).setNext new new := by
        simp only [listReplace, h.next_head, List.headD_nil, setNext_next_self, setPrev_prev_self]
      rw [hreplace]
      have hmem : new ∈ [new, old] := List.mem_cons_self
      refine ⟨ring_nil (setNext_next_self _ _ _) (setPrev_prev_self _ _ _), ?_⟩
      exact (((eqOff_setNext L hmem old).trans (eqOff_setPrev _ (List.mem_cons_of_mem new
        List.mem_cons_self) new)).trans (eqOff_setPrev _ hmem new)).trans
          (eqOff_setNext _ hmem new)
  | cons x l =>
      have hperm : (x :: (l ++ [old])).Perm (old :: x :: l) :=
        List.perm_append_singleton old (x :: l)
      have hturned : L.Ring x (l ++ old :: []) :=
        Ring.rotate (show L.Ring old ([] ++ x :: l) from h)
      rcases listReplace_entry hturned fun hmem => hnew (hperm.subset hmem) with ⟨hring, heq⟩
      refine ⟨Ring.rotate hring, heq.mono fun y hy => ?_⟩
      rw [List.append_nil] at hy
      exact (List.cons_subset_cons new (List.subset_cons_self old (x :: l))) hy

/-- The entries of one list go to another one; the head of the first list stays as it is. -/
theorem rawListSplice_spec (h : L.Ring head (l₁ ++ l₂)) (hm : L.Ring list m) (hne : m ≠ [])
    (hapart : ∀ x ∈ m, x ∉ head :: (l₁ ++ l₂)) :
    (rawListSplice L list (l₁.getLastD head) (l₂.headD head)).Ring head (l₁ ++ m ++ l₂) ∧
      EqOff (m ++ head :: (l₁ ++ l₂)) L
        (rawListSplice L list (l₁.getLastD head) (l₂.headD head)) := by
  have hsplice : rawListSplice L list (l₁.getLastD head) (l₂.headD head) =
      (L.link (l₁.getLastD head) (m.headD list)).link (m.getLastD list) (l₂.headD head) := by
    rw [rawListSplice, hm.next_head, hm.prev_head]
    rfl
  rw [hsplice]
  have hprev := List.mem_append_right m (getLastD_mem_append head l₁ l₂)
  have hnext := List.mem_append_right m (headD_mem_append head l₁ l₂)
  exact ⟨h.splice hm hne hapart,
    (eqOff_link L hprev (List.mem_append_left _ (headD_mem hne list))).trans
      (eqOff_link _ (List.mem_append_left _ (getLastD_mem hne list)) hnext)⟩

theorem rawListCutPosition_spec (h : L.Ring head (l₁ ++ entry :: l₂))
    (hlist : list ∉ head :: (l₁ ++ entry :: l₂)) :
    (rawListCutPosition L list head entry).Ring list (l₁ ++ [entry]) ∧
      (rawListCutPosition L list head entry).Ring head l₂ ∧
        EqOff (list :: head :: (l₁ ++ entry :: l₂)) L (rawListCutPosition L list head entry) := by
  have hfirst : L.next head = (l₁ ++ [entry]).headD head := by
    rw [h.next_head]
    cases l₁ <;> rfl
  have hcut : rawListCutPosition L list head entry =
      ((L.link list ((l₁ ++ [entry]).headD head)).link entry list).link head (l₂.headD head) := by
    simp only [rawListCutPosition, h.next_mem, hfirst, setNext_next_self]
    rfl
  rw [hcut]
  rcases h.cut hlist with ⟨hnew, hrest⟩
  refine ⟨hnew, hrest, ?_⟩
  have hentry := List.mem_cons_of_mem list (mem_middle head entry l₁ l₂)
  have hheadMem : head ∈ list :: head :: (l₁ ++ entry :: l₂) :=
    List.mem_cons_of_mem list List.mem_cons_self
  have hfirstMem : (l₁ ++ [entry]).headD head ∈ list :: head :: (l₁ ++ entry :: l₂) := by
    cases l₁ <;> simp
  have hnextMem : l₂.headD head ∈ list :: head :: (l₁ ++ entry :: l₂) :=
    List.mem_cons_of_mem list (rest_subset head entry l₁ l₂ (headD_mem_append head l₁ l₂))
  exact ((eqOff_link L List.mem_cons_self hfirstMem).trans
    (eqOff_link _ hentry List.mem_cons_self)).trans (eqOff_link _ hheadMem hnextMem)

/-! ## What they tell -/

theorem listEmpty_iff (h : L.Ring head l) : listEmpty L head = true ↔ l = [] := by
  rw [listEmpty, decide_eq_true_iff, h.next_head]
  exact headD_eq_iff h.nodup

theorem listIsSingular_iff (h : L.Ring head l) : listIsSingular L head = true ↔ l.length = 1 := by
  rw [listIsSingular, Bool.and_eq_true, Bool.not_eq_true', Bool.eq_false_iff, Ne,
    listEmpty_iff h, decide_eq_true_iff, h.next_head, h.prev_head]
  cases l with
  | nil => simp
  | cons x l =>
      rw [List.headD_cons, List.getLastD_cons]
      cases l with
      | nil => simp
      | cons y l =>
          -- The last entry is not the first one.
          have hlast : (y :: l).getLastD x ∈ y :: l := getLastD_mem (List.cons_ne_nil y l) x
          have hx := (List.nodup_cons.1 (List.nodup_cons.1 h.nodup).2).1
          have hne : x ≠ (y :: l).getLastD x := fun heq => hx (heq.symm ▸ hlast)
          simp only [List.length_cons]
          exact ⟨fun hboth => absurd hboth.2 hne, fun hone => by omega⟩

end Rules

end ListHead
end LinuxLearn
