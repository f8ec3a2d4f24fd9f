import LinuxLearn.ListHead.Functions

/-!
# Runs — `list.h` against lists of nodes

`Step` says what a call means for the lists that it is about, without pointers: where the entry is
put, which lists are joined, which list is gone afterwards.  Its premises are the conditions under
which the comments of `list.h` let the function be called.  In any run of such calls, over any
number of lists in one memory that is not initialised at first, the pointers hold these lists.
-/

namespace LinuxLearn
namespace ListHead

open Lib Lib.Links

variable {α : Type} [DecidableEq α]

/-! ## Calls -/

inductive Op (α : Type)
  | init (list : α)
  | add (new head : α)
  | addTail (new head : α)
  | del (entry : α)
  | delInit (entry : α)
  | replace (old new : α)
  | replaceInit (old new : α)
  | move (list head : α)
  | moveTail (list head : α)
  | rotateLeft (head : α)
  | cutPosition (list head entry : α)
  | splice (list head : α)
  | spliceTail (list head : α)
  | spliceInit (list head : α)
  | spliceTailInit (list head : α)

def Op.call (P : Poison α) (L : Links α) : Op α → Links α
  | .init list => initListHead L list
  | .add new head => listAdd L new head
  | .addTail new head => listAddTail L new head
  | .del entry => listDel P L entry
  | .delInit entry => listDelInit L entry
  | .replace old new => listReplace L old new
  | .replaceInit old new => listReplaceInit L old new
  | .move list head => listMove L list head
  | .moveTail list head => listMoveTail L list head
  | .rotateLeft head => listRotateLeft L head
  | .cutPosition list head entry => listCutPosition L list head entry
  | .splice list head => listSplice L list head
  | .spliceTail list head => listSpliceTail L list head
  | .spliceInit list head => listSpliceInit L list head
  | .spliceTailInit list head => listSpliceTailInit L list head

/-! ## What they mean -/

/-- A call on lists.  A list that has lost its entries without being initialised is forgotten. -/
inductive Step : HeadMap α → Op α → HeadMap α → Prop
  | init {σ list} (hlist : σ.NoEntry list) : Step σ (.init list) (σ.set list [])
  | add {σ new head l} (hl : σ head = some l) (hnew : σ.Fresh new) :
      Step σ (.add new head) (σ.set head (new :: l))
  | addTail {σ new head l} (hl : σ head = some l) (hnew : σ.Fresh new) :
      Step σ (.addTail new head) (σ.set head (l ++ [new]))
  | del {σ entry head l₁ l₂} (hl : σ head = some (l₁ ++ entry :: l₂)) :
      Step σ (.del entry) (σ.set head (l₁ ++ l₂))
  | delInit {σ entry head l₁ l₂} (hl : σ head = some (l₁ ++ entry :: l₂)) :
      Step σ (.delInit entry) ((σ.set head (l₁ ++ l₂)).set entry [])
  | replace {σ old new head l₁ l₂} (hl : σ head = some (l₁ ++ old :: l₂)) (hnew : σ.Fresh new) :
      Step σ (.replace old new) (σ.set head (l₁ ++ new :: l₂))
  | replaceHead {σ old new l} (hl : σ old = some l) (hnew : σ.Fresh new) :
      Step σ (.replace old new) ((σ.forget old).set new l)
  | replaceInit {σ old new head l₁ l₂} (hl : σ head = some (l₁ ++ old :: l₂))
      (hnew : σ.Fresh new) :
      Step σ (.replaceInit old new) ((σ.set head (l₁ ++ new :: l₂)).set old [])
  | replaceInitHead {σ old new l} (hl : σ old = some l) (hnew : σ.Fresh new) :
      Step σ (.replaceInit old new) (((σ.forget old).set new l).set old [])
  | move {σ list head source l₁ l₂ l} (hsource : σ source = some (l₁ ++ list :: l₂))
      (hl : σ.set source (l₁ ++ l₂) head = some l) :
      Step σ (.move list head) ((σ.set source (l₁ ++ l₂)).set head (list :: l))
  | moveTail {σ list head source l₁ l₂ l} (hsource : σ source = some (l₁ ++ list :: l₂))
      (hl : σ.set source (l₁ ++ l₂) head = some l) :
      Step σ (.moveTail list head) ((σ.set source (l₁ ++ l₂)).set head (l ++ [list]))
  | rotateLeft {σ head l} (hl : σ head = some l) :
      Step σ (.rotateLeft head) (σ.set head (l.rotate 1))
  | cutEmpty {σ list head entry} (hl : σ head = some []) : Step σ (.cutPosition list head entry) σ
  | cutHead {σ list head l} (hl : σ head = some l) (hne : l ≠ []) (hlist : σ.NoEntry list)
      (hapart : list ≠ head) : Step σ (.cutPosition list head head) (σ.set list [])
  | cut {σ list head entry l₁ l₂} (hl : σ head = some (l₁ ++ entry :: l₂)) (hlist : σ.NoEntry list)
      (hapart : list ≠ head) :
      Step σ (.cutPosition list head entry) ((σ.set list (l₁ ++ [entry])).set head l₂)
  | spliceEmpty {σ list head} (hm : σ list = some []) : Step σ (.splice list head) σ
  | splice {σ list head m l} (hm : σ list = some m) (hl : σ head = some l) (hne : m ≠ [])
      (hapart : list ≠ head) : Step σ (.splice list head) ((σ.forget list).set head (m ++ l))
  | spliceTailEmpty {σ list head} (hm : σ list = some []) : Step σ (.spliceTail list head) σ
  | spliceTail {σ list head m l} (hm : σ list = some m) (hl : σ head = some l) (hne : m ≠ [])
      (hapart : list ≠ head) : Step σ (.spliceTail list head) ((σ.forget list).set head (l ++ m))
  | spliceInit {σ list head m l} (hm : σ list = some m) (hl : σ head = some l)
      (hapart : list ≠ head) :
      Step σ (.spliceInit list head) ((σ.set head (m ++ l)).set list [])
  | spliceTailInit {σ list head m l} (hm : σ list = some m) (hl : σ head = some l)
      (hapart : list ≠ head) :
      Step σ (.spliceTailInit list head) ((σ.set head (l ++ m)).set list [])

inductive Run : HeadMap α → List (Op α) → HeadMap α → Prop
  | nil (σ : HeadMap α) : Run σ [] σ
  | cons {σ σ' σ'' : HeadMap α} {op : Op α} {ops : List (Op α)} (h : Step σ op σ')
      (h' : Run σ' ops σ'') : Run σ (op :: ops) σ''

/-! ## One call -/

section Calls

variable {P : Poison α} {L L' : Links α} {σ σ' : HeadMap α} {op : Op α}
variable {head entry new old list : α}
variable {l l₁ l₂ m : List α}

theorem rings_init (h : L.Rings σ) (hlist : σ.NoEntry list) :
    (initListHead L list).Rings (σ.set list []) := by
  rcases initListHead_spec L list with ⟨hring, heq⟩
  refine h.set heq (fun k m hk hne x hx hmem => ?_) hring (List.Subset.refl _)
  rcases List.mem_cons.1 hx with rfl | hx
  · exact hne (List.mem_singleton.1 hmem)
  · exact hlist k m hk (List.mem_singleton.1 hmem ▸ hx)

theorem rings_grow (h : L.Rings σ) (hl : σ head = some l) (hnew : σ.Fresh new)
    (heq : EqOff (new :: head :: l) L L') (hring : L'.Ring head m)
    (hsub : head :: m ⊆ new :: head :: l) : L'.Rings (σ.set head m) := by
  refine h.set heq (fun k n hk hne x hx hmem => ?_) hring hsub
  rcases List.mem_cons.1 hmem with rfl | hmem
  · exact hnew k n hk hx
  · exact h.other_notMem hl hk hne hx hmem

theorem rings_add (h : L.Rings σ) (hl : σ head = some l) (hnew : σ.Fresh new) :
    (listAdd L new head).Rings (σ.set head (new :: l)) := by
  rcases listAdd_spec (h.ring head l hl) (hnew head l hl) with ⟨hring, heq⟩
  exact rings_grow h hl hnew heq hring (List.Perm.swap new head l).subset

theorem rings_addTail (h : L.Rings σ) (hl : σ head = some l) (hnew : σ.Fresh new) :
    (listAddTail L new head).Rings (σ.set head (l ++ [new])) := by
  rcases listAddTail_spec (h.ring head l hl) (hnew head l hl) with ⟨hring, heq⟩
  exact rings_grow h hl hnew heq hring (List.perm_append_singleton new (head :: l)).subset

theorem rings_shrink (h : L.Rings σ) (hl : σ head = some l)
    (heq : EqOff (head :: l) L L') (hring : L'.Ring head m)
    (hsub : head :: m ⊆ head :: l) : L'.Rings (σ.set head m) :=
  h.set heq (fun _ _ hk hne _ => h.other_notMem hl hk hne) hring hsub

theorem rings_delEntry (h : L.Rings σ) (hl : σ head = some (l₁ ++ entry :: l₂)) :
    (rawListDelEntry L entry).Rings (σ.set head (l₁ ++ l₂)) ∧
      (σ.set head (l₁ ++ l₂)).Fresh entry := by
  have hold := h.ring head _ hl
  rcases rawListDelEntry_spec hold with ⟨hring, heq⟩
  have hsub := rest_subset head entry l₁ l₂
  refine ⟨rings_shrink h hl (heq.mono hsub) hring hsub, fun k m hk hmem => ?_⟩
  rcases HeadMap.set_eq_some.1 hk with ⟨rfl, rfl⟩ | ⟨hne, hk⟩
  · exact hold.notMem_rest hmem
  · exact h.other_notMem hl hk hne hmem (mem_middle head entry l₁ l₂)

theorem rings_del (h : L.Rings σ) (hl : σ head = some (l₁ ++ entry :: l₂)) :
    (listDel P L entry).Rings (σ.set head (l₁ ++ l₂)) := by
  rcases listDel_spec P (h.ring head _ hl) with ⟨hring, heq⟩
  exact rings_shrink h hl heq hring (rest_subset head entry l₁ l₂)

theorem rings_replace (h : L.Rings σ) (hl : σ head = some (l₁ ++ old :: l₂))
    (hnew : σ.Fresh new) : (listReplace L old new).Rings (σ.set head (l₁ ++ new :: l₂)) := by
  rcases listReplace_entry (h.ring head _ hl) (hnew head _ hl) with ⟨hring, heq⟩
  have hsub : new :: head :: (l₁ ++ l₂) ⊆ new :: head :: (l₁ ++ old :: l₂) :=
    List.cons_subset_cons new (rest_subset head old l₁ l₂)
  refine rings_grow h hl hnew (heq.mono hsub) hring fun x hx => hsub ?_
  have hperm : (head :: (l₁ ++ new :: l₂)).Perm (new :: head :: (l₁ ++ l₂)) :=
    (List.perm_middle.cons head).trans (.swap new head _)
  exact hperm.subset hx

theorem noEntry_replaced (h : L.Rings σ) (hl : σ head = some (l₁ ++ old :: l₂))
    (hnew : σ.Fresh new) : (σ.set head (l₁ ++ new :: l₂)).NoEntry old := by
  intro k m hk hmem
  rcases HeadMap.set_eq_some.1 hk with ⟨rfl, rfl⟩ | ⟨hne, hk⟩
  · have hrest : new = old ∨ old ∈ l₁ ++ l₂ := by
      simp only [List.mem_append, List.mem_cons] at hmem ⊢
      rcases hmem with hmem | rfl | hmem
      · exact .inr (.inl hmem)
      · exact .inl rfl
      · exact .inr (.inr hmem)
    rcases hrest with rfl | hrest
    · exact hnew k _ hl (mem_middle k new l₁ l₂)
    · exact (h.ring k _ hl).notMem_rest (List.mem_cons_of_mem k hrest)
  · exact h.other_notMem hl hk hne (List.mem_cons_of_mem k hmem) (mem_middle head old l₁ l₂)

theorem noEntry_replacedHead (h : L.Rings σ) (hl : σ old = some l) :
    ((σ.forget old).set new l).NoEntry old := by
  intro k m hk hmem
  rcases HeadMap.set_eq_some.1 hk with ⟨rfl, rfl⟩ | ⟨-, hk⟩
  · exact (List.nodup_cons.1 (h.ring old m hl).nodup).1 hmem
  · exact h.noEntry hl k m (HeadMap.forget_eq_some.1 hk).2 hmem

theorem rings_replaceHead (h : L.Rings σ) (hl : σ old = some l) (hnew : σ.Fresh new) :
    (listReplace L old new).Rings ((σ.forget old).set new l) := by
  rcases listReplace_head (h.ring old l hl) (hnew old l hl) with ⟨hring, heq⟩
  refine (h.forget old).set heq (fun k m hk _ x hx hmem => ?_) hring
    (List.cons_subset_cons new (List.subset_cons_self old l))
  rcases HeadMap.forget_eq_some.1 hk with ⟨hne, hk⟩
  rcases List.mem_cons.1 hmem with rfl | hmem
  · exact hnew k m hk hx
  · exact h.other_notMem hl hk hne hx hmem

/-- The two lists become one at the head; the other head has no list now. -/
theorem rings_splice (h : L.Rings σ) (hm : σ list = some m) (hl : σ head = some (l₁ ++ l₂))
    (hne : m ≠ []) (hapart : list ≠ head) :
    (rawListSplice L list (l₁.getLastD head) (l₂.headD head)).Rings
        ((σ.forget list).set head (l₁ ++ m ++ l₂)) ∧
      ((σ.forget list).set head (l₁ ++ m ++ l₂)).NoEntry list := by
  have hring := h.ring head _ hl
  have hlist := h.ring list m hm
  rcases rawListSplice_spec hring hlist hne fun x hx =>
    h.other_notMem hl hm hapart (List.mem_cons_of_mem list hx) with ⟨hnew, heq⟩
  have hperm : (head :: (l₁ ++ m ++ l₂)).Perm (m ++ head :: (l₁ ++ l₂)) := by
    rw [List.append_assoc]
    exact ((List.perm_append_comm_assoc l₁ m l₂).cons head).trans List.perm_middle.symm
  refine ⟨(h.forget list).set heq (fun k n hk hkh x hx hmem => ?_) hnew hperm.subset,
    fun k n hk hmem => ?_⟩
  · rcases HeadMap.forget_eq_some.1 hk with ⟨hkl, hk⟩
    rcases List.mem_append.1 hmem with hmem | hmem
    · exact h.other_notMem hm hk hkl hx (List.mem_cons_of_mem list hmem)
    · exact h.other_notMem hl hk hkh hx hmem
  · rcases HeadMap.set_eq_some.1 hk with ⟨rfl, rfl⟩ | ⟨-, hk⟩
    · have hmem' := hperm.subset (List.mem_cons_of_mem k hmem)
      rcases List.mem_append.1 hmem' with hmem' | hmem'
      · exact (List.nodup_cons.1 hlist.nodup).1 hmem'
      · exact h.other_notMem hl hm hapart List.mem_cons_self hmem'
    · exact h.noEntry hm k n (HeadMap.forget_eq_some.1 hk).2 hmem

theorem rings_cut (h : L.Rings σ) (hl : σ head = some (l₁ ++ entry :: l₂)) (hlist : σ.NoEntry list)
    (hapart : list ≠ head) :
    (rawListCutPosition L list head entry).Rings
      ((σ.set list (l₁ ++ [entry])).set head l₂) := by
  have hring := h.ring head _ hl
  have hfresh : list ∉ head :: (l₁ ++ entry :: l₂) := fun hmem => by
    rcases List.mem_cons.1 hmem with heq | hmem
    · exact hapart heq
    · exact hlist head _ hl hmem
  rcases rawListCutPosition_spec hring hfresh with ⟨hnew, hrest, heq⟩
  have hall : (head :: (l₁ ++ [entry]) ++ l₂).Nodup := by
    simpa using hring.nodup
  have hsplit : ∀ x ∈ head :: l₂, x ∉ l₁ ++ [entry] := by
    rcases List.nodup_append.1 hall with ⟨hfront, -, hboth⟩
    refine List.forall_mem_cons.2 ⟨(List.nodup_cons.1 hfront).1, fun x hx hmem => ?_⟩
    exact hboth x (List.mem_cons_of_mem head hmem) x hx rfl
  have hback : head :: l₂ ⊆ head :: (l₁ ++ entry :: l₂) :=
    List.cons_subset_cons head fun x hx => List.mem_append_right l₁ (List.mem_cons_of_mem entry hx)
  have hother : ∀ k n, σ k = some n → k ≠ list → list ∉ k :: n := fun k n hk hne hmem => by
    rcases List.mem_cons.1 hmem with heq | hmem
    · exact hne heq.symm
    · exact hlist k n hk hmem
  -- First the new list is there and that at `head` is not, then both are.
  have hfirst : (rawListCutPosition L list head entry).Rings
      ((σ.forget head).set list (l₁ ++ [entry])) := by
    refine (h.forget head).set heq (fun k n hk hne x hx hmem => ?_) hnew ?_
    · rcases HeadMap.forget_eq_some.1 hk with ⟨hkh, hk⟩
      rcases List.mem_cons.1 hmem with rfl | hmem
      · exact hother k n hk hne hx
      · exact h.other_notMem hl hk hkh hx hmem
    · refine List.cons_subset_cons list fun x hx => ?_
      simp only [List.mem_cons, List.mem_append, List.not_mem_nil, or_false] at hx ⊢
      exact .inr (hx.imp_right .inl)
  have hboth := hfirst.set (eqOff_refl (head :: l₂) _) (fun k n hk hne x hx hmem => ?_) hrest
    (List.Subset.refl _)
  · rwa [HeadMap.forget_set_set] at hboth
  · rcases HeadMap.set_eq_some.1 hk with ⟨rfl, rfl⟩ | ⟨-, hk⟩
    · rcases List.mem_cons.1 hx with rfl | hx
      · exact hfresh (hback hmem)
      · exact hsplit x hmem hx
    · exact h.other_notMem hl (HeadMap.forget_eq_some.1 hk).2 hne hx (hback hmem)

theorem rings_rotateLeft (h : L.Rings σ) (hl : σ head = some l) :
    (listRotateLeft L head).Rings (σ.set head (l.rotate 1)) := by
  have hring := h.ring head l hl
  rw [listRotateLeft]
  cases l with
  | nil =>
      rw [if_pos ((listEmpty_iff hring).2 rfl), List.rotate_nil, HeadMap.set_same hl]
      exact h
  | cons x l =>
      have hempty : ¬ listEmpty L head = true := fun hnil =>
        List.cons_ne_nil x l ((listEmpty_iff hring).1 hnil)
      rcases rings_delEntry h (show σ head = some ([] ++ x :: l) from hl) with ⟨hdel, hfresh⟩
      have hadd := rings_addTail hdel (σ.set_self head l) hfresh
      rw [HeadMap.set_set] at hadd
      rw [if_neg hempty, hring.next_head, List.headD_cons, List.rotate_cons_succ, List.rotate_zero]
      exact hadd

theorem rings_cutPosition (h : L.Rings σ) (hl : σ head = some (l₁ ++ entry :: l₂))
    (hlist : σ.NoEntry list) (hapart : list ≠ head) :
    (listCutPosition L list head entry).Rings ((σ.set list (l₁ ++ [entry])).set head l₂) := by
  have hring := h.ring head _ hl
  have hempty : ¬ listEmpty L head = true := fun hnil =>
    List.append_ne_nil_of_right_ne_nil l₁ (List.cons_ne_nil entry l₂) ((listEmpty_iff hring).1 hnil)
  have hentry : entry ≠ head := fun heq => hring.notMem_rest (heq ▸ List.mem_cons_self)
  have hsingular : ¬ (listIsSingular L head ∧ L.next head ≠ entry ∧ head ≠ entry) := by
    rintro ⟨hone, hnext, -⟩
    have hlength := (listIsSingular_iff hring).1 hone
    rw [List.length_append, List.length_cons] at hlength
    have hnil : l₁ = [] := List.eq_nil_of_length_eq_zero (by omega)
    rw [hring.next_head, hnil] at hnext
    exact hnext rfl
  rw [listCutPosition, if_neg hempty, if_neg hsingular, if_neg hentry]
  exact rings_cut h hl hlist hapart

theorem rings_cutHead (h : L.Rings σ) (hl : σ head = some l) (hne : l ≠ [])
    (hlist : σ.NoEntry list) : (listCutPosition L list head head).Rings (σ.set list []) := by
  have hempty : ¬ listEmpty L head = true := fun hnil =>
    hne ((listEmpty_iff (h.ring head l hl)).1 hnil)
  have hsingular : ¬ (listIsSingular L head ∧ L.next head ≠ head ∧ head ≠ head) :=
    fun hboth => hboth.2.2 rfl
  rw [listCutPosition, if_neg hempty, if_neg hsingular, if_pos rfl]
  exact rings_init h hlist

/-- At the front of the other list, or at its end. -/
theorem rings_spliceFront (h : L.Rings σ) (hm : σ list = some m) (hl : σ head = some l)
    (hne : m ≠ []) (hapart : list ≠ head) :
    (rawListSplice L list head (L.next head)).Rings ((σ.forget list).set head (m ++ l)) ∧
      ((σ.forget list).set head (m ++ l)).NoEntry list := by
  rw [(h.ring head l hl).next_head]
  exact rings_splice h hm (show σ head = some ([] ++ l) from hl) hne hapart

theorem rings_spliceBack (h : L.Rings σ) (hm : σ list = some m) (hl : σ head = some l)
    (hne : m ≠ []) (hapart : list ≠ head) :
    (rawListSplice L list (L.prev head) head).Rings ((σ.forget list).set head (l ++ m)) ∧
      ((σ.forget list).set head (l ++ m)).NoEntry list := by
  rw [(h.ring head l hl).prev_head]
  rw [← List.append_nil l] at hl
  have hsplice := rings_splice h hm hl hne hapart
  rw [List.append_nil] at hsplice
  exact hsplice

/-- The emptied list is initialised again. -/
theorem rings_reinit {f : Links α} {n : List α} (h : f.Rings ((σ.forget list).set head n))
    (hlist : ((σ.forget list).set head n).NoEntry list) :
    (initListHead f list).Rings ((σ.set head n).set list []) := by
  have hinit := rings_init h hlist
  rwa [HeadMap.forget_set_set] at hinit

theorem set_empty (hm : σ list = some []) (hl : σ head = some l) :
    (σ.set head l).set list [] = σ := by
  rw [HeadMap.set_same hl, HeadMap.set_same hm]

/-! ## Any call, and any run -/

theorem step_rings (h : Step σ op σ') (hL : L.Rings σ) : (op.call P L).Rings σ' := by
  cases h with
  | init hlist => exact rings_init hL hlist
  | add hl hnew => exact rings_add hL hl hnew
  | addTail hl hnew => exact rings_addTail hL hl hnew
  | del hl => exact rings_del hL hl
  | delInit hl =>
      rcases rings_delEntry hL hl with ⟨hdel, hfresh⟩
      exact rings_init hdel hfresh.noEntry
  | replace hl hnew => exact rings_replace hL hl hnew
  | replaceHead hl hnew => exact rings_replaceHead hL hl hnew
  | replaceInit hl hnew =>
      exact rings_init (rings_replace hL hl hnew) (noEntry_replaced hL hl hnew)
  | replaceInitHead hl hnew =>
      exact rings_init (rings_replaceHead hL hl hnew) (noEntry_replacedHead hL hl)
  | move hsource hl =>
      rcases rings_delEntry hL hsource with ⟨hdel, hfresh⟩
      exact rings_add hdel hl hfresh
  | moveTail hsource hl =>
      rcases rings_delEntry hL hsource with ⟨hdel, hfresh⟩
      exact rings_addTail hdel hl hfresh
  | rotateLeft hl => exact rings_rotateLeft hL hl
  | cutEmpty hl =>
      rw [Op.call, listCutPosition, if_pos ((listEmpty_iff (hL.ring _ _ hl)).2 rfl)]
      exact hL
  | cutHead hl hne hlist _ => exact rings_cutHead hL hl hne hlist
  | cut hl hlist hapart => exact rings_cutPosition hL hl hlist hapart
  | spliceEmpty hm =>
      rw [Op.call, listSplice, if_pos ((listEmpty_iff (hL.ring _ _ hm)).2 rfl)]
      exact hL
  | splice hm hl hne hapart =>
      rw [Op.call, listSplice, if_neg fun hnil => hne ((listEmpty_iff (hL.ring _ _ hm)).1 hnil)]
      exact (rings_spliceFront hL hm hl hne hapart).1
  | spliceTailEmpty hm =>
      rw [Op.call, listSpliceTail, if_pos ((listEmpty_iff (hL.ring _ _ hm)).2 rfl)]
      exact hL
  | spliceTail hm hl hne hapart =>
      rw [Op.call, listSpliceTail, if_neg fun hnil => hne ((listEmpty_iff (hL.ring _ _ hm)).1 hnil)]
      exact (rings_spliceBack hL hm hl hne hapart).1
  | spliceInit hm hl hapart =>
      rename_i list head m l
      rw [Op.call, listSpliceInit]
      by_cases hne : m = []
      · subst hne
        rw [if_pos ((listEmpty_iff (hL.ring _ _ hm)).2 rfl), List.nil_append,
          set_empty hm hl]
        exact hL
      · rw [if_neg fun hnil => hne ((listEmpty_iff (hL.ring _ _ hm)).1 hnil)]
        rcases rings_spliceFront hL hm hl hne hapart with ⟨hrings, hlist⟩
        exact rings_reinit hrings hlist
  | spliceTailInit hm hl hapart =>
      rename_i list head m l
      rw [Op.call, listSpliceTailInit]
      by_cases hne : m = []
      · subst hne
        rw [if_pos ((listEmpty_iff (hL.ring _ _ hm)).2 rfl), List.append_nil,
          set_empty hm hl]
        exact hL
      · rw [if_neg fun hnil => hne ((listEmpty_iff (hL.ring _ _ hm)).1 hnil)]
        rcases rings_spliceBack hL hm hl hne hapart with ⟨hrings, hlist⟩
        exact rings_reinit hrings hlist

theorem run_rings {ops : List (Op α)} (h : Run σ ops σ') (hL : L.Rings σ) :
    (ops.foldl (Op.call P) L).Rings σ' := by
  induction h generalizing L with
  | nil σ => exact hL
  | cons h _ ih => exact ih (step_rings h hL)

end Calls

end ListHead
end LinuxLearn
