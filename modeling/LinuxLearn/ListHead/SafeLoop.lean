import LinuxLearn.ListHead.Runs

/-!
# SafeLoop — `list_for_each_safe`

The loop reads the next pointer before its body runs, so the body may take the current entry away.
`distribute_safe` is about a body that leaves the entry, deletes it with either function or moves it
to the end of another list, for each entry as it likes: the loop sees every entry once, and each
list gets what was meant for it.
-/

namespace LinuxLearn
namespace ListHead

open Lib Lib.Links

variable {α : Type} [DecidableEq α]

/-- What a body does with an entry. -/
inductive Fate (α : Type)
  | keep
  | del
  | delInit
  | moveTail (head : α)
  deriving DecidableEq

def Fate.body (P : Poison α) (fate : α → Fate α) (L : Links α) (pos : α) : Links α :=
  match fate pos with
  | .keep => L
  | .del => listDel P L pos
  | .delInit => listDelInit L pos
  | .moveTail head => listMoveTail L pos head

/-- The lists when the loop over `head` has seen `seen` and has `rest` in front of it.  An entry
that `list_del_init` has deleted is the head of an empty list. -/
def distribute (fate : α → Fate α) (σ : HeadMap α) (head : α) (seen rest : List α) : HeadMap α :=
  fun k =>
    if k = head then some (seen.filter (fun x => fate x = .keep) ++ rest)
    else
      match σ k with
      | some m => some (m ++ seen.filter fun x => fate x = .moveTail k)
      | none => if k ∈ seen ∧ fate k = .delInit then some [] else none

section Distribute

variable {P : Poison α} {fate : α → Fate α} {L : Links α} {σ : HeadMap α} {head x k : α}
variable {seen rest m : List α}

theorem distribute_head :
    distribute fate σ head seen rest head =
      some (seen.filter (fun x => fate x = .keep) ++ rest) :=
  if_pos rfl

theorem distribute_list (hk : k ≠ head) (hm : σ k = some m) :
    distribute fate σ head seen rest k =
      some (m ++ seen.filter fun x => fate x = .moveTail k) := by
  simp only [distribute, hk, if_false, hm]

theorem distribute_none (hk : k ≠ head) (hm : σ k = none) :
    distribute fate σ head seen rest k =
      if k ∈ seen ∧ fate k = .delInit then some [] else none := by
  simp only [distribute, hk, if_false, hm]

/-- An entry that is not kept leaves the list of the loop. -/
theorem distribute_head_snoc (h : fate x ≠ .keep) :
    distribute fate σ head (seen ++ [x]) rest head =
      some (seen.filter (fun x => fate x = .keep) ++ rest) := by
  rw [distribute_head]
  simp [h]

/-- Another turn changes the list of the loop, and at most one more: the one that the entry goes
to. -/
theorem distribute_snoc (hk : k ≠ head) (hinit : fate x = .delInit → k ≠ x)
    (hmove : fate x ≠ .moveTail k) :
    distribute fate σ head (seen ++ [x]) rest k = distribute fate σ head seen (x :: rest) k := by
  cases hm : σ k with
  | some m =>
      rw [distribute_list hk hm, distribute_list hk hm]
      simp [hmove]
  | none =>
      have hsame : (k ∈ seen ++ [x] ∧ fate k = .delInit) ↔ (k ∈ seen ∧ fate k = .delInit) := by
        rw [List.mem_append, List.mem_singleton]
        constructor
        · rintro ⟨hmem | rfl, hfate⟩
          · exact ⟨hmem, hfate⟩
          · exact absurd rfl (hinit hfate)
        · exact fun hboth => ⟨.inl hboth.1, hboth.2⟩
      rw [distribute_none hk hm, distribute_none hk hm, if_congr hsame rfl rfl]

/-- An entry that is left alone. -/
theorem distribute_keep (h : fate x = .keep) :
    distribute fate σ head (seen ++ [x]) rest = distribute fate σ head seen (x :: rest) := by
  funext k
  by_cases hk : k = head
  · rw [hk, distribute_head, distribute_head]
    simp [h]
  · exact distribute_snoc hk (by simp [h]) (by simp [h])

theorem distribute_del (h : fate x = .del) :
    distribute fate σ head (seen ++ [x]) rest =
      (distribute fate σ head seen (x :: rest)).set head
        (seen.filter (fun x => fate x = .keep) ++ rest) := by
  funext k
  by_cases hk : k = head
  · rw [hk, distribute_head_snoc (by simp [h]), HeadMap.set_self]
  · rw [HeadMap.set_of_ne _ _ hk]
    exact distribute_snoc hk (by simp [h]) (by simp [h])

theorem distribute_delInit (h : fate x = .delInit) (hx : x ≠ head) (hnone : σ x = none) :
    distribute fate σ head (seen ++ [x]) rest =
      ((distribute fate σ head seen (x :: rest)).set head
        (seen.filter (fun x => fate x = .keep) ++ rest)).set x [] := by
  funext k
  by_cases hkx : k = x
  · rw [hkx, HeadMap.set_self, distribute_none hx hnone, if_pos ⟨by simp, h⟩]
  · rw [HeadMap.set_of_ne _ _ hkx]
    by_cases hk : k = head
    · rw [hk, distribute_head_snoc (by simp [h]), HeadMap.set_self]
    · rw [HeadMap.set_of_ne _ _ hk]
      exact distribute_snoc hk (fun _ => hkx) (by simp [h])

theorem distribute_move (h : fate x = .moveTail k) (hk : k ≠ head) (hm : σ k = some m) :
    distribute fate σ head (seen ++ [x]) rest =
      ((distribute fate σ head seen (x :: rest)).set head
        (seen.filter (fun x => fate x = .keep) ++ rest)).set k
          (m ++ seen.filter (fun x => fate x = .moveTail k) ++ [x]) := by
  funext i
  by_cases hik : i = k
  · subst hik
    rw [distribute_list hk hm, HeadMap.set_self]
    simp [h]
  · rw [HeadMap.set_of_ne _ _ hik]
    by_cases hi : i = head
    · rw [hi, distribute_head_snoc (by simp [h]), HeadMap.set_self]
    · rw [HeadMap.set_of_ne _ _ hi]
      exact distribute_snoc hi (by simp [h]) (by simp [h, Ne.symm hik])

/-- No entry in front of the loop is the head of a list. -/
theorem eq_none_of_rings (h : L.Rings (distribute fate σ head seen (x :: rest))) :
    x ≠ head ∧ σ x = none := by
  have hmem : x ∈ seen.filter (fun x => fate x = .keep) ++ x :: rest := by simp
  have hne : x ≠ head := by
    rintro rfl
    exact h.noEntry distribute_head x _ distribute_head hmem
  refine ⟨hne, Option.eq_none_iff_forall_not_mem.2 fun m hm => ?_⟩
  exact h.noEntry (distribute_list hne hm) head _ distribute_head hmem

theorem rings_body (h : L.Rings (distribute fate σ head seen (x :: rest)))
    (hfate : ∀ k, fate x = .moveTail k → k ≠ head ∧ (σ k).isSome = true) :
    (Fate.body P fate L x).Rings (distribute fate σ head (seen ++ [x]) rest) := by
  have hhead : distribute fate σ head seen (x :: rest) head =
      some (seen.filter (fun x => fate x = .keep) ++ x :: rest) := distribute_head
  rcases rings_delEntry h hhead with ⟨hdel, hfresh⟩
  rw [Fate.body]
  cases hx : fate x with
  | keep =>
      rw [distribute_keep hx]
      exact h
  | del =>
      rw [distribute_del hx]
      exact rings_del h hhead
  | delInit =>
      rcases eq_none_of_rings h with ⟨hne, hnone⟩
      rw [distribute_delInit hx hne hnone]
      exact rings_init hdel hfresh.noEntry
  | moveTail k =>
      rcases hfate k hx with ⟨hk, hsome⟩
      rcases Option.isSome_iff_exists.1 hsome with ⟨m, hm⟩
      rw [distribute_move hx hk hm]
      refine rings_addTail hdel ?_ hfresh
      rw [HeadMap.set_of_ne _ _ hk, distribute_list hk hm]

/-- The turns that are left see the entries that are left. -/
theorem safeLoop_eq (h : L.Rings (distribute fate σ head seen rest))
    (hfate : ∀ x ∈ rest, ∀ k, fate x = .moveTail k → k ≠ head ∧ (σ k).isSome = true) {n : Nat}
    (hn : rest.length < n) :
    ∃ L', safeLoop (Fate.body P fate) head n L (rest.headD head) (L.next (rest.headD head)) =
        some (L', rest) ∧
      L'.Rings (distribute fate σ head (seen ++ rest) []) := by
  induction rest generalizing L seen n with
  | nil =>
      obtain ⟨n, rfl⟩ : ∃ k, n = k + 1 := ⟨n - 1, by omega⟩
      rw [List.append_nil]
      exact ⟨L, if_pos rfl, h⟩
  | cons x rest ih =>
      obtain ⟨n, rfl⟩ : ∃ k, n = k + 1 := ⟨n - 1, by omega⟩
      rw [List.length_cons] at hn
      have hring := h.ring head _ distribute_head
      have hx : x ≠ head := fun heq => hring.notMem_rest (heq ▸ List.mem_cons_self)
      -- The pointer was read before the body, but it is still right.
      have hnext : L.next x = rest.headD head := hring.next_mem
      rcases ih (rings_body (P := P) h (hfate x List.mem_cons_self))
        (fun y hy => hfate y (List.mem_cons_of_mem x hy)) (n := n) (by omega) with
        ⟨L', hloop, hrings⟩
      refine ⟨L', ?_, by simpa using hrings⟩
      rw [List.headD_cons, safeLoop, if_neg hx, hnext]
      simp only [hloop]
      rfl

end Distribute

/-- The loop sees each entry once, whatever its body does with the entry. -/
theorem distribute_safe (P : Poison α) {fate : α → Fate α} {L : Links α} {σ : HeadMap α} {head : α}
    {l : List α} (h : L.Rings σ) (hl : σ head = some l)
    (hfate : ∀ x ∈ l, ∀ k, fate x = .moveTail k → k ≠ head ∧ (σ k).isSome = true) {n : Nat}
    (hn : l.length < n) :
    ∃ L', listForEachSafe (Fate.body P fate) L head n = some (L', l) ∧
      L'.Rings (distribute fate σ head l []) := by
  have hnone : distribute fate σ head [] l = σ := by
    funext k
    by_cases hk : k = head
    · rw [hk, distribute_head, hl]
      rfl
    · cases hm : σ k with
      | some m => simp [distribute_list hk hm]
      | none => simp [distribute_none hk hm]
  have hrings : L.Rings (distribute fate σ head [] l) := by
    rwa [hnone]
  have hloop := safeLoop_eq (P := P) hrings hfate hn
  rw [listForEachSafe, (h.ring head l hl).next_head]
  exact hloop

theorem distribute_safe_three : ∃ L',
    listForEachSafe
        (Fate.body ⟨100, 200⟩ fun x =>
          if x = 1 then .delInit else if x = 2 then .moveTail 9 else .keep)
        (([.init 0, .init 9, .add 3 0, .add 2 0, .add 1 0] : List (Op Nat)).foldl
          (Op.call ⟨100, 200⟩) ⟨fun _ => 7, fun _ => 7⟩) 0 4 = some (L', [1, 2, 3]) ∧
      L'.Rings (distribute
        (fun x => if x = 1 then .delInit else if x = 2 then .moveTail 9 else .keep)
        (((((HeadMap.set (fun _ => none) 0 []).set 9 []).set 0 [3]).set 0 [2, 3]).set 0 [1, 2, 3]) 0
        [1, 2, 3] []) := by
  have hfresh : ∀ a : Nat, a ≠ 0 → a ≠ 9 →
      ((HeadMap.set (fun _ => none) 0 []).set 9 []).Fresh a := fun a h0 h9 =>
    ((fresh_none a).set (by simpa using h0)).set (by simpa using h9)
  refine distribute_safe ⟨100, 200⟩
    (run_rings (.cons (.init (fresh_none 0).noEntry)
      (.cons (.init ((fresh_none 9).set (by decide)).noEntry)
        (.cons (.add rfl (hfresh 3 (by decide) (by decide)))
          (.cons (.add rfl ((hfresh 2 (by decide) (by decide)).set (by decide)))
            (.cons (.add rfl (((hfresh 1 (by decide) (by decide)).set (by decide)).set (by decide)))
              (.nil _)))))) (rings_none _)) rfl (fun x _ k hk => ?_) (by decide)
  have hnine : k = 9 := by
    split at hk
    · cases hk
    · split at hk
      · exact (Fate.moveTail.inj hk).symm
      · cases hk
  subst hnine
  exact ⟨by decide, rfl⟩

end ListHead
end LinuxLearn
