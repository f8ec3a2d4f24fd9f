import LinuxLearn.Lib.Threads

/-!
# Tickets — the ticket windows of `mutex_test.c`

Several windows sell tickets from one counter.  Each window takes the mutex, sells a ticket if
there is one left, and releases the mutex; when it finds no ticket, it leaves the loop and then
releases the mutex once more, which it does not hold any longer.  Such a release lets the mutex go
whoever holds it.

The functions `tprocess1` to `tprocess4` are the same up to the number of the window that they
print.  Here any number of threads runs this loop.
-/

namespace LinuxLearn
namespace MutexTest

open Lib

/-! ## The loop -/

/-- Where a window stands in its loop. -/
inductive Pc
  | lock
  /-- `if(tickets>0)` -/
  | test
  /-- `tickets--` and the message -/
  | sell
  | unlock (a : Bool)
  /-- the release after the loop -/
  | unlockAgain
  | returned
  deriving DecidableEq, Repr

structure Shared (n : Nat) where
  tickets : Int
  owner : Option (Fin n)
  /-- the messages: the window and the number of tickets that it prints -/
  sold : List (Fin n × Int)
  deriving DecidableEq, Repr

inductive Stop
  | blocked
  | returned
  deriving DecidableEq, Repr

def tprocess {n : Nat} (i : Fin n) (s : Shared n) : Pc → Except Stop (Shared n × Pc)
  | .lock => if s.owner = none then .ok ({ s with owner := some i }, .test) else .error .blocked
  | .test => if 0 < s.tickets then .ok (s, .sell) else .ok (s, .unlock true)
  | .sell =>
      let tickets := s.tickets - 1
      .ok ({ s with tickets := tickets, sold := s.sold ++ [(i, tickets)] }, .unlock false)
  | .unlock a => .ok ({ s with owner := none }, if a then .unlockAgain else .lock)
  | .unlockAgain => .ok ({ s with owner := none }, .returned)
  | .returned => .error .returned

/-- `n` windows with some tickets. -/
def windows (tickets n : Nat) : Threads (Fin n) (Shared n) Pc Unit Stop where
  shared := ⟨tickets, none, []⟩
  start _ := .lock
  step i s pc _ := tprocess i s pc

abbrev State (n : Nat) := Config (Fin n) (Shared n) Pc

/-- Between `pthread_mutex_lock` and the matching `pthread_mutex_unlock`. -/
def Pc.Inside : Pc → Prop
  | test | sell | unlock _ => True
  | _ => False

/-- Out of tickets. -/
def Pc.Ending : Pc → Prop
  | unlock a => a = true
  | unlockAgain | returned => True
  | _ => False

/-- Behind the loop. -/
def Pc.LeftLoop : Pc → Prop
  | unlockAgain | returned => True
  | _ => False

theorem Pc.LeftLoop.ending {pc : Pc} (h : pc.LeftLoop) : pc.Ending := by
  cases pc with
  | unlockAgain => trivial
  | returned => trivial
  | _ => exact h.elim

/-! ## What a step does -/

/-- The steps of a window, one for each way through the loop. -/
inductive Effect {n : Nat} (i : Fin n) (s : Shared n) : Pc → Shared n → Pc → Prop
  | lock (hfree : s.owner = none) : Effect i s .lock { s with owner := some i } .test
  | left (hpos : 0 < s.tickets) : Effect i s .test s .sell
  | soldOut (hzero : ¬ 0 < s.tickets) : Effect i s .test s (.unlock true)
  | sell : Effect i s .sell
      { s with tickets := s.tickets - 1, sold := s.sold ++ [(i, s.tickets - 1)] } (.unlock false)
  | unlock : Effect i s (.unlock false) { s with owner := none } .lock
  | unlockLast : Effect i s (.unlock true) { s with owner := none } .unlockAgain
  | unlockAgain : Effect i s .unlockAgain { s with owner := none } .returned

theorem step_effect {n : Nat} {i : Fin n} {s s' : Shared n} {pc pc' : Pc}
    (h : tprocess i s pc = .ok (s', pc')) : Effect i s pc s' pc' := by
  cases pc with
  | lock =>
      simp only [tprocess] at h
      split at h
      · rename_i hfree
        cases h
        exact .lock hfree
      · cases h
  | test =>
      simp only [tprocess] at h
      split at h
      · rename_i hpos
        cases h
        exact .left hpos
      · rename_i hzero
        cases h
        exact .soldOut hzero
  | sell =>
      cases h
      exact .sell
  | unlock a =>
      cases a with
      | false =>
          cases h
          exact .unlock
      | true =>
          cases h
          exact .unlockLast
  | unlockAgain =>
      cases h
      exact .unlockAgain
  | returned => cases h

/-! ## Conservation -/

/-- No ticket is sold twice or out of thin air, and in the end all of them are sold. -/
structure Conserved (tickets : Nat) {n : Nat} (c : State n) : Prop where
  nonneg : 0 ≤ c.shared.tickets
  distinct : (c.shared.sold.map Prod.snd).Nodup
  count : (c.shared.sold.length : Int) + c.shared.tickets = tickets
  soldOut : 0 < n → (∀ i, (c.locals i).LeftLoop) → c.shared.sold.length = tickets

/-- The messages count the tickets down. -/
structure Counted (tickets : Nat) {n : Nat} (s : Shared n) : Prop where
  nonneg : 0 ≤ s.tickets
  count : (s.sold.length : Int) + s.tickets = tickets
  distinct : (s.sold.map Prod.snd).Nodup
  above : ∀ x ∈ s.sold, s.tickets ≤ x.2

/-- What a window relies on.  The mutex protects it only while there are tickets: a window that
leaves the loop may release it for the others, but by then nobody can sell any more. -/
def WindowOk {n : Nat} (i : Fin n) (s : Shared n) (pc : Pc) : Prop :=
  (pc = .sell → 0 < s.tickets) ∧ (pc.Ending → s.tickets = 0) ∧
    (0 < s.tickets → pc.Inside → s.owner = some i)

section Kept

variable {tickets n : Nat} {i j : Fin n} {s s' : Shared n} {pc pc' pcj : Pc}

theorem Counted.sell (h : Counted tickets s) (hpos : 0 < s.tickets) (i : Fin n) :
    Counted tickets
      { s with tickets := s.tickets - 1, sold := s.sold ++ [(i, s.tickets - 1)] } := by
  have hcount := h.count
  refine ⟨by dsimp only; omega, ?_, ?_, ?_⟩
  · simp only [List.length_append, List.length_singleton]
    push_cast
    omega
  · -- The number printed is below all the numbers before.
    have hnotin : s.tickets - 1 ∉ s.sold.map Prod.snd := by
      intro hmem
      rcases List.mem_map.1 hmem with ⟨x, hx, heq⟩
      have hle := h.above x hx
      omega
    simp only [List.map_append, List.map_singleton]
    rw [List.nodup_append]
    refine ⟨h.distinct, List.nodup_singleton _, ?_⟩
    rintro a ha b hb rfl
    exact hnotin (List.mem_singleton.1 hb ▸ ha)
  · intro x hx
    rcases List.mem_append.1 hx with hold | hnew
    · have hle := h.above x hold
      dsimp only
      omega
    · cases List.mem_singleton.1 hnew
      exact le_rfl

theorem windowOk_own (hG : Counted tickets s) (hA : WindowOk i s pc) (h : Effect i s pc s' pc') :
    Counted tickets s' ∧ WindowOk i s' pc' := by
  rcases hA with ⟨hsell, hending, howner⟩
  have hnonneg := hG.nonneg
  cases h with
  | lock hfree =>
      exact ⟨⟨hG.nonneg, hG.count, hG.distinct, hG.above⟩, fun h => (nomatch h), fun h => h.elim,
        fun _ _ => rfl⟩
  | left hpos =>
      exact ⟨hG, fun _ => hpos, fun h => h.elim, fun _ _ => howner hpos trivial⟩
  | soldOut hzero =>
      -- The window holds the counter at zero.
      exact ⟨hG, fun h => (nomatch h), fun _ => by omega, fun hpos => absurd hpos hzero⟩
  | sell =>
      have hpos := hsell rfl
      exact ⟨hG.sell hpos i, fun h => (nomatch h), fun h => (nomatch h),
        fun _ _ => howner hpos trivial⟩
  | unlock =>
      exact ⟨⟨hG.nonneg, hG.count, hG.distinct, hG.above⟩, fun h => (nomatch h), fun h => h.elim,
        fun _ h => h.elim⟩
  | unlockLast =>
      exact ⟨⟨hG.nonneg, hG.count, hG.distinct, hG.above⟩, fun h => (nomatch h),
        fun _ => hending rfl, fun _ h => h.elim⟩
  | unlockAgain =>
      exact ⟨⟨hG.nonneg, hG.count, hG.distinct, hG.above⟩, fun h => (nomatch h),
        fun _ => hending trivial, fun _ h => h.elim⟩

theorem windowOk_other (hij : i ≠ j) (hA : WindowOk i s pc) (hB : WindowOk j s pcj)
    (h : Effect i s pc s' pc') : WindowOk j s' pcj := by
  rcases hA with ⟨hsell, hending, howner⟩
  rcases hB with ⟨hsellj, hendingj, hownerj⟩
  -- While there are tickets, at most one window is inside.
  have halone : 0 < s.tickets → pc.Inside → ¬ pcj.Inside := by
    intro hpos hin hinj
    exact hij (Option.some.inj ((howner hpos hin).symm.trans (hownerj hpos hinj)))
  cases h with
  | lock hfree =>
      refine ⟨hsellj, hendingj, fun hpos hinj => ?_⟩
      cases hfree.symm.trans (hownerj hpos hinj)
  | left hpos => exact ⟨hsellj, hendingj, hownerj⟩
  | soldOut hzero => exact ⟨hsellj, hendingj, hownerj⟩
  | sell =>
      have hpos := hsell rfl
      have hout := halone hpos trivial
      refine ⟨fun h => ?_, fun h => ?_, fun _ hinj => absurd hinj hout⟩
      · rw [h] at hout
        exact absurd trivial hout
      · have hzero := hendingj h
        omega
  | unlock =>
      exact ⟨hsellj, hendingj, fun hpos hinj => absurd hinj (halone hpos trivial)⟩
  | unlockLast =>
      exact ⟨hsellj, hendingj, fun hpos hinj => absurd hinj (halone hpos trivial)⟩
  | unlockAgain =>
      have hzero := hending trivial
      refine ⟨hsellj, hendingj, fun hpos => ?_⟩
      dsimp only at hpos
      omega

end Kept

theorem windows_kept (tickets n : Nat) :
    (windows tickets n).Kept (Counted tickets) WindowOk where
  own _ _ _ _ _ _ hG hA hstep := windowOk_own hG hA (step_effect hstep)
  other _ _ _ _ _ _ _ _ hij _ hA hB hstep :=
    windowOk_other hij hA hB (step_effect hstep)

theorem windows_initial (tickets n : Nat) :
    Threads.Holds (Counted tickets) WindowOk (windows tickets n).initial :=
  ⟨⟨Int.natCast_nonneg _, by simp [windows, Threads.initial], List.nodup_nil, fun _ h => nomatch h⟩,
    fun _ => ⟨fun h => (nomatch h), fun h => h.elim, fun _ h => h.elim⟩⟩

/-- Tickets are conserved in every state of every interleaving. -/
theorem tickets_conserved (tickets n : Nat) (schedule : List (Fin n × Unit)) :
    (windows tickets n).machine.EveryState (Conserved tickets)
      (windows tickets n).machine.init schedule := by
  refine (windows_kept tickets n).everyState (windows_initial tickets n) ?_ schedule
  rintro c ⟨hG, hA⟩
  refine ⟨hG.nonneg, hG.distinct, hG.count, fun hn hleft => ?_⟩
  -- Any window that has left its loop has seen the counter at zero.
  have hzero := (hA ⟨0, hn⟩).2.1 (hleft ⟨0, hn⟩).ending
  have hcount := hG.count
  omega

/-! ## Mutual exclusion -/

def MutualExclusion {n : Nat} (c : State n) : Prop :=
  ∀ i j, (c.locals i).Inside → (c.locals j).Inside → i = j

/-- A window inside holds the mutex, or all others have returned. -/
def Protected {n : Nat} (c : State n) : Prop :=
  ∀ i, (c.locals i).Inside → c.shared.owner = some i ∨ ∀ j, j ≠ i → c.locals j = .returned

theorem Protected.mutualExclusion {n : Nat} {c : State n} (h : Protected c) :
    MutualExclusion c := by
  intro i j hi hj
  by_contra hne
  rcases h i hi with howner | hreturned
  · rcases h j hj with howner' | hreturned'
    · exact hne (Option.some.inj (howner.symm.trans howner'))
    · rw [hreturned' i hne] at hi
      exact hi
  · rw [hreturned j (Ne.symm hne)] at hj
    exact hj

/-- What another window does to a protected one. -/
theorem Protected.frame {n : Nat} {c : State n} (h : Protected c) {i k : Fin n} (hne : i ≠ k)
    {s : Shared n} {pc : Pc} (hi : (c.locals i).Inside)
    (howner : c.shared.owner = some i → s.owner = some i ∨ ∀ j, j ≠ i → j = k ∧ pc = .returned)
    (hpc : c.locals k ≠ .returned) :
    s.owner = some i ∨ ∀ j, j ≠ i → Function.update c.locals k pc j = .returned := by
  rcases h i hi with hold | hreturned
  · rcases howner hold with hstill | hlast
    · exact Or.inl hstill
    · refine Or.inr fun j hj => ?_
      rcases hlast j hj with ⟨rfl, hret⟩
      rw [Function.update_self, hret]
  · exact absurd (hreturned k (Ne.symm hne)) hpc

/-- What a step does to the mutex. -/
theorem owner_cases {n : Nat} {k : Fin n} {s s' : Shared n} {pc pc' : Pc}
    (h : Effect k s pc s' pc') :
    (s.owner = none ∧ pc = .lock ∧ s'.owner = some k) ∨
    (pc.Inside ∧ pc'.Inside ∧ s'.owner = s.owner) ∨
    (pc.Inside ∧ ¬ pc'.Inside ∧ s'.owner = none) ∨
    (pc = .unlockAgain ∧ pc' = .returned ∧ s'.owner = none) := by
  cases h with
  | lock hfree => exact Or.inl ⟨hfree, rfl, rfl⟩
  | left hpos => exact Or.inr (Or.inl ⟨trivial, trivial, rfl⟩)
  | soldOut hzero => exact Or.inr (Or.inl ⟨trivial, trivial, rfl⟩)
  | sell => exact Or.inr (Or.inl ⟨trivial, trivial, rfl⟩)
  | unlock => exact Or.inr (Or.inr (Or.inl ⟨trivial, fun hin => hin, rfl⟩))
  | unlockLast => exact Or.inr (Or.inr (Or.inl ⟨trivial, fun hin => hin, rfl⟩))
  | unlockAgain => exact Or.inr (Or.inr (Or.inr ⟨rfl, rfl, rfl⟩))

theorem Pc.Inside.ne_returned {pc : Pc} (h : pc.Inside) : pc ≠ .returned := by
  rintro rfl
  exact h

/-- With at most two windows the release after the loop harms nobody: the only other window is then
alone. -/
theorem protected_step {tickets n : Nat} (hn : n ≤ 2) {c d : State n} {m : Fin n × Unit}
    (h : Protected c) (hstep : (windows tickets n).machine.step c m = .ok d) : Protected d := by
  rcases m with ⟨k, u⟩
  rcases (windows tickets n).move_cases hstep with ⟨s, pc, hs, rfl⟩
  have hcases := owner_cases (step_effect hs)
  intro i hi
  dsimp only at hi ⊢
  by_cases hik : i = k
  · -- The window itself.
    subst hik
    rw [Function.update_self] at hi
    rcases hcases with ⟨_, _, howner⟩ | ⟨hin, _, howner⟩ | ⟨_, hout, _⟩ | ⟨_, hret, _⟩
    · exact Or.inl howner
    · refine (h i hin).imp howner.trans fun hall j hj => ?_
      rw [Function.update_of_ne hj, hall j hj]
    · exact absurd hi hout
    · exact absurd hret hi.ne_returned
  · rw [Function.update_of_ne hik] at hi
    rcases hcases with ⟨hfree, hpc, _⟩ | ⟨hin, _, howner⟩ | ⟨hin, _, _⟩ | ⟨hpc, hret, _⟩
    · refine h.frame hik hi (fun hold => ?_) (by rw [hpc]; decide)
      cases hfree.symm.trans hold
    · exact h.frame hik hi (fun hold => Or.inl (howner.trans hold)) hin.ne_returned
    · -- Both windows are inside, so one of them must have returned.
      exact absurd (h.mutualExclusion i k hi hin) hik
    · refine h.frame hik hi (fun _ => Or.inr fun j hj => ⟨?_, hret⟩) (by rw [hpc]; decide)
      omega

/-- The release after the loop lets nobody's mutex go. -/
def ReleasesNothing {n : Nat} (c : State n) (m : Fin n × Unit) : Prop :=
  c.locals m.1 = .unlockAgain → c.shared.owner = none

/-- Each window inside holds the mutex. -/
def Holding {n : Nat} (c : State n) : Prop :=
  ∀ i, (c.locals i).Inside → c.shared.owner = some i

theorem Holding.mutualExclusion {n : Nat} {c : State n} (h : Holding c) : MutualExclusion c :=
  fun i j hi hj => Option.some.inj ((h i hi).symm.trans (h j hj))

theorem holding_step {tickets n : Nat} {c d : State n} {m : Fin n × Unit} (h : Holding c)
    (hnothing : ReleasesNothing c m) (hstep : (windows tickets n).machine.step c m = .ok d) :
    Holding d := by
  rcases m with ⟨k, u⟩
  rcases (windows tickets n).move_cases hstep with ⟨s, pc, hs, rfl⟩
  have hcases := owner_cases (step_effect hs)
  intro i hi
  dsimp only at hi ⊢
  by_cases hik : i = k
  · subst hik
    rw [Function.update_self] at hi
    rcases hcases with ⟨_, _, howner⟩ | ⟨hin, _, howner⟩ | ⟨_, hout, _⟩ | ⟨_, hret, _⟩
    · exact howner
    · exact howner.trans (h i hin)
    · exact absurd hi hout
    · exact absurd hret hi.ne_returned
  · rw [Function.update_of_ne hik] at hi
    have hold := h i hi
    rcases hcases with ⟨hfree, _, _⟩ | ⟨_, _, howner⟩ | ⟨hin, _, _⟩ | ⟨hpc, _, _⟩
    · cases hfree.symm.trans hold
    · exact howner.trans hold
    · exact absurd (h.mutualExclusion i k hi hin) hik
    · cases (hnothing hpc).symm.trans hold

/-- A window that runs alone sells a ticket. -/
theorem solo_sell {tickets n : Nat} (i : Fin n) {s : Shared n} (hfree : s.owner = none)
    (hpos : 0 < s.tickets) :
    (windows tickets n).solo i s .lock [(), (), (), ()] =
      .ok ({ tickets := s.tickets - 1, owner := none, sold := s.sold ++ [(i, s.tickets - 1)] },
        .lock) := by
  simp [Threads.solo, windows, tprocess, hfree, hpos]

/-- A window that runs alone finds no ticket and leaves its loop. -/
theorem solo_leave {tickets n : Nat} (i : Fin n) {s : Shared n} (hfree : s.owner = none)
    (hzero : s.tickets = 0) :
    (windows tickets n).solo i s .lock [(), (), ()] =
      .ok ({ s with owner := none }, .unlockAgain) := by
  simp [Threads.solo, windows, tprocess, hfree, hzero]

theorem solo_lock {tickets n : Nat} (i : Fin n) {s : Shared n} (hfree : s.owner = none) :
    (windows tickets n).solo i s .lock [()] = .ok ({ s with owner := some i }, .test) := by
  simp [Threads.solo, windows, tprocess, hfree]

theorem solo_unlockAgain {tickets n : Nat} (i : Fin n) (s : Shared n) :
    (windows tickets n).solo i s .unlockAgain [()] = .ok ({ s with owner := none }, .returned) := by
  simp [Threads.solo, windows, tprocess]

/-- One window sells any number of the tickets, while the others have not begun. -/
theorem exists_sold {tickets n : Nat} (i : Fin n) {k : Nat} (hk : k ≤ tickets) :
    ∃ s : Shared n, (windows tickets n).machine.Reachable ⟨s, fun _ => .lock⟩ ∧
      s.owner = none ∧ s.tickets = tickets - k := by
  induction k with
  | zero => exact ⟨_, (windows tickets n).machine.reachable_init, rfl, by simp [windows]⟩
  | succ k ih =>
      rcases ih (by omega) with ⟨s, hs, hfree, hcount⟩
      have hpos : 0 < s.tickets := by omega
      have hsold := (windows tickets n).reachable_solo hs rfl (solo_sell i hfree hpos)
      rw [Function.update_eq_self] at hsold
      refine ⟨_, hsold, rfl, ?_⟩
      push_cast
      omega

/-- With three windows the first one lets the third one in beside the second. -/
theorem exists_two_inside (tickets : Nat) {n : Nat} {i j k : Fin n} (hij : i ≠ j) (hik : i ≠ k)
    (hjk : j ≠ k) :
    ∃ c, (windows tickets n).machine.Reachable c ∧ ¬ MutualExclusion c := by
  rcases exists_sold (n := n) i (Nat.le_refl tickets) with ⟨s, hs, hfree, hcount⟩
  have hzero : s.tickets = 0 := by omega
  have hleft := (windows tickets n).reachable_solo hs rfl (solo_leave i hfree hzero)
  have hj := (windows tickets n).reachable_solo hleft (Function.update_of_ne hij.symm _ _)
    (solo_lock j rfl)
  -- The release of `i` hits the mutex that `j` holds.
  have hagain := (windows tickets n).reachable_solo hj
    ((Function.update_of_ne hij _ _).trans (Function.update_self i _ _)) (solo_unlockAgain i _)
  have hk := (windows tickets n).reachable_solo hagain
    ((Function.update_of_ne hik.symm _ _).trans ((Function.update_of_ne hjk.symm _ _).trans
      (Function.update_of_ne hik.symm _ _))) (solo_lock k rfl)
  have hinside : ∀ {pc : Pc}, pc = .test → pc.Inside := by
    rintro _ rfl
    trivial
  refine ⟨_, hk, fun hmutex => hjk (hmutex j k (hinside ?_) (hinside ?_))⟩
  · exact (Function.update_of_ne hjk _ _).trans ((Function.update_of_ne hij.symm _ _).trans
      (Function.update_self j _ _))
  · exact Function.update_self k _ _

theorem initial_outside (tickets n : Nat) (i : Fin n) :
    ¬ ((windows tickets n).initial.locals i).Inside :=
  fun h => h

/-- At most one window is inside at any moment of a run whose releases after the loop let nobody's
mutex go; for at most two windows, and only for these, that is so in all runs. -/
theorem mutual_exclusion_iff (tickets n : Nat) :
    (∀ schedule, (windows tickets n).machine.EveryStep ReleasesNothing
        (windows tickets n).machine.init schedule →
      (windows tickets n).machine.EveryState MutualExclusion
        (windows tickets n).machine.init schedule) ∧
    ((∀ c, (windows tickets n).machine.Reachable c → MutualExclusion c) ↔ n ≤ 2) := by
  refine ⟨fun schedule hsteps => ?_, fun hall => ?_, fun hn c hc => ?_⟩
  · exact (windows tickets n).machine.everyState_of_everyStep
      (fun _ _ _ h hnothing hstep => holding_step h hnothing hstep)
      (fun _ h => h.mutualExclusion) (fun i h => absurd h (initial_outside tickets n i)) hsteps
  · by_contra hn
    rcases exists_two_inside tickets (i := (⟨0, by omega⟩ : Fin n)) (j := ⟨1, by omega⟩)
      (k := ⟨2, by omega⟩) (by simp) (by simp) (by simp) with ⟨c, hc, htwo⟩
    exact htwo (hall c hc)
  · have hprotected : Protected c := (windows tickets n).machine.reachable_inv
      (fun i h => absurd h (initial_outside tickets n i))
      (fun _ _ _ h hstep => protected_step hn h hstep) hc
    exact hprotected.mutualExclusion

/-- The four windows with their ten tickets. -/
theorem four_windows_not_exclusive :
    ¬ ∀ c, (windows 10 4).machine.Reachable c → MutualExclusion c := by
  intro hall
  rcases exists_two_inside 10 (i := (0 : Fin 4)) (j := 1) (k := 2) (by decide) (by decide)
    (by decide) with ⟨c, hc, htwo⟩
  exact htwo (hall c hc)

end MutexTest
end LinuxLearn
