import LinuxLearn.Lib.Threads

/-!
# Slot buffer — the producer and the two consumers of `cond_test.c`

One slot, `buffer`, passes the numbers from 1 to `MAX - 1` from the producer to the consumers; 0
marks it as empty.  The producer waits on `condp` for an empty slot and broadcasts `condc`; a
consumer waits on `condc` for a full slot and signals `condp`.

All three run one loop, with their own conditions and actions.  `i` stays below `MAX`, so neither it
nor the `unsigned int` in the slot can wrap, and both are natural numbers here.
-/

namespace LinuxLearn
namespace CondTest

open Lib

inductive Thread
  | producer
  | consumer1
  | consumer2
  deriving DecidableEq, Repr

instance : Fintype Thread where
  elems := {.producer, .consumer1, .consumer2}
  complete t := by cases t <;> decide

inductive CondVar
  | condc
  | condp
  deriving DecidableEq, Repr

structure Shared where
  buffer : Nat
  /-- `the_mutex` with its condition variables -/
  monitor : Monitor Thread CondVar
  /-- the messages: who produced or consumed which number -/
  log : List (Thread × Nat)

/-- Where a thread stands in its loop. -/
inductive Pc
  | lock
  /-- the condition of the inner `while` -/
  | check
  /-- in `pthread_cond_wait`, asleep or in need of the mutex -/
  | waiting
  /-- the message and the assignment to `buffer` -/
  | act
  | notify
  | unlock
  | finished
  deriving DecidableEq, Repr

structure Local where
  i : Nat
  pc : Pc
  deriving DecidableEq, Repr

/-- What the loops differ in. -/
structure Body where
  /-- the condition of the inner `while` -/
  waits : Nat → Bool
  waitsOn : CondVar
  /-- from `i` and `buffer`, the new `buffer` and the number in the message -/
  act : Nat → Nat → Nat × Nat
  notifies : CondVar
  /-- `pthread_cond_broadcast` instead of `pthread_cond_signal` -/
  toAll : Bool

def producer : Body where
  waits buffer := buffer != 0
  waitsOn := .condp
  act i _ := (i, i)
  notifies := .condc
  toAll := true

def consumer : Body where
  waits buffer := buffer == 0
  waitsOn := .condc
  act _ buffer := (0, buffer)
  notifies := .condp
  toAll := false

def consumer1 : Body := consumer

def consumer2 : Body := consumer

def body : Thread → Body
  | .producer => producer
  | .consumer1 => consumer1
  | .consumer2 => consumer2

/-- What the system decides: which thread a signal wakes, and that a sleeping thread wakes up
without any. -/
inductive Choice
  | go
  | wake (v : Thread)
  | spurious
  deriving DecidableEq, Repr

def Choice.woken : Choice → Option Thread
  | .wake v => some v
  | _ => none

inductive Stop
  /-- the thread needs the mutex, which is held -/
  | blocked
  | asleep
  /-- there is no such thread to wake -/
  | noSleeper
  | finished
  deriving DecidableEq, Repr

def Body.notify (b : Body) (m : Monitor Thread CondVar) (choice : Choice) :
    Option (Monitor Thread CondVar) :=
  if b.toAll then some (m.broadcast b.notifies) else m.signal b.notifies choice.woken

/-- The head of the `for` loop. -/
def Local.head (MAX : Int) (i : Nat) : Local :=
  ⟨i, if (i : Int) < MAX then .lock else .finished⟩

def Body.step (b : Body) (MAX : Int) (t : Thread) (s : Shared) (l : Local) (choice : Choice) :
    Except Stop (Shared × Local) :=
  match l.pc with
  | .lock =>
      if s.monitor.owner = none then
        .ok ({ s with monitor := s.monitor.acquire t }, { l with pc := .check })
      else .error .blocked
  | .check =>
      if b.waits s.buffer then
        .ok ({ s with monitor := s.monitor.wait t b.waitsOn }, { l with pc := .waiting })
      else .ok (s, { l with pc := .act })
  | .waiting =>
      if s.monitor.asleep t ≠ none then
        if choice = .spurious then .ok ({ s with monitor := s.monitor.wake t }, l)
        else .error .asleep
      else if s.monitor.owner = none then
        .ok ({ s with monitor := s.monitor.acquire t }, { l with pc := .check })
      else .error .blocked
  | .act =>
      let (buffer, number) := b.act l.i s.buffer
      .ok ({ s with buffer := buffer, log := s.log ++ [(t, number)] }, { l with pc := .notify })
  | .notify =>
      match b.notify s.monitor choice with
      | some m => .ok ({ s with monitor := m }, { l with pc := .unlock })
      | none => .error .noSleeper
  | .unlock => .ok ({ s with monitor := s.monitor.release }, Local.head MAX (l.i + 1))
  | .finished => .error .finished

/-- The threads that `main` creates. -/
def threads (MAX : Int) : Threads Thread Shared Local Choice Stop where
  shared := ⟨0, Monitor.initial, []⟩
  start _ := Local.head MAX 1
  step t s l choice := (body t).step MAX t s l choice

abbrev State := Config Thread Shared Local

/-! ## Who holds the mutex -/

/-- Between `pthread_mutex_lock` and `pthread_mutex_unlock`, and not in `pthread_cond_wait`. -/
def Pc.Inside : Pc → Prop
  | check | act | notify | unlock => True
  | _ => False

theorem Body.notify_owner {b : Body} {m m' : Monitor Thread CondVar} {choice : Choice}
    (h : b.notify m choice = some m') : m'.owner = m.owner := by
  rw [notify] at h
  split at h
  · cases h
    rfl
  · exact Monitor.signal_owner m h

/-- The steps of a thread, without the decisions of the system. -/
inductive Effect (b : Body) (MAX : Int) (t : Thread) (s : Shared) (i : Nat) :
    Pc → Shared → Local → Prop
  | acquire {pc : Pc} (hfree : s.monitor.owner = none) (hpc : pc = .lock ∨ pc = .waiting) :
      Effect b MAX t s i pc { s with monitor := s.monitor.acquire t } ⟨i, .check⟩
  | wait (hwaits : b.waits s.buffer = true) :
      Effect b MAX t s i .check { s with monitor := s.monitor.wait t b.waitsOn } ⟨i, .waiting⟩
  | pass (hwaits : b.waits s.buffer = false) : Effect b MAX t s i .check s ⟨i, .act⟩
  | wake : Effect b MAX t s i .waiting { s with monitor := s.monitor.wake t } ⟨i, .waiting⟩
  | act : Effect b MAX t s i .act
      { s with buffer := (b.act i s.buffer).1, log := s.log ++ [(t, (b.act i s.buffer).2)] }
      ⟨i, .notify⟩
  | notify {m : Monitor Thread CondVar} (howner : m.owner = s.monitor.owner) :
      Effect b MAX t s i .notify { s with monitor := m } ⟨i, .unlock⟩
  | unlock : Effect b MAX t s i .unlock { s with monitor := s.monitor.release }
      (Local.head MAX (i + 1))

theorem step_effect {MAX : Int} {b : Body} {t : Thread} {s s' : Shared} {i : Nat} {pc : Pc}
    {l' : Local} {choice : Choice} (h : b.step MAX t s ⟨i, pc⟩ choice = .ok (s', l')) :
    Effect b MAX t s i pc s' l' := by
  cases pc with
  | lock =>
      simp only [Body.step] at h
      split at h
      · rename_i hfree
        cases h
        exact .acquire hfree (Or.inl rfl)
      · cases h
  | check =>
      simp only [Body.step] at h
      split at h
      · rename_i hwaits
        cases h
        exact .wait hwaits
      · rename_i hwaits
        cases h
        exact .pass (by simpa using hwaits)
  | waiting =>
      simp only [Body.step] at h
      split at h
      · split at h
        · cases h
          exact .wake
        · cases h
      · split at h
        · rename_i hfree
          cases h
          exact .acquire hfree (Or.inr rfl)
        · cases h
  | act =>
      cases h
      exact .act
  | notify =>
      simp only [Body.step] at h
      split at h
      · rename_i m hm
        cases h
        exact .notify (Body.notify_owner hm)
      · cases h
  | unlock =>
      cases h
      exact .unlock
  | finished => cases h

/-! ## Exactly once -/

/-- The numbers in the messages of one thread. -/
def entries (t : Thread) (log : List (Thread × Nat)) : List Nat :=
  (log.filter fun e => e.1 = t).map Prod.snd

def produced (log : List (Thread × Nat)) : List Nat :=
  entries .producer log

/-- The numbers that the two consumers took, in the order in which they took them. -/
def consumed (log : List (Thread × Nat)) : List Nat :=
  (log.filter fun e => e.1 ≠ .producer).map Prod.snd

def slot (buffer : Nat) : List Nat :=
  if buffer = 0 then [] else [buffer]

/-- Every number produced has been consumed once or is still in the slot, and the numbers consumed
are the first ones. -/
structure ExactlyOnce (MAX : Int) (c : State) : Prop where
  passed : produced c.shared.log = consumed c.shared.log ++ slot c.shared.buffer
  isPrefix : consumed c.shared.log <+: List.range' 1 (MAX - 1).toNat

section Log

variable {t u : Thread} {log : List (Thread × Nat)} {v : Nat}

@[simp] theorem entries_append_self :
    entries t (log ++ [(t, v)]) = entries t log ++ [v] := by
  simp [entries]

theorem entries_append_other (h : u ≠ t) : entries t (log ++ [(u, v)]) = entries t log := by
  simp [entries, h]

theorem consumed_append_producer :
    consumed (log ++ [(.producer, v)]) = consumed log := by
  simp [consumed]

theorem consumed_append_consumer (h : t ≠ .producer) :
    consumed (log ++ [(t, v)]) = consumed log ++ [v] := by
  simp [consumed, h]

/-- Only the two consumers consume. -/
theorem length_consumed (log : List (Thread × Nat)) :
    (consumed log).length = (entries .consumer1 log).length + (entries .consumer2 log).length := by
  -- A message is appended at the end.
  induction log using List.reverseRecOn with
  | nil => rfl
  | append_singleton log e ih =>
      rcases e with ⟨t, v⟩
      cases t with
      | producer =>
          rw [consumed_append_producer, entries_append_other (by decide),
            entries_append_other (by decide), ih]
      | consumer1 =>
          rw [consumed_append_consumer (by decide), entries_append_self,
            entries_append_other (by decide), List.length_append, List.length_append, ih]
          omega
      | consumer2 =>
          rw [consumed_append_consumer (by decide), entries_append_self,
            entries_append_other (by decide), List.length_append, List.length_append, ih]
          omega

end Log

/-- How many numbers a thread has moved. -/
def Local.done (l : Local) : Nat :=
  match l.pc with
  | .notify | .unlock => l.i
  | _ => l.i - 1

structure Passed (s : Shared) : Prop where
  passed : produced s.log = consumed s.log ++ slot s.buffer
  counted : produced s.log = List.range' 1 (produced s.log).length

structure ThreadOk (MAX : Int) (t : Thread) (s : Shared) (l : Local) : Prop where
  owner : l.pc.Inside → s.monitor.owner = some t
  ready : l.pc = .act → (body t).waits s.buffer = false
  done : (entries t s.log).length = l.done
  pos : 1 ≤ l.i
  running : l.pc ≠ .finished → (l.i : Int) < MAX
  ended : l.pc = .finished → (l.i : Int) = max 1 MAX

theorem Local.head_cases (MAX : Int) (i : Nat) :
    (Local.head MAX i = ⟨i, .lock⟩ ∧ (i : Int) < MAX) ∨
      (Local.head MAX i = ⟨i, .finished⟩ ∧ MAX ≤ i) := by
  rw [head]
  split
  · exact Or.inl ⟨rfl, ‹_›⟩
  · exact Or.inr ⟨rfl, by omega⟩

section Kept

variable {MAX : Int} {t u : Thread} {s s' : Shared} {i : Nat} {pc : Pc} {l l' k : Local}

/-- The head of the loop, when the thread has moved `i - 1` numbers. -/
theorem threadOk_head (hdone : (entries t s.log).length = i - 1) (hi : 1 ≤ i)
    (hle : (i : Int) ≤ max 1 MAX) : ThreadOk MAX t s (Local.head MAX i) := by
  rcases Local.head_cases MAX i with ⟨heq, hlt⟩ | ⟨heq, hge⟩
  · rw [heq]
    exact ⟨fun h => h.elim, fun h => (nomatch h), hdone, hi, fun _ => hlt, fun h => (nomatch h)⟩
  · rw [heq]
    exact ⟨fun h => h.elim, fun h => (nomatch h), hdone, hi, fun h => absurd rfl h,
      fun _ => by dsimp only; omega⟩

/-- A consumer takes the number in the slot. -/
theorem Passed.consume (hG : Passed s) (ht : t ≠ .producer) (hfull : s.buffer ≠ 0) :
    Passed { s with buffer := 0, log := s.log ++ [(t, s.buffer)] } := by
  have hsame : produced (s.log ++ [(t, s.buffer)]) = produced s.log := entries_append_other ht
  refine ⟨?_, ?_⟩
  · dsimp only
    rw [hsame, hG.passed, consumed_append_consumer ht]
    simp [slot, hfull]
  · dsimp only
    rw [hsame]
    exact hG.counted

/-- What a thread that acts does to the numbers. -/
theorem Passed.act (hG : Passed s) (hA : ThreadOk MAX t s ⟨i, .act⟩) :
    Passed { s with
      buffer := ((body t).act i s.buffer).1
      log := s.log ++ [(t, ((body t).act i s.buffer).2)] } := by
  have hready := hA.ready rfl
  have hdone := hA.done
  have hpos := hA.pos
  have hpassed := hG.passed
  have hcounted := hG.counted
  simp only [Local.done] at hdone hpos
  cases t with
  | producer =>
      -- The slot is empty, and the number is the next one.
      have hempty : s.buffer = 0 := by simpa [body, producer] using hready
      have hlength : (produced s.log).length = i - 1 := hdone
      rw [hempty] at hpassed
      have hi : i ≠ 0 := by omega
      refine ⟨?_, ?_⟩
      · simp only [body, producer, produced, entries_append_self, consumed_append_producer]
        rw [produced] at hpassed
        rw [hpassed]
        simp [slot, hi]
      · simp only [body, producer, produced, entries_append_self]
        rw [← produced, hcounted, hlength, List.length_append, List.length_range',
          List.length_singleton, List.range'_concat]
        congr 2
        omega
  | consumer1 => exact hG.consume (by decide) (by simpa [body, consumer1, consumer] using hready)
  | consumer2 => exact hG.consume (by decide) (by simpa [body, consumer2, consumer] using hready)

theorem threadOk_own (hG : Passed s) (hA : ThreadOk MAX t s ⟨i, pc⟩)
    (h : Effect (body t) MAX t s i pc s' l') : Passed s' ∧ ThreadOk MAX t s' l' := by
  rcases hA with ⟨howner, hready, hdone, hpos, hrunning, hended⟩
  dsimp only at howner hready hpos hrunning hended
  cases h with
  | acquire hfree hpc =>
      have hrun : pc ≠ .finished := by rcases hpc with rfl | rfl <;> decide
      have hdone' : (entries t s.log).length = i - 1 := by
        rcases hpc with rfl | rfl <;> exact hdone
      exact ⟨⟨hG.passed, hG.counted⟩, fun _ => rfl, fun h => (nomatch h), hdone', hpos,
        fun _ => hrunning hrun, fun h => (nomatch h)⟩
  | wait hwaits =>
      exact ⟨⟨hG.passed, hG.counted⟩, fun h => h.elim, fun h => (nomatch h), hdone, hpos,
        fun _ => hrunning (by decide), fun h => (nomatch h)⟩
  | pass hwaits =>
      exact ⟨hG, fun _ => howner trivial, fun _ => hwaits, hdone, hpos,
        fun _ => hrunning (by decide), fun h => (nomatch h)⟩
  | wake =>
      exact ⟨⟨hG.passed, hG.counted⟩, fun h => h.elim, fun h => (nomatch h), hdone, hpos,
        fun _ => hrunning (by decide), fun h => (nomatch h)⟩
  | act =>
      have hacted := hG.act ⟨howner, hready, hdone, hpos, hrunning, hended⟩
      have hdone' : (entries t (s.log ++ [(t, ((body t).act i s.buffer).2)])).length = i := by
        rw [entries_append_self, List.length_append, List.length_singleton, hdone, Local.done]
        exact Nat.sub_add_cancel hpos
      exact ⟨hacted, fun _ => howner trivial, fun h => (nomatch h), hdone', hpos,
        fun _ => hrunning (by decide), fun h => (nomatch h)⟩
  | notify hsame =>
      exact ⟨⟨hG.passed, hG.counted⟩, fun _ => hsame.trans (howner trivial),
        fun h => (nomatch h), hdone, hpos, fun _ => hrunning (by decide), fun h => (nomatch h)⟩
  | unlock =>
      have hlt := hrunning (by decide)
      exact ⟨⟨hG.passed, hG.counted⟩, threadOk_head hdone (by omega) (by push_cast; omega)⟩

/-- A thread outside the critical section of another one leaves the slot to it. -/
theorem threadOk_other (htu : t ≠ u) (hA : ThreadOk MAX t s ⟨i, pc⟩) (hB : ThreadOk MAX u s k)
    (h : Effect (body t) MAX t s i pc s' l') : ThreadOk MAX u s' k := by
  rcases hB with ⟨howner, hready, hdone, hpos, hrunning, hended⟩
  have halone : pc.Inside → ¬ k.pc.Inside := by
    intro hin hink
    exact htu (Option.some.inj ((hA.owner hin).symm.trans (howner hink)))
  cases h with
  | acquire hfree hpc =>
      refine ⟨fun hink => ?_, hready, hdone, hpos, hrunning, hended⟩
      cases hfree.symm.trans (howner hink)
  | wait hwaits =>
      exact ⟨fun hink => absurd hink (halone trivial), hready, hdone, hpos, hrunning, hended⟩
  | pass hwaits => exact ⟨howner, hready, hdone, hpos, hrunning, hended⟩
  | wake => exact ⟨howner, hready, hdone, hpos, hrunning, hended⟩
  | act =>
      have hout := halone trivial
      refine ⟨fun hink => absurd hink hout, fun hact => ?_, ?_, hpos, hrunning, hended⟩
      · rw [hact] at hout
        exact absurd trivial hout
      · rw [entries_append_other htu]
        exact hdone
  | notify hsame =>
      exact ⟨fun hink => hsame.trans (howner hink), hready, hdone, hpos, hrunning, hended⟩
  | unlock =>
      exact ⟨fun hink => absurd hink (halone trivial), hready, hdone, hpos, hrunning, hended⟩

end Kept

theorem threads_kept (MAX : Int) : (threads MAX).Kept Passed (ThreadOk MAX) where
  own _ _ _ _ _ _ hG hA hstep := threadOk_own hG hA (step_effect hstep)
  other _ _ _ _ _ _ _ _ htu _ hA hB hstep := threadOk_other htu hA hB (step_effect hstep)

theorem threads_initial (MAX : Int) :
    Threads.Holds Passed (ThreadOk MAX) (threads MAX).initial :=
  ⟨⟨rfl, rfl⟩, fun _ => threadOk_head rfl le_rfl (le_max_left _ _)⟩

theorem Local.done_le (l : Local) : l.done ≤ l.i := by
  rcases l with ⟨i, pc⟩
  cases pc <;> simp [done]

/-- A thread that has finished has moved all the numbers. -/
theorem ThreadOk.done_finished {MAX : Int} {t : Thread} {s : Shared} {l : Local}
    (h : ThreadOk MAX t s l) (hpc : l.pc = .finished) :
    (entries t s.log).length = (MAX - 1).toNat := by
  have hended := h.ended hpc
  have hdone : l.done = l.i - 1 := by simp [Local.done, hpc]
  rw [h.done, hdone]
  omega

theorem ThreadOk.done_le {MAX : Int} {t : Thread} {s : Shared} {l : Local}
    (h : ThreadOk MAX t s l) : (entries t s.log).length ≤ (MAX - 1).toNat := by
  by_cases hpc : l.pc = .finished
  · exact (h.done_finished hpc).le
  · have hrunning := h.running hpc
    have hle := l.done_le
    rw [h.done]
    omega

/-- The consumers take exactly the numbers that are produced, in every state of every
interleaving. -/
theorem exactly_once (MAX : Int) (schedule : List (Thread × Choice)) :
    (threads MAX).machine.EveryState (ExactlyOnce MAX) (threads MAX).machine.init schedule := by
  refine (threads_kept MAX).everyState (threads_initial MAX) ?_ schedule
  rintro c ⟨hG, hA⟩
  refine ⟨hG.passed, ?_⟩
  have hle : (produced c.shared.log).length ≤ (MAX - 1).toNat := (hA .producer).done_le
  have hfirst : produced c.shared.log <+: List.range' 1 (MAX - 1).toNat := by
    refine ⟨List.range' (1 + (produced c.shared.log).length)
      ((MAX - 1).toNat - (produced c.shared.log).length), ?_⟩
    conv_lhs => rw [hG.counted]
    rw [List.length_range', List.range'_append_1, Nat.add_sub_of_le hle]
  have hconsumed : consumed c.shared.log <+: produced c.shared.log := ⟨_, hG.passed.symm⟩
  exact hconsumed.trans hfirst

/-! ## The joins of `main` -/

/-- Some thread is unfinished, and each such thread waits for a mutex that is held or sleeps on a
condition variable that no unfinished thread can notify. -/
structure Stuck (c : State) : Prop where
  unfinished : ∃ t, (c.locals t).pc ≠ .finished
  waiting : ∀ t, (c.locals t).pc ≠ .finished →
    c.shared.monitor.owner ≠ none ∧
      ((c.locals t).pc = .lock ∨
        (c.locals t).pc = .waiting ∧ c.shared.monitor.asleep t = none) ∨
    (c.locals t).pc = .waiting ∧ ∃ v, c.shared.monitor.asleep t = some v ∧
      ∀ u, (c.locals u).pc ≠ .finished → (body u).notifies ≠ v

/-- The consumers ask for more than the producer has to offer. -/
theorem exists_unfinished {MAX : Int} (hMAX : 2 ≤ MAX) {c : State}
    (hc : (threads MAX).machine.Reachable c) : ∃ t, (c.locals t).pc ≠ .finished := by
  rcases (threads_kept MAX).reachable (threads_initial MAX) hc with ⟨hG, hA⟩
  by_contra hnone
  have hall : ∀ t, (c.locals t).pc = .finished := fun t => by_contra fun h => hnone ⟨t, h⟩
  have hproducer := (hA .producer).done_finished (hall .producer)
  have hconsumer1 := (hA .consumer1).done_finished (hall .consumer1)
  have hconsumer2 := (hA .consumer2).done_finished (hall .consumer2)
  have hlength := congrArg List.length hG.passed
  rw [List.length_append, length_consumed, produced] at hlength
  omega

/-- Nobody sleeps and the mutex is free. -/
def Shared.Idle (s : Shared) : Prop :=
  s.monitor.owner = none ∧ ∀ t, s.monitor.asleep t = none

/-- A thread that runs alone moves a number when it can. -/
theorem solo_round (MAX : Int) {t : Thread} {s : Shared} (i : Nat) (hidle : s.Idle)
    (hwaits : (body t).waits s.buffer = false) :
    ∃ s', (threads MAX).solo t s ⟨i, .lock⟩ [.go, .go, .go, .go, .go] =
        .ok (s', Local.head MAX (i + 1)) ∧
      s'.Idle ∧ s'.buffer = ((body t).act i s.buffer).1 := by
  rcases hidle with ⟨howner, hasleep⟩
  have hawake : ∀ u, (s.monitor.acquire t).asleep u = none := hasleep
  have hnotify : (body t).notify (s.monitor.acquire t) .go = some (s.monitor.acquire t) := by
    rw [Body.notify]
    split
    · rw [Monitor.broadcast_of_awake _ hawake]
    · exact Monitor.signal_of_awake _ hawake
  refine ⟨⟨((body t).act i s.buffer).1, (s.monitor.acquire t).release,
    s.log ++ [(t, ((body t).act i s.buffer).2)]⟩, ?_, ⟨rfl, hasleep⟩, rfl⟩
  simp [Threads.solo, threads, Body.step, howner, hwaits, hnotify]

/-- The producer and `consumer1` at the same number, while `consumer2` has not begun. -/
def paired (MAX : Int) (i : Nat) : Thread → Local
  | .consumer2 => Local.head MAX 1
  | _ => Local.head MAX i

theorem update_paired (MAX : Int) (i j : Nat) :
    Function.update (Function.update (paired MAX i) .producer (Local.head MAX j)) .consumer1
      (Local.head MAX j) = paired MAX j := by
  funext t
  cases t <;> rfl

theorem Local.head_of_lt {MAX : Int} {i : Nat} (h : (i : Int) < MAX) :
    Local.head MAX i = ⟨i, .lock⟩ := by
  simp [head, h]

/-- The producer and `consumer1` can move any number of numbers between them. -/
theorem exists_paired {MAX : Int} {k : Nat} (hk : (k : Int) + 1 ≤ MAX) :
    ∃ s : Shared, (threads MAX).machine.Reachable ⟨s, paired MAX (k + 1)⟩ ∧ s.Idle ∧
      s.buffer = 0 := by
  induction k with
  | zero =>
      have hinit := (threads MAX).machine.reachable_init
      have hstart : (threads MAX).start = paired MAX (0 + 1) := by
        funext t
        cases t <;> rfl
      refine ⟨(threads MAX).shared, ?_, ⟨rfl, fun _ => rfl⟩, rfl⟩
      rw [← hstart]
      exact hinit
  | succ k ih =>
      push_cast at hk
      rcases ih (by omega) with ⟨s, hs, hidle, hempty⟩
      have hhead : Local.head MAX (k + 1) = ⟨k + 1, .lock⟩ :=
        Local.head_of_lt (by push_cast; omega)
      have hproducer : (body .producer).waits s.buffer = false := by
        simp [body, producer, hempty]
      rcases solo_round MAX (k + 1) hidle hproducer with
        ⟨s₁, hsolo, hidle₁, hfull⟩
      have hs₁ := (threads MAX).reachable_solo (i := .producer) hs hhead hsolo
      -- Now the slot holds `k + 1`.
      have hconsumer : (body .consumer1).waits s₁.buffer = false := by
        rw [hfull]
        rfl
      rcases solo_round MAX (k + 1) hidle₁ hconsumer with
        ⟨s₂, hsolo', hidle₂, hempty₂⟩
      have hbegin : Function.update (paired MAX (k + 1)) .producer (Local.head MAX (k + 1 + 1))
          .consumer1 = ⟨k + 1, .lock⟩ := hhead
      have hs₂ := (threads MAX).reachable_solo (i := .consumer1) hs₁ hbegin hsolo'
      rw [update_paired] at hs₂
      exact ⟨s₂, hs₂, hidle₂, hempty₂⟩

/-- Then `consumer2` waits for a number that nobody produces any more. -/
theorem exists_stuck {MAX : Int} (hMAX : 2 ≤ MAX) :
    ∃ c, (threads MAX).machine.Reachable c ∧ Stuck c := by
  have hcast : (((MAX - 1).toNat + 1 : Nat) : Int) = MAX := by omega
  rcases exists_paired (show (((MAX - 1).toNat : Nat) : Int) + 1 ≤ MAX by omega) with
    ⟨s, hs, ⟨howner, _⟩, hempty⟩
  have hhead : Local.head MAX 1 = ⟨1, .lock⟩ := Local.head_of_lt (by omega)
  have hdone : Local.head MAX ((MAX - 1).toNat + 1) = ⟨(MAX - 1).toNat + 1, .finished⟩ := by
    simp only [Local.head, hcast, lt_irrefl, if_false]
  have hsleeps : (threads MAX).solo .consumer2 s ⟨1, .lock⟩ [.go, .go] =
      .ok (⟨0, (s.monitor.acquire .consumer2).wait .consumer2 .condc, s.log⟩, ⟨1, .waiting⟩) := by
    simp [Threads.solo, threads, Body.step, body, consumer2, consumer, howner, hempty]
  have hstuck := (threads MAX).reachable_solo (i := .consumer2) hs hhead hsleeps
  refine ⟨_, hstuck, ⟨.consumer2, by simp⟩, fun t ht => ?_⟩
  have hother : ∀ u, ((Function.update (paired MAX ((MAX - 1).toNat + 1)) Thread.consumer2
      ⟨1, .waiting⟩ : Thread → Local) u).pc ≠ .finished → u = .consumer2 := by
    intro u hu
    by_contra hne
    rw [Function.update_of_ne hne] at hu
    cases u with
    | consumer2 => exact hne rfl
    | producer => exact hu (congrArg Local.pc hdone)
    | consumer1 => exact hu (congrArg Local.pc hdone)
  cases hother t ht
  refine Or.inr ⟨rfl, .condc, rfl, fun u hu => ?_⟩
  cases hother u hu
  decide

/-- The program can get stuck as soon as there is a number to move, and no run of it then ends. -/
theorem never_stuck_iff (MAX : Int) :
    ((∀ c, (threads MAX).machine.Reachable c → ¬ Stuck c) ↔ MAX ≤ 1) ∧
    (2 ≤ MAX → ∀ c, (threads MAX).machine.Reachable c → ∃ t, (c.locals t).pc ≠ .finished) := by
  refine ⟨⟨fun hall => ?_, fun hMAX c hc hstuck => ?_⟩, fun hMAX c hc => exists_unfinished hMAX hc⟩
  · by_contra hMAX
    rcases exists_stuck (show 2 ≤ MAX by omega) with ⟨c, hc, hstuck⟩
    exact hall c hc hstuck
  · -- No thread enters its loop.
    rcases hstuck.unfinished with ⟨t, ht⟩
    have hok := ((threads_kept MAX).reachable (threads_initial MAX) hc).2 t
    have hrunning := hok.running ht
    have hpos := hok.pos
    omega

/-- With the `MAX` of the program. -/
theorem hundred_gets_stuck :
    ¬ ∀ c, (threads 100).machine.Reachable c → ¬ Stuck c := by
  intro hall
  rcases exists_stuck (show (2 : Int) ≤ 100 by decide) with ⟨c, hc, hstuck⟩
  exact hall c hc hstuck

end CondTest
end LinuxLearn
