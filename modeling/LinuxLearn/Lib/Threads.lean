import LinuxLearn.Lib.Machine

/-!
# Threads — interleavings over a shared state

Threads run the steps of their own programs on a state that they share; a schedule says which of
them moves next, and what its environment gives it.  `Threads.machine` runs such schedules.

Assertions about one thread are proved as usual for interleavings, by `Threads.Kept`:
each step keeps the assertion of the thread that makes it and the assertions of all others.

A mutex is the thread that holds it, if any.  Threads that wait on a condition variable sleep until
they are woken, by a signal or spuriously.
-/

namespace LinuxLearn
namespace Lib

/-- The program of each thread: a step changes the shared state and the thread's own one. -/
structure Threads (ι σ τ α ε : Type*) where
  shared : σ
  start : ι → τ
  step : ι → σ → τ → α → Except ε (σ × τ)

/-- The shared state and the states of the threads. -/
structure Config (ι σ τ : Type*) where
  shared : σ
  locals : ι → τ

namespace Threads

variable {ι σ τ α ε : Type*} [DecidableEq ι] (T : Threads ι σ τ α ε)

def initial : Config ι σ τ :=
  ⟨T.shared, T.start⟩

/-- The thread `m.1` moves. -/
def move (c : Config ι σ τ) (m : ι × α) : Except ε (Config ι σ τ) :=
  match T.step m.1 c.shared (c.locals m.1) m.2 with
  | .ok (s, l) => .ok ⟨s, Function.update c.locals m.1 l⟩
  | .error e => .error e

def machine : Machine (Config ι σ τ) (ι × α) ε where
  init := T.initial
  step := T.move

theorem move_ok {c : Config ι σ τ} {i : ι} {a : α} {s : σ} {l : τ}
    (h : T.step i c.shared (c.locals i) a = .ok (s, l)) :
    T.machine.step c (i, a) = .ok ⟨s, Function.update c.locals i l⟩ := by
  simp [machine, move, h]

theorem reachable_move {c : Config ι σ τ} (hc : T.machine.Reachable c) {i : ι} {a : α} {s : σ}
    {l : τ} (h : T.step i c.shared (c.locals i) a = .ok (s, l)) :
    T.machine.Reachable ⟨s, Function.update c.locals i l⟩ :=
  hc.step (T.move_ok h)

/-- The thread `i` runs alone. -/
def solo (i : ι) : σ → τ → List α → Except ε (σ × τ)
  | s, l, [] => .ok (s, l)
  | s, l, a :: as =>
      match T.step i s l a with
      | .ok (s, l) => solo i s l as
      | .error e => .error e

theorem reachable_solo {c : Config ι σ τ} (hc : T.machine.Reachable c) {i : ι} {as : List α}
    {s : σ} {k l : τ} (hk : c.locals i = k) (h : T.solo i c.shared k as = .ok (s, l)) :
    T.machine.Reachable ⟨s, Function.update c.locals i l⟩ := by
  induction as generalizing c k with
  | nil =>
      cases h
      rw [← hk, Function.update_eq_self]
      exact hc
  | cons a as ih =>
      rw [solo, ← hk] at h
      split at h
      · rename_i s' l' hstep
        have hnext := T.reachable_move hc hstep
        -- Only the last local state of the thread remains.
        have hrest := ih hnext (Function.update_self i l' c.locals) h
        rwa [Function.update_idem] at hrest
      · cases h

/-- What a step of the machine is. -/
theorem move_cases {c d : Config ι σ τ} {i : ι} {a : α} (h : T.machine.step c (i, a) = .ok d) :
    ∃ s l, T.step i c.shared (c.locals i) a = .ok (s, l) ∧
      d = ⟨s, Function.update c.locals i l⟩ := by
  simp only [machine, move] at h
  split at h
  · rename_i s l hstep
    cases h
    exact ⟨s, l, hstep, rfl⟩
  · cases h

/-- A global assertion and one for each thread. -/
def Holds (G : σ → Prop) (A : ι → σ → τ → Prop) (c : Config ι σ τ) : Prop :=
  G c.shared ∧ ∀ i, A i c.shared (c.locals i)

/-- Assertions that each step keeps for its own thread and for the others. -/
structure Kept (G : σ → Prop) (A : ι → σ → τ → Prop) : Prop where
  own : ∀ i s l a s' l', G s → A i s l → T.step i s l a = .ok (s', l') → G s' ∧ A i s' l'
  other : ∀ i j s l m a s' l', i ≠ j → G s → A i s l → A j s m →
    T.step i s l a = .ok (s', l') → A j s' m

variable {T} {G : σ → Prop} {A : ι → σ → τ → Prop}

theorem Kept.move (h : T.Kept G A) {c d : Config ι σ τ} {m : ι × α} (hc : Holds G A c)
    (hstep : T.machine.step c m = .ok d) : Holds G A d := by
  rcases m with ⟨i, a⟩
  rcases T.move_cases hstep with ⟨s, l, hs, rfl⟩
  rcases h.own i _ _ a s l hc.1 (hc.2 i) hs with ⟨hG, hA⟩
  refine ⟨hG, fun j => ?_⟩
  dsimp only
  by_cases hij : j = i
  · subst hij
    rw [Function.update_self]
    exact hA
  · rw [Function.update_of_ne hij]
    exact h.other i j _ _ _ a s l (Ne.symm hij) hc.1 (hc.2 i) (hc.2 j) hs

theorem Kept.reachable (h : T.Kept G A) (hinit : Holds G A T.initial) {c : Config ι σ τ}
    (hc : T.machine.Reachable c) : Holds G A c :=
  T.machine.reachable_inv hinit (fun _ _ _ hs hstep => h.move hs hstep) hc

/-- Kept assertions hold in all states of every run, and so does what they imply. -/
theorem Kept.everyState (h : T.Kept G A) (hinit : Holds G A T.initial)
    {P : Config ι σ τ → Prop} (hP : ∀ c, Holds G A c → P c) (schedule : List (ι × α)) :
    T.machine.EveryState P T.machine.init schedule :=
  T.machine.everyState_of_inv (fun _ _ _ hs hstep => h.move hs hstep) hP hinit schedule

end Threads

/-! ## Condition variables -/

/-- The mutex of a monitor, and the condition variables that its threads sleep on. -/
structure Monitor (ι κ : Type*) where
  owner : Option ι
  asleep : ι → Option κ

namespace Monitor

variable {ι κ : Type*} (m : Monitor ι κ)

def initial : Monitor ι κ :=
  ⟨none, fun _ => none⟩

def acquire (i : ι) : Monitor ι κ :=
  { m with owner := some i }

def release : Monitor ι κ :=
  { m with owner := none }

/-- The mutex is released and the thread sleeps. -/
def wait [DecidableEq ι] (i : ι) (c : κ) : Monitor ι κ :=
  ⟨none, Function.update m.asleep i (some c)⟩

def wake [DecidableEq ι] (i : ι) : Monitor ι κ :=
  { m with asleep := Function.update m.asleep i none }

def broadcast [DecidableEq κ] (c : κ) : Monitor ι κ :=
  { m with asleep := fun i => if m.asleep i = some c then none else m.asleep i }

/-- A signal wakes one of the threads that sleep, if there are any. -/
def signal [Fintype ι] [DecidableEq ι] [DecidableEq κ] (c : κ) : Option ι → Option (Monitor ι κ)
  | some i => if m.asleep i = some c then some (m.wake i) else none
  | none => if ∀ i, m.asleep i ≠ some c then some m else none

theorem signal_owner [Fintype ι] [DecidableEq ι] [DecidableEq κ] {m' : Monitor ι κ} {c : κ}
    {v : Option ι} (h : m.signal c v = some m') : m'.owner = m.owner := by
  cases v with
  | none =>
      simp only [signal] at h
      split at h
      · cases h
        rfl
      · cases h
  | some i =>
      simp only [signal] at h
      split at h
      · cases h
        rfl
      · cases h

/-- Nobody sleeps, so nobody is woken. -/
theorem broadcast_of_awake [DecidableEq κ] {c : κ} (h : ∀ i, m.asleep i = none) :
    m.broadcast c = m := by
  have hsame : (fun i => if m.asleep i = some c then none else m.asleep i) = m.asleep := by
    funext i
    simp [h i]
  simp [broadcast, hsame]

theorem signal_of_awake [Fintype ι] [DecidableEq ι] [DecidableEq κ] {c : κ}
    (h : ∀ i, m.asleep i = none) : m.signal c none = some m := by
  simp [signal, h]

end Monitor

end Lib
end LinuxLearn
