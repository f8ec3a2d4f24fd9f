import Mathlib.Tactic

/-!
# Machines — runs of a partial step function

A `Machine` is a deterministic step function over an input alphabet whose steps may fail: with a
fault of the program, or because the input is not possible in that state.  Nondeterminism of an
environment (what a read returns, which thread moves next) is part of the input.

Besides runs and reachability the file packages these inductions once:

- `reachable_inv`: an invariant of every reachable state,
- `everyState_of_inv`: an invariant of every state of every run,
- `everyState_of_everyStep`: an invariant of the runs whose steps all meet a condition,
- `everyState_iff_everyTakenStep`: a property holds in all states of a run exactly when all of
  its steps meet a condition.
-/

namespace LinuxLearn
namespace Lib

/-- A step function with an initial state; `step s i` fails when `s` cannot process `i`. -/
structure Machine (σ ι ε : Type*) where
  init : σ
  step : σ → ι → Except ε σ

namespace Machine

variable {σ ι ε : Type*} (M : Machine σ ι ε)

/-! ## Runs -/

/-- Process the inputs from left to right, stopping at the first failure. -/
def runFrom : σ → List ι → Except ε σ
  | s, [] => .ok s
  | s, i :: is =>
      match M.step s i with
      | .ok t => runFrom t is
      | .error e => .error e

def run (is : List ι) : Except ε σ :=
  M.runFrom M.init is

@[simp] theorem runFrom_nil (s : σ) : M.runFrom s [] = .ok s := rfl

theorem runFrom_cons_ok {s t : σ} {i : ι} (h : M.step s i = .ok t) (is : List ι) :
    M.runFrom s (i :: is) = M.runFrom t is := by
  simp [runFrom, h]

theorem runFrom_cons_error {s : σ} {i : ι} {e : ε} (h : M.step s i = .error e) (is : List ι) :
    M.runFrom s (i :: is) = .error e := by
  simp [runFrom, h]

/-- A successful run splits into its first step and the rest. -/
theorem runFrom_cons_eq_ok {s u : σ} {i : ι} {is : List ι} :
    M.runFrom s (i :: is) = .ok u ↔ ∃ t, M.step s i = .ok t ∧ M.runFrom t is = .ok u := by
  cases h : M.step s i with
  | error e =>
      simp [runFrom, h]
  | ok t =>
      simp [runFrom, h]

/-- A successful run splits wherever its inputs do. -/
theorem runFrom_append_eq_ok {s u : σ} {is js : List ι} :
    M.runFrom s (is ++ js) = .ok u ↔ ∃ t, M.runFrom s is = .ok t ∧ M.runFrom t js = .ok u := by
  induction is generalizing s with
  | nil => simp
  | cons i is ih =>
      rw [List.cons_append, M.runFrom_cons_eq_ok]
      constructor
      · rintro ⟨m, hm, hrest⟩
        rcases ih.1 hrest with ⟨t, ht, hjs⟩
        exact ⟨t, (M.runFrom_cons_eq_ok).2 ⟨m, hm, ht⟩, hjs⟩
      · rintro ⟨t, ht, hjs⟩
        rcases (M.runFrom_cons_eq_ok).1 ht with ⟨m, hm, hrest⟩
        exact ⟨m, hm, ih.2 ⟨t, hrest, hjs⟩⟩

theorem runFrom_append {s t : σ} {is : List ι} (h : M.runFrom s is = .ok t) (js : List ι) :
    M.runFrom s (is ++ js) = M.runFrom t js := by
  induction is generalizing s with
  | nil =>
      have hst : s = t := by simpa using h
      simp [hst]
  | cons i is ih =>
      rcases (M.runFrom_cons_eq_ok).1 h with ⟨m, hm, hrest⟩
      rw [List.cons_append, M.runFrom_cons_ok hm]
      exact ih hrest

/-! ## Reachable states -/

def Reachable (s : σ) : Prop :=
  ∃ is, M.run is = .ok s

theorem reachable_init : M.Reachable M.init :=
  ⟨[], rfl⟩

theorem Reachable.step {M : Machine σ ι ε} {s t : σ} {i : ι} (hs : M.Reachable s)
    (h : M.step s i = .ok t) : M.Reachable t := by
  rcases hs with ⟨is, his⟩
  refine ⟨is ++ [i], ?_⟩
  have hrun : M.runFrom M.init (is ++ [i]) = M.runFrom s [i] := M.runFrom_append his [i]
  rw [run, hrun, M.runFrom_cons_ok h, M.runFrom_nil]

/-- What holds of `s` and is preserved by every step holds at the end of every run from `s`. -/
theorem runFrom_inv {P : σ → Prop} (hstep : ∀ s i t, P s → M.step s i = .ok t → P t)
    {s t : σ} {is : List ι} (hs : P s) (h : M.runFrom s is = .ok t) : P t := by
  -- The invariant moves along with the state, so it stays general in the induction.
  induction is generalizing s with
  | nil =>
      have hst : s = t := by simpa using h
      exact hst ▸ hs
  | cons i is ih =>
      rcases (M.runFrom_cons_eq_ok).1 h with ⟨m, hm, hrest⟩
      exact ih (hstep s i m hs hm) hrest

theorem reachable_inv {P : σ → Prop} (hinit : P M.init)
    (hstep : ∀ s i t, P s → M.step s i = .ok t → P t) {s : σ} (h : M.Reachable s) : P s := by
  rcases h with ⟨is, his⟩
  exact M.runFrom_inv hstep hinit his

/-! ## Conditions on the steps of a run -/

/-- Every step that the run of `is` from `s` attempts meets `Q`, read off the state before the
step and its input. -/
def EveryStep (Q : σ → ι → Prop) : σ → List ι → Prop
  | _, [] => True
  | s, i :: is => Q s i ∧ ∀ t, M.step s i = .ok t → EveryStep Q t is

/-- Every state that the run of `is` from `s` goes through satisfies `P`. -/
def EveryState (P : σ → Prop) : σ → List ι → Prop
  | s, [] => P s
  | s, i :: is => P s ∧ ∀ t, M.step s i = .ok t → EveryState P t is

theorem EveryState.head {M : Machine σ ι ε} {P : σ → Prop} {s : σ} {is : List ι}
    (h : M.EveryState P s is) : P s := by
  cases is with
  | nil => exact h
  | cons i is => exact h.1

/-- In particular the last state does. -/
theorem EveryState.of_run {M : Machine σ ι ε} {P : σ → Prop} {s t : σ} {is : List ι}
    (h : M.EveryState P s is) (hrun : M.runFrom s is = .ok t) : P t := by
  induction is generalizing s with
  | nil =>
      cases hrun
      exact h
  | cons i is ih =>
      rcases (M.runFrom_cons_eq_ok).1 hrun with ⟨m, hm, hrest⟩
      exact ih (h.2 m hm) hrest

theorem everyStep_cons_ok {Q : σ → ι → Prop} {s t : σ} {i : ι} {is : List ι}
    (h : M.step s i = .ok t) : M.EveryStep Q s (i :: is) ↔ Q s i ∧ M.EveryStep Q t is := by
  simp [EveryStep, h]

theorem everyStep_cons_error {Q : σ → ι → Prop} {s : σ} {i : ι} {is : List ι} {e : ε}
    (h : M.step s i = .error e) : M.EveryStep Q s (i :: is) ↔ Q s i := by
  simp [EveryStep, h]

instance decidableEveryStep (Q : σ → ι → Prop) [∀ s i, Decidable (Q s i)] :
    ∀ s is, Decidable (M.EveryStep Q s is)
  | _, [] => isTrue trivial
  | s, i :: is =>
      match h : M.step s i with
      | .ok t =>
          have := decidableEveryStep Q t is
          decidable_of_iff _ (M.everyStep_cons_ok h).symm
      | .error _ => decidable_of_iff _ (M.everyStep_cons_error h).symm

theorem everyState_cons_ok {P : σ → Prop} {s t : σ} {i : ι} {is : List ι}
    (h : M.step s i = .ok t) : M.EveryState P s (i :: is) ↔ P s ∧ M.EveryState P t is := by
  simp [EveryState, h]

theorem everyState_cons_error {P : σ → Prop} {s : σ} {i : ι} {is : List ι} {e : ε}
    (h : M.step s i = .error e) : M.EveryState P s (i :: is) ↔ P s := by
  simp [EveryState, h]

instance decidableEveryState (P : σ → Prop) [∀ s, Decidable (P s)] :
    ∀ s is, Decidable (M.EveryState P s is)
  | s, [] => inferInstanceAs (Decidable (P s))
  | s, i :: is =>
      match h : M.step s i with
      | .ok t =>
          have := decidableEveryState P t is
          decidable_of_iff _ (M.everyState_cons_ok h).symm
      | .error _ => decidable_of_iff _ (M.everyState_cons_error h).symm

theorem everyState_mono {P R : σ → Prop} (hPR : ∀ s, P s → R s) {s : σ} {is : List ι}
    (h : M.EveryState P s is) : M.EveryState R s is := by
  induction is generalizing s with
  | nil => exact hPR s h
  | cons i is ih =>
      exact ⟨hPR s h.1, fun t ht => ih (h.2 t ht)⟩

/-- The steps of a run, read off the ways to split its inputs. -/
theorem everyStep_iff_split {Q : σ → ι → Prop} {s : σ} {is : List ι} :
    M.EveryStep Q s is ↔
      ∀ pre i post t, is = pre ++ i :: post → M.runFrom s pre = .ok t → Q t i := by
  induction is generalizing s with
  | nil => simp [EveryStep]
  | cons i is ih =>
      -- A split before the first input is the first step, every other one is a split of the rest.
      constructor
      · rintro ⟨hQ, hrest⟩ pre j post t heq hrun
        cases pre with
        | nil =>
            cases heq
            cases hrun
            exact hQ
        | cons j' pre =>
            cases heq
            rcases (M.runFrom_cons_eq_ok).1 hrun with ⟨m, hm, hpre⟩
            exact ih.1 (hrest m hm) pre j post t rfl hpre
      · intro hall
        refine ⟨hall [] i is s rfl rfl, fun t ht => ih.2 fun pre j post u heq hrun => ?_⟩
        refine hall (i :: pre) j post u (by rw [heq]; rfl) ?_
        rw [M.runFrom_cons_ok ht]
        exact hrun

/-- A condition on the inputs under which no step fails is one on all of them. -/
theorem everyStep_input_iff {R : ι → Prop} (hok : ∀ s i, R i → ∃ t, M.step s i = .ok t)
    {s : σ} (is : List ι) : M.EveryStep (fun _ i => R i) s is ↔ ∀ i ∈ is, R i := by
  induction is generalizing s with
  | nil => simp [EveryStep]
  | cons i is ih =>
      rw [List.forall_mem_cons]
      constructor
      · rintro ⟨hi, hrest⟩
        rcases hok s i hi with ⟨t, ht⟩
        exact ⟨hi, ih.1 (hrest t ht)⟩
      · rintro ⟨hi, hrest⟩
        exact ⟨hi, fun t _ => ih.2 hrest⟩

/-- Two step conditions that agree wherever an invariant holds agree along whole runs. -/
theorem everyStep_congr {A : σ → Prop} {Q R : σ → ι → Prop}
    (hstep : ∀ s i t, A s → M.step s i = .ok t → A t) (hQR : ∀ s i, A s → (Q s i ↔ R s i))
    {s : σ} (hs : A s) (is : List ι) : M.EveryStep Q s is ↔ M.EveryStep R s is := by
  induction is generalizing s with
  | nil => exact Iff.rfl
  | cons i is ih =>
      -- The invariant is only needed of the states that the run goes through.
      refine and_congr (hQR s i hs) (forall_congr' fun t => forall_congr' fun ht => ?_)
      exact ih (hstep s i t hs ht)

/-- An invariant of the runs whose steps all meet `Q` holds in all their states, and so does what
it implies. -/
theorem everyState_of_everyStep {A P : σ → Prop} {Q : σ → ι → Prop}
    (hstep : ∀ s i t, A s → Q s i → M.step s i = .ok t → A t) (hP : ∀ s, A s → P s)
    {s : σ} (hs : A s) {is : List ι} (hQ : M.EveryStep Q s is) : M.EveryState P s is := by
  induction is generalizing s with
  | nil => exact hP s hs
  | cons i is ih =>
      exact ⟨hP s hs, fun t ht => ih (hstep s i t hs hQ.1 ht) (hQ.2 t ht)⟩

/-- What an invariant and the condition of a step imply holds of all steps of such a run. -/
theorem everyStep_of_everyStep {A : σ → Prop} {Q R : σ → ι → Prop}
    (hstep : ∀ s i t, A s → Q s i → M.step s i = .ok t → A t) (hR : ∀ s i, A s → Q s i → R s i)
    {s : σ} (hs : A s) {is : List ι} (hQ : M.EveryStep Q s is) : M.EveryStep R s is := by
  induction is generalizing s with
  | nil => trivial
  | cons i is ih =>
      exact ⟨hR s i hs hQ.1, fun t ht => ih (hstep s i t hs hQ.1 ht) (hQ.2 t ht)⟩

/-- An invariant holds in all states of every run, and so does what it implies. -/
theorem everyState_of_inv {A P : σ → Prop} (hstep : ∀ s i t, A s → M.step s i = .ok t → A t)
    (hP : ∀ s, A s → P s) {s : σ} (hs : A s) (is : List ι) : M.EveryState P s is := by
  induction is generalizing s with
  | nil => exact hP s hs
  | cons i is ih =>
      exact ⟨hP s hs, fun t ht => ih (hstep s i t hs ht)⟩

theorem everyStep_of_inv {A : σ → Prop} {R : σ → ι → Prop}
    (hstep : ∀ s i t, A s → M.step s i = .ok t → A t) (hR : ∀ s i, A s → R s i)
    {s : σ} (hs : A s) (is : List ι) : M.EveryStep R s is := by
  induction is generalizing s with
  | nil => trivial
  | cons i is ih =>
      exact ⟨hR s i hs, fun t ht => ih (hstep s i t hs ht)⟩

/-- A run succeeds exactly when all its steps do. -/
theorem runFrom_ok_iff_everyStep {s : σ} (is : List ι) :
    (∃ u, M.runFrom s is = .ok u) ↔ M.EveryStep (fun s i => ∃ t, M.step s i = .ok t) s is := by
  induction is generalizing s with
  | nil => simp [EveryStep]
  | cons i is ih =>
      -- The condition on the first step names the state from which the rest runs.
      constructor
      · rintro ⟨u, hu⟩
        rcases (M.runFrom_cons_eq_ok).1 hu with ⟨m, hm, hrest⟩
        exact (M.everyStep_cons_ok hm).2 ⟨⟨m, hm⟩, ih.1 ⟨u, hrest⟩⟩
      · rintro ⟨⟨t, ht⟩, hrest⟩
        rw [M.runFrom_cons_ok ht]
        exact ih.2 (hrest t ht)

/-- Every step of the run that succeeds meets `Q`. -/
def EveryTakenStep (Q : σ → ι → Prop) : σ → List ι → Prop :=
  M.EveryStep fun s i => (∃ t, M.step s i = .ok t) → Q s i

/-- `P` holds in all states of a run exactly when all the steps taken meet `Q`, provided that this
is so of one step from a state that satisfies `P` and the auxiliary invariant `A`. -/
theorem everyState_iff_everyTakenStep {A P : σ → Prop} {Q : σ → ι → Prop}
    (hstep : ∀ s i t, A s → P s → M.step s i = .ok t → (P t ↔ Q s i) ∧ (P t → A t))
    {s : σ} (hA : A s) (hP : P s) (is : List ι) :
    M.EveryState P s is ↔ M.EveryTakenStep Q s is := by
  induction is generalizing s with
  | nil =>
      exact ⟨fun _ => trivial, fun _ => hP⟩
  | cons i is ih =>
      rw [EveryTakenStep] at ih ⊢
      -- A step that fails ends the run, and both sides stop asking.
      cases hi : M.step s i with
      | error e =>
          rw [M.everyState_cons_error hi, M.everyStep_cons_error hi]
          refine iff_of_true hP ?_
          rintro ⟨t, ht⟩
          rw [hi] at ht
          cases ht
      | ok t =>
          rcases hstep s i t hA hP hi with ⟨hiff, haux⟩
          rw [M.everyState_cons_ok hi, M.everyStep_cons_ok hi]
          constructor
          · rintro ⟨_, hall⟩
            -- `P` of the next state comes with the rest of the run, and gives the condition back.
            exact ⟨fun _ => hiff.1 hall.head, (ih (haux hall.head) hall.head).1 hall⟩
          · rintro ⟨hQ, hall⟩
            have hPt : P t := hiff.2 (hQ ⟨t, hi⟩)
            exact ⟨hP, (ih (haux hPt) hPt).2 hall⟩

/-! ## Components

States often keep a list of components, of which a step replaces one. -/

theorem exists_split_of_getElem? {α : Type*} {l : List α} {i : Nat} {a : α} (h : l[i]? = some a) :
    ∃ l₁ l₂, l = l₁ ++ a :: l₂ ∧ l₁.length = i ∧ ∀ b, l.set i b = l₁ ++ b :: l₂ := by
  induction l generalizing i with
  | nil => simp at h
  | cons x l ih =>
      cases i with
      | zero =>
          have hx : x = a := by simpa using h
          exact ⟨[], l, by simp [hx], rfl, fun b => by simp⟩
      | succ i =>
          rcases ih (by simpa using h) with ⟨l₁, l₂, hl, hlength, hset⟩
          exact ⟨x :: l₁, l₂, by simp [hl], by simp [hlength], fun b => by simp [hset b]⟩

end Machine

end Lib
end LinuxLearn
