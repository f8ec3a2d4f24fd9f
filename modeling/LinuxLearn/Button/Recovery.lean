import Mathlib.Tactic

/-!
# Recovery — the recovery button

The loop of `button_run2` of `test_gree.cpp` over the results of `select`: a timeout with the time
at which it is handled, or an event of the input device.  A hold of the button is delivered as a
key event with value 1, auto-repeat events with value 2, and an event with value 0.

The loop compares the last value with 1 where it means that the button is down.  `law_iff` says
that it behaves as it should exactly if no hold has a repeat event.
-/

namespace LinuxLearn
namespace Button

/-! ## The loop -/

abbrev EV_KEY : Nat := 1

abbrev PHY_BUTTON_CODE_RECOVERY : Nat := 115

abbrev PRESS_TIME_MS : Int := 5000

structure Timeval where
  sec : Int
  usec : Nat
  deriving DecidableEq, Repr

/-- `tv_sec * 1000 + tv_usec / 1000` -/
def Timeval.millis (t : Timeval) : Int :=
  t.sec * 1000 + (t.usec / 1000 : Nat)

def isLongPressed (now before : Timeval) (interval : Int) : Bool :=
  decide (interval ≤ now.millis - before.millis)

/-- `phy_button_t` -/
structure PhyButton where
  val : Int
  lastTime : Timeval
  longPressed : Bool
  deriving DecidableEq, Repr

/-- The local state of `button_run2`, and how often it has called `cb`. -/
structure Run where
  buttons : PhyButton
  calls : Nat
  deriving DecidableEq, Repr

def Run.initial : Run :=
  ⟨⟨0, ⟨0, 0⟩, false⟩, 0⟩

structure InputEvent where
  type : Nat
  code : Nat
  value : Int
  deriving DecidableEq, Repr

/-- What `select` leads to: nothing to read in time, an event that is read and handled at `now`,
or a failure. -/
inductive Input
  | timeout (now : Timeval)
  | event (ev : InputEvent) (now : Timeval)
  | failed
  deriving DecidableEq, Repr

/-- A call of `cb`. -/
def Run.callback (s : Run) : Run :=
  { s with calls := s.calls + 1 }

def Run.onTimeout (s : Run) (now : Timeval) : Run :=
  if s.buttons.val = 1 ∧ isLongPressed now s.buttons.lastTime PRESS_TIME_MS then
    let s := s.callback
    { s with buttons := { s.buttons with longPressed := true, lastTime := now } }
  else s

/-- The handling of a key event of the button. -/
def Run.onKey (s : Run) (value : Int) (now : Timeval) : Run :=
  let s :=
    if s.buttons.val = 0 ∧ value = 1 then
      { s with buttons := { s.buttons with lastTime := now } }
    else if s.buttons.val = 1 ∧ value = 0 then
      let s := if !s.buttons.longPressed then s.callback else s
      { s with buttons := { s.buttons with longPressed := false } }
    else s
  { s with buttons := { s.buttons with val := value } }

def step (s : Run) : Input → Run
  | .timeout now => s.onTimeout now
  | .event ev now =>
      if ev.type = EV_KEY ∧ ev.code = PHY_BUTTON_CODE_RECOVERY then s.onKey ev.value now else s
  | .failed => s

def run (tr : List Input) : Run :=
  tr.foldl step .initial

/-! ## What the input layer delivers -/

/-- The value of a key event of the button. -/
def Input.keyValue : Input → Option Int
  | .event ev _ =>
      if ev.type = EV_KEY ∧ ev.code = PHY_BUTTON_CODE_RECOVERY then some ev.value else none
  | _ => none

def press (now : Timeval) : Input :=
  .event ⟨EV_KEY, PHY_BUTTON_CODE_RECOVERY, 1⟩ now

def repeatEvent (now : Timeval) : Input :=
  .event ⟨EV_KEY, PHY_BUTTON_CODE_RECOVERY, 2⟩ now

def release (now : Timeval) : Input :=
  .event ⟨EV_KEY, PHY_BUTTON_CODE_RECOVERY, 0⟩ now

/-- Whether the button is down after an input; `none` if the input is not delivered there. -/
def next (down : Bool) (i : Input) : Option Bool :=
  match i.keyValue, down with
  | none, _ => some down
  | some 1, false => some true
  | some 2, true => some true
  | some 0, true => some false
  | _, _ => none

/-- Whether the button is down after a trace. -/
def position (tr : List Input) : Option Bool :=
  tr.foldlM next false

def Input.now : Input → Option Timeval
  | .timeout now => some now
  | .event _ now => some now
  | .failed => none

def Timeval.micros (t : Timeval) : Int :=
  t.sec * 1000000 + (t.usec : Int)

/-- The clock does not go back. -/
def Ordered (tr : List Input) : Prop :=
  (tr.filterMap Input.now).Pairwise fun t t' => t.micros ≤ t'.micros

instance (tr : List Input) : Decidable (Ordered tr) := by
  unfold Ordered
  infer_instance

/-! ## What the button should do -/

/-- A timeout sees the button, pressed at `t`, down for the whole interval. -/
def ObservedLong (t : Timeval) (held : List Input) : Prop :=
  ∃ now, .timeout now ∈ held ∧ PRESS_TIME_MS ≤ now.millis - t.millis

/-- A hold from the state `s` on gives one call at its release, or calls while the button is held
and none at the release. -/
structure HoldRight (s : Run) (t : Timeval) (held : List Input) (t' : Timeval) : Prop where
  short : ¬ ObservedLong t held →
    ((press t :: held).foldl step s).calls = s.calls ∧
      ((press t :: held ++ [release t']).foldl step s).calls =
        ((press t :: held).foldl step s).calls + 1
  long : ObservedLong t held →
    s.calls < ((press t :: held).foldl step s).calls ∧
      ((press t :: held ++ [release t']).foldl step s).calls =
        ((press t :: held).foldl step s).calls

/-- The button is pressed at `t` after `pre` and released at `t'`, with `held` in between. -/
def HoldIn (tr pre : List Input) (t : Timeval) (held : List Input) (t' : Timeval) : Prop :=
  (∃ post, tr = pre ++ (press t :: held ++ [release t']) ++ post) ∧
    ∀ i ∈ held, i.keyValue ≠ some 0

/-- Every hold of the trace is right, and `long_pressed` is false whenever the button is up. -/
structure Law (tr : List Input) : Prop where
  holds : ∀ pre t held t', HoldIn tr pre t held t' → HoldRight (run pre) t held t'
  up : ∀ pre post, tr = pre ++ post → position pre = some false →
    (run pre).buttons.longPressed = false

/-! ## Traces -/

theorem run_append (tr tr' : List Input) : run (tr ++ tr') = tr'.foldl step (run tr) :=
  List.foldl_append ..

theorem position_append (tr tr' : List Input) :
    position (tr ++ tr') = (position tr).bind fun down => tr'.foldlM next down :=
  List.foldlM_append ..

theorem position_snoc (tr : List Input) (i : Input) :
    position (tr ++ [i]) = (position tr).bind fun down => next down i := by
  simp [position_append]

/-- A part of a delivered trace is delivered. -/
theorem position_prefix {pre post : List Input} {down : Bool}
    (h : position (pre ++ post) = some down) :
    ∃ d, position pre = some d ∧ post.foldlM next d = some down := by
  rw [position_append] at h
  exact Option.bind_eq_some_iff.1 h

theorem keyValue_press (t : Timeval) : (press t).keyValue = some 1 := rfl

theorem eq_of_keyValue {i : Input} {v : Int} (h : i.keyValue = some v) :
    ∃ now, i = .event ⟨EV_KEY, PHY_BUTTON_CODE_RECOVERY, v⟩ now := by
  cases i with
  | timeout now => cases h
  | event ev now =>
      rcases ev with ⟨type, code, value⟩
      by_cases hkey : type = EV_KEY ∧ code = PHY_BUTTON_CODE_RECOVERY
      · rcases hkey with ⟨rfl, rfl⟩
        have hvalue : value = v := by simpa [Input.keyValue] using h
        exact ⟨now, by rw [hvalue]⟩
      · simp [Input.keyValue, hkey] at h
  | failed => cases h

theorem next_none {i : Input} (hi : i.keyValue = none) (d : Bool) : next d i = some d := by
  simp [next, hi]

/-- The key events that are delivered: a press when the button is up, repeat events and the release
when it is down. -/
theorem next_key {i : Input} {v : Int} {d d' : Bool} (hi : i.keyValue = some v)
    (h : next d i = some d') :
    d = false ∧ v = 1 ∧ d' = true ∨ d = true ∧ v = 2 ∧ d' = true ∨
      d = true ∧ v = 0 ∧ d' = false := by
  unfold next at h
  grind

theorem next_press {d d' : Bool} {t : Timeval} (h : next d (press t) = some d') :
    d = false ∧ d' = true := by
  simpa using next_key (keyValue_press t) h

/-- What is delivered while the button is down, before its release. -/
theorem held_of_position {held post : List Input} {down : Bool}
    (h : (held ++ post).foldlM next true = some down)
    (hheld : ∀ i ∈ held, i.keyValue ≠ some 0) :
    (∀ i ∈ held, i.keyValue = none ∨ i.keyValue = some 2) ∧ post.foldlM next true = some down := by
  induction held with
  | nil => exact ⟨nofun, h⟩
  | cons i held ih =>
      have hi := hheld i List.mem_cons_self
      rw [List.cons_append, List.foldlM_cons] at h
      rcases Option.bind_eq_some_iff.1 h with ⟨d, hd, hrest⟩
      have hnext : (i.keyValue = none ∨ i.keyValue = some 2) ∧ d = true := by
        cases hkey : i.keyValue with
        | none => exact ⟨Or.inl rfl, (Option.some.inj ((next_none hkey true).symm.trans hd)).symm⟩
        | some v =>
            rcases next_key hkey hd with ⟨hup, _⟩ | ⟨_, rfl, hdown⟩ | ⟨_, rfl, _⟩
            · cases hup
            · exact ⟨Or.inr rfl, hdown⟩
            · exact absurd hkey hi
      rw [hnext.2] at hrest
      rcases ih hrest fun j hj => hheld j (List.mem_cons_of_mem i hj) with ⟨hall, hpost⟩
      exact ⟨List.forall_mem_cons.2 ⟨hnext.1, hall⟩, hpost⟩

/-! ## Steps -/

section Steps

variable {s : Run} {i : Input}

theorem step_key {v : Int} (hi : i.keyValue = some v) : ∃ now, step s i = s.onKey v now := by
  rcases eq_of_keyValue hi with ⟨now, rfl⟩
  exact ⟨now, by simp [step]⟩

/-- Other events do nothing. -/
theorem step_other (hi : i.keyValue = none) (htimeout : ∀ now, i ≠ .timeout now) :
    step s i = s := by
  cases i with
  | timeout now => exact absurd rfl (htimeout now)
  | event ev now =>
      by_cases hkey : ev.type = EV_KEY ∧ ev.code = PHY_BUTTON_CODE_RECOVERY
      · simp [Input.keyValue, hkey] at hi
      · simp only [step, hkey, if_false]
  | failed => rfl

/-- A timeout does something only while `val` is 1. -/
theorem step_quiet (hi : i.keyValue = none) (hs : s.buttons.val ≠ 1) : step s i = s := by
  cases i with
  | timeout now => simp [step, Run.onTimeout, hs]
  | event ev now => exact step_other hi nofun
  | failed => rfl

/-- A repeat event leaves nothing but its value. -/
theorem step_repeat (hi : i.keyValue = some 2) :
    step s i = { s with buttons := { s.buttons with val := 2 } } := by
  rcases step_key (s := s) hi with ⟨now, hstep⟩
  simp [hstep, Run.onKey]

theorem step_press (hs : s.buttons.val = 0) (t : Timeval) :
    step s (press t) = { s with buttons := { s.buttons with val := 1, lastTime := t } } := by
  simp [step, press, Run.onKey, hs]

theorem step_release_held (hs : s.buttons.val = 1) (t : Timeval) :
    step s (release t) =
      { calls := if s.buttons.longPressed then s.calls else s.calls + 1
        buttons := { s.buttons with val := 0, longPressed := false } } := by
  cases hlong : s.buttons.longPressed with
  | false => simp [step, release, Run.onKey, Run.callback, hs, hlong]
  | true => simp [step, release, Run.onKey, hs, hlong]

theorem step_release_repeated (hs : s.buttons.val = 2) (t : Timeval) :
    step s (release t) = { s with buttons := { s.buttons with val := 0 } } := by
  simp [step, release, Run.onKey, hs]

end Steps

/-! ## Holds -/

/-- The button is up, and nothing is left of an earlier hold. -/
def Clean (s : Run) : Prop :=
  s.buttons.val = 0 ∧ s.buttons.longPressed = false

/-- The state in a hold from `t` on that has no repeat event so far. -/
structure Holding (calls : Nat) (t : Timeval) (held : List Input) (s : Run) : Prop where
  val : s.buttons.val = 1
  short : ¬ ObservedLong t held →
    s.buttons.longPressed = false ∧ s.buttons.lastTime = t ∧ s.calls = calls
  long : ObservedLong t held → s.buttons.longPressed = true ∧ calls < s.calls

theorem observedLong_snoc {t : Timeval} {held : List Input} {i : Input} :
    ObservedLong t (held ++ [i]) ↔
      ObservedLong t held ∨ ∃ now, i = .timeout now ∧ PRESS_TIME_MS ≤ now.millis - t.millis := by
  constructor
  · rintro ⟨now, hmem, hlong⟩
    rcases List.mem_append.1 hmem with hold | hnew
    · exact Or.inl ⟨now, hold, hlong⟩
    · exact Or.inr ⟨now, (List.mem_singleton.1 hnew).symm, hlong⟩
  · rintro (⟨now, hmem, hlong⟩ | ⟨now, rfl, hlong⟩)
    · exact ⟨now, List.mem_append_left _ hmem, hlong⟩
    · exact ⟨now, List.mem_append_right _ List.mem_cons_self, hlong⟩

theorem Holding.step {calls : Nat} {t : Timeval} {held : List Input} {s : Run}
    (h : Holding calls t held s) {i : Input} (hi : i.keyValue = none) :
    Holding calls t (held ++ [i]) (step s i) := by
  cases i with
  | timeout now =>
      by_cases hexpired : PRESS_TIME_MS ≤ now.millis - s.buttons.lastTime.millis
      · -- The timeout calls `cb`; it is a long one, or another was.
        have hlong : ObservedLong t (held ++ [.timeout now]) := by
          by_cases hbefore : ObservedLong t held
          · exact observedLong_snoc.2 (Or.inl hbefore)
          · have hlast := (h.short hbefore).2.1
            exact observedLong_snoc.2 (Or.inr ⟨now, rfl, hlast ▸ hexpired⟩)
        have hcalls : calls ≤ s.calls := by
          by_cases hbefore : ObservedLong t held
          · exact Nat.le_of_lt (h.long hbefore).2
          · exact Nat.le_of_eq (h.short hbefore).2.2.symm
        have hstep : Button.step s (.timeout now) =
            ⟨⟨s.buttons.val, now, true⟩, s.calls + 1⟩ := by
          simp [Button.step, Run.onTimeout, Run.callback, isLongPressed, h.val, hexpired]
        rw [hstep]
        exact ⟨h.val, fun hshort => absurd hlong hshort, fun _ => ⟨rfl, Nat.lt_succ_of_le hcalls⟩⟩
      · have hstep : Button.step s (.timeout now) = s := by
          simp [Button.step, Run.onTimeout, isLongPressed, hexpired]
        rw [hstep]
        refine ⟨h.val, fun hshort => ?_, fun hlong => ?_⟩
        · exact h.short fun hbefore => hshort (observedLong_snoc.2 (Or.inl hbefore))
        · by_cases hbefore : ObservedLong t held
          · exact h.long hbefore
          · -- The time still counts from the press, so this timeout is no long one.
            rcases observedLong_snoc.1 hlong with hbefore' | ⟨now', heq, hnow⟩
            · exact absurd hbefore' hbefore
            · cases heq
              rw [(h.short hbefore).2.1] at hexpired
              exact absurd hnow hexpired
  | event ev now =>
      rw [step_other hi nofun]
      have hsame : ObservedLong t (held ++ [.event ev now]) ↔ ObservedLong t held := by
        simp [observedLong_snoc]
      exact ⟨h.val, fun hshort => h.short (hshort ∘ hsame.2), fun hlong => h.long (hsame.1 hlong)⟩
  | failed =>
      have hsame : ObservedLong t (held ++ [.failed]) ↔ ObservedLong t held := by
        simp [observedLong_snoc]
      exact ⟨h.val, fun hshort => h.short (hshort ∘ hsame.2), fun hlong => h.long (hsame.1 hlong)⟩

theorem holding_run {s : Run} (hs : Clean s) (t : Timeval) {held : List Input}
    (hheld : ∀ i ∈ held, i.keyValue = none) :
    Holding s.calls t held ((press t :: held).foldl step s) := by
  rw [List.foldl_cons, step_press hs.1]
  induction held using List.reverseRecOn with
  | nil => exact ⟨rfl, fun _ => ⟨hs.2, rfl, rfl⟩, fun ⟨_, hmem, _⟩ => nomatch hmem⟩
  | append_singleton held i ih =>
      rw [List.foldl_append]
      have hprefix := ih fun j hj => hheld j (List.mem_append_left _ hj)
      exact hprefix.step (hheld i (List.mem_append_right _ List.mem_cons_self))

/-- A hold without repeat events is right and leaves nothing behind. -/
theorem hold_right {s : Run} (hs : Clean s) (t t' : Timeval) {held : List Input}
    (hheld : ∀ i ∈ held, i.keyValue = none) :
    HoldRight s t held t' ∧ Clean ((press t :: held ++ [release t']).foldl step s) := by
  have hholding := holding_run hs t hheld
  have hrelease : (press t :: held ++ [release t']).foldl step s =
      step ((press t :: held).foldl step s) (release t') := by
    rw [List.foldl_append]
    rfl
  have hstep := step_release_held hholding.val t'
  refine ⟨⟨fun hshort => ?_, fun hlong => ?_⟩, ?_⟩
  · rcases hholding.short hshort with ⟨hflag, _, hcalls⟩
    refine ⟨hcalls, ?_⟩
    rw [hrelease, hstep, hflag]
    rfl
  · rcases hholding.long hlong with ⟨hflag, hcalls⟩
    refine ⟨hcalls, ?_⟩
    rw [hrelease, hstep, hflag]
    rfl
  · rw [hrelease, hstep]
    exact ⟨rfl, rfl⟩

/-- From a repeat event to the release nothing happens. -/
theorem repeated_run {s : Run} (hs : s.buttons.val = 2) {held : List Input}
    (hheld : ∀ i ∈ held, i.keyValue = none ∨ i.keyValue = some 2) : held.foldl step s = s := by
  induction held with
  | nil => rfl
  | cons i held ih =>
      have hstep : step s i = s := by
        rcases hheld i List.mem_cons_self with hnone | hrepeat
        · exact step_quiet hnone (by simp [hs])
        · rw [step_repeat hrepeat, ← hs]
      rw [List.foldl_cons, hstep]
      exact ih fun j hj => hheld j (List.mem_cons_of_mem i hj)

/-- A list of inputs without a repeat event, or split at its first one. -/
theorem split_repeat {held : List Input}
    (hheld : ∀ i ∈ held, i.keyValue = none ∨ i.keyValue = some 2) :
    (∀ i ∈ held, i.keyValue = none) ∨
      ∃ before i after, held = before ++ i :: after ∧ (∀ j ∈ before, j.keyValue = none) ∧
        i.keyValue = some 2 ∧ ∀ j ∈ after, j.keyValue = none ∨ j.keyValue = some 2 := by
  induction held with
  | nil => exact Or.inl nofun
  | cons i held ih =>
      have htail : ∀ j ∈ held, j.keyValue = none ∨ j.keyValue = some 2 := fun j hj =>
        hheld j (List.mem_cons_of_mem i hj)
      rcases hheld i List.mem_cons_self with hnone | hrepeat
      · rcases ih htail with hclear | ⟨before, j, after, rfl, hbefore, hj, hafter⟩
        · exact Or.inl (List.forall_mem_cons.2 ⟨hnone, hclear⟩)
        · have hcons : ∀ k ∈ i :: before, k.keyValue = none :=
            List.forall_mem_cons.2 ⟨hnone, hbefore⟩
          exact Or.inr ⟨i :: before, j, after, rfl, hcons, hj, hafter⟩
      · exact Or.inr ⟨[], i, held, rfl, nofun, hrepeat, htail⟩

/-- After a hold with a repeat event, either the hold was not right, or its long press is still
noted. -/
theorem hold_repeated {s : Run} (hs : Clean s) {t t' : Timeval} {before after : List Input}
    {i : Input} (hbefore : ∀ j ∈ before, j.keyValue = none) (hi : i.keyValue = some 2)
    (hafter : ∀ j ∈ after, j.keyValue = none ∨ j.keyValue = some 2)
    (hright : HoldRight s t (before ++ i :: after) t') :
    ((press t :: (before ++ i :: after) ++ [release t']).foldl step s).buttons.longPressed =
      true := by
  have hholding := holding_run hs t hbefore
  generalize hmiddle : (press t :: before).foldl step s = middle at hholding
  have hheld : (press t :: (before ++ i :: after)).foldl step s =
      { middle with buttons := { middle.buttons with val := 2 } } := by
    rw [← List.cons_append, List.foldl_append, hmiddle, List.foldl_cons, step_repeat hi]
    exact repeated_run rfl hafter
  have hreleased : (press t :: (before ++ i :: after) ++ [release t']).foldl step s =
      { middle with buttons := { middle.buttons with val := 0 } } := by
    rw [List.foldl_append, hheld]
    exact step_release_repeated rfl t'
  rw [hreleased]
  by_cases hlong : ObservedLong t before
  · exact (hholding.long hlong).1
  · -- No call has been made so far, and none is made any more.
    exfalso
    have hcalls := (hholding.short hlong).2.2
    by_cases hlate : ObservedLong t (before ++ i :: after)
    · have hcall := (hright.long hlate).1
      rw [hheld, hcalls] at hcall
      exact Nat.lt_irrefl _ hcall
    · have hcall := (hright.short hlate).2
      rw [hheld, hreleased] at hcall
      exact absurd hcall (Nat.ne_of_lt (Nat.lt_succ_self _))

/-! ## The law -/

/-- The inputs of a hold are delivered from where the button is up. -/
theorem hold_delivered {tr pre : List Input} {t : Timeval} {held : List Input} {t' : Timeval}
    {down : Bool} (h : position tr = some down) (hin : HoldIn tr pre t held t') :
    position pre = some false ∧ (∀ i ∈ held, i.keyValue = none ∨ i.keyValue = some 2) ∧
      position (pre ++ (press t :: held ++ [release t'])) = some false := by
  rcases hin with ⟨⟨post, rfl⟩, hheld⟩
  rcases position_prefix h with ⟨d, hd, _⟩
  rcases position_prefix hd with ⟨d₀, hd₀, hhold⟩
  rw [List.cons_append, List.foldlM_cons] at hhold
  rcases Option.bind_eq_some_iff.1 hhold with ⟨d₁, hd₁, hrest⟩
  rcases next_press hd₁ with ⟨rfl, rfl⟩
  rcases held_of_position hrest hheld with ⟨hall, hrelease⟩
  have hfalse : d = false := by
    have hup : [release t'].foldlM next true = some false := rfl
    exact Option.some.inj (hrelease.symm.trans hup)
  exact ⟨hd₀, hall, hfalse ▸ hd⟩

/-- When the button is up, `val` is 0. -/
theorem val_of_up (tr : List Input) (h : position tr = some false) :
    (run tr).buttons.val = 0 := by
  induction tr using List.reverseRecOn with
  | nil => rfl
  | append_singleton tr i ih =>
      rw [position_snoc] at h
      rcases Option.bind_eq_some_iff.1 h with ⟨d, hd, hnext⟩
      rw [run_append, List.foldl_cons, List.foldl_nil]
      cases hi : i.keyValue with
      | none =>
          have hup : d = false := Option.some.inj ((next_none hi d).symm.trans hnext)
          have hval := ih (hup ▸ hd)
          rw [step_quiet hi (by simp [hval])]
          exact hval
      | some v =>
          have hreleased : d = true ∧ v = 0 := by simpa using next_key hi hnext
          rcases step_key (s := run tr) hi with ⟨now, hstep⟩
          rw [hstep, hreleased.2]
          rfl

/-- No hold that is completed in the trace has a repeat event. -/
def NoRepeat (tr : List Input) : Prop :=
  ∀ pre t held t', HoldIn tr pre t held t' → ∀ i ∈ held, i.keyValue = none

theorem NoRepeat.of_prefix {tr post : List Input} (h : NoRepeat (tr ++ post)) : NoRepeat tr := by
  rintro pre t held t' ⟨⟨rest, rfl⟩, hheld⟩
  exact h pre t held t' ⟨⟨rest ++ post, by simp⟩, hheld⟩

/-- The last press, when the button is down, and what was delivered since. -/
def Pressed (tr : List Input) : Prop :=
  ∃ pre t held, tr = pre ++ press t :: held ∧ Clean (run pre) ∧
    ∀ i ∈ held, i.keyValue = none ∨ i.keyValue = some 2

theorem Pressed.snoc {tr : List Input} (h : Pressed tr) {i : Input}
    (hi : i.keyValue = none ∨ i.keyValue = some 2) : Pressed (tr ++ [i]) := by
  rcases h with ⟨pre, t, held, rfl, hclean, hheld⟩
  refine ⟨pre, t, held ++ [i], by simp, hclean, fun j hj => ?_⟩
  rcases List.mem_append.1 hj with hold | hnew
  · exact hheld j hold
  · exact List.mem_singleton.1 hnew ▸ hi

/-- The end of a hold without repeat events. -/
theorem Pressed.released {tr : List Input} (h : Pressed tr) {t' : Timeval}
    (hquiet : NoRepeat (tr ++ [release t'])) : Clean (run (tr ++ [release t'])) := by
  rcases h with ⟨pre, t, held, rfl, hclean, hheld⟩
  have hin : HoldIn (pre ++ press t :: held ++ [release t']) pre t held t' := by
    refine ⟨⟨[], by simp⟩, fun i hi hzero => ?_⟩
    rcases hheld i hi with hnone | hrepeat
    · simp [hzero] at hnone
    · simp [hzero] at hrepeat
  rw [List.append_assoc, run_append]
  exact (hold_right hclean t t' (hquiet _ _ _ _ hin)).2

/-- Without repeat events, every state with the button up is clean. -/
theorem clean_of_noRepeat (tr : List Input) (hquiet : NoRepeat tr) :
    (position tr = some false → Clean (run tr)) ∧ (position tr = some true → Pressed tr) := by
  induction tr using List.reverseRecOn with
  | nil => exact ⟨fun _ => ⟨rfl, rfl⟩, nofun⟩
  | append_singleton tr i ih =>
      rcases ih hquiet.of_prefix with ⟨hup, hdown⟩
      have hposition := position_snoc tr i
      cases hd : position tr with
      | none => simp [hposition, hd]
      | some d =>
          rw [hd, Option.bind_some] at hposition
          rw [hposition]
          cases hi : i.keyValue with
          | none =>
              rw [next_none hi d]
              constructor
              · rintro ⟨⟩
                have hclean := hup hd
                rw [run_append, List.foldl_cons, List.foldl_nil, step_quiet hi (by simp [hclean.1])]
                exact hclean
              · rintro ⟨⟩
                exact (hdown hd).snoc (Or.inl hi)
          | some v =>
              rcases eq_of_keyValue hi with ⟨now, rfl⟩
              constructor
              · intro hnext
                have hvalue : d = true ∧ v = 0 := by simpa using next_key hi hnext
                rcases hvalue with ⟨rfl, rfl⟩
                exact (hdown hd).released hquiet
              · intro hnext
                have hvalue : d = false ∧ v = 1 ∨ d = true ∧ v = 2 := by
                  simpa using next_key hi hnext
                rcases hvalue with ⟨rfl, rfl⟩ | ⟨rfl, rfl⟩
                · exact ⟨tr, now, [], rfl, hup hd, nofun⟩
                · exact (hdown hd).snoc (Or.inr hi)

/-- On a trace that the input layer delivers, the button does what it should exactly if no hold
has a repeat event. -/
theorem law_iff {tr : List Input} {down : Bool} (h : position tr = some down) :
    Law tr ↔ NoRepeat tr := by
  constructor
  · rintro hlaw pre t held t' hin
    rcases hold_delivered h hin with ⟨hup, hheld, hreleased⟩
    have hright := hlaw.holds pre t held t' hin
    rcases hin with ⟨⟨post, rfl⟩, _⟩
    have hclean : Clean (run pre) :=
      ⟨val_of_up pre hup, hlaw.up pre _ (List.append_assoc ..) hup⟩
    rcases split_repeat hheld with hquiet | ⟨before, i, after, rfl, hbefore, hi, hafter⟩
    · exact hquiet
    · have hnoted := hold_repeated hclean hbefore hi hafter hright
      have hflag := hlaw.up _ post rfl hreleased
      rw [run_append, hnoted] at hflag
      cases hflag
  · intro hquiet
    refine ⟨fun pre t held t' hin => ?_, fun pre post htr hup => ?_⟩
    · rcases hold_delivered h hin with ⟨hup, _, _⟩
      have hheld := hquiet pre t held t' hin
      rcases hin with ⟨⟨post, rfl⟩, _⟩
      rw [List.append_assoc] at hquiet
      exact (hold_right ((clean_of_noRepeat pre hquiet.of_prefix).1 hup) t t' hheld).1
    · subst htr
      exact ((clean_of_noRepeat pre hquiet.of_prefix).1 hup).2

theorem noRepeat_of_forall {tr : List Input} {down : Bool} (h : position tr = some down)
    (hall : ∀ i ∈ tr, i.keyValue ≠ some 2) : NoRepeat tr := by
  intro pre t held t' hin i hi
  have hheld := (hold_delivered h hin).2.1 i hi
  rcases hin with ⟨⟨post, rfl⟩, _⟩
  exact hheld.resolve_right (hall i (by simp [hi]))

/-- A hold of two seconds, with a timeout in between. -/
def shortHold : List Input :=
  [press ⟨1, 0⟩, .timeout ⟨2, 0⟩, release ⟨3, 0⟩]

theorem short_hold_right : Law shortHold :=
  (law_iff rfl).2 (noRepeat_of_forall rfl (by decide))

/-- The same hold with the first repeat event, after a quarter of a second. -/
def repeatedHold : List Input :=
  [press ⟨1, 0⟩, repeatEvent ⟨1, 250000⟩, .timeout ⟨2, 0⟩, release ⟨3, 0⟩]

/-- Its release is not reported. -/
theorem repeated_hold_lost :
    ¬ ∀ (tr : List Input) (down : Bool), Ordered tr → position tr = some down → Law tr := by
  intro h
  have hlaw := h repeatedHold false (by decide) rfl
  have hin : HoldIn repeatedHold [] ⟨1, 0⟩ [repeatEvent ⟨1, 250000⟩, .timeout ⟨2, 0⟩] ⟨3, 0⟩ :=
    ⟨⟨[], rfl⟩, by decide⟩
  have hshort : ¬ ObservedLong ⟨1, 0⟩ [repeatEvent ⟨1, 250000⟩, .timeout ⟨2, 0⟩] := by
    rintro ⟨now, hmem, hlong⟩
    have hnow : now = ⟨2, 0⟩ := by simpa [repeatEvent] using hmem
    rw [hnow] at hlong
    revert hlong
    decide
  have hcalls := ((hlaw.holds _ _ _ _ hin).short hshort).2
  revert hcalls
  decide

end Button
end LinuxLearn
