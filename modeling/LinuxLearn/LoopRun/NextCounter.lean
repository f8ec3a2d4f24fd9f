import LinuxLearn.Lib.Shell

/-!
# NextCounter — the cyclic counter of the script `next`

`next -c first last` stores a range in `next.conf` and its first number in `next.now`; each
`next -r` adds one to the stored number and starts again after `last`.  Between the calls the
number is a text, which `test` reads as a decimal number and arithmetic expansion as an octal one
if it has a leading zero.

The script has no interpreter line; its `echo -e` is the one of bash, which writes two lines.
-/

namespace LinuxLearn
namespace LoopRun

open Lib

/-! ## The script -/

/-- The lines of `next.conf` and `next.now`. -/
structure Files where
  conf : List Text
  now : List Text
  deriving DecidableEq, Repr

/-- Whether the range is accepted, and the files afterwards.  An argument may be missing. -/
def config (f : Files) (first last : Option Text) : Bool × Files :=
  match first, last with
  | some first, some last =>
      if first ≠ [] ∧ last ≠ [] ∧ testGe first (ascii "0") = some true ∧
          testGe last (ascii "0") = some true then
        if testGt first last = some true then (false, f)
        else (true, ⟨[first, last], [first]⟩)
      else (false, f)
  | _, _ => (false, f)

/-- The files after `next -r`. -/
def run (f : Files) : Files :=
  if f.conf = [] then f
  else
    let countTmp := f.now.headD []
    let countLast := f.conf[1]?.getD []
    match arithSucc countTmp with
    -- An error in an expression ends the function.
    | none => f
    | some countTmp =>
        let f := { f with now := [decimal countTmp] }
        if testGt (decimal countTmp) countLast = some true then
          { f with now := [f.conf.headD []] }
        else f

def runs (k : Nat) (f : Files) : Files :=
  run^[k] f

/-! ## The law and the condition -/

structure Digits where
  text : Text
  nonempty : text ≠ []
  digits : text.all isDigit = true

/-- The decimal number. -/
def Digits.number (w : Digits) : Nat :=
  numeral 10 w.text

/-- After `k` runs the stored text is a decimal number, the one that a cyclic counter has. -/
def CountsCyclically (f : Files) (first last : Digits) : Prop :=
  ∀ k, ∃ w, (runs k (config f (some first.text) (some last.text)).2).now = [w] ∧
    natural w = some (first.number + k % (last.number - first.number + 1))

/-- Arithmetic expansion reads the first number as `test` does, and the number after the last one
is still in range; or it cannot read the first number, and that is the only one. -/
def ReadAlike (first last : Digits) : Prop :=
  (constant first.text = some first.number ∧ (last.number : Int) < intMax) ∨
    (constant first.text = none ∧ last.number = first.number)

/-! ## Single runs -/

theorem natural_digits (w : Digits) : natural w.text = some w.number := by
  rw [natural, if_pos ⟨w.nonempty, w.digits⟩]
  rfl

theorem testInt_digits_eq (w : Digits) :
    testInt w.text = if (w.number : Int) ≤ intMax then some (w.number : Int) else none :=
  testInt_of_digits w.nonempty w.digits

theorem testInt_digits {w : Digits} (h : (w.number : Int) ≤ intMax) :
    testInt w.text = some (w.number : Int) := by
  rw [testInt_digits_eq, if_pos h]

/-- What an accepted range is. -/
theorem config_accepted {f : Files} {first last : Digits}
    (h : (config f (some first.text) (some last.text)).1 = true) :
    first.number ≤ last.number ∧ (last.number : Int) ≤ intMax ∧
      (config f (some first.text) (some last.text)).2 =
        ⟨[first.text, last.text], [first.text]⟩ := by
  rw [config] at h ⊢
  split at h
  · rename_i hargs
    rw [if_pos hargs]
    split at h
    · cases h
    · rename_i hgt
      rw [if_neg hgt]
      -- `test` has read both numbers, so they are in range.
      have hrange : ∀ w : Digits, testGe w.text (ascii "0") = some true →
          (w.number : Int) ≤ intMax := by
        intro w hw
        by_contra hmax
        rw [testGe, testInt_digits_eq, if_neg hmax] at hw
        cases hw
      have hlast := hrange last hargs.2.2.2
      refine ⟨?_, hlast, rfl⟩
      by_contra hlt
      rw [testGt, testInt_digits (hrange first hargs.2.2.1), testInt_digits hlast] at hgt
      exact hgt (by simpa using hlt)
  · cases h

section Run

variable {first last : Digits}

/-- A run that reads the stored text as `v`. -/
theorem run_constant {w : Text} {v : Nat} (hw : constant w = some v) (hv : (v : Int) < intMax)
    (hlast : (last.number : Int) ≤ intMax) :
    run ⟨[first.text, last.text], [w]⟩ = ⟨[first.text, last.text],
      [if last.number < v + 1 then first.text else decimalNat (v + 1)]⟩ := by
  have hsucc : arithSucc w = some ((v + 1 : Nat) : Int) := by
    rw [arithSucc_of_constant hw, wrap_of_le (by omega) (by omega)]
    rfl
  have hdecimal : decimal ((v + 1 : Nat) : Int) = decimalNat (v + 1) := rfl
  have hgt : testGt (decimalNat (v + 1)) last.text = some (decide (last.number < v + 1)) := by
    rw [testGt, testInt_decimalNat, if_pos (by omega), testInt_digits hlast]
    simp only [Nat.cast_lt]
  simp only [run, List.headD_cons, List.getElem?_cons_succ, List.getElem?_cons_zero,
    Option.getD_some, hsucc, hdecimal, hgt, if_neg (List.cons_ne_nil first.text [last.text])]
  by_cases hlt : last.number < v + 1
  · simp [hlt]
  · simp [hlt]

theorem run_error {w : Text} (hdigits : w.all isDigit = true) (hw : constant w = none) :
    run ⟨[first.text, last.text], [w]⟩ = ⟨[first.text, last.text], [w]⟩ := by
  have hsucc := arithSucc_of_error hdigits hw
  simp [run, hsucc]

/-- The number after the greatest one that fits. -/
theorem run_overflow {w : Text} {v : Nat} (hw : constant w = some v) (hv : (v : Int) = intMax)
    (hlast : (last.number : Int) ≤ intMax) :
    run ⟨[first.text, last.text], [w]⟩ =
      ⟨[first.text, last.text], [decimal (-intMax - 1)]⟩ := by
  have hsucc : arithSucc w = some (-intMax - 1) := by
    rw [arithSucc_of_constant hw, hv, wrap_intMax]
  have hneg : testInt (decimal (-intMax - 1)) = some (-intMax - 1) := by decide +kernel
  have hgt : testGt (decimal (-intMax - 1)) last.text = some false := by
    have hle : ¬ (last.number : Int) < -intMax - 1 := by
      unfold intMax
      omega
    rw [testGt, hneg, testInt_digits hlast]
    simp only [hle, decide_false]
  simp [run, hsucc, hgt]

end Run

/-! ## Sequences of runs -/

theorem runs_succ (k : Nat) (f : Files) : runs (k + 1) f = run (runs k f) :=
  Function.iterate_succ_apply' run k f

section Runs

variable {first last : Digits}

theorem succ_mod_eq (k : Nat) {m : Nat} (hm : 0 < m) :
    (k + 1) % m = if k % m + 1 = m then 0 else k % m + 1 := by
  have hlt := Nat.mod_lt k hm
  by_cases hone : m = 1
  · subst hone
    simp [Nat.mod_one]
  · have hmod : 1 % m = 1 := Nat.mod_eq_of_lt (by omega)
    rw [Nat.add_mod_eq_ite, hmod]
    split <;> split <;> omega

/-- Read alike, the numbers go round. -/
theorem runs_cyclic (hle : first.number ≤ last.number)
    (hfirst : constant first.text = some first.number) (hlast : (last.number : Int) < intMax)
    (k : Nat) :
    ∃ w, runs k ⟨[first.text, last.text], [first.text]⟩ = ⟨[first.text, last.text], [w]⟩ ∧
      constant w = some (first.number + k % (last.number - first.number + 1)) ∧
      natural w = some (first.number + k % (last.number - first.number + 1)) := by
  have hpos : 0 < last.number - first.number + 1 := Nat.succ_pos _
  induction k with
  | zero =>
      rw [Nat.zero_mod, Nat.add_zero]
      exact ⟨first.text, rfl, hfirst, natural_digits first⟩
  | succ k ih =>
      rcases ih with ⟨w, hruns, hconst, _⟩
      have hlt := Nat.mod_lt k hpos
      have hstep : run ⟨[first.text, last.text], [w]⟩ = _ :=
        run_constant hconst (by omega) (by omega)
      rw [runs_succ, hruns, hstep, succ_mod_eq k hpos]
      refine ⟨_, rfl, ?_⟩
      by_cases hwrap : k % (last.number - first.number + 1) + 1 = last.number - first.number + 1
      · rw [if_pos hwrap, if_pos (by omega), Nat.add_zero]
        exact ⟨hfirst, natural_digits first⟩
      · rw [if_neg hwrap, if_neg (by omega), ← Nat.add_assoc]
        exact ⟨constant_decimalNat _, natural_decimalNat _⟩

/-- A first number that cannot be read stays. -/
theorem runs_error (hfirst : constant first.text = none) (k : Nat) :
    runs k ⟨[first.text, last.text], [first.text]⟩ =
      ⟨[first.text, last.text], [first.text]⟩ := by
  induction k with
  | zero => rfl
  | succ k ih => rw [runs_succ, ih, run_error first.digits hfirst]

/-- Up to the last number the counter counts, in any case. -/
theorem runs_below (hfirst : constant first.text = some first.number)
    (hlast : (last.number : Int) ≤ intMax) {k : Nat} (hk : first.number + k ≤ last.number) :
    ∃ w, runs k ⟨[first.text, last.text], [first.text]⟩ = ⟨[first.text, last.text], [w]⟩ ∧
      constant w = some (first.number + k) := by
  induction k with
  | zero => exact ⟨first.text, rfl, hfirst⟩
  | succ k ih =>
      rcases ih (by omega) with ⟨w, hruns, hconst⟩
      have hstep : run ⟨[first.text, last.text], [w]⟩ = _ :=
        run_constant hconst (by omega) hlast
      rw [runs_succ, hruns, hstep, if_neg (by omega)]
      exact ⟨_, rfl, constant_decimalNat _⟩

end Runs

theorem countsCyclically_of_readAlike {f : Files} {first last : Digits}
    (h : (config f (some first.text) (some last.text)).1 = true) (halike : ReadAlike first last) :
    CountsCyclically f first last := by
  rcases config_accepted h with ⟨hle, _, hfiles⟩
  intro k
  rw [hfiles]
  rcases halike with ⟨hfirst, hlast⟩ | ⟨hfirst, heq⟩
  · rcases runs_cyclic hle hfirst hlast k with ⟨w, hruns, _, hw⟩
    exact ⟨w, by rw [hruns], hw⟩
  · rw [runs_error hfirst k, heq, Nat.sub_self, Nat.zero_add, Nat.mod_one, Nat.add_zero]
    exact ⟨first.text, rfl, natural_digits first⟩

theorem readAlike_of_countsCyclically {f : Files} {first last : Digits}
    (h : (config f (some first.text) (some last.text)).1 = true)
    (hcounts : CountsCyclically f first last) : ReadAlike first last := by
  rcases config_accepted h with ⟨hle, hmax, hfiles⟩
  rw [CountsCyclically, hfiles] at hcounts
  cases hfirst : constant first.text with
  | none =>
      -- One run leaves the first number, so it must be the whole range.
      rcases hcounts 1 with ⟨w, hnow, hw⟩
      rw [runs_error hfirst 1] at hnow
      cases hnow
      rw [natural_digits first, Option.some.injEq] at hw
      have hmod : 1 % (last.number - first.number + 1) ≠ 1 := by omega
      rw [ne_eq, Nat.one_mod_eq_one, not_not] at hmod
      exact Or.inr ⟨hfirst, by omega⟩
  | some v =>
      rcases constant_cases hfirst with heq | hlow
      · have hconst : constant first.text = some first.number := by rw [hfirst, heq]; rfl
        refine Or.inl ⟨by rw [← hconst, hfirst], ?_⟩
        -- If the last number is the greatest one, the number after it wraps.
        by_contra hnot
        have hlast : (last.number : Int) = intMax := by omega
        have hsum : first.number + (last.number - first.number) = last.number := by omega
        rcases runs_below hconst hmax (k := last.number - first.number) (by omega) with
          ⟨w, hruns, hw⟩
        rw [hsum] at hw
        rcases hcounts (last.number - first.number + 1) with ⟨w', hnow, hw'⟩
        rw [runs_succ, hruns, run_overflow hw hlast hmax] at hnow
        cases hnow
        have hneg : natural (decimal (-intMax - 1)) = none := by decide +kernel
        rw [hneg] at hw'
        cases hw'
      · -- An octal number is too small for the first number after one run.
        change v + 2 ≤ first.number at hlow
        rcases hcounts 1 with ⟨w, hnow, hw⟩
        have hrun : runs 1 ⟨[first.text, last.text], [first.text]⟩ =
            run ⟨[first.text, last.text], [first.text]⟩ := rfl
        rw [hrun, run_constant hfirst (by omega) hmax, if_neg (by omega)] at hnow
        cases hnow
        rw [natural_decimalNat, Option.some.injEq] at hw
        omega

theorem config_refused (f : Files) (first last : Option Text)
    (h : (config f first last).1 = false) : (config f first last).2 = f := by
  unfold config at h ⊢
  split
  · split
    · split
      · rfl
      · rename_i hargs hgt
        simp [hargs, hgt] at h
    · rfl
  · rfl

/-- A refused range changes nothing; an accepted one is counted through cyclically exactly if both
syntaxes read its numbers alike. -/
theorem counts_cyclically_iff (f : Files) :
    (∀ first last, (config f first last).1 = false → (config f first last).2 = f) ∧
      ∀ first last : Digits, (config f (some first.text) (some last.text)).1 = true →
        (CountsCyclically f first last ↔ ReadAlike first last) :=
  ⟨config_refused f, fun _ _ h =>
    ⟨readAlike_of_countsCyclically h, countsCyclically_of_readAlike h⟩⟩

def ten : Digits :=
  ⟨ascii "010", by decide, by decide⟩

def twenty : Digits :=
  ⟨ascii "020", by decide, by decide⟩

/-- The range from 010 to 020 is accepted; the first run stores 9. -/
theorem octal_first_number :
    (config ⟨[], []⟩ (some ten.text) (some twenty.text)).1 = true ∧
      ¬ CountsCyclically ⟨[], []⟩ ten twenty := by
  refine ⟨by decide +kernel, fun h => ?_⟩
  rcases h 1 with ⟨w, hnow, hw⟩
  have hnine : (runs 1 (config ⟨[], []⟩ (some ten.text) (some twenty.text)).2).now =
      [ascii "9"] := by decide +kernel
  have hw9 : ascii "9" = w := by simpa [hnine] using hnow
  rw [← hw9] at hw
  revert hw
  decide +kernel

end LoopRun
end LinuxLearn
