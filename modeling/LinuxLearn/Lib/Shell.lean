import LinuxLearn.Lib.Text

/-!
# Shell — numbers and fields in shell scripts

A shell keeps numbers as texts and reads them again wherever it computes with them.  There are two
syntaxes: the operands of `test` are decimal numbers, whereas arithmetic expansion takes a leading
zero as the mark of an octal number.  Both compute with 64-bit integers: `test` refuses an operand
out of range, arithmetic wraps.

A file is the list of its lines.
-/

namespace LinuxLearn
namespace Lib

/-! ## Digits -/

/-- Read in base 8 instead of 10, a number stays the same or becomes smaller by at least two. -/
theorem numeral_octal (w : Text) :
    numeral 8 w = numeral 10 w ∨ numeral 8 w + 2 ≤ numeral 10 w := by
  unfold numeral
  cases w.reverse.map digitVal with
  | nil => exact Or.inl rfl
  | cons d ds =>
      -- Both readings agree in the last digit.
      have hle : Nat.ofDigits 8 ds ≤ Nat.ofDigits 10 ds := Nat.ofDigits_monotone ds (by decide)
      rw [Nat.ofDigits_cons, Nat.ofDigits_cons]
      rcases Nat.eq_zero_or_pos (Nat.ofDigits 10 ds) with hzero | hpos
      · left
        omega
      · right
        omega

/-! ## Operands of `test` -/

def intMax : Int :=
  2 ^ 63 - 1

def natural (w : Text) : Option Nat :=
  if w ≠ [] ∧ w.all isDigit then some (numeral 10 w) else none

/-- A number with an optional sign. -/
def signed : Text → Option Int
  | 45 :: w => (natural w).map fun n => -(n : Int)
  | 43 :: w => (natural w).map fun n => (n : Int)
  | w => (natural w).map fun n => (n : Int)

/-- The value of an operand of `-eq`, `-gt` or `-ge`; `none` is an error, and the test fails. -/
def testInt (w : Text) : Option Int :=
  (signed w).filter fun n => -intMax - 1 ≤ n ∧ n ≤ intMax

/-- `[ a -gt b ]`; `[ ! a -gt b ]` succeeds if this is `some false`. -/
def testGt (a b : Text) : Option Bool :=
  match testInt a, testInt b with
  | some x, some y => some (decide (y < x))
  | _, _ => none

/-- `[ a -ge b ]` -/
def testGe (a b : Text) : Option Bool :=
  match testInt a, testInt b with
  | some x, some y => some (decide (y ≤ x))
  | _, _ => none

theorem natural_decimalNat (n : Nat) : natural (decimalNat n) = some n := by
  have hdigits : (decimalNat n).all isDigit = true :=
    List.all_eq_true.2 fun c hc => isDigit_of_mem_decimalNat hc
  rw [natural, if_pos ⟨decimalNat_ne_nil n, hdigits⟩, numeral_decimalNat]

/-- Digits have no sign. -/
theorem signed_of_digits {w : Text} (h : w.all isDigit = true) :
    signed w = (natural w).map fun n => (n : Int) := by
  unfold signed
  split
  · simp [isDigit] at h
  · simp [isDigit] at h
  · rfl

theorem testInt_of_digits {w : Text} (hne : w ≠ []) (h : w.all isDigit = true) :
    testInt w = if (numeral 10 w : Int) ≤ intMax then some (numeral 10 w : Int) else none := by
  rw [testInt, signed_of_digits h, natural, if_pos ⟨hne, h⟩]
  have hlow : -intMax - 1 ≤ (numeral 10 w : Int) := by
    unfold intMax
    omega
  simp [Option.filter, hlow]

theorem testInt_decimalNat (n : Nat) :
    testInt (decimalNat n) = if (n : Int) ≤ intMax then some (n : Int) else none := by
  rw [testInt_of_digits (decimalNat_ne_nil n)
    (List.all_eq_true.2 fun c hc => isDigit_of_mem_decimalNat hc), numeral_decimalNat]

/-! ## Arithmetic expansion -/

def isOctal (c : UInt8) : Bool :=
  decide (48 ≤ c.toNat ∧ c.toNat ≤ 55)

/-- A constant of an arithmetic expression; with a leading zero it is octal, and a digit that is
not octal is an error. -/
def constant (w : Text) : Option Nat :=
  if w ≠ [] ∧ w.all isDigit then
    match w with
    | 48 :: c :: ds => if (c :: ds).all isOctal then some (numeral 8 w) else none
    | _ => some (numeral 10 w)
  else none

/-- Results wrap to 64 bits. -/
def wrap (n : Int) : Int :=
  n.bmod (2 ^ 64)

/-- `$((x + 1))`, where the text of `x` is a constant with an optional minus sign. -/
def arithSucc : Text → Option Int
  | 45 :: w => (constant w).map fun n => wrap (-(n : Int) + 1)
  | w => (constant w).map fun n => wrap ((n : Int) + 1)

theorem arithSucc_of_constant {w : Text} {v : Nat} (h : constant w = some v) :
    arithSucc w = some (wrap ((v : Int) + 1)) := by
  unfold arithSucc
  split
  · simp [constant, isDigit] at h
  · rw [h]
    rfl

theorem arithSucc_of_error {w : Text} (hdigits : w.all isDigit = true) (h : constant w = none) :
    arithSucc w = none := by
  unfold arithSucc
  split
  · simp [isDigit] at hdigits
  · rw [h]
    rfl

theorem wrap_of_le {n : Int} (h0 : 0 ≤ n) (hmax : n ≤ intMax) : wrap n = n := by
  unfold intMax at hmax
  rw [wrap, Int.bmod_def]
  omega

theorem wrap_intMax : wrap (intMax + 1) = -intMax - 1 := by decide

/-- The octal reading of a number is the decimal one or smaller by at least two. -/
theorem constant_cases {w : Text} {v : Nat} (h : constant w = some v) :
    v = numeral 10 w ∨ v + 2 ≤ numeral 10 w := by
  unfold constant at h
  split at h
  · split at h
    · split at h
      · cases h
        exact numeral_octal _
      · cases h
    · cases h
      exact Or.inl rfl
  · cases h

/-- Numbers written in decimal have no leading zero. -/
theorem decimalNat_ne_zero_cons (n : Nat) {c : UInt8} {ds : Text} :
    decimalNat n ≠ 48 :: c :: ds := by
  unfold decimalNat
  split
  · intro h
    cases h
  · rename_i hn
    intro h
    -- The first character stands for the last of the digits, which is not 0.
    have hne : Nat.digits 10 n ≠ [] := Nat.digits_ne_nil_iff_ne_zero.2 hn
    have hhead : ((Nat.digits 10 n).reverse.map digit).head? = some (digit
        ((Nat.digits 10 n).getLast hne)) := by
      rw [List.head?_map, List.head?_reverse, List.getLast?_eq_some_getLast hne]
      rfl
    rw [h, List.head?_cons] at hhead
    have hlt : (Nat.digits 10 n).getLast hne < 10 :=
      Nat.digits_lt_base (by decide) (List.getLast_mem hne)
    have hval := congrArg digitVal (Option.some.inj hhead)
    rw [digitVal_digit hlt] at hval
    exact Nat.getLast_digit_ne_zero 10 hn hval.symm

theorem constant_decimalNat (n : Nat) : constant (decimalNat n) = some n := by
  have hdigits : (decimalNat n).all isDigit = true :=
    List.all_eq_true.2 fun c hc => isDigit_of_mem_decimalNat hc
  unfold constant
  rw [if_pos ⟨decimalNat_ne_nil n, hdigits⟩]
  split
  · rename_i c ds hzero
    exact absurd hzero (decimalNat_ne_zero_cons n)
  · rw [numeral_decimalNat]

/-! ## Fields of a line -/

def isBlank (c : UInt8) : Bool :=
  c == 32 || c == 9

/-- `read first rest`, for a line without backslashes. -/
def readFields (line : Text) : Text × Text :=
  let line := line.dropWhile isBlank
  let rest := (line.dropWhile fun c => !isBlank c).dropWhile isBlank
  (line.takeWhile fun c => !isBlank c, (rest.reverse.dropWhile isBlank).reverse)

/-- `cut -d' ' -f1` -/
def cutFirst (line : Text) : Text :=
  line.takeWhile fun c => c != 32

theorem takeWhile_append_cons {p : UInt8 → Bool} {w : Text} {c : UInt8} {rest : Text}
    (hw : ∀ x ∈ w, p x = true) (hc : p c = false) :
    (w ++ c :: rest).takeWhile p = w ∧ (w ++ c :: rest).dropWhile p = c :: rest := by
  induction w with
  | nil => simp [hc]
  | cons x w ih =>
      have hx := hw x List.mem_cons_self
      rcases ih fun y hy => hw y (List.mem_cons_of_mem _ hy) with ⟨htake, hdrop⟩
      exact ⟨by simp [hx, htake], by simp [hx, hdrop]⟩

theorem dropWhile_of_head {p : UInt8 → Bool} {w : Text} (h : ∀ x ∈ w, p x = false) :
    w.dropWhile p = w := by
  cases w with
  | nil => rfl
  | cons x w => simp [h x List.mem_cons_self]

/-- A line of two words. -/
theorem readFields_words {u v : Text} (hu : ∀ c ∈ u, isBlank c = false)
    (hv : ∀ c ∈ v, isBlank c = false) (hne : u ≠ []) :
    readFields (u ++ 32 :: 32 :: v) = (u, v) := by
  have hstart : (u ++ 32 :: 32 :: v).dropWhile isBlank = u ++ 32 :: 32 :: v := by
    cases u with
    | nil => exact absurd rfl hne
    | cons c u => simp [hu c List.mem_cons_self]
  have hword : ∀ c ∈ u, (!isBlank c) = true := fun c hc => by simp [hu c hc]
  have hsplit : (u ++ 32 :: 32 :: v).takeWhile (fun c => !isBlank c) = u ∧
      (u ++ 32 :: 32 :: v).dropWhile (fun c => !isBlank c) = 32 :: 32 :: v :=
    takeWhile_append_cons hword (by decide)
  have hblanks : (32 :: 32 :: v).dropWhile isBlank = v := by
    have h32 : isBlank 32 = true := by decide
    simp [h32, dropWhile_of_head hv]
  have hend : (v.reverse.dropWhile isBlank).reverse = v := by
    rw [dropWhile_of_head fun c hc => hv c (List.mem_reverse.1 hc), List.reverse_reverse]
  simp only [readFields, hstart, hsplit, hblanks, hend]

theorem cutFirst_words {u v : Text} (hu : ∀ c ∈ u, isBlank c = false) :
    cutFirst (u ++ 32 :: v) = u := by
  refine (takeWhile_append_cons (fun c hc => ?_) (by decide)).1
  have hblank := hu c hc
  simp only [isBlank, Bool.or_eq_false_iff] at hblank
  simpa using hblank.1

theorem isBlank_of_isDigit {c : UInt8} (h : isDigit c = true) : isBlank c = false := by
  unfold isDigit at h
  unfold isBlank
  simp only [decide_eq_true_eq] at h
  have h32 : c ≠ 32 := by
    rintro rfl
    exact absurd h (by decide)
  have h9 : c ≠ 9 := by
    rintro rfl
    exact absurd h (by decide)
  simp [h32, h9]

end Lib
end LinuxLearn
