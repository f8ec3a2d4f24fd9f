import Mathlib.Tactic

/-!
# Text — byte strings and formatted output

A C string is the list of its bytes without the terminating zero; `stringIn` is the one in an
array.  `sprintf` interprets the two conversions `%s` and `%d`; a conversion without an argument of
its kind is copied as it stands.  `atoi` reads the numbers that `%d` writes.
-/

namespace LinuxLearn
namespace Lib

abbrev Text := List UInt8

/-- The bytes of an ASCII string. -/
def ascii (s : String) : Text :=
  s.toByteArray.data.toList

/-! ## Arrays -/

/-- The byte at an index, as a number. -/
def byteAt (buf : Text) (i : Nat) : Nat :=
  (buf.getD i 0).toNat

theorem byteAt_append {buf : Text} {i : Nat} (h : i < buf.length) (rest : Text) :
    byteAt (buf ++ rest) i = byteAt buf i := by
  rw [byteAt, byteAt, List.getD_eq_getElem?_getD, List.getD_eq_getElem?_getD,
    List.getElem?_append_left h]

/-- The string that an array holds, which string functions see of it. -/
def stringIn (a : Text) : Text :=
  a.takeWhile fun c => c != 0

theorem stringIn_append {w : Text} (hw : (0 : UInt8) ∉ w) (rest : Text) :
    stringIn (w ++ rest) = w ++ stringIn rest := by
  rw [stringIn, List.takeWhile_append_of_pos]
  · rfl
  · intro c hc
    have hne : c ≠ 0 := fun h => hw (h ▸ hc)
    simpa using hne

theorem stringIn_zero {w : Text} (hw : (0 : UInt8) ∉ w) (rest : Text) :
    stringIn (w ++ 0 :: rest) = w := by
  rw [stringIn_append hw]
  simp [stringIn]

theorem stringIn_of_not_mem {a : Text} (h : (0 : UInt8) ∉ a) : stringIn a = a := by
  have hnil := stringIn_append h []
  rwa [List.append_nil, show stringIn [] = [] from rfl, List.append_nil] at hnil

/-! ## Decimal numbers -/

def digit (d : Nat) : UInt8 :=
  UInt8.ofNat (48 + d)

def isDigit (c : UInt8) : Bool :=
  decide (48 ≤ c.toNat ∧ c.toNat ≤ 57)

def decimalNat (n : Nat) : Text :=
  if n = 0 then [digit 0] else (Nat.digits 10 n).reverse.map digit

/-- `%d` -/
def decimal : Int → Text
  | .ofNat n => decimalNat n
  | .negSucc n => 45 :: decimalNat (n + 1)

theorem isDigit_digit {d : Nat} (hd : d < 10) : isDigit (digit d) = true := by
  interval_cases d <;> decide

theorem isDigit_of_mem_decimalNat {n : Nat} {c : UInt8} (hc : c ∈ decimalNat n) :
    isDigit c = true := by
  unfold decimalNat at hc
  split at hc
  · cases List.mem_singleton.1 hc
    decide
  · rcases List.mem_map.1 hc with ⟨d, hd, rfl⟩
    exact isDigit_digit (Nat.digits_lt_base (by decide) (List.mem_reverse.1 hd))

theorem decimalNat_ne_nil (n : Nat) : decimalNat n ≠ [] := by
  unfold decimalNat
  split
  · exact List.cons_ne_nil _ _
  · simpa [Nat.digits_eq_nil_iff_eq_zero]

theorem length_decimalNat_le {n k : Nat} (hn : n < 10 ^ k) (hk : 0 < k) :
    (decimalNat n).length ≤ k := by
  unfold decimalNat
  split
  · exact hk
  · rw [List.length_map, List.length_reverse]
    exact Nat.digits_length_le_iff (by decide) _ |>.2 hn

/-! ## Reading numbers -/

def digitVal (c : UInt8) : Nat :=
  c.toNat - 48

/-- The number that some digits denote in base `b`. -/
def numeral (b : Nat) (w : Text) : Nat :=
  Nat.ofDigits b (w.reverse.map digitVal)

theorem digitVal_digit {d : Nat} (hd : d < 10) : digitVal (digit d) = d := by
  interval_cases d <;> rfl

theorem numeral_decimalNat (n : Nat) : numeral 10 (decimalNat n) = n := by
  unfold decimalNat
  split
  · rename_i hzero
    rw [hzero]
    rfl
  · rw [numeral, ← List.map_reverse, List.reverse_reverse, List.map_map]
    have hval : ∀ d ∈ Nat.digits 10 n, (digitVal ∘ digit) d = id d := fun d hd =>
      digitVal_digit (Nat.digits_lt_base (by decide) hd)
    have hdigits : (Nat.digits 10 n).map (digitVal ∘ digit) = Nat.digits 10 n := by
      rw [List.map_congr_left hval, List.map_id]
    rw [hdigits, Nat.ofDigits_digits]

theorem decimalNat_injective {m n : Nat} (h : decimalNat m = decimalNat n) : m = n := by
  rw [← numeral_decimalNat m, h, numeral_decimalNat]

theorem numeral_append (b : Nat) (u w : Text) :
    numeral b (u ++ w) = numeral b u * b ^ w.length + numeral b w := by
  rw [numeral, List.reverse_append, List.map_append, Nat.ofDigits_append, List.length_map,
    List.length_reverse]
  unfold numeral
  ring

def isSpace (c : UInt8) : Bool :=
  c == 32 || decide (9 ≤ c.toNat ∧ c.toNat ≤ 13)

/-- The digits after blanks and an optional sign, for numbers in the range of `int`; whatever
follows is ignored. -/
def atoi (s : Text) : Int :=
  match s.dropWhile isSpace with
  | 45 :: w => -(numeral 10 (w.takeWhile isDigit) : Int)
  | 43 :: w => numeral 10 (w.takeWhile isDigit)
  | w => numeral 10 (w.takeWhile isDigit)

theorem not_isSpace_of_isDigit {c : UInt8} (h : isDigit c = true) : isSpace c = false := by
  unfold isDigit at h
  rw [decide_eq_true_eq] at h
  have hne : c ≠ 32 := by
    rintro rfl
    exact absurd h (by decide)
  have hrange : ¬ (9 ≤ c.toNat ∧ c.toNat ≤ 13) := by omega
  simp [isSpace, hne, hrange]

theorem takeWhile_digits {w rest : Text} (hw : ∀ c ∈ w, isDigit c = true)
    (hrest : rest.takeWhile isDigit = []) : (w ++ rest).takeWhile isDigit = w := by
  rw [List.takeWhile_append_of_pos hw, hrest, List.append_nil]

theorem atoi_digits {w rest : Text} (hw : ∀ c ∈ w, isDigit c = true)
    (hrest : rest.takeWhile isDigit = []) (hempty : w = [] → rest = []) :
    atoi (w ++ rest) = numeral 10 w := by
  cases w with
  | nil =>
      rw [hempty rfl]
      rfl
  | cons c w =>
      have hc := hw c List.mem_cons_self
      have hskip : (c :: w ++ rest).dropWhile isSpace = c :: w ++ rest :=
        List.dropWhile_cons_of_neg (by simp [not_isSpace_of_isDigit hc])
      have hdigits := takeWhile_digits hw hrest
      unfold atoi
      rw [hskip]
      -- The first character is no sign.
      split
      · rename_i heq
        cases heq
        exact absurd hc (by decide)
      · rename_i heq
        cases heq
        exact absurd hc (by decide)
      · rw [hdigits]

theorem atoi_minus {w rest : Text} (hw : ∀ c ∈ w, isDigit c = true)
    (hrest : rest.takeWhile isDigit = []) : atoi (45 :: w ++ rest) = -(numeral 10 w : Int) := by
  have hskip : (45 :: w ++ rest).dropWhile isSpace = 45 :: (w ++ rest) :=
    List.dropWhile_cons_of_neg (by decide)
  unfold atoi
  rw [hskip]
  change -(numeral 10 ((w ++ rest).takeWhile isDigit) : Int) = _
  rw [takeWhile_digits hw hrest]

theorem atoi_decimal (v : Int) {rest : Text} (hrest : rest.takeWhile isDigit = []) :
    atoi (decimal v ++ rest) = v := by
  cases v with
  | ofNat n =>
      rw [decimal, atoi_digits (fun c hc => isDigit_of_mem_decimalNat hc) hrest
        (fun h => absurd h (decimalNat_ne_nil n)), numeral_decimalNat]
      rfl
  | negSucc n =>
      rw [decimal, atoi_minus (fun c hc => isDigit_of_mem_decimalNat hc) hrest, numeral_decimalNat]
      rfl

/-- A number that loses digits becomes smaller, unless it is zero. -/
theorem numeral_take_eq_iff {n i : Nat} (hi : i < (decimalNat n).length) :
    numeral 10 ((decimalNat n).take i) = n ↔ n = 0 := by
  have hsplit := numeral_append 10 ((decimalNat n).take i) ((decimalNat n).drop i)
  rw [List.take_append_drop, numeral_decimalNat, List.length_drop] at hsplit
  have hpow : 10 ≤ 10 ^ ((decimalNat n).length - i) := Nat.le_self_pow (by omega) 10
  constructor
  · intro h
    rw [h] at hsplit
    have hmul : n * 10 ≤ n * 10 ^ ((decimalNat n).length - i) := Nat.mul_le_mul_left n hpow
    omega
  · rintro rfl
    -- The text of zero is one digit.
    have hzero : i = 0 := Nat.lt_one_iff.1 hi
    rw [hzero]
    rfl

/-- A decimal text that is cut off reads as another number, unless it is the one of zero. -/
theorem atoi_take_decimal {v : Int} {i : Nat} (hi : i < (decimal v).length) :
    atoi ((decimal v).take i) = v ↔ v = 0 := by
  cases v with
  | ofNat n =>
      have htake : ∀ c ∈ (decimalNat n).take i, isDigit c = true := fun c hc =>
        isDigit_of_mem_decimalNat (List.mem_of_mem_take hc)
      have hatoi := atoi_digits htake List.takeWhile_nil (fun _ => rfl)
      rw [List.append_nil] at hatoi
      rw [decimal, hatoi]
      simpa using numeral_take_eq_iff hi
  | negSucc n =>
      refine iff_of_false ?_ (by omega)
      cases i with
      | zero => exact fun h => nomatch h
      | succ i =>
          have htake : ∀ c ∈ (decimalNat (n + 1)).take i, isDigit c = true := fun c hc =>
            isDigit_of_mem_decimalNat (List.mem_of_mem_take hc)
          have hatoi := atoi_minus htake List.takeWhile_nil
          rw [List.append_nil] at hatoi
          have hcut := numeral_take_eq_iff (n := n + 1) (Nat.lt_of_succ_lt_succ hi)
          rw [decimal, List.take_succ_cons, hatoi]
          omega

/-! ## `sprintf` -/

inductive Arg
  | str (s : Text)
  | int (n : Int)
  deriving DecidableEq, Repr

def sprintf : Text → List Arg → Text
  | 37 :: 115 :: fmt, .str s :: args => s ++ sprintf fmt args
  | 37 :: 100 :: fmt, .int n :: args => decimal n ++ sprintf fmt args
  | c :: fmt, args => c :: sprintf fmt args
  | [], _ => []

end Lib
end LinuxLearn
