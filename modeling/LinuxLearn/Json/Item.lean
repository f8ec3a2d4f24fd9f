import Mathlib.Tactic
import LinuxLearn.Lib.CArray

/-!
# Item — the values of `cJSON.c`

An `Item` is a `cJSON` structure with everything below it: the chain of its children is a list, and
the `string` of a child of an object is the name in front of it.

The doubles are a parameter.  `Doubles` has one field for each thing that the parser and the printer
do with them, and `Doubles.Exact` says what they rely on: the numbers that fit into an `int` are
represented exactly.
-/

namespace LinuxLearn
namespace Json

open Lib

abbrev quote : UInt8 := 34
abbrev comma : UInt8 := 44
abbrev colon : UInt8 := 58
abbrev backslash : UInt8 := 92
abbrev openBracket : UInt8 := 91
abbrev closeBracket : UInt8 := 93
abbrev openBrace : UInt8 := 123
abbrev closeBrace : UInt8 := 125

/-! ## Doubles -/

structure Doubles (δ : Type) where
  /-- `sign*n*pow(10.0,(scale+subscale*signsubscale))`, for the sign, the digits in front of the
  point and behind it, and the exponent -/
  number : Bool → Text → Text → Int → δ
  /-- `(int)n` -/
  toInt : δ → Int
  /-- `d==0` -/
  isZero : δ → Bool
  /-- `fabs(((double)item->valueint)-d)<=DBL_EPSILON && d<=INT_MAX && d>=INT_MIN` -/
  isInt : Int → δ → Bool
  /-- `%.0f`, `%e` or `%f`, of a number that is no `int` -/
  sprintf : δ → Text

/-- The values of an `int`. -/
def IntRange (n : Int) : Prop :=
  -2 ^ 31 ≤ n ∧ n < 2 ^ 31

instance (n : Int) : Decidable (IntRange n) :=
  inferInstanceAs (Decidable (_ ∧ _))

structure Doubles.Exact {δ : Type} (D : Doubles δ) (ofInt : Int → δ) : Prop where
  number_pos : ∀ w : Text, (∀ c ∈ w, isDigit c = true) → IntRange (numeral 10 w) →
    D.number false w [] 0 = ofInt (numeral 10 w)
  number_neg : ∀ w : Text, (∀ c ∈ w, isDigit c = true) → 0 < numeral 10 w →
    IntRange (-(numeral 10 w : Int)) → D.number true w [] 0 = ofInt (-(numeral 10 w : Int))
  toInt_ofInt : ∀ n, IntRange n → D.toInt (ofInt n) = n
  isZero_ofInt : ∀ n, IntRange n → D.isZero (ofInt n) = decide (n = 0)
  isInt_ofInt : ∀ n, IntRange n → D.isInt n (ofInt n) = true

/-- What `sprintf` writes fits into the 64 bytes for it, and is one word. -/
structure Doubles.Fits {δ : Type} (D : Doubles δ) : Prop where
  length_lt : ∀ d, (D.sprintf d).length < 64
  word : ∀ d, ∀ c ∈ D.sprintf d, 32 < c.toNat ∧ c ≠ quote ∧ c ≠ 47

/-- The rational numbers in the place of the doubles; one that is too large becomes `INT_MIN`. -/
def rationals : Doubles ℚ where
  number sign integer fraction exponent :=
    (if sign then -1 else 1) * (numeral 10 (integer ++ fraction) : ℚ) *
      10 ^ (exponent - fraction.length)
  toInt q := if IntRange (q.num.tdiv q.den) then q.num.tdiv q.den else -2 ^ 31
  isZero q := decide (q = 0)
  isInt n q := decide (|(n : ℚ) - q| ≤ 1 / 2 ^ 52 ∧ -2 ^ 31 ≤ q ∧ q ≤ 2 ^ 31 - 1)
  sprintf q := (decimal (round q)).take 63

theorem rationals_exact : rationals.Exact Int.cast where
  number_pos w _ _ := by simp [rationals]
  number_neg w _ _ _ := by simp [rationals]
  toInt_ofInt n hn := by simp [rationals, hn]
  isZero_ofInt n _ := by simp [rationals]
  isInt_ofInt n hn := by
    have hlow : (-2 ^ 31 : ℚ) ≤ n := by exact_mod_cast hn.1
    have hhigh : (n : ℚ) ≤ 2 ^ 31 - 1 := by exact_mod_cast Int.le_sub_one_of_lt hn.2
    simp only [rationals, sub_self, abs_zero]
    exact decide_eq_true ⟨by positivity, hlow, hhigh⟩

theorem rationals_toInt (q : ℚ) : IntRange (rationals.toInt q) := by
  simp only [rationals]
  split
  · assumption
  · decide

theorem rationals_fits : rationals.Fits where
  length_lt q := by
    have hle := List.length_take_le 63 (decimal (round q))
    exact Nat.lt_of_le_of_lt hle (by decide)
  word q c hc := by
    have hmem := List.mem_of_mem_take hc
    have hword : isDigit c = true ∨ c = 45 := by
      cases hround : round q with
      | ofNat m =>
          rw [hround] at hmem
          exact .inl (isDigit_of_mem_decimalNat hmem)
      | negSucc m =>
          rw [hround] at hmem
          rcases List.mem_cons.1 hmem with heq | hmem
          · exact .inr heq
          · exact .inl (isDigit_of_mem_decimalNat hmem)
    rcases hword with hdigit | rfl
    · have hrange := of_decide_eq_true hdigit
      refine ⟨by omega, ?_, ?_⟩ <;> rintro rfl <;> cases hdigit
    · decide

/-! ## Items -/

inductive Item (δ : Type)
  | null
  | false
  | true
  | number (valueint : Int) (valuedouble : δ)
  | string (valuestring : Text)
  | array (child : List (Item δ))
  | object (child : List (Text × Item δ))

namespace Item

variable {δ : Type}

/-- Induction over an item, with the children of an array or an object taken together. -/
@[elab_as_elim, induction_eliminator]
theorem induct {P : Item δ → Prop} (null : P .null) (false : P .false) (true : P .true)
    (number : ∀ n d, P (.number n d)) (string : ∀ s, P (.string s))
    (array : ∀ child : List (Item δ), (∀ v ∈ child, P v) → P (.array child))
    (object : ∀ child : List (Text × Item δ), (∀ m ∈ child, P m.2) → P (.object child))
    (v : Item δ) : P v :=
  @Item.rec δ P (fun l => ∀ v ∈ l, P v) (fun l => ∀ m ∈ l, P m.2) (fun m => P m.2)
    null false true number string array object
    (fun _ h => nomatch h)
    (fun _ _ hv hl _ hmem => by
      rcases List.mem_cons.1 hmem with rfl | hmem
      · exact hv
      · exact hl _ hmem)
    (fun _ h => nomatch h)
    (fun _ _ hm hl _ hmem => by
      rcases List.mem_cons.1 hmem with rfl | hmem
      · exact hm
      · exact hl _ hmem)
    (fun _ _ hv => hv) v

mutual

/-- All strings and names below an item satisfy `S`, and all numbers `N`. -/
def Every (S : Text → Prop) (N : Int → δ → Prop) : Item δ → Prop
  | .null => True
  | .false => True
  | .true => True
  | .number n d => N n d
  | .string s => S s
  | .array child => EveryItem S N child
  | .object child => EveryMember S N child

def EveryItem (S : Text → Prop) (N : Int → δ → Prop) : List (Item δ) → Prop
  | [] => True
  | v :: l => v.Every S N ∧ EveryItem S N l

def EveryMember (S : Text → Prop) (N : Int → δ → Prop) : List (Text × Item δ) → Prop
  | [] => True
  | (name, v) :: l => S name ∧ v.Every S N ∧ EveryMember S N l

end

variable {S S' : Text → Prop} {N N' : Int → δ → Prop}

theorem everyItem_iff {l : List (Item δ)} : EveryItem S N l ↔ ∀ v ∈ l, v.Every S N := by
  induction l with
  | nil => simp [EveryItem]
  | cons v l ih => simp [EveryItem, ih]

theorem everyMember_iff {l : List (Text × Item δ)} :
    EveryMember S N l ↔ ∀ m ∈ l, S m.1 ∧ m.2.Every S N := by
  induction l with
  | nil => simp [EveryMember]
  | cons m l ih => simp [EveryMember, ih, and_assoc]

theorem Every.mono (hS : ∀ s, S s → S' s) (hN : ∀ n d, N n d → N' n d) {v : Item δ}
    (h : v.Every S N) : v.Every S' N' := by
  induction v with
  | null => trivial
  | false => trivial
  | true => trivial
  | number n d => exact hN n d h
  | string s => exact hS s h
  | array child ih =>
      exact everyItem_iff.2 fun v hv => ih v hv (everyItem_iff.1 h v hv)
  | object child ih =>
      exact everyMember_iff.2 fun m hm =>
        ⟨hS _ (everyMember_iff.1 h m hm).1, ih m hm (everyMember_iff.1 h m hm).2⟩

theorem Every.and {v : Item δ} (h : v.Every S N) (h' : v.Every S' N') :
    v.Every (fun s => S s ∧ S' s) fun n d => N n d ∧ N' n d := by
  induction v with
  | null => trivial
  | false => trivial
  | true => trivial
  | number n d => exact ⟨h, h'⟩
  | string s => exact ⟨h, h'⟩
  | array child ih =>
      exact everyItem_iff.2 fun v hv => ih v hv (everyItem_iff.1 h v hv) (everyItem_iff.1 h' v hv)
  | object child ih =>
      refine everyMember_iff.2 fun m hm => ?_
      rcases everyMember_iff.1 h m hm with ⟨hname, hvalue⟩
      rcases everyMember_iff.1 h' m hm with ⟨hname', hvalue'⟩
      exact ⟨⟨hname, hname'⟩, ih m hm hvalue hvalue'⟩

/-- All strings are C strings, and every `valueint` is an `int`. -/
def Printable (v : Item δ) : Prop :=
  v.Every (fun s => (0 : UInt8) ∉ s) fun n _ => IntRange n

/-- Furthermore, `valuedouble` is the same number. -/
def Whole (ofInt : Int → δ) (v : Item δ) : Prop :=
  v.Every (fun s => (0 : UInt8) ∉ s) fun n d => IntRange n ∧ d = ofInt n

theorem Whole.printable {ofInt : Int → δ} {v : Item δ} (h : v.Whole ofInt) : v.Printable :=
  Every.mono (fun _ hs => hs) (fun _ _ hn => hn.1) h

end Item

/-! ## Members -/

/-- `tolower` -/
def toLower (c : UInt8) : UInt8 :=
  if 65 ≤ c.toNat ∧ c.toNat ≤ 90 then c + 32 else c

/-- Zero if the strings are equal up to the case of their letters. -/
def strcasecmp : Text → Text → Int
  | [], [] => 0
  | [], d :: _ => -((toLower d).toNat : Int)
  | c :: _, [] => (toLower c).toNat
  | c :: s, d :: t =>
      if toLower c = toLower d then strcasecmp s t
      else (toLower c).toNat - (toLower d).toNat

/-- `cJSON_GetObjectItem`; the children of an array have no names. -/
def getObjectItem {δ : Type} : Item δ → Text → Option (Item δ)
  | .object child, string => (child.find? fun m => strcasecmp m.1 string == 0).map Prod.snd
  | _, _ => none

end Json
end LinuxLearn
