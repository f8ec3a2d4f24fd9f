import Mathlib.Data.List.TakeWhile
import LinuxLearn.Json.Minify

/-!
# Preserve — what a text says after `cJSON_Minify`

`Kept` says that a function of the parser has read a piece of a text, that the loop of
`cJSON_Minify` turns this piece into another one, and that the function reads the other one as the
same thing.  The lemmas go along the functions of the parser; blanks stand between their pieces and
are dropped.
-/

namespace LinuxLearn
namespace Json

open Lib

variable {δ α : Type}

/-! ## Numbers -/

/-- What `parse_number` may read. -/
def numberByte (c : UInt8) : Bool :=
  isDigit c || c == 43 || c == 45 || c == 46 || c == 101 || c == 69

/-- No byte of a number stands in front. -/
def Ends (x : Text) : Prop :=
  ∀ c ∈ x.head?, numberByte c = false

theorem Ends.ne {x : Text} (h : Ends x) {d : UInt8} (hd : numberByte d = true) :
    x.head? ≠ some d := by
  intro hhead
  rw [h d hhead] at hd
  cases hd

theorem Ends.endsNumber {x : Text} (h : Ends x) : EndsNumber x := by
  intro c hc
  have hnot := h c hc
  simp only [numberByte, Bool.or_eq_false_iff, beq_eq_false_iff_ne] at hnot
  exact ⟨hnot.1.1.1.1.1, hnot.1.1.2, hnot.1.2, hnot.2⟩

theorem ends_cons {c : UInt8} (h : numberByte c = false) (x : Text) : Ends (c :: x) := by
  intro d hd
  cases hd
  exact h

theorem numberByte_of_isDigit {c : UInt8} (h : isDigit c = true) : numberByte c = true := by
  simp [numberByte, h]

theorem isDigit_of_mem_takeWhile (num : Text) : ∀ c ∈ num.takeWhile isDigit, isDigit c = true :=
  fun _ => List.mem_takeWhile_imp

theorem all_digits (num : Text) : (num.takeWhile isDigit).all numberByte = true :=
  List.all_eq_true.2 fun c hc => numberByte_of_isDigit (isDigit_of_mem_takeWhile num c hc)

/-- The digits, in front of something else. -/
theorem spanDigits_takeWhile (num : Text) {x : Text} (hx : ∀ c ∈ x.head?, isDigit c = false) :
    spanDigits (num.takeWhile isDigit ++ x) = (num.takeWhile isDigit, x) :=
  spanDigits_append (isDigit_of_mem_takeWhile num) hx

theorem signedDigits_plain {num : Text} (h : ∀ c ∈ num.head?, c ≠ 43 ∧ c ≠ 45) :
    signedDigits num = ((numeral 10 (spanDigits num).1 : Int), (spanDigits num).2) := by
  unfold signedDigits
  split
  · exact absurd rfl (h 43 rfl).1
  · exact absurd rfl (h 45 rfl).2
  · rfl

/-- `f` reads a piece of a number, and the same piece in front of whatever `E` allows. -/
def Reread {β : Type} (f : Text → β × Text) (E : Text → Prop) (num w : Text) : Prop :=
  num = w ++ (f num).2 ∧ w.all numberByte = true ∧ ∀ x, E x → f (w ++ x) = ((f num).1, x)

theorem signedDigits_reread (num : Text) : ∃ w, Reread signedDigits Ends num w := by
  have hspan : ∀ u : Text, u = u.takeWhile isDigit ++ (spanDigits u).2 := fun u =>
    List.takeWhile_append_dropWhile.symm
  by_cases hplus : num.head? = some 43
  · rcases List.head?_eq_some_iff.1 hplus with ⟨u, rfl⟩
    refine ⟨43 :: u.takeWhile isDigit, congrArg (43 :: ·) (hspan u), ?_, fun x hx => ?_⟩
    · rw [List.all_cons, all_digits]
      rfl
    · have hdigits := spanDigits_takeWhile u fun c hc => (hx.endsNumber c hc).1
      rw [List.cons_append, signedDigits, hdigits]
      rfl
  by_cases hminus : num.head? = some 45
  · rcases List.head?_eq_some_iff.1 hminus with ⟨u, rfl⟩
    refine ⟨45 :: u.takeWhile isDigit, congrArg (45 :: ·) (hspan u), ?_, fun x hx => ?_⟩
    · rw [List.all_cons, all_digits]
      rfl
    · have hdigits := spanDigits_takeWhile u fun c hc => (hx.endsNumber c hc).1
      rw [List.cons_append, signedDigits, hdigits]
      rfl
  · have hnum : signedDigits num = ((numeral 10 (spanDigits num).1 : Int), (spanDigits num).2) :=
      signedDigits_plain fun c hc => ⟨fun h => hplus (h ▸ hc), fun h => hminus (h ▸ hc)⟩
    refine ⟨num.takeWhile isDigit, ?_, all_digits num, fun x hx => ?_⟩
    · rw [hnum]
      exact hspan num
    · have hhead : ∀ c ∈ (num.takeWhile isDigit ++ x).head?, c ≠ 43 ∧ c ≠ 45 := by
        intro c hc
        cases hdigits : num.takeWhile isDigit with
        | nil =>
            rw [hdigits, List.nil_append] at hc
            exact ⟨fun h => hx.ne (d := 43) (by decide) (h ▸ hc),
              fun h => hx.ne (d := 45) (by decide) (h ▸ hc)⟩
        | cons d w =>
            have hd : isDigit d = true :=
              isDigit_of_mem_takeWhile num d (hdigits ▸ List.mem_cons_self)
            rw [hdigits] at hc
            cases hc
            refine ⟨?_, ?_⟩ <;> rintro rfl <;> cases hd
      rw [signedDigits_plain hhead, hnum,
        spanDigits_takeWhile num fun c hc => (hx.endsNumber c hc).1]
      rfl

/-- A piece of a number that begins with an `e`, or is empty. -/
theorem exponentPart_reread (num : Text) :
    ∃ w, Reread exponentPart Ends num w ∧ ∀ c ∈ w.head?, c = 101 ∨ c = 69 := by
  have hnone : ∀ x, Ends x → exponentPart ([] ++ x) = (0, x) := fun x hx =>
    hx.endsNumber.exponentPart
  cases num with
  | nil => exact ⟨[], ⟨rfl, rfl, hnone⟩, fun c hc => by cases hc⟩
  | cons e num =>
      by_cases he : e = 101 ∨ e = 69
      · have hpart : ∀ u : Text, exponentPart (e :: u) = signedDigits u := fun u => by
          rw [exponentPart, if_pos he]
        rcases signedDigits_reread num with ⟨w, hsplit, hall, hread⟩
        refine ⟨e :: w, ⟨?_, ?_, fun x hx => ?_⟩, fun c hc => ?_⟩
        · rw [hpart, List.cons_append, ← hsplit]
        · rcases he with rfl | rfl <;> simpa [numberByte] using hall
        · rw [List.cons_append, hpart, hpart, hread x hx]
        · cases hc
          exact he
      · have hpart : exponentPart (e :: num) = (0, e :: num) := by
          rw [exponentPart, if_neg he]
        exact ⟨[], ⟨by rw [hpart]; rfl, rfl, by rw [hpart]; exact hnone⟩, fun c hc => by cases hc⟩

/-- What may stand behind the digits in front of the point, and behind those after it. -/
def NoDigit (y : Text) : Prop :=
  ∀ c ∈ y.head?, isDigit c = false

def NoFraction (y : Text) : Prop :=
  ∀ c ∈ y.head?, isDigit c = false ∧ c ≠ 46

theorem fractionPart_reread (num : Text) :
    ∃ w, Reread fractionPart NoFraction num w ∧ ∀ c ∈ w.head?, c = 46 := by
  by_cases hpoint : ∃ c u, num = 46 :: c :: u ∧ isDigit c = true
  · rcases hpoint with ⟨c, u, rfl, hc⟩
    have hpart : ∀ y : Text, fractionPart (46 :: c :: y) = spanDigits (c :: y) := fun y => by
      rw [fractionPart, if_pos hc]
    have htake : (c :: u).takeWhile isDigit = c :: u.takeWhile isDigit :=
      List.takeWhile_cons_of_pos hc
    refine ⟨46 :: (c :: u).takeWhile isDigit, ⟨?_, ?_, fun x hx => ?_⟩, fun d hd => ?_⟩
    · rw [hpart]
      exact congrArg (46 :: ·) List.takeWhile_append_dropWhile.symm
    · rw [List.all_cons, all_digits]
      rfl
    · have hdigits := spanDigits_takeWhile (c :: u) fun d hd => (hx d hd).1
      rw [htake] at hdigits ⊢
      rw [List.cons_append, List.cons_append] at *
      rw [hpart, hpart, hdigits, spanDigits, htake]
    · cases hd
      rfl
  · have hpart : fractionPart num = ([], num) := by
      unfold fractionPart
      split
      · rename_i c u
        exact if_neg fun hc => hpoint ⟨c, u, rfl, hc⟩
      · rfl
    refine ⟨[], ⟨by rw [hpart]; rfl, rfl, fun x hx => ?_⟩, fun c hc => by cases hc⟩
    rw [hpart, List.nil_append]
    unfold fractionPart
    split
    · exact absurd rfl (hx 46 rfl).2
    · rfl

theorem integerPart_reread (num : Text) : ∃ w, Reread integerPart NoDigit num w := by
  -- Behind a zero that is read away, digits are read unless there is another zero.
  have hpart : ∀ y : Text, y.head? ≠ some 48 → integerPart y = spanDigits y := fun y hy => by
    rw [integerPart]
    simp only [if_neg hy]
  have hzero : ∀ y : Text, integerPart (48 :: y) =
      if y.head? = some 48 then ([], y) else spanDigits y := fun y => by
    rw [integerPart]
    simp only [List.head?_cons, if_true, List.tail_cons]
  have hne : ∀ y : Text, NoDigit y → y.head? ≠ some 48 := fun y hy h => by
    have hdigit := hy 48 h
    cases hdigit
  by_cases hnum : num.head? = some 48
  · rcases List.head?_eq_some_iff.1 hnum with ⟨u, rfl⟩
    by_cases hu : u.head? = some 48
    · refine ⟨[48], ?_, rfl, fun x hx => ?_⟩
      · rw [hzero, if_pos hu]
        rfl
      · have hempty := spanDigits_takeWhile [] hx
        rw [List.singleton_append, hzero, hzero, if_pos hu, if_neg (hne x hx)]
        exact hempty
    · refine ⟨48 :: u.takeWhile isDigit, ?_, ?_, fun x hx => ?_⟩
      · rw [hzero, if_neg hu]
        exact congrArg (48 :: ·) List.takeWhile_append_dropWhile.symm
      · rw [List.all_cons, all_digits]
        rfl
      · have hhead : (u.takeWhile isDigit ++ x).head? ≠ some 48 := by
          cases u with
          | nil => exact hne x hx
          | cons c u =>
              by_cases hc : isDigit c = true
              · rwa [List.takeWhile_cons_of_pos hc]
              · rw [List.takeWhile_cons_of_neg hc]
                exact hne x hx
        rw [List.cons_append, hzero, hzero, if_neg hu, if_neg hhead, spanDigits_takeWhile u hx]
        rfl
  · refine ⟨num.takeWhile isDigit, ?_, all_digits num, fun x hx => ?_⟩
    · rw [hpart num hnum]
      exact List.takeWhile_append_dropWhile.symm
    · have hhead : (num.takeWhile isDigit ++ x).head? ≠ some 48 := by
        cases num with
        | nil => exact hne x hx
        | cons c u =>
            by_cases hc : isDigit c = true
            · rwa [List.takeWhile_cons_of_pos hc]
            · rw [List.takeWhile_cons_of_neg hc]
              exact hne x hx
      rw [hpart _ hhead, hpart num hnum, spanDigits_takeWhile num hx]
      rfl

/-! ## Pieces of a text -/

/-- `p` reads `a` from a piece of the text, and from what the loop leaves of the piece. -/
def Kept (p : Text → Except Stop (α × Text)) (value : Text) (a : α) (rest : Text) : Prop :=
  ∃ used u, value = used ++ rest ∧ Leaves .plain used u .plain ∧
    ∀ x, Ends x → p (u ++ x) = .ok (a, x)

/-- The loop gets to the end of the text. -/
def Minifies (value : Text) : Prop :=
  ∃ m, minifyFrom .plain value = .ok m

theorem Minifies.behind {used u rest : Text} (hleaves : Leaves .plain used u .plain)
    (h : Minifies (used ++ rest)) : Minifies rest := by
  rcases h with ⟨m, hm⟩
  rw [hleaves] at hm
  rcases map_eq_ok hm with ⟨m', hm', -⟩
  exact ⟨m', hm'⟩

theorem isCopied_of_numberByte {c : UInt8} (h : numberByte c = true) : isCopied c = true := by
  simp only [numberByte, Bool.or_eq_true, beq_iff_eq] at h
  rcases h with ((((h | rfl) | rfl) | rfl) | rfl) | rfl
  · exact isCopied_of_isDigit h
  all_goals decide

/-- The digits, the point and the exponent of a number without its sign. -/
theorem unsigned_reread (num : Text) :
    ∃ w : Text, num = w ++ (exponentPart (fractionPart (integerPart num).2).2).2 ∧
      w.all numberByte = true ∧ ∀ x, Ends x →
        ∃ y z, integerPart (w ++ x) = ((integerPart num).1, y) ∧
          fractionPart y = ((fractionPart (integerPart num).2).1, z) ∧
          exponentPart z = ((exponentPart (fractionPart (integerPart num).2).2).1, x) := by
  rcases integerPart_reread num with ⟨w, hw, hall, hread⟩
  rcases fractionPart_reread (integerPart num).2 with ⟨w', ⟨hw', hall', hread'⟩, hhead'⟩
  rcases exponentPart_reread (fractionPart (integerPart num).2).2 with
    ⟨w'', ⟨hw'', hall'', hread''⟩, hhead''⟩
  refine ⟨w ++ (w' ++ w''), ?_, by simp [hall, hall', hall''], fun x hx => ?_⟩
  · rw [List.append_assoc, List.append_assoc, ← hw'', ← hw', ← hw]
  have hfraction : NoFraction (w'' ++ x) := by
    intro c hc
    cases w'' with
    | nil => exact ⟨(hx.endsNumber c hc).1, (hx.endsNumber c hc).2.1⟩
    | cons e w'' =>
        cases hc
        rcases hhead'' c rfl with rfl | rfl <;> decide
  have hinteger : NoDigit (w' ++ (w'' ++ x)) := by
    intro c hc
    cases w' with
    | nil => exact (hfraction c hc).1
    | cons d w' =>
        cases hc
        rw [hhead' c rfl]
        rfl
  refine ⟨w' ++ (w'' ++ x), w'' ++ x, ?_, hread' _ hfraction, hread'' x hx⟩
  rw [List.append_assoc, List.append_assoc]
  exact hread _ hinteger

theorem parseNumber_reread (D : Doubles δ) (num : Text) :
    ∃ w, Reread (parseNumber D) Ends num w := by
  by_cases hsign : num.head? = some 45
  · rcases List.head?_eq_some_iff.1 hsign with ⟨num, rfl⟩
    rcases unsigned_reread num with ⟨w, hw, hall, hread⟩
    refine ⟨45 :: w, congrArg (45 :: ·) hw, ?_, fun x hx => ?_⟩
    · rw [List.all_cons, hall]
      rfl
    · rcases hread x hx with ⟨y, z, hinteger, hfraction, hexponent⟩
      simp only [parseNumber, List.cons_append, List.head?_cons, if_true, List.tail_cons, hinteger,
        hfraction, hexponent]
  · rcases unsigned_reread num with ⟨w, hw, hall, hread⟩
    have hnum : (parseNumber D num).2 = (exponentPart (fractionPart (integerPart num).2).2).2 := by
      simp only [parseNumber, if_neg hsign]
    refine ⟨w, hnum ▸ hw, hall, fun x hx => ?_⟩
    have hhead : (w ++ x).head? ≠ some 45 := by
      cases w with
      | nil => exact hx.ne (by decide)
      | cons c w =>
          rw [hw] at hsign
          exact hsign
    rcases hread x hx with ⟨y, z, hinteger, hfraction, hexponent⟩
    simp only [parseNumber, hhead, hsign, if_false, hinteger, hfraction, hexponent]

theorem ne_of_control {c d : UInt8} (hc : c.toNat ≤ 32) (hd : 32 < d.toNat) : c ≠ d := by
  rintro rfl
  omega

theorem leaves_control {w : Text} (h : Blank w) : ∃ u, Leaves .plain w u .plain ∧ Blank u := by
  induction w with
  | nil => exact ⟨[], leaves_nil .plain, h⟩
  | cons c w ih =>
      have hc := h c List.mem_cons_self
      rcases ih fun d hd => h d (List.mem_cons_of_mem c hd) with ⟨u, hleaves, hu⟩
      cases hblank : isJsonBlank c with
      | true => exact ⟨u, (leaves_blank hblank).append hleaves, hu⟩
      | false =>
          have hcopied : isCopied c = true := by
            have hslash : c ≠ 47 := ne_of_control hc (by decide)
            have hquote : c ≠ quote := ne_of_control hc (by decide)
            simp [isCopied, hblank, hslash, hquote]
          exact ⟨c :: u, (leaves_copied hcopied).append hleaves,
            List.forall_mem_cons.2 ⟨hc, hu⟩⟩

/-- What the loop leaves of the blanks in front of a text is skipped, too. -/
theorem blanks_kept (value : Text) : ∃ b u, value = b ++ skip value ∧
    Leaves .plain b u .plain ∧ Blank u := by
  have hblank : Blank (value.takeWhile fun c => decide (c.toNat ≤ 32)) := fun c hc => by
    have hcontrol := List.mem_takeWhile_imp hc
    exact of_decide_eq_true hcontrol
  rcases leaves_control hblank with ⟨u, hleaves, hu⟩
  exact ⟨_, u, List.takeWhile_append_dropWhile.symm, hleaves, hu⟩

theorem Ends.blank {u x : Text} (hu : Blank u) (hx : Ends x) : Ends (u ++ x) := by
  cases u with
  | nil => exact hx
  | cons c u =>
      refine ends_cons ?_ (u ++ x)
      have hc := hu c List.mem_cons_self
      cases hnumber : numberByte c with
      | false => rfl
      | true =>
          simp only [numberByte, Bool.or_eq_true, beq_iff_eq] at hnumber
          rcases hnumber with ((((h | h) | h) | h) | h) | h
          · have hrange := of_decide_eq_true h
            omega
          all_goals exact absurd h (ne_of_control hc (by decide))

section Kept

variable {p : Text → Except Stop (α × Text)} {value rest : Text} {a : α}

/-- The blanks in front of a piece belong to it, if nothing is read behind a blank otherwise. -/
theorem Kept.skip (h : Kept p (skip value) a rest)
    (hp : ∀ y r, p y = .ok r → Json.skip y = y) :
    Kept (fun y => p (Json.skip y)) value a rest := by
  rcases blanks_kept value with ⟨b, u, hvalue, hleaves, hu⟩
  rcases h with ⟨used, w, hused, hleaves', hread⟩
  refine ⟨b ++ used, u ++ w, ?_, hleaves.append hleaves', fun x hx => ?_⟩
  · rw [List.append_assoc, ← hused, ← hvalue]
  · have hw := hread x hx
    change p (Json.skip (u ++ w ++ x)) = .ok (a, x)
    rw [List.append_assoc, skip_blank hu, hp _ _ hw, hw]

end Kept

theorem leaves_body {w : Text} (h : Body w) : Leaves .string w w .string := by
  induction h with
  | nil => exact leaves_nil .string
  | plain hquote hbackslash _ ih => exact (leaves_string hquote hbackslash).append ih
  | escape c _ ih => exact (leaves_escape c).append ih

theorem parseString_cons {value : Text} {r : Text × Text} (h : parseString value = .ok r) :
    ∃ text, value = quote :: text := by
  cases value with
  | nil => cases h
  | cons c text =>
      by_cases hc : c = quote
      · exact ⟨text, by rw [hc]⟩
      · rw [parseString, if_pos (by simpa using hc)] at h
        cases h

theorem parseString_kept {value rest s : Text} (hescaped : escaped value = true)
    (hminifies : Minifies value) (h : parseString value = .ok (s, rest)) :
    Kept parseString value s rest := by
  rcases parseString_cons h with ⟨text, rfl⟩
  rcases splits_of_escaped text (escaped_cons hescaped).2 with
    ⟨w, out, tail, rfl, htail, hbody, ⟨k, hk, hcounts⟩, hreads⟩
  -- Whatever ends the string, the two loops stop there.
  have hstring : ∀ t, Ended t → parseString (quote :: (w ++ t)) =
      .ok (out, if t.head? = some quote then t.tail else t) := by
    intro t ht
    have hzero : countString 0 t = .ok 0 := by
      cases t with
      | nil => rfl
      | cons c t =>
          cases ht c rfl
          rfl
    have hcount : countString 0 (w ++ t) = .ok (0 + k) := by
      rw [hcounts, hzero]
      rfl
    rw [parseString, if_neg (by simp), List.tail_cons, hcount, hreads t ht]
    exact if_pos (by omega)
  have hleaves := leaves_openQuote.append (leaves_body hbody)
  rw [hstring tail htail] at h
  cases tail with
  | nil =>
      -- The loop of `cJSON_Minify` would look for the closing quote behind the text.
      rcases hminifies with ⟨m, hm⟩
      have hstop := hleaves []
      rw [show quote :: (w ++ []) = [quote] ++ w ++ [] from rfl, hstop] at hm
      cases hm
  | cons c tail =>
      cases htail c rfl
      cases h
      refine ⟨[quote] ++ w ++ [quote], [quote] ++ w ++ [quote], by simp,
        hleaves.append leaves_closeQuote, fun x _ => ?_⟩
      have hclosed := hstring (quote :: x) fun c hc => by
        cases hc
        rfl
      rw [List.append_assoc]
      exact hclosed

/-! ## What the functions have read -/

variable {D : Doubles δ}

theorem closing_ok {bracket : UInt8} {result a : α} {value rest : Text}
    (h : closing bracket result value = .ok (a, rest)) : a = result ∧ value = bracket :: rest := by
  unfold closing at h
  split at h
  · rename_i hhead
    rcases List.head?_eq_some_iff.1 hhead with ⟨w, rfl⟩
    cases h
    exact ⟨rfl, rfl⟩
  · cases h

/-- `parse_array` has read an entry, and then a comma and the others, or the closing bracket. -/
theorem parseItems_ok {n : Nat} {value rest : Text} {child : List (Item δ)}
    (h : parseItems D (n + 1) value = .ok (child, rest)) :
    ∃ v value', parseValue D n (skip value) = .ok (v, value') ∧
      ((∃ next l, skip value' = comma :: next ∧ parseItems D n next = .ok (l, rest) ∧
          child = v :: l) ∨
        skip value' = closeBracket :: rest ∧ child = [v]) := by
  rw [parseItems] at h
  cases hvalue : parseValue D n (skip value) with
  | error e =>
      rw [hvalue] at h
      cases h
  | ok r =>
      rcases r with ⟨v, value'⟩
      refine ⟨v, value', rfl, ?_⟩
      rw [hvalue] at h
      simp only [Bind.bind, Except.bind] at h
      split at h
      · rename_i hcomma
        rcases List.head?_eq_some_iff.1 hcomma with ⟨next, hsplit⟩
        rcases map_eq_ok h with ⟨⟨l, rest'⟩, hnext, heq⟩
        cases heq
        rw [hsplit] at hnext
        exact .inl ⟨next, l, hsplit, hnext, rfl⟩
      · rcases closing_ok h with ⟨rfl, hend⟩
        exact .inr ⟨hend, rfl⟩

theorem parseMembers_ok {n : Nat} {value rest : Text} {child : List (Text × Item δ)}
    (h : parseMembers D (n + 1) value = .ok (child, rest)) :
    ∃ name value' w v value'', parseString (skip value) = .ok (name, value') ∧
      skip value' = colon :: w ∧ parseValue D n (skip w) = .ok (v, value'') ∧
      ((∃ next l, skip value'' = comma :: next ∧ parseMembers D n next = .ok (l, rest) ∧
          child = (name, v) :: l) ∨
        skip value'' = closeBrace :: rest ∧ child = [(name, v)]) := by
  rw [parseMembers] at h
  cases hname : parseString (skip value) with
  | error e =>
      rw [hname] at h
      cases h
  | ok r =>
      rcases r with ⟨name, value'⟩
      rw [hname] at h
      simp only [Bind.bind, Except.bind] at h
      split at h
      · cases h
      · rename_i hcolon
        rcases List.head?_eq_some_iff.1 (not_not.1 hcolon) with ⟨w, hsplit⟩
        rw [hsplit, List.tail_cons] at h
        cases hvalue : parseValue D n (skip w) with
        | error e =>
            rw [hvalue] at h
            cases h
        | ok r =>
            rcases r with ⟨v, value''⟩
            refine ⟨name, value', w, v, value'', rfl, hsplit, hvalue, ?_⟩
            rw [hvalue] at h
            simp only at h
            split at h
            · rename_i hcomma
              rcases List.head?_eq_some_iff.1 hcomma with ⟨next, hsplit'⟩
              rcases map_eq_ok h with ⟨⟨l, rest'⟩, hnext, heq⟩
              cases heq
              rw [hsplit'] at hnext
              exact .inl ⟨next, l, hsplit', hnext, rfl⟩
            · rcases closing_ok h with ⟨rfl, hend⟩
              exact .inr ⟨hend, rfl⟩

/-- No value begins with a blank. -/
theorem parseValue_noBlank {n : Nat} {value : Text} {r : Item δ × Text}
    (h : parseValue D n value = .ok r) : skip value = value := by
  cases value with
  | nil => rfl
  | cons c w =>
      by_cases hc : c.toNat ≤ 32
      · have hne : ∀ d : UInt8, 32 < d.toNat → c ≠ d := fun d hd => ne_of_control hc hd
        have hdigit : ¬ isDigit c = true := fun hdigit => by
          have hrange := of_decide_eq_true hdigit
          omega
        cases n with
        | zero => cases h
        | succ n =>
            rw [parseValue_cons (hne _ (by decide)) (hne _ (by decide)) (hne _ (by decide)),
              if_neg (hne _ (by decide)), if_neg (not_or.2 ⟨hne _ (by decide), hdigit⟩),
              if_neg (hne _ (by decide)), if_neg (hne _ (by decide))] at h
            cases h
      · exact skip_cons (Nat.lt_of_not_le hc) w

theorem parseString_noBlank {value : Text} {r : Text × Text} (h : parseString value = .ok r) :
    skip value = value := by
  rcases parseString_cons h with ⟨text, rfl⟩
  exact skip_cons (by decide) text

/-! ## One turn of the loops -/

theorem minifies_skip {value : Text} (h : Minifies value) : Minifies (skip value) := by
  rcases blanks_kept value with ⟨b, u, hvalue, hleaves, -⟩
  exact (hvalue ▸ h : Minifies (b ++ skip value)).behind hleaves

theorem escaped_skip {value : Text} (h : escaped value = true) : escaped (skip value) = true :=
  escaped_of_suffix (skip_suffix value) h

/-- A comma, a colon or a bracket, with the blanks in front of it. -/
theorem punct_kept {c : UInt8} (hc : isCopied c = true ∧ numberByte c = false ∧ 32 < c.toNat)
    {value next : Text} (h : skip value = c :: next) :
    ∃ used u, value = used ++ next ∧ Leaves .plain used u .plain ∧
      ∀ y, Ends (u ++ y) ∧ skip (u ++ y) = c :: y := by
  rcases blanks_kept value with ⟨b, b', hvalue, hleaves, hb'⟩
  refine ⟨b ++ [c], b' ++ [c], ?_, hleaves.append (leaves_copied hc.1), fun y => ?_⟩
  · rw [List.append_assoc, List.singleton_append, ← h, ← hvalue]
  · rw [List.append_assoc, List.singleton_append]
    exact ⟨Ends.blank hb' (ends_cons hc.2.1 y), (skip_blank hb' _).trans (skip_cons hc.2.2 y)⟩

/-- What holds of `p` on any text whose escapes are complete. -/
def Keeps (p : Text → Except Stop (α × Text)) : Prop :=
  ∀ value a rest, escaped value = true → Minifies value → p value = .ok (a, rest) →
    Kept p value a rest

theorem Keeps.skip {p : Text → Except Stop (α × Text)} (h : Keeps p)
    (hp : ∀ y r, p y = .ok r → Json.skip y = y) : Keeps fun y => p (Json.skip y) :=
  fun value _ _ hescaped hminifies hok =>
    (h (Json.skip value) _ _ (escaped_skip hescaped) (minifies_skip hminifies) hok).skip hp

/-- A piece, and then a byte of punctuation. -/
theorem Keeps.punct {p : Text → Except Stop (α × Text)} (h : Keeps p) {c : UInt8}
    (hc : isCopied c = true ∧ numberByte c = false ∧ 32 < c.toNat) {value value' next : Text}
    {a : α} (hescaped : escaped value = true) (hminifies : Minifies value)
    (hvalue : p value = .ok (a, value')) (hnext : Json.skip value' = c :: next) :
    escaped next = true ∧ Minifies next ∧
      ∃ used u, value = used ++ next ∧ Leaves .plain used u .plain ∧
        ∀ y, ∃ y', p (u ++ y) = .ok (a, y') ∧ Json.skip y' = c :: y := by
  rcases h value a value' hescaped hminifies hvalue with ⟨used, u, rfl, hleaves, hread⟩
  rcases punct_kept hc hnext with ⟨b, b', rfl, hleaves', hb'⟩
  have hboth := hleaves.append hleaves'
  have hsuffix := (List.suffix_append b next).trans (List.suffix_append used (b ++ next))
  refine ⟨escaped_of_suffix hsuffix hescaped,
    Minifies.behind hboth (by rwa [List.append_assoc]), used ++ b, u ++ b',
    (List.append_assoc _ _ _).symm, hboth, fun y => ?_⟩
  rw [List.append_assoc]
  exact ⟨b' ++ y, hread _ (hb' y).1, (hb' y).2⟩

theorem keeps_parseItems {n : Nat} (hvalue : Keeps (parseValue D n))
    (hitems : Keeps (parseItems D n)) : Keeps (parseItems D (n + 1)) := by
  intro value child rest hescaped hminifies h
  have hskip : Keeps fun y => parseValue D n (skip y) := hvalue.skip fun _ _ => parseValue_noBlank
  rcases parseItems_ok h with ⟨v, value', hv, ⟨next, l, hcomma, hnext, rfl⟩ | ⟨hend, rfl⟩⟩
  · rcases hskip.punct (by decide) hescaped hminifies hv hcomma with
      ⟨hescaped', hminifies', used, u, rfl, hleaves, hread⟩
    rcases hitems next l rest hescaped' hminifies' hnext with ⟨used', u', rfl, hleaves', hread'⟩
    refine ⟨used ++ used', u ++ u', (List.append_assoc _ _ _).symm, hleaves.append hleaves',
      fun x hx => ?_⟩
    rcases hread (u' ++ x) with ⟨y, hy, hycomma⟩
    rw [List.append_assoc]
    exact parseItems_more hy hycomma (hread' x hx)
  · rcases hskip.punct (by decide) hescaped hminifies hv hend with
      ⟨-, -, used, u, rfl, hleaves, hread⟩
    refine ⟨used, u, rfl, hleaves, fun x _ => ?_⟩
    rcases hread x with ⟨y, hy, hyend⟩
    exact parseItems_last hy hyend

theorem keeps_parseMembers {n : Nat} (hvalue : Keeps (parseValue D n))
    (hmembers : Keeps (parseMembers D n)) : Keeps (parseMembers D (n + 1)) := by
  intro value child rest hescaped hminifies h
  have hskip : Keeps fun y => parseValue D n (skip y) := hvalue.skip fun _ _ => parseValue_noBlank
  have hstring : Keeps fun y => parseString (skip y) :=
    Keeps.skip (fun _ _ _ => parseString_kept) fun _ _ => parseString_noBlank
  rcases parseMembers_ok h with ⟨name, value', w, v, value'', hname, hcolon, hv, hcases⟩
  rcases hstring.punct (by decide) hescaped hminifies hname hcolon with
    ⟨hescaped', hminifies', used, u, rfl, hleaves, hread⟩
  rcases hcases with ⟨next, l, hcomma, hnext, rfl⟩ | ⟨hend, rfl⟩
  · rcases hskip.punct (by decide) hescaped' hminifies' hv hcomma with
      ⟨hescaped'', hminifies'', used', u', rfl, hleaves', hread'⟩
    rcases hmembers next l rest hescaped'' hminifies'' hnext with
      ⟨used'', u'', rfl, hleaves'', hread''⟩
    refine ⟨used ++ (used' ++ used''), u ++ (u' ++ u''), by simp only [List.append_assoc],
      hleaves.append (hleaves'.append hleaves''), fun x hx => ?_⟩
    rcases hread (u' ++ (u'' ++ x)) with ⟨y, hy, hycolon⟩
    rcases hread' (u'' ++ x) with ⟨z, hz, hzcomma⟩
    simp only [List.append_assoc]
    exact parseMembers_more hy hycolon hz hzcomma (hread'' x hx)
  · rcases hskip.punct (by decide) hescaped' hminifies' hv hend with
      ⟨-, -, used', u', rfl, hleaves', hread'⟩
    refine ⟨used ++ used', u ++ u', (List.append_assoc _ _ _).symm, hleaves.append hleaves',
      fun x _ => ?_⟩
    rcases hread (u' ++ x) with ⟨y, hy, hycolon⟩
    rcases hread' x with ⟨z, hz, hzend⟩
    rw [List.append_assoc]
    exact parseMembers_last hy hycolon hz hzend

/-! ## Values -/

theorem parseItems_head {n : Nat} {value : Text} {r : List (Item δ) × Text}
    (h : parseItems D n value = .ok r) : (skip value).head? ≠ some closeBracket := by
  intro hhead
  rcases List.head?_eq_some_iff.1 hhead with ⟨w, hw⟩
  cases n with
  | zero => cases h
  | succ n =>
      rcases parseItems_ok h with ⟨v, value', hvalue, -⟩
      rw [hw] at hvalue
      cases n with
      | zero => cases hvalue
      | succ n =>
          rw [parseValue_cons (by decide) (by decide) (by decide), if_neg (by decide),
            if_neg (by decide), if_neg (by decide), if_neg (by decide)] at hvalue
          cases hvalue

theorem parseMembers_head {n : Nat} {value : Text} {r : List (Text × Item δ) × Text}
    (h : parseMembers D n value = .ok r) : (skip value).head? ≠ some closeBrace := by
  intro hhead
  rcases List.head?_eq_some_iff.1 hhead with ⟨w, hw⟩
  cases n with
  | zero => cases h
  | succ n =>
      rcases parseMembers_ok h with ⟨name, value', -, -, -, hname, -⟩
      rcases parseString_cons hname with ⟨text, htext⟩
      rw [hw] at htext
      cases htext

/-- What stands behind the opening bracket of an array or an object. -/
def container (bracket : UInt8) (empty : Item δ) (f : α → Item δ)
    (q : Text → Except Stop (α × Text)) (w : Text) : Except Stop (Item δ × Text) :=
  if (skip w).head? = some bracket then .ok (empty, (skip w).tail)
  else (q (skip w)).map (Prod.map f id)

theorem keeps_container {bracket : UInt8} {empty : Item δ} {f : α → Item δ}
    {q : Text → Except Stop (α × Text)}
    (hbracket : isCopied bracket = true ∧ numberByte bracket = false ∧ 32 < bracket.toNat)
    (hq : Keeps q) (hskip : ∀ y, q (skip y) = q y)
    (hhead : ∀ y r, q y = .ok r → (skip y).head? ≠ some bracket) :
    Keeps (container bracket empty f q) := by
  intro w v rest hescaped hminifies h
  unfold container at h
  split at h
  · rename_i hclosed
    rcases List.head?_eq_some_iff.1 hclosed with ⟨next, hnext⟩
    rw [hnext] at h
    cases h
    rcases punct_kept hbracket hnext with ⟨used, u, hw, hleaves, hread⟩
    refine ⟨used, u, hw, hleaves, fun x _ => ?_⟩
    rw [container, (hread x).2]
    exact if_pos rfl
  · rcases map_eq_ok h with ⟨⟨a, rest'⟩, ha, heq⟩
    cases heq
    rw [hskip] at ha
    rcases hq w a _ hescaped hminifies ha with ⟨used, u, hw, hleaves, hread⟩
    refine ⟨used, u, hw, hleaves, fun x hx => ?_⟩
    rw [container, if_neg (hhead _ _ (hread x hx)), hskip, hread x hx]
    rfl

/-- A byte in front decides which function reads the rest. -/
theorem Kept.cons {p q : Text → Except Stop (α × Text)} {c : UInt8} {w rest : Text} {a : α}
    (hc : isCopied c = true) (hpq : ∀ y, p (c :: y) = q y) (h : Kept q w a rest) :
    Kept p (c :: w) a rest := by
  rcases h with ⟨used, u, rfl, hleaves, hread⟩
  exact ⟨[c] ++ used, [c] ++ u, rfl, (leaves_copied hc).append hleaves, fun x hx =>
    (hpq _).trans (hread x hx)⟩

theorem parseValue_container {n : Nat} (y : Text) :
    parseValue D (n + 1) (openBracket :: y) =
        container closeBracket (.array []) .array (parseItems D n) y ∧
      parseValue D (n + 1) (openBrace :: y) =
        container closeBrace (.object []) .object (parseMembers D n) y := by
  refine ⟨?_, ?_⟩
  · rw [parseValue_cons (by decide) (by decide) (by decide), if_neg (by decide),
      if_neg (by decide), if_pos rfl]
    rfl
  · rw [parseValue_cons (by decide) (by decide) (by decide), if_neg (by decide),
      if_neg (by decide), if_neg (by decide), if_pos rfl]
    rfl

theorem keeps_arrays {n : Nat} (h : Keeps (parseItems D n)) :
    Keeps (container closeBracket (.array []) .array (parseItems D n)) :=
  keeps_container (by decide) h (fun y => parseItems_congr D n (skip_skip y)) fun _ _ =>
    parseItems_head

theorem keeps_objects {n : Nat} (h : Keeps (parseMembers D n)) :
    Keeps (container closeBrace (.object []) .object (parseMembers D n)) :=
  keeps_container (by decide) h (fun y => parseMembers_congr D n (skip_skip y)) fun _ _ =>
    parseMembers_head

theorem kept_string {n : Nat} {value rest : Text} {v : Item δ} (hescaped : escaped value = true)
    (hminifies : Minifies value)
    (h : (parseString value).map (Prod.map .string id) = .ok (v, rest)) :
    Kept (parseValue D (n + 1)) value v rest := by
  rcases map_eq_ok h with ⟨⟨s, rest'⟩, hs, heq⟩
  cases heq
  rcases parseString_kept hescaped hminifies hs with ⟨used, u, rfl, hleaves, hread⟩
  refine ⟨used, u, rfl, hleaves, fun x hx => ?_⟩
  have hstring := hread x hx
  rcases parseString_cons hstring with ⟨text, htext⟩
  rw [htext] at hstring ⊢
  rw [parseValue_cons (by decide) (by decide) (by decide), if_pos rfl, hstring]
  rfl

theorem parseValue_number {n : Nat} {c : UInt8} (hc : c = 45 ∨ isDigit c = true) (w : Text) :
    parseValue D (n + 1) (c :: w) = .ok (parseNumber D (c :: w)) := by
  have hne : ∀ d : UInt8, isDigit d = false → d ≠ 45 → c ≠ d := by
    rintro d hd hminus rfl
    rcases hc with rfl | hc
    · exact hminus rfl
    · rw [hd] at hc
      cases hc
  rw [parseValue_cons (hne _ (by decide) (by decide)) (hne _ (by decide) (by decide))
    (hne _ (by decide) (by decide)), if_neg (hne _ (by decide) (by decide)), if_pos hc]

theorem kept_number {n : Nat} {c : UInt8} (hc : c = 45 ∨ isDigit c = true) {w rest : Text}
    {v : Item δ} (h : parseNumber D (c :: w) = (v, rest)) :
    Kept (parseValue D (n + 1)) (c :: w) v rest := by
  rcases parseNumber_reread D (c :: w) with ⟨u, hsplit, hall, hread⟩
  have hsound := parseNumber_sound (D := D) hc w
  rw [h] at hsplit hread hsound
  rcases hsound with ⟨-, used, hne, hused⟩
  have hu : u = used := List.append_cancel_right (hsplit.symm.trans hused)
  obtain ⟨u', rfl⟩ : ∃ u', u = c :: u' := by
    cases u with
    | nil => exact absurd hu.symm hne
    | cons d u => exact ⟨u, by rw [(List.cons.inj hsplit).1]⟩
  refine ⟨c :: u', c :: u', hsplit, leaves_all_copied (List.all_eq_true.2 fun d hd =>
    isCopied_of_numberByte (List.all_eq_true.1 hall d hd)), fun x hx => ?_⟩
  have hnumber := hread x hx
  rw [List.cons_append] at hnumber ⊢
  rw [parseValue_number hc, hnumber]

theorem kept_word {p : Text → Except Stop (α × Text)} {u value : Text} {a : α} (h : u <+: value)
    (hu : u.all isCopied = true) (hp : ∀ x, p (u ++ x) = .ok (a, x)) :
    Kept p value a (value.drop u.length) := by
  rcases h with ⟨rest, rfl⟩
  rw [List.drop_left]
  exact ⟨u, u, rfl, leaves_all_copied hu, fun x _ => hp x⟩

theorem keeps_parseValue {n : Nat} (hitems : Keeps (parseItems D n))
    (hmembers : Keeps (parseMembers D n)) : Keeps (parseValue D (n + 1)) := by
  intro value v rest hescaped hminifies h
  have hwords := fun u => parseValue_word (D := D) (n := n) u
  have hcontainer := fun y => parseValue_container (D := D) (n := n) y
  rw [parseValue] at h
  split at h
  · rename_i hword
    cases h
    exact kept_word hword (by decide) fun x => (hwords x).1
  split at h
  · rename_i hword
    cases h
    exact kept_word hword (by decide) fun x => (hwords x).2.1
  split at h
  · rename_i hword
    cases h
    exact kept_word hword (by decide) fun x => (hwords x).2.2
  cases value with
  | nil => cases h
  | cons c w =>
      have hescaped' := (escaped_cons hescaped).2
      simp only [List.head?_cons, List.tail_cons] at h
      split at h
      · exact kept_string hescaped hminifies h
      split at h
      · rename_i hnumber
        exact kept_number hnumber (Except.ok.inj h)
      split at h
      · rename_i hbracket
        subst hbracket
        have hcopied : isCopied openBracket = true := by decide
        exact Kept.cons hcopied (fun y => (hcontainer y).1) (keeps_arrays hitems w v rest hescaped'
          (Minifies.behind (leaves_copied hcopied) hminifies) h)
      split at h
      · rename_i hbrace
        subst hbrace
        have hcopied : isCopied openBrace = true := by decide
        exact Kept.cons hcopied (fun y => (hcontainer y).2) (keeps_objects hmembers w v rest
          hescaped' (Minifies.behind (leaves_copied hcopied) hminifies) h)
      · cases h

theorem keeps (D : Doubles δ) (n : Nat) :
    Keeps (parseValue D n) ∧ Keeps (parseItems D n) ∧ Keeps (parseMembers D n) := by
  induction n with
  | zero =>
      refine ⟨fun _ _ _ _ _ h => ?_, fun _ _ _ _ _ h => ?_, fun _ _ _ _ _ h => ?_⟩ <;> cases h
  | succ n ih =>
      rcases ih with ⟨hvalue, hitems, hmembers⟩
      exact ⟨keeps_parseValue hitems hmembers, keeps_parseItems hvalue hitems,
        keeps_parseMembers hvalue hmembers⟩

/-! ## The whole text -/

theorem sublist_of_map {c : UInt8} {r : Except Fault Text} {json m : Text}
    (ih : ∀ {m}, r = .ok m → m.Sublist json) (h : r.map (c :: ·) = .ok m) :
    m.Sublist (c :: json) := by
  rcases map_eq_ok h with ⟨m', hm', rfl⟩
  exact (ih hm').cons_cons c

/-- Bytes are dropped only. -/
theorem minifyFrom_sublist {mode : Mode} {json m : Text} (h : minifyFrom mode json = .ok m) :
    m.Sublist json := by
  fun_induction minifyFrom mode json generalizing m
  case case1 => cases h; exact .slnil
  case case4 => cases h; exact .slnil
  all_goals first
    | cases h
    | exact sublist_of_map (by assumption) h
    | exact List.Sublist.cons _ (by solve_by_elim)

theorem parseWithOpts_ok {D : Doubles δ} {text : Text} {v : Item δ}
    (h : parseWithOpts D text true = .ok (v, [])) :
    ∃ ending, parseValue D (fuelFor text) (skip text) = .ok (v, ending) ∧ skip ending = [] := by
  rw [parseWithOpts] at h
  cases hvalue : parseValue D (fuelFor text) (skip text) with
  | error e =>
      rw [hvalue] at h
      cases h
  | ok r =>
      rcases r with ⟨c, ending⟩
      rw [hvalue] at h
      simp only [Bind.bind, Except.bind, if_true] at h
      split at h
      · rename_i hend
        rw [hend] at h
        cases h
        exact ⟨ending, rfl, hend⟩
      · cases h

theorem parseWithOpts_intro {D : Doubles δ} {text ending : Text} {v : Item δ}
    (h : parseValue D (fuelFor text) (skip text) = .ok (v, ending)) (hend : skip ending = []) :
    parseWithOpts D text true = .ok (v, []) := by
  rw [parseWithOpts, h]
  simp only [Bind.bind, Except.bind, if_true, hend]

/-- A text that is accepted is accepted after `cJSON_Minify`, as the same item. -/
theorem parse_minify {D : Doubles δ} {text m : Text} {v : Item δ} (hzero : (0 : UInt8) ∉ text)
    (hescaped : escaped text = true) (h : parseWithOpts D text true = .ok (v, []))
    (hm : minify text = .ok m) : parseWithOpts D m true = .ok (v, []) := by
  rcases parseWithOpts_ok h with ⟨ending, hvalue, hend⟩
  have hkeeps : Keeps fun y => parseValue D (fuelFor text) (skip y) :=
    (keeps D (fuelFor text)).1.skip fun _ _ => parseValue_noBlank
  rcases hkeeps text v ending hescaped ⟨m, hm⟩ hvalue with ⟨used, u, htext, hleaves, hread⟩
  -- Behind the value, only blanks are left.
  have hblank : Blank ending := fun c hc => by
    have hdrop := List.dropWhile_eq_nil_iff.1 hend c hc
    exact of_decide_eq_true hdrop
  rcases leaves_control hblank with ⟨w, hleaves', hw⟩
  have hsplit : m = u ++ w := by
    have hall := (hleaves.append hleaves') []
    rw [List.append_nil, ← htext] at hall
    have hrest : minifyFrom .plain [] = .ok [] := rfl
    rw [minify, hall, hrest] at hm
    cases hm
    exact List.append_nil _
  have hends : Ends w := by
    have hnil := Ends.blank hw (x := []) fun c hc => by cases hc
    rwa [List.append_nil] at hnil
  have hskip : skip w = [] := List.dropWhile_eq_nil_iff.2 fun c hc => decide_eq_true (hw c hc)
  have hparse := hread w hends
  rw [← hsplit] at hparse
  -- The minified text is no longer, so it needs no more calls.
  have hsublist := minifyFrom_sublist hm
  have hzero' : (0 : UInt8) ∉ skip m := fun hmem =>
    hzero (hsublist.mem ((skip_suffix m).mem hmem))
  have hless : fuelFor (skip m) ≤ fuelFor m := fuelFor_of_suffix (skip_suffix m)
  have hless' : fuelFor m ≤ fuelFor text := by
    have hle := hsublist.length_le
    unfold fuelFor
    omega
  have hvalue' : parseValue D (fuelFor m) (skip m) = .ok (v, w) := by
    rw [parseValue_fuel D hzero' hless, ← parseValue_fuel D hzero' (hless.trans hless')]
    exact hparse
  exact parseWithOpts_intro hvalue' hskip

theorem parse_minify_blanks :
    parseWithOpts rationals (ascii "[null,\x7b\"a b\":[]\x7d]") true =
      .ok (.array [.null, .object [(ascii "a b", .array [])]], []) :=
  parse_minify (by decide) (by decide)
    (show parseWithOpts rationals (ascii " [ null , \x7b \"a b\" : [ ] \x7d ] ") true = _ from rfl)
    (by decide)

end Json
end LinuxLearn
