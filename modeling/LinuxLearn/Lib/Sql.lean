import LinuxLearn.Lib.Text

/-!
# Sql — tokens of SQL texts

A lexer for SQL texts as a state machine over bytes.  It knows white space, comments, words (names,
keywords and numbers alike), string literals, quoted names and single-character symbols.  A quote
ends a string literal unless it is doubled.

`lex_splice_iff` is about texts that are put together from fixed segments and quoted values: such
a text has the tokens of the segments, with the values as its literals, exactly if no value
contains a quote.
-/

namespace LinuxLearn
namespace Lib
namespace Sql

abbrev quote : UInt8 := 39
abbrev semicolon : UInt8 := 59

inductive Token
  | word (text : Text)
  | literal (value : Text)
  | name (value : Text)
  | symbol (c : UInt8)
  | unterminated
  deriving DecidableEq, Repr

/-! ## The lexer -/

/-- What the lexer is in the middle of. -/
inductive Mode
  | start
  | word (text : Text)
  /-- inside the quotes `q` -/
  | quoted (q : UInt8) (value : Text)
  /-- behind a quote `q` that may be the first of two -/
  | closing (q : UInt8) (value : Text)
  | bracketed (value : Text)
  | dash
  | lineComment
  | slash
  | blockComment
  | blockStar
  deriving DecidableEq, Repr

def isSpace (c : UInt8) : Bool :=
  c == 32 || c == 9 || c == 10 || c == 12 || c == 13

/-- Letters, digits, underscore, dollar and all bytes beyond ASCII. -/
def isWordChar (c : UInt8) : Bool :=
  isDigit c || decide (97 ≤ c.toNat ∧ c.toNat ≤ 122) || decide (65 ≤ c.toNat ∧ c.toNat ≤ 90) ||
    c == 95 || c == 36 || decide (128 ≤ c.toNat)

/-- Single quotes enclose a string, double quotes and backticks a name. -/
def quotedToken (q : UInt8) (value : Text) : Token :=
  if q = quote then .literal value else .name value

def stepStart (c : UInt8) : List Token × Mode :=
  if isSpace c then ([], .start)
  else if isWordChar c then ([], .word [c])
  else if c = quote ∨ c = 34 ∨ c = 96 then ([], .quoted c [])
  else if c = 91 then ([], .bracketed [])
  else if c = 45 then ([], .dash)
  else if c = 47 then ([], .slash)
  else ([.symbol c], .start)

/-- A token is complete, and the byte starts something new. -/
def emit (tok : Token) (next : List Token × Mode) : List Token × Mode :=
  (tok :: next.1, next.2)

def step : Mode → UInt8 → List Token × Mode
  | .start, c => stepStart c
  | .word text, c =>
      if isWordChar c then ([], .word (text ++ [c])) else emit (.word text) (stepStart c)
  | .quoted q value, c => if c = q then ([], .closing q value) else ([], .quoted q (value ++ [c]))
  | .closing q value, c =>
      if c = q then ([], .quoted q (value ++ [q])) else emit (quotedToken q value) (stepStart c)
  | .bracketed value, c =>
      if c = 93 then ([.name value], .start) else ([], .bracketed (value ++ [c]))
  | .dash, c => if c = 45 then ([], .lineComment) else emit (.symbol 45) (stepStart c)
  | .lineComment, c => if c = 10 then ([], .start) else ([], .lineComment)
  | .slash, c => if c = 42 then ([], .blockComment) else emit (.symbol 47) (stepStart c)
  | .blockComment, c => if c = 42 then ([], .blockStar) else ([], .blockComment)
  | .blockStar, c =>
      if c = 47 then ([], .start) else if c = 42 then ([], .blockStar) else ([], .blockComment)

def finish : Mode → List Token
  | .start => []
  | .word text => [.word text]
  | .quoted _ _ => [.unterminated]
  | .closing q value => [quotedToken q value]
  | .bracketed _ => [.unterminated]
  | .dash => [.symbol 45]
  | .lineComment => []
  | .slash => [.symbol 47]
  | .blockComment => []
  | .blockStar => []

def run : Mode → Text → List Token
  | m, [] => finish m
  | m, c :: s => (step m c).1 ++ run (step m c).2 s

def lex (s : Text) : List Token :=
  run .start s

/-- The tokens that are complete after a piece of text, and what the lexer is in the middle of. -/
def scan : Mode → Text → List Token × Mode
  | m, [] => ([], m)
  | m, c :: s => ((step m c).1 ++ (scan (step m c).2 s).1, (scan (step m c).2 s).2)

theorem run_append (m : Mode) (t s : Text) :
    run m (t ++ s) = (scan m t).1 ++ run (scan m t).2 s := by
  induction t generalizing m with
  | nil => rfl
  | cons c t ih => simp [run, scan, ih]

/-! ## Quoted values -/

@[simp] theorem run_nil (m : Mode) : run m [] = finish m := rfl

theorem run_cons (m : Mode) (c : UInt8) (s : Text) :
    run m (c :: s) = (step m c).1 ++ run (step m c).2 s := rfl

/-- Bytes other than the quote are collected. -/
theorem run_quoted_append {q : UInt8} {u : Text} (hu : q ∉ u) (value s : Text) :
    run (.quoted q value) (u ++ s) = run (.quoted q (value ++ u)) s := by
  induction u generalizing value with
  | nil => simp
  | cons c u ih =>
      have hc : c ≠ q := fun heq => hu (heq ▸ List.mem_cons_self)
      have htail : q ∉ u := fun hmem => hu (List.mem_cons_of_mem c hmem)
      rw [List.cons_append, run_cons]
      simp [step, hc, ih htail]

/-- A quote that is not doubled ends the value. -/
theorem run_quoted_close {q : UInt8} {s : Text} (hs : s.head? ≠ some q) (value : Text) :
    run (.quoted q value) (q :: s) = quotedToken q value :: run .start s := by
  rw [run_cons]
  cases s with
  | nil => simp [step, finish]
  | cons c s =>
      have hc : c ≠ q := fun heq => hs (by simp [heq])
      simp [step, run_cons, hc, emit]

/-- The value with each of its quotes doubled. -/
def doubled (q : UInt8) (value : Text) : Text :=
  value.flatMap fun c => if c = q then [q, q] else [c]

theorem quotedToken_injective {q : UInt8} {u v : Text} (h : quotedToken q u = quotedToken q v) :
    u = v := by
  unfold quotedToken at h
  split at h
  · exact Token.literal.inj h
  · exact Token.name.inj h

/-- What the lexer has read when it delivers a quoted value: the value with its quotes doubled,
and one more quote. -/
theorem run_quoted_inv {q : UInt8} {value d s : Text} {toks : List Token}
    (h : run (.quoted q value) s = quotedToken q d :: toks) :
    ∃ e r, d = value ++ e ∧ s = doubled q e ++ q :: r ∧ r.head? ≠ some q ∧
      toks = run .start r := by
  -- By induction on the length, as a doubled quote takes two bytes at once.
  induction hn : s.length using Nat.strong_induction_on generalizing s value with
  | _ n ih =>
      cases s with
      | nil =>
          have hcontra : ([Token.unterminated] : List Token) = quotedToken q d :: toks := h
          have htok := (List.cons.inj hcontra).1
          unfold quotedToken at htok
          split at htok <;> cases htok
      | cons c s =>
          by_cases hc : c = q
          · subst hc
            cases s with
            | nil =>
                have hclosed := h.symm.trans (run_quoted_close (by simp) value)
                have hd := quotedToken_injective (List.cons.inj hclosed).1
                exact ⟨[], [], by simp [hd], rfl, by simp, (List.cons.inj hclosed).2⟩
            | cons c' s =>
                by_cases hc' : c' = c
                · subst hc'
                  have hrest : run (.quoted c' (value ++ [c'])) s = quotedToken c' d :: toks := by
                    simpa [run_cons, step] using h
                  have hlt : s.length < n := by
                    simp only [List.length_cons] at hn
                    omega
                  rcases ih s.length hlt hrest rfl with ⟨e, r, hd, hs, hr, htoks⟩
                  refine ⟨c' :: e, r, by simp [hd], ?_, hr, htoks⟩
                  simp [doubled, hs]
                · have hhead : (c' :: s).head? ≠ some c := by
                    simpa using hc'
                  have hclosed := h.symm.trans (run_quoted_close hhead value)
                  have hd := quotedToken_injective (List.cons.inj hclosed).1
                  exact ⟨[], c' :: s, by simp [hd], rfl, hhead, (List.cons.inj hclosed).2⟩
          · have hrest : run (.quoted q (value ++ [c])) s = quotedToken q d :: toks := by
              simpa [run_cons, step, hc] using h
            have hlt : s.length < n := by
              simp only [List.length_cons] at hn
              omega
            rcases ih s.length hlt hrest rfl with ⟨e, r, hd, hs, hr, htoks⟩
            refine ⟨c :: e, r, by simp [hd], ?_, hr, htoks⟩
            simp [doubled, hs, hc]

/-- Quotes that have been taken for doubled ones are missing at the end: the text goes on with a
quote. -/
theorem head?_of_surplus {q : UInt8} {k : Nat} {u s r : Text}
    (h : u ++ q :: s = List.replicate (k + 1) q ++ (doubled q u ++ q :: r)) :
    s.head? = some q := by
  induction u generalizing k with
  | nil =>
      have hs : s = List.replicate k q ++ q :: r := by
        simpa [doubled, List.replicate_succ] using h
      cases k with
      | zero => simp [hs]
      | succ k => simp [hs, List.replicate_succ]
  | cons c u ih =>
      have hc : c = q := by
        simpa [List.replicate_succ] using congrArg List.head? h
      subst hc
      -- One byte is gone on the left, two have been added on the right.
      have hrest : u ++ c :: s = List.replicate (k + 1 + 1) c ++ (doubled c u ++ c :: r) := by
        have htail : u ++ c :: s =
            List.replicate k c ++ c :: c :: (doubled c u ++ c :: r) := by
          simpa [doubled, List.replicate_succ] using congrArg List.tail h
        rw [htail]
        simp [List.replicate_succ']
      exact ih hrest

/-- A quoted value is read back only if it contains no quote. -/
theorem not_mem_of_doubled {q : UInt8} {u s r : Text} (hs : s.head? ≠ some q)
    (h : u ++ q :: s = doubled q u ++ q :: r) : q ∉ u := by
  induction u with
  | nil => simp
  | cons c u ih =>
      by_cases hc : c = q
      · subst hc
        have hsurplus : u ++ c :: s = List.replicate (0 + 1) c ++ (doubled c u ++ c :: r) := by
          simpa [doubled] using h
        exact absurd (head?_of_surplus hsurplus) hs
      · have hrest : u ++ q :: s = doubled q u ++ q :: r := by
          simpa [doubled, hc] using h
        have hu := ih hrest
        simpa [Ne.symm hc] using hu

/-- The value between two quotes is read back exactly if it contains no quote. -/
theorem run_quoted_iff {q : UInt8} {u s : Text} (hs : s.head? ≠ some q) (toks : List Token) :
    run (.quoted q []) (u ++ q :: s) = quotedToken q u :: toks ↔
      q ∉ u ∧ run .start s = toks := by
  constructor
  · intro h
    rcases run_quoted_inv h with ⟨e, r, hd, hsplit, hr, htoks⟩
    rw [List.nil_append] at hd
    subst hd
    have hu := not_mem_of_doubled hs hsplit
    refine ⟨hu, ?_⟩
    rw [run_quoted_append hu, run_quoted_close hs] at h
    exact (List.cons.inj h).2
  · rintro ⟨hu, rfl⟩
    rw [run_quoted_append hu, run_quoted_close hs, List.nil_append]

/-! ## Texts with quoted values -/

/-- A fixed piece of text with tokens of its own: a quote next to it starts or ends a literal. -/
structure Segment (t : Text) (toks : List Token) : Prop where
  head : t.head? ≠ none ∧ t.head? ≠ some quote
  inner : ∀ s, run .start (t ++ quote :: s) = toks ++ run (.quoted quote []) s
  last : run .start t = toks

/-- Quoted values, each followed by a piece of text. -/
def splice : List (Text × Text) → Text
  | [] => []
  | (u, t) :: parts => quote :: (u ++ quote :: (t ++ splice parts))

/-- Literals, each followed by the tokens of a piece of text. -/
def spliceTokens : List (Text × List Token) → List Token
  | [] => []
  | (u, toks) :: parts => .literal u :: (toks ++ spliceTokens parts)

/-- The text has the tokens of its segments, with the values as literals, exactly if no value
contains a quote. -/
theorem lex_splice_iff {t : Text} {toks : List Token} (h : Segment t toks)
    (parts : List (Text × Text × List Token)) (hparts : ∀ p ∈ parts, Segment p.2.1 p.2.2) :
    lex (t ++ splice (parts.map fun p => (p.1, p.2.1))) =
        toks ++ spliceTokens (parts.map fun p => (p.1, p.2.2)) ↔
      ∀ p ∈ parts, quote ∉ p.1 := by
  rw [lex]
  induction parts generalizing t toks with
  | nil => simp [splice, spliceTokens, h.last]
  | cons p parts ih =>
      rcases p with ⟨u, t', toks'⟩
      have h' : Segment t' toks' := hparts _ List.mem_cons_self
      have hhead : (t' ++ splice (parts.map fun p => (p.1, p.2.1))).head? ≠ some quote := by
        rcases h'.head with ⟨hne, hquote⟩
        cases t' with
        | nil => exact absurd rfl hne
        | cons c t' => simpa using hquote
      have hliteral := run_quoted_iff (u := u) hhead
        (toks' ++ spliceTokens (parts.map fun p => (p.1, p.2.2)))
      have hrest := ih h' fun q hq => hparts q (List.mem_cons_of_mem _ hq)
      have hcancel : toks ++ run (.quoted quote [])
            (u ++ quote :: (t' ++ splice (parts.map fun p => (p.1, p.2.1)))) =
          toks ++ .literal u :: (toks' ++ spliceTokens (parts.map fun p => (p.1, p.2.2))) ↔
          quote ∉ u ∧ ∀ q ∈ parts, quote ∉ q.1 := by
        rw [List.append_cancel_left_eq, ← hrest]
        exact hliteral
      simpa [splice, spliceTokens, h.inner] using hcancel

/-! ## Numbers in a text -/

theorem isWordChar_of_isDigit {c : UInt8} (h : isDigit c = true) : isWordChar c = true := by
  simp [isWordChar, h]

/-- The tokens of a decimal number. -/
def intTokens : Int → List Token
  | .ofNat n => [.word (decimalNat n)]
  | .negSucc n => [.symbol 45, .word (decimalNat (n + 1))]

/-- Word characters up to one that is none. -/
theorem run_word {u : Text} (hu : ∀ c ∈ u, isWordChar c = true) {c : UInt8}
    (hc : isWordChar c = false) (text s : Text) :
    run (.word text) (u ++ c :: s) = .word (text ++ u) :: run .start (c :: s) := by
  induction u generalizing text with
  | nil => simp [run_cons, step, hc, emit]
  | cons d u ih =>
      have hd : isWordChar d = true := hu d List.mem_cons_self
      have htail := ih (fun e he => hu e (List.mem_cons_of_mem d he)) (text ++ [d])
      simpa [run_cons, step, hd] using htail

theorem stepStart_digit {c : UInt8} (h : isDigit c = true) : stepStart c = ([], .word [c]) := by
  have hword := isWordChar_of_isDigit h
  have hspace : isSpace c = false := by
    simp only [isDigit, decide_eq_true_eq] at h
    simp only [isSpace, Bool.or_eq_false_iff, beq_eq_false_iff_ne]
    refine ⟨⟨⟨⟨?_, ?_⟩, ?_⟩, ?_⟩, ?_⟩ <;> rintro rfl <;> exact absurd h (by decide)
  simp [stepStart, hspace, hword]

theorem run_decimalNat (n : Nat) {c : UInt8} (hc : isWordChar c = false) (s : Text) :
    run .start (decimalNat n ++ c :: s) = .word (decimalNat n) :: run .start (c :: s) := by
  have hdigits : ∀ d ∈ decimalNat n, isDigit d = true := fun d hd => isDigit_of_mem_decimalNat hd
  cases hn : decimalNat n with
  | nil => exact absurd hn (decimalNat_ne_nil n)
  | cons d u =>
      rw [hn] at hdigits
      have hu : ∀ e ∈ u, isWordChar e = true := fun e he =>
        isWordChar_of_isDigit (hdigits e (List.mem_cons_of_mem d he))
      have hrest := run_word hu hc [d] s
      simpa [run_cons, step, stepStart_digit (hdigits d List.mem_cons_self)] using hrest

theorem run_decimal (n : Int) {c : UInt8} (hc : isWordChar c = false) (s : Text) :
    run .start (decimal n ++ c :: s) = intTokens n ++ run .start (c :: s) := by
  cases n with
  | ofNat n => exact run_decimalNat n hc s
  | negSucc n =>
      -- The digit behind the minus sign is not another one.
      have hnumber := run_decimalNat (n + 1) hc s
      have hdigits : ∀ d ∈ decimalNat (n + 1), isDigit d = true :=
        fun d hd => isDigit_of_mem_decimalNat hd
      cases hn : decimalNat (n + 1) with
      | nil => exact absurd hn (decimalNat_ne_nil _)
      | cons d u =>
          rw [hn] at hnumber hdigits
          have hd := hdigits d List.mem_cons_self
          have hminus : d ≠ 45 := by
            rintro rfl
            cases hd
          have hstart : stepStart 45 = ([], .dash) := rfl
          rw [decimal, intTokens, hn]
          rw [List.cons_append, run_cons] at hnumber
          simp [run_cons, step, hstart, hminus, emit] at hnumber ⊢
          exact hnumber

/-! ## Segments -/

/-- A fixed text is a segment if the lexer says so. -/
theorem Segment.of_scan {t : Text} {toks : List Token}
    (head : t.head? ≠ none ∧ t.head? ≠ some quote)
    (opened : scan .start (t ++ [quote]) = (toks, .quoted quote [])) (last : lex t = toks) :
    Segment t toks := by
  refine ⟨head, fun s => ?_, last⟩
  have happend := run_append .start (t ++ [quote]) s
  rw [opened] at happend
  simpa using happend

/-- A number may stand between a fixed text and a segment. -/
theorem Segment.int {t : Text} {toks : List Token} (head : t.head? ≠ none ∧ t.head? ≠ some quote)
    (before : scan .start t = (toks, .start)) (n : Int) {c : UInt8} (hc : isWordChar c = false)
    {t' : Text} {toks' : List Token} (behind : Segment (c :: t') toks') :
    Segment (t ++ (decimal n ++ c :: t')) (toks ++ (intTokens n ++ toks')) := by
  have hstart : ∀ s, run .start (t ++ s) = toks ++ run .start s := by
    intro s
    rw [run_append, before]
  refine ⟨?_, fun s => ?_, ?_⟩
  · cases t with
    | nil => exact absurd rfl head.1
    | cons d t => simpa using head.2
  · have hinner := behind.inner s
    simp only [List.append_assoc, List.cons_append] at hinner ⊢
    rw [hstart, run_decimal n hc, hinner]
  · rw [hstart, run_decimal n hc, behind.last]

end Sql
end Lib
end LinuxLearn
