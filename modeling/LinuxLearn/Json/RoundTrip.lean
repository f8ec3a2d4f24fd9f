import LinuxLearn.Json.Print
import LinuxLearn.Json.Spelling

/-!
# RoundTrip — the parser reads what the printer writes

The lemmas follow the functions of the parser: each one says what a function does with the text of
one construct and any text behind it.  An item is read back from its formatted and from its
unformatted text, if its numbers are those of an `int`.
-/

namespace LinuxLearn
namespace Json

open Lib

variable {δ : Type}

/-! ## Strings -/

theorem hexVal_hexDigit {n : Nat} (h : n < 16) : hexVal (hexDigit n) = some n := by
  interval_cases n <;> rfl

theorem hexDigit_ne_quote {n : Nat} (h : n < 16) : hexDigit n ≠ quote := by
  interval_cases n <;> decide

theorem hexDigit_ne_backslash {n : Nat} (h : n < 16) : hexDigit n ≠ backslash := by
  interval_cases n <;> decide

theorem parseHex4_hexEscape (c : UInt8) (w : Text) :
    parseHex4 ((hexEscape c).tail ++ w) = c.toNat := by
  have hlt := c.toNat_lt
  have hzero : hexVal (digit 0) = some 0 := rfl
  have hhigh := hexVal_hexDigit (by omega : c.toNat / 16 < 16)
  have hlow := hexVal_hexDigit (by omega : c.toNat % 16 < 16)
  simp only [hexEscape, List.tail_cons, List.cons_append, List.nil_append, parseHex4, hzero, hhigh,
    hlow]
  omega

/-- `\u00xx` of a control character is one byte. -/
theorem transcode_hexEscape {c : UInt8} (hne : c ≠ 0) (hcontrol : c.toNat < 32) (w : Text) :
    transcode ((hexEscape c).tail ++ w) = ([c], 4) := by
  have hpos : c.toNat ≠ 0 := fun h => hne (UInt8.toNat_inj.1 h)
  have hlow : ¬ (0xDC00 ≤ c.toNat ∧ c.toNat ≤ 0xDFFF) := by omega
  have hhigh : ¬ (0xD800 ≤ c.toNat ∧ c.toNat ≤ 0xDBFF) := by omega
  have hshort : c.toNat < 0x80 := by omega
  simp [transcode, parseHex4_hexEscape, isLowSurrogate, isHighSurrogate, hpos, hlow, hhigh, utf8,
    hshort]

theorem unescape_of_lookup {c letter : UInt8} (h : shortEscapes.lookup c = some letter) :
    unescape letter = c ∧ letter ≠ 117 := by
  rcases List.lookup_eq_some_iff.1 h with ⟨l, m, hsplit, -⟩
  have hmem : (c, letter) ∈ shortEscapes := by simp [hsplit]
  simp only [shortEscapes, List.mem_cons, Prod.mk.injEq, List.not_mem_nil, or_false] at hmem
  rcases hmem with ⟨rfl, rfl⟩ | ⟨rfl, rfl⟩ | ⟨rfl, rfl⟩ | ⟨rfl, rfl⟩ | ⟨rfl, rfl⟩ | ⟨rfl, rfl⟩ |
    ⟨rfl, rfl⟩ <;> decide

theorem spells_hexEscape {c : UInt8} (hne : c ≠ 0) (hcontrol : c.toNat < 32) :
    Spells (backslash :: hexEscape c) [c] := by
  have hhigh : c.toNat / 16 < 16 := by omega
  have hlow : c.toNat % 16 < 16 := Nat.mod_lt _ (by decide)
  refine spells_unicode (p := (hexEscape c).tail) (Nat.le_succ 4) (counts_unicode ?_) fun w =>
    transcode_hexEscape hne hcontrol w
  intro d hd
  simp only [hexEscape, List.tail_cons, List.mem_cons, List.not_mem_nil, or_false] at hd
  rcases hd with rfl | rfl | rfl | rfl
  · decide
  · decide
  · exact ⟨hexDigit_ne_quote hhigh, hexDigit_ne_backslash hhigh⟩
  · exact ⟨hexDigit_ne_quote hlow, hexDigit_ne_backslash hlow⟩

/-- The loops undo the escape of one character. -/
theorem spells_escape {c : UInt8} (hne : c ≠ 0) : Spells (escape c) [c] := by
  unfold escape
  cases h : isPlain c with
  | true =>
      have hplain : 31 < c.toNat ∧ c ≠ quote ∧ c ≠ backslash := by
        simpa [isPlain, and_assoc] using h
      exact spells_plain hplain.2.1 hplain.2.2
  | false =>
      cases hlookup : shortEscapes.lookup c with
      | some letter =>
          rcases unescape_of_lookup hlookup with ⟨hletter, hu⟩
          exact hletter ▸ spells_letter hu
      | none => exact spells_hexEscape hne (control_of_lookup h hlookup)

/-- `parse_string` behind any text of a string. -/
theorem parseString_layout {s : Text} (h : (0 : UInt8) ∉ s) (rest : Text) :
    parseString (stringLayout s ++ rest) = .ok (s, rest) := by
  have hspells : Spells (s.flatMap escape) (s.flatMap fun c => [c]) :=
    spells_flatMap fun c hc => spells_escape fun hzero => h (hzero ▸ hc)
  rw [List.flatMap_singleton'] at hspells
  have htext : stringLayout s ++ rest = quote :: (s.flatMap escape ++ quote :: rest) := by
    simp [stringLayout]
  rw [htext]
  exact parseString_spells hspells rest

/-! ## Numbers -/

/-- No byte by which a number would go on stands in front. -/
def EndsNumber (rest : Text) : Prop :=
  ∀ c ∈ rest.head?, isDigit c = false ∧ c ≠ 46 ∧ c ≠ 101 ∧ c ≠ 69

theorem spanDigits_append {w rest : Text} (hw : ∀ c ∈ w, isDigit c = true)
    (h : ∀ c ∈ rest.head?, isDigit c = false) : spanDigits (w ++ rest) = (w, rest) := by
  have hrest : rest.takeWhile isDigit = [] ∧ rest.dropWhile isDigit = rest := by
    cases rest with
    | nil => exact ⟨rfl, rfl⟩
    | cons c rest =>
        have hc := h c rfl
        exact ⟨List.takeWhile_cons_of_neg (by simp [hc]), List.dropWhile_cons_of_neg (by simp [hc])⟩
  rw [spanDigits, List.takeWhile_append_of_pos hw, List.dropWhile_append_of_pos hw, hrest.1,
    hrest.2, List.append_nil]

theorem EndsNumber.spanDigits {rest : Text} (h : EndsNumber rest) {w : Text}
    (hw : ∀ c ∈ w, isDigit c = true) : spanDigits (w ++ rest) = (w, rest) :=
  spanDigits_append hw fun c hc => (h c hc).1

theorem EndsNumber.fractionPart {rest : Text} (h : EndsNumber rest) :
    fractionPart rest = ([], rest) := by
  unfold Json.fractionPart
  split
  · exact absurd rfl (h 46 rfl).2.1
  · rfl

theorem EndsNumber.exponentPart {rest : Text} (h : EndsNumber rest) :
    exponentPart rest = (0, rest) := by
  cases rest with
  | nil => rfl
  | cons c rest =>
      have hc := h c rfl
      rw [Json.exponentPart, if_neg (by simp [hc.2.2])]

theorem head_decimalNat {m : Nat} (h : m ≠ 0) : (decimalNat m).head? ≠ some 48 := by
  intro hhead
  have hne : Nat.digits 10 m ≠ [] := Nat.digits_ne_nil_iff_ne_zero.2 h
  rw [decimalNat, if_neg h, List.head?_map, List.head?_reverse, List.getLast?_eq_some_getLast hne,
    Option.map_some, Option.some.injEq] at hhead
  have hlt := Nat.digits_lt_base (by decide : 1 < 10) (List.getLast_mem hne)
  have hdigit := digitVal_digit hlt
  rw [hhead] at hdigit
  exact Nat.getLast_digit_ne_zero 10 h hdigit.symm

/-- The digits of a number, without the zero that stands alone. -/
theorem integerPart_decimalNat (m : Nat) {rest : Text} (h : EndsNumber rest) :
    ∃ w : Text, (∀ c ∈ w, isDigit c = true) ∧ numeral 10 w = m ∧
      integerPart (decimalNat m ++ rest) = (w, rest) := by
  by_cases hzero : m = 0
  · rw [hzero]
    have hhead : rest.head? ≠ some 48 := fun heq => by
      have hdigit := (h 48 heq).1
      cases hdigit
    refine ⟨[], by simp, rfl, ?_⟩
    have hspan := h.spanDigits (w := []) (by simp)
    change (if rest.head? = some 48 then ([], rest) else spanDigits rest) = _
    rw [if_neg hhead]
    exact hspan
  · have hhead : (decimalNat m ++ rest).head? ≠ some 48 := by
      rw [List.head?_append_of_ne_nil _ (decimalNat_ne_nil m)]
      exact head_decimalNat hzero
    have hdigits : ∀ c ∈ decimalNat m, isDigit c = true := fun _ hc => isDigit_of_mem_decimalNat hc
    refine ⟨decimalNat m, hdigits, numeral_decimalNat m, ?_⟩
    rw [integerPart]
    simp only [if_neg hhead]
    exact h.spanDigits hdigits

theorem parseNumber_decimal {D : Doubles δ} {ofInt : Int → δ} (hD : D.Exact ofInt) {n : Int}
    (hn : IntRange n) {rest : Text} (h : EndsNumber rest) :
    parseNumber D (decimal n ++ rest) = (.number n (ofInt n), rest) := by
  cases n with
  | ofNat m =>
      rcases integerPart_decimalNat m h with ⟨w, hdigits, hw, hpart⟩
      have hsign : (decimalNat m ++ rest).head? ≠ some 45 := by
        rw [List.head?_append_of_ne_nil _ (decimalNat_ne_nil m)]
        intro heq
        have hdigit := isDigit_of_mem_decimalNat (List.mem_of_mem_head? heq)
        cases hdigit
      have hnumber := hD.number_pos w hdigits (by rw [hw]; exact hn)
      rw [hw] at hnumber
      simp only [parseNumber, decimal, hsign, if_false, hpart, h.fractionPart, h.exponentPart,
        decide_false, hnumber]
      exact congrArg (fun k => (Item.number k _, rest)) (hD.toInt_ofInt _ hn)
  | negSucc m =>
      rcases integerPart_decimalNat (m + 1) h with ⟨w, hdigits, hw, hpart⟩
      have hnumber := hD.number_neg w hdigits (by omega) (by rw [hw]; exact hn)
      rw [hw] at hnumber
      simp only [parseNumber, decimal, List.cons_append, List.head?_cons, List.tail_cons, if_true,
        hpart, h.fractionPart, h.exponentPart, decide_true, hnumber]
      exact congrArg (fun k => (Item.number k _, rest)) (hD.toInt_ofInt _ hn)

/-! ## The first byte -/

section FirstByte

variable {D : Doubles δ} {n : Nat} {c : UInt8} {w : Text}

theorem not_word {u : Text} {d : UInt8} (h : c ≠ d) : ¬ d :: u <+: c :: w :=
  fun hword => h (List.cons_prefix_cons.1 hword).1.symm

/-- Without the three words, the first byte decides. -/
theorem parseValue_cons (hnull : c ≠ 110) (hfalse : c ≠ 102) (htrue : c ≠ 116) :
    parseValue D (n + 1) (c :: w) =
      if c = quote then (parseString (c :: w)).map (Prod.map .string id)
      else if c = 45 ∨ isDigit c then .ok (parseNumber D (c :: w))
      else if c = openBracket then
        if (skip w).head? = some closeBracket then .ok (.array [], (skip w).tail)
        else (parseItems D n (skip w)).map (Prod.map .array id)
      else if c = openBrace then
        if (skip w).head? = some closeBrace then .ok (.object [], (skip w).tail)
        else (parseMembers D n (skip w)).map (Prod.map .object id)
      else .error (.malformed (c :: w)) := by
  rw [parseValue]
  have h₁ : ¬ ascii "null" <+: c :: w := not_word hnull
  have h₂ : ¬ ascii "false" <+: c :: w := not_word hfalse
  have h₃ : ¬ ascii "true" <+: c :: w := not_word htrue
  rw [if_neg h₁, if_neg h₂, if_neg h₃]
  rfl

theorem parseValue_word (u : Text) :
    parseValue D (n + 1) (ascii "null" ++ u) = .ok (.null, u) ∧
      parseValue D (n + 1) (ascii "false" ++ u) = .ok (.false, u) ∧
      parseValue D (n + 1) (ascii "true" ++ u) = .ok (.true, u) := by
  refine ⟨?_, ?_, ?_⟩
  · rw [parseValue, if_pos (List.prefix_append _ _)]
    rfl
  · have h₁ : ¬ ascii "null" <+: ascii "false" ++ u := not_word (by decide)
    rw [parseValue, if_neg h₁, if_pos (List.prefix_append _ _)]
    rfl
  · have h₁ : ¬ ascii "null" <+: ascii "true" ++ u := not_word (by decide)
    have h₂ : ¬ ascii "false" <+: ascii "true" ++ u := not_word (by decide)
    rw [parseValue, if_neg h₁, if_neg h₂, if_pos (List.prefix_append _ _)]
    rfl

end FirstByte

/-! ## Blanks -/

def Blank (w : Text) : Prop :=
  ∀ c ∈ w, c.toNat ≤ 32

theorem blank_ifFmt {fmt : Bool} {w : Text} (h : Blank w) : Blank (ifFmt fmt w) := by
  cases fmt
  · intro c hc
    cases hc
  · exact h

theorem blank_tabs (n : Nat) : Blank (tabs n) := by
  intro c hc
  rw [List.eq_of_mem_replicate hc]
  decide

theorem blank_singleton {c : UInt8} (h : c.toNat ≤ 32) : Blank [c] :=
  List.forall_mem_singleton.2 h

theorem skip_blank {w : Text} (h : Blank w) (text : Text) : skip (w ++ text) = skip text :=
  List.dropWhile_append_of_pos fun c hc => decide_eq_true (h c hc)

theorem skip_cons {c : UInt8} (h : 32 < c.toNat) (text : Text) : skip (c :: text) = c :: text :=
  List.dropWhile_cons_of_neg (by simp [h])

theorem skip_skip (text : Text) : skip (skip text) = skip text := by
  induction text with
  | nil => rfl
  | cons c text ih =>
      by_cases h : c.toNat ≤ 32
      · have hstep : skip (c :: text) = skip text := skip_blank (blank_singleton h) text
        rw [hstep, ih]
      · rw [skip_cons (Nat.lt_of_not_le h), skip_cons (Nat.lt_of_not_le h)]

theorem parseItems_congr (D : Doubles δ) (n : Nat) {value value' : Text}
    (h : skip value = skip value') : parseItems D n value = parseItems D n value' := by
  cases n with
  | zero => rfl
  | succ n => rw [parseItems, parseItems, h]

theorem parseMembers_congr (D : Doubles δ) (n : Nat) {value value' : Text}
    (h : skip value = skip value') : parseMembers D n value = parseMembers D n value' := by
  cases n with
  | zero => rfl
  | succ n => rw [parseMembers, parseMembers, h]

/-! ## One turn of the loops -/

variable {D : Doubles δ}

theorem parseItems_last {n : Nat} {value value' rest : Text} {v : Item δ}
    (hvalue : parseValue D n (skip value) = .ok (v, value'))
    (hend : skip value' = closeBracket :: rest) :
    parseItems D (n + 1) value = .ok ([v], rest) := by
  rw [parseItems, hvalue]
  simp only [Bind.bind, Except.bind, hend]
  rfl

theorem parseItems_more {n : Nat} {value value' next rest : Text} {v : Item δ}
    {child : List (Item δ)} (hvalue : parseValue D n (skip value) = .ok (v, value'))
    (hcomma : skip value' = comma :: next) (hnext : parseItems D n next = .ok (child, rest)) :
    parseItems D (n + 1) value = .ok (v :: child, rest) := by
  rw [parseItems, hvalue]
  simp only [Bind.bind, Except.bind, hcomma, List.head?_cons, if_true, List.tail_cons, hnext]
  rfl

theorem parseMembers_last {n : Nat} {value value' value'' w rest : Text} {name : Text} {v : Item δ}
    (hname : parseString (skip value) = .ok (name, value')) (hcolon : skip value' = colon :: w)
    (hvalue : parseValue D n (skip w) = .ok (v, value''))
    (hend : skip value'' = closeBrace :: rest) :
    parseMembers D (n + 1) value = .ok ([(name, v)], rest) := by
  rw [parseMembers, hname]
  simp only [Bind.bind, Except.bind, hcolon, List.head?_cons, ne_eq, not_true_eq_false, if_false,
    List.tail_cons, hvalue, hend]
  rfl

theorem parseMembers_more {n : Nat} {value value' value'' w next rest : Text} {name : Text}
    {v : Item δ} {child : List (Text × Item δ)}
    (hname : parseString (skip value) = .ok (name, value')) (hcolon : skip value' = colon :: w)
    (hvalue : parseValue D n (skip w) = .ok (v, value'')) (hcomma : skip value'' = comma :: next)
    (hnext : parseMembers D n next = .ok (child, rest)) :
    parseMembers D (n + 1) value = .ok ((name, v) :: child, rest) := by
  rw [parseMembers, hname]
  simp only [Bind.bind, Except.bind, hcolon, List.head?_cons, ne_eq, not_true_eq_false, if_false,
    List.tail_cons, hvalue, hcomma, if_true, hnext]
  rfl

/-! ## Values -/

section Values

variable {ofInt : Int → δ} {fmt : Bool} {depth : Nat}

theorem endsNumber_cons {c : UInt8} (h : isDigit c = false ∧ c ≠ 46 ∧ c ≠ 101 ∧ c ≠ 69)
    (rest : Text) : EndsNumber (c :: rest) := by
  intro d hd
  cases hd
  exact h

theorem printNumber_text (hD : D.Exact ofInt) {n : Int} (hn : IntRange n) :
    (printNumber D n (ofInt n)).text = decimal n := by
  unfold printNumber
  rw [hD.isZero_ofInt n hn, hD.isInt_ofInt n hn, if_pos rfl]
  split
  · rename_i h
    rw [of_decide_eq_true h]
    rfl
  · rfl

/-- The first byte of a text tells the parser what follows. -/
theorem layout_head (hD : D.Exact ofInt) {v : Item δ} (h : v.Whole ofInt) (fmt : Bool)
    (depth : Nat) : ∃ c w, layout D fmt depth v = c :: w ∧ 32 < c.toNat ∧ c ≠ closeBracket := by
  cases v with
  | null => exact ⟨_, _, rfl, by decide, by decide⟩
  | false => exact ⟨_, _, rfl, by decide, by decide⟩
  | true => exact ⟨_, _, rfl, by decide, by decide⟩
  | string s => exact ⟨_, _, rfl, by decide, by decide⟩
  | array child => exact ⟨_, _, rfl, by decide, by decide⟩
  | object child => exact ⟨_, _, rfl, by decide, by decide⟩
  | number n d =>
      rcases h with ⟨hn, rfl⟩
      rw [layout, printNumber_text hD hn]
      cases n with
      | negSucc m => exact ⟨_, _, rfl, by decide, by decide⟩
      | ofNat m =>
          rcases List.exists_cons_of_ne_nil (decimalNat_ne_nil m) with ⟨c, w, hcw⟩
          have hdigit : isDigit c = true :=
            isDigit_of_mem_decimalNat (n := m) (by rw [hcw]; exact List.mem_cons_self)
          refine ⟨c, w, hcw, ?_, ?_⟩
          · have hrange := of_decide_eq_true hdigit
            omega
          · rintro rfl
            cases hdigit

theorem skip_layout (hD : D.Exact ofInt) {v : Item δ} (h : v.Whole ofInt) (fmt : Bool)
    (depth : Nat) (rest : Text) :
    skip (layout D fmt depth v ++ rest) = layout D fmt depth v ++ rest := by
  rcases layout_head hD h fmt depth with ⟨c, w, hcw, hc, -⟩
  rw [hcw, List.cons_append, skip_cons hc]

/-- `parse_value` reads the text of `v` back, with enough calls left. -/
def ReadsBack (D : Doubles δ) (fmt : Bool) (depth : Nat) (v : Item δ) : Prop :=
  ∀ n rest, EndsNumber rest → fuelFor (layout D fmt depth v) ≤ n →
    parseValue D n (layout D fmt depth v ++ rest) = .ok (v, rest)

/-- The entries of an array and its closing bracket. -/
def itemsText (D : Doubles δ) (fmt : Bool) (depth : Nat) (child : List (Item δ)) : Text :=
  (separator fmt).intercalate (itemLayouts D fmt depth child) ++ [closeBracket]

theorem itemsText_cons_cons (v w : Item δ) (child : List (Item δ)) :
    itemsText D fmt depth (v :: w :: child) =
      layout D fmt depth v ++ (separator fmt ++ itemsText D fmt depth (w :: child)) := by
  simp only [itemsText, itemLayouts, List.intercalate_cons_cons, List.append_assoc]

theorem itemsText_singleton (v : Item δ) :
    itemsText D fmt depth [v] = layout D fmt depth v ++ [closeBracket] := by
  simp only [itemsText, itemLayouts, List.intercalate_singleton]

theorem itemsText_cons (D : Doubles δ) (fmt : Bool) (depth : Nat) (v : Item δ)
    (child : List (Item δ)) :
    ∃ w, itemsText D fmt depth (v :: child) = layout D fmt depth v ++ w := by
  cases child with
  | nil => exact ⟨_, itemsText_singleton v⟩
  | cons u child => exact ⟨_, itemsText_cons_cons v u child⟩

/-- The loop of `parse_array`, an entry with each call. -/
theorem parseItems_text (hD : D.Exact ofInt) {child : List (Item δ)} (hne : child ≠ [])
    (hwhole : ∀ v ∈ child, v.Whole ofInt) (hchild : ∀ v ∈ child, ReadsBack D fmt depth v)
    {n : Nat} {rest : Text} (hn : 2 * (itemsText D fmt depth child).length ≤ n) :
    parseItems D n (itemsText D fmt depth child ++ rest) = .ok (child, rest) := by
  have hspace : (32 : UInt8).toNat ≤ 32 := Nat.le_refl 32
  induction child generalizing n with
  | nil => exact absurd rfl hne
  | cons v child ih =>
      have hread := hchild v List.mem_cons_self
      have hskip := skip_layout hD (hwhole v List.mem_cons_self) fmt depth
      cases child with
      | nil =>
          rw [itemsText_singleton] at hn ⊢
          rw [List.length_append, List.length_singleton] at hn
          obtain ⟨n, rfl⟩ : ∃ k, n = k + 1 := ⟨n - 1, by omega⟩
          rw [List.append_assoc]
          refine parseItems_last ?_ (skip_cons (by decide) rest)
          rw [hskip]
          exact hread n _ (endsNumber_cons (by decide) rest) (by unfold fuelFor; omega)
      | cons w child =>
          rw [itemsText_cons_cons] at hn ⊢
          rw [List.length_append, List.length_append, separator, List.length_cons] at hn
          obtain ⟨n, rfl⟩ : ∃ k, n = k + 1 := ⟨n - 1, by omega⟩
          have hvalue := hread n
            (comma :: (ifFmt fmt [32] ++ (itemsText D fmt depth (w :: child) ++ rest)))
            (endsNumber_cons (by decide) _) (by unfold fuelFor; omega)
          rw [List.append_assoc, List.append_assoc]
          refine parseItems_more ((congrArg _ (hskip _)).trans hvalue) (skip_cons (by decide) _) ?_
          -- The blank behind the comma is skipped by the next call.
          rw [parseItems_congr D n (skip_blank (blank_ifFmt (blank_singleton hspace)) _)]
          exact ih (List.cons_ne_nil w child)
            (fun u hu => hwhole u (List.mem_cons_of_mem v hu))
            (fun u hu => hchild u (List.mem_cons_of_mem v hu)) (by omega)

/-- The members of an object and its closing brace; `depth` is the one of the object. -/
def membersEnd (D : Doubles δ) (fmt : Bool) (depth : Nat) (child : List (Text × Item δ)) : Text :=
  membersText fmt (depth + 1) (memberLayouts D fmt (depth + 1) child) ++
    (ifFmt fmt (tabs depth) ++ [closeBrace])

/-- What stands behind a member that is followed by `child`. -/
def afterMember (D : Doubles δ) (fmt : Bool) (depth : Nat) (child : List (Text × Item δ)) : Text :=
  (if child.isEmpty then [] else [comma]) ++ (ifFmt fmt [10] ++ membersEnd D fmt depth child)

theorem membersEnd_cons (name : Text) (v : Item δ) (child : List (Text × Item δ)) :
    membersEnd D fmt depth ((name, v) :: child) =
      ifFmt fmt (tabs (depth + 1)) ++ (stringLayout name ++ colon :: (ifFmt fmt [9] ++
        (layout D fmt (depth + 1) v ++ afterMember D fmt depth child))) := by
  have hempty : (memberLayouts D fmt (depth + 1) child).isEmpty = child.isEmpty := by
    cases child <;> rfl
  simp only [membersEnd, memberLayouts, membersText, memberText, hempty, afterMember,
    List.append_assoc, List.cons_append]

theorem endsNumber_afterMember (child : List (Text × Item δ)) (rest : Text) :
    EndsNumber (afterMember D fmt depth child ++ rest) := by
  cases child with
  | nil => cases fmt <;> exact endsNumber_cons (by decide) _
  | cons m child => exact endsNumber_cons (by decide) _

theorem parseString_skip {w name : Text} (hw : Blank w) (hname : (0 : UInt8) ∉ name) (rest : Text) :
    parseString (skip (w ++ (stringLayout name ++ rest))) = .ok (name, rest) := by
  have hquote : skip (stringLayout name ++ rest) = stringLayout name ++ rest :=
    skip_cons (by decide) _
  rw [skip_blank hw, hquote, parseString_layout hname]

/-- The loop of `parse_object`, a member with each call. -/
theorem parseMembers_text (hD : D.Exact ofInt) {child : List (Text × Item δ)} (hne : child ≠ [])
    (hwhole : ∀ m ∈ child, (0 : UInt8) ∉ m.1 ∧ m.2.Whole ofInt)
    (hchild : ∀ m ∈ child, ReadsBack D fmt (depth + 1) m.2)
    {n : Nat} {rest : Text} (hn : 2 * (membersEnd D fmt depth child).length ≤ n) :
    parseMembers D n (membersEnd D fmt depth child ++ rest) = .ok (child, rest) := by
  have hnewline : Blank (ifFmt fmt [10]) := blank_ifFmt (blank_singleton (by decide))
  have htab : Blank (ifFmt fmt [9]) := blank_ifFmt (blank_singleton (by decide))
  have htabs : Blank (ifFmt fmt (tabs (depth + 1))) := blank_ifFmt (blank_tabs (depth + 1))
  induction child generalizing n with
  | nil => exact absurd rfl hne
  | cons m child ih =>
      rcases m with ⟨name, v⟩
      obtain ⟨hname, hv⟩ : (0 : UInt8) ∉ name ∧ v.Whole ofInt := hwhole _ List.mem_cons_self
      have hread : ReadsBack D fmt (depth + 1) v := hchild _ List.mem_cons_self
      rw [membersEnd_cons] at hn ⊢
      simp only [afterMember, List.length_append, List.length_cons] at hn
      obtain ⟨n, rfl⟩ : ∃ k, n = k + 1 := ⟨n - 1, by omega⟩
      have hstring := parseString_skip htabs hname
        (colon :: (ifFmt fmt [9] ++ (layout D fmt (depth + 1) v ++
          (afterMember D fmt depth child ++ rest))))
      have hvalue : parseValue D n (skip (ifFmt fmt [9] ++ (layout D fmt (depth + 1) v ++
          (afterMember D fmt depth child ++ rest)))) =
            .ok (v, afterMember D fmt depth child ++ rest) := by
        rw [skip_blank htab, skip_layout hD hv]
        exact hread n _ (endsNumber_afterMember child rest) (by unfold fuelFor; omega)
      simp only [List.append_assoc, List.cons_append]
      cases child with
      | nil =>
          refine parseMembers_last hstring (skip_cons (by decide) _) hvalue ?_
          have hend : afterMember D fmt depth [] ++ rest =
              ifFmt fmt [10] ++ (ifFmt fmt (tabs depth) ++ closeBrace :: rest) := by
            simp [afterMember, membersEnd, memberLayouts, membersText]
          rw [hend, skip_blank hnewline, skip_blank (blank_ifFmt (blank_tabs depth)),
            skip_cons (by decide)]
      | cons m child =>
          have hnext := ih (List.cons_ne_nil m child)
            (fun m' hm' => hwhole m' (List.mem_cons_of_mem _ hm'))
            (fun m' hm' => hchild m' (List.mem_cons_of_mem _ hm')) (n := n) (by omega)
          have hcomma : skip (afterMember D fmt depth (m :: child) ++ rest) =
              comma :: (ifFmt fmt [10] ++ (membersEnd D fmt depth (m :: child) ++ rest)) := by
            have hsplit : afterMember D fmt depth (m :: child) ++ rest =
                comma :: (ifFmt fmt [10] ++ (membersEnd D fmt depth (m :: child) ++ rest)) := by
              simp [afterMember]
            rw [hsplit, skip_cons (by decide)]
          refine parseMembers_more hstring (skip_cons (by decide) _) hvalue hcomma ?_
          -- The line feed behind the comma is skipped by the next call.
          rw [parseMembers_congr D n (skip_blank hnewline _)]
          exact hnext

theorem readsBack_number (hD : D.Exact ofInt) {m : Int} (hm : IntRange m) :
    ReadsBack D fmt depth (.number m (ofInt m)) := by
  intro n rest hrest hn
  obtain ⟨n, rfl⟩ : ∃ k, n = k + 1 := ⟨n - 1, by unfold fuelFor at hn; omega⟩
  have hparse := parseNumber_decimal hD hm hrest
  rw [layout, printNumber_text hD hm]
  cases m with
  | negSucc m =>
      rw [decimal, List.cons_append] at hparse ⊢
      rw [parseValue_cons (by decide) (by decide) (by decide), hparse]
      rfl
  | ofNat m =>
      rcases List.exists_cons_of_ne_nil (decimalNat_ne_nil m) with ⟨c, w, hcw⟩
      have hdigit : isDigit c = true :=
        isDigit_of_mem_decimalNat (n := m) (by rw [hcw]; exact List.mem_cons_self)
      have hrange := of_decide_eq_true hdigit
      have hne : ∀ d : UInt8, isDigit d = false → c ≠ d := by
        rintro d hd rfl
        rw [hdigit] at hd
        cases hd
      rw [decimal, hcw, List.cons_append] at hparse ⊢
      rw [parseValue_cons (hne _ rfl) (hne _ rfl) (hne _ rfl), if_neg (hne _ rfl),
        if_pos (Or.inr hdigit), hparse]

theorem readsBack_array (hD : D.Exact ofInt) {child : List (Item δ)}
    (hwhole : ∀ v ∈ child, v.Whole ofInt)
    (hchild : ∀ v ∈ child, ReadsBack D fmt (depth + 1) v) :
    ReadsBack D fmt depth (.array child) := by
  intro n rest _ hn
  obtain ⟨n, rfl⟩ : ∃ k, n = k + 1 := ⟨n - 1, by unfold fuelFor at hn; omega⟩
  have htext : layout D fmt depth (.array child) =
      openBracket :: itemsText D fmt (depth + 1) child := rfl
  rw [htext, fuelFor, List.length_cons] at hn
  rw [htext, List.cons_append, parseValue_cons (by decide) (by decide) (by decide),
    if_neg (by decide), if_neg (by decide), if_pos rfl]
  cases child with
  | nil =>
      have hskip : skip (itemsText D fmt (depth + 1) [] ++ rest) = closeBracket :: rest :=
        skip_cons (by decide) rest
      rw [hskip]
      rfl
  | cons v child =>
      have hitems : parseItems D n (itemsText D fmt (depth + 1) (v :: child) ++ rest) =
          .ok (v :: child, rest) :=
        parseItems_text hD (List.cons_ne_nil v child) hwhole hchild (by omega)
      have hhead : (skip (itemsText D fmt (depth + 1) (v :: child) ++ rest)).head? ≠
          some closeBracket := by
        rcases itemsText_cons D fmt (depth + 1) v child with ⟨t, ht⟩
        rcases layout_head hD (hwhole v List.mem_cons_self) fmt (depth + 1) with
          ⟨c, w, hcw, hc, hne⟩
        rw [ht, hcw, List.cons_append, List.cons_append, skip_cons hc, List.head?_cons]
        exact fun heq => hne (Option.some.inj heq)
      rw [if_neg hhead, parseItems_congr D n (skip_skip _), hitems]
      rfl

theorem readsBack_object (hD : D.Exact ofInt) {child : List (Text × Item δ)}
    (hwhole : ∀ m ∈ child, (0 : UInt8) ∉ m.1 ∧ m.2.Whole ofInt)
    (hchild : ∀ m ∈ child, ReadsBack D fmt (depth + 1) m.2) :
    ReadsBack D fmt depth (.object child) := by
  intro n rest _ hn
  obtain ⟨n, rfl⟩ : ∃ k, n = k + 1 := ⟨n - 1, by unfold fuelFor at hn; omega⟩
  have hnewline : Blank (ifFmt fmt [10]) := blank_ifFmt (blank_singleton (by decide))
  cases child with
  | nil =>
      have htext : layout D fmt depth (.object ([] : List (Text × Item δ))) =
          openBrace :: (ifFmt fmt [10] ++ (ifFmt fmt (tabs (depth - 1)) ++ [closeBrace])) := by
        simp [layout, memberLayouts, objectBlock, membersText]
      have hskip : skip (ifFmt fmt [10] ++ (ifFmt fmt (tabs (depth - 1)) ++ [closeBrace]) ++ rest) =
          closeBrace :: rest := by
        rw [List.append_assoc, skip_blank hnewline, List.append_assoc,
          skip_blank (blank_ifFmt (blank_tabs _))]
        exact skip_cons (by decide) rest
      rw [htext, List.cons_append, parseValue_cons (by decide) (by decide) (by decide),
        if_neg (by decide), if_neg (by decide), if_neg (by decide), if_pos rfl, hskip]
      rfl
  | cons m child =>
      have htext : layout D fmt depth (.object (m :: child)) =
          openBrace :: (ifFmt fmt [10] ++ membersEnd D fmt depth (m :: child)) := by
        simp [layout, memberLayouts, objectBlock, membersEnd]
      rw [htext, fuelFor, List.length_cons, List.length_append] at hn
      have hmembers : parseMembers D n (membersEnd D fmt depth (m :: child) ++ rest) =
          .ok (m :: child, rest) :=
        parseMembers_text hD (List.cons_ne_nil m child) hwhole hchild (by omega)
      have hskip : skip (ifFmt fmt [10] ++ membersEnd D fmt depth (m :: child) ++ rest) =
          skip (membersEnd D fmt depth (m :: child) ++ rest) := by
        rw [List.append_assoc, skip_blank hnewline]
      have hhead : (skip (membersEnd D fmt depth (m :: child) ++ rest)).head? ≠
          some closeBrace := by
        rw [membersEnd_cons, List.append_assoc, skip_blank (blank_ifFmt (blank_tabs _)),
          stringLayout, List.cons_append, List.cons_append, skip_cons (by decide)]
        exact fun heq => absurd (Option.some.inj heq) (by decide)
      rw [htext, List.cons_append, parseValue_cons (by decide) (by decide) (by decide),
        if_neg (by decide), if_neg (by decide), if_neg (by decide), if_pos rfl, hskip,
        if_neg hhead, parseMembers_congr D n (skip_skip _), hmembers]
      rfl

theorem readsBack (hD : D.Exact ofInt) (fmt : Bool) {v : Item δ} (h : v.Whole ofInt)
    (depth : Nat) : ReadsBack D fmt depth v := by
  induction v generalizing depth with
  | number m d =>
      rcases h with ⟨hm, rfl⟩
      exact readsBack_number hD hm
  | null =>
      rintro (_ | n) rest - hn
      · cases hn
      · exact (parseValue_word rest).1
  | false =>
      rintro (_ | n) rest - hn
      · cases hn
      · exact (parseValue_word rest).2.1
  | true =>
      rintro (_ | n) rest - hn
      · cases hn
      · exact (parseValue_word rest).2.2
  | string s =>
      rintro (_ | n) rest - hn
      · cases hn
      · have hparse := parseString_layout h rest
        rw [layout]
        unfold stringLayout at hparse ⊢
        rw [List.cons_append] at hparse ⊢
        rw [parseValue_cons (by decide) (by decide) (by decide), if_pos rfl, hparse]
        rfl
  | array child ih =>
      have hwhole := Item.everyItem_iff.1 h
      exact readsBack_array hD hwhole fun v hv => ih v hv (hwhole v hv) (depth + 1)
  | object child ih =>
      have hwhole := Item.everyMember_iff.1 h
      exact readsBack_object hD hwhole fun m hm => ih m hm (hwhole m hm).2 (depth + 1)

theorem parse_layout (hD : D.Exact ofInt) {v : Item δ} (h : v.Whole ofInt) (fmt : Bool)
    {w rest : Text} (hw : Blank w) (hrest : EndsNumber rest) :
    parseValue D (fuelFor (w ++ (layout D fmt 0 v ++ rest)))
        (skip (w ++ (layout D fmt 0 v ++ rest))) = .ok (v, rest) := by
  have hfuel : fuelFor (layout D fmt 0 v) ≤ fuelFor (w ++ (layout D fmt 0 v ++ rest)) := by
    unfold fuelFor
    simp only [List.length_append]
    omega
  rw [skip_blank hw, skip_layout hD h]
  exact readsBack hD fmt h 0 _ rest hrest hfuel

end Values

/-- A printed text is read back from between blanks and any text that does not go on a number. -/
theorem parse_print {D : Doubles δ} {ofInt : Int → δ} (hD : D.Exact ofInt) (hfits : D.Fits)
    {v : Item δ} (h : v.Whole ofInt) (fmt : Bool) :
    ∃ text, printValue D fmt 0 v = .ok text ∧
      (∀ w rest, Blank w → EndsNumber rest → parse D (w ++ (text ++ rest)) = .ok (v, rest)) ∧
      ∀ w w', Blank w → Blank w' → parseWithOpts D (w ++ (text ++ w')) true = .ok (v, []) := by
  refine ⟨layout D fmt 0 v, printValue_eq hfits h.printable fmt 0, ?_, ?_⟩
  · intro w rest hw hrest
    rw [parse, parseWithOpts, parse_layout hD h fmt hw hrest]
    rfl
  · intro w w' hw hw'
    have hends : EndsNumber w' := by
      intro c hc
      have hle := hw' c (List.mem_of_mem_head? hc)
      have hne : ∀ d : UInt8, 32 < d.toNat → c ≠ d := by
        rintro d hd rfl
        omega
      refine ⟨decide_eq_false fun hdigit => ?_, hne _ (by decide), hne _ (by decide),
        hne _ (by decide)⟩
      omega
    have hskip : skip w' = [] := by
      have := skip_blank hw' []
      rwa [List.append_nil] at this
    rw [parseWithOpts, parse_layout hD h fmt hw hends]
    simp [Bind.bind, Except.bind, hskip]

theorem parse_print_request :
    ∃ text, printValue rationals true 0 (.object [(ascii "t", .string (ascii "temp")),
        (ascii "p", .number (-5) (-5 : Int))]) = .ok text ∧
      (∀ w rest, Blank w → EndsNumber rest → parse rationals (w ++ (text ++ rest)) =
        .ok (.object [(ascii "t", .string (ascii "temp")),
          (ascii "p", .number (-5) (-5 : Int))], rest)) ∧
      ∀ w w', Blank w → Blank w' → parseWithOpts rationals (w ++ (text ++ w')) true =
        .ok (.object [(ascii "t", .string (ascii "temp")),
          (ascii "p", .number (-5) (-5 : Int))], []) :=
  parse_print rationals_exact rationals_fits
    (by simp [Item.Whole, Item.Every, Item.EveryMember, IntRange]; decide) true

end Json
end LinuxLearn
