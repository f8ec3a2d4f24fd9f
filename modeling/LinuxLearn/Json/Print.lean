import LinuxLearn.Json.Item

/-!
# Print — the texts that `cJSON.c` writes

`layout` is the text of an item.  `printValue` computes it as the source does: the children are
printed first, the lengths of their texts give the size of the block that is asked for, and then the
text is written into it.  `printValue_eq` says that every block is large enough.

The sizes are taken as numbers without overflow, and `malloc` as successful.
-/

namespace LinuxLearn
namespace Json

open Lib

variable {δ : Type}

inductive Fault
  | outOfBounds
  deriving DecidableEq, Repr

/-- The bytes that are asked for, from `malloc` or `ensure`, and the string that is written there
byte by byte. -/
structure Block where
  needed : Nat
  text : Text

def Block.Enough (b : Block) : Prop :=
  b.text.length < b.needed

instance (b : Block) : Decidable b.Enough :=
  inferInstanceAs (Decidable (_ < _))

def Block.malloc (b : Block) : Except Fault Text :=
  if b.Enough then .ok b.text else .error .outOfBounds

theorem Block.malloc_eq {b : Block} (h : b.Enough) : b.malloc = .ok b.text :=
  if_pos h

/-! ## Numbers and strings -/

def printNumber (D : Doubles δ) (valueint : Int) (d : δ) : Block :=
  if D.isZero d then ⟨2, ascii "0"⟩
  else if D.isInt valueint d then ⟨21, decimal valueint⟩
  else ⟨64, D.sprintf d⟩

/-- The character that a backslash and a letter stand for. -/
def shortEscapes : List (UInt8 × UInt8) :=
  [(quote, quote), (backslash, backslash), (8, 98), (12, 102), (10, 110), (13, 114), (9, 116)]

/-- `%x` of a number below 16 -/
def hexDigit (n : Nat) : UInt8 :=
  if n < 10 then digit n else UInt8.ofNat (87 + n)

/-- `sprintf(ptr2,"u%04x",token)` -/
def hexEscape (token : UInt8) : Text :=
  [117, digit 0, digit 0, hexDigit (token.toNat / 16), hexDigit (token.toNat % 16)]

def isPlain (c : UInt8) : Bool :=
  decide (31 < c.toNat) && c != quote && c != backslash

def escape (token : UInt8) : Text :=
  if isPlain token then [token]
  else
    match shortEscapes.lookup token with
    | some letter => [backslash, letter]
    | none => backslash :: hexEscape token

/-- What the loop over the string adds to `len`. -/
def escapedLength (token : UInt8) : Nat :=
  if (shortEscapes.lookup token).isSome then 2 else if token.toNat < 32 then 6 else 1

def printStringPtr (str : Text) : Block :=
  if str.all isPlain then ⟨str.length + 3, quote :: (str ++ [quote])⟩
  else ⟨(str.map escapedLength).sum + 3, quote :: (str.flatMap escape ++ [quote])⟩

/-! ## Arrays and objects -/

def tabs (n : Nat) : Text :=
  List.replicate n 9

def ifFmt (fmt : Bool) (w : Text) : Text :=
  if fmt then w else []

/-- Between two entries of an array. -/
def separator (fmt : Bool) : Text :=
  comma :: ifFmt fmt [32]

def arrayBlock (fmt : Bool) (entries : List Text) : Block where
  needed :=
    if entries = [] then 3
    else 5 + (entries.map fun ret => ret.length + 2 + if fmt then 1 else 0).sum
  text := openBracket :: ((separator fmt).intercalate entries ++ [closeBracket])

/-- A member of an object; `last` means that no other follows. -/
def memberText (fmt : Bool) (depth : Nat) (last : Bool) (name entry : Text) : Text :=
  ifFmt fmt (tabs depth) ++ name ++ colon :: ifFmt fmt [9] ++ entry ++
    (if last then [] else [comma]) ++ ifFmt fmt [10]

def membersText (fmt : Bool) (depth : Nat) : List (Text × Text) → Text
  | [] => []
  | (name, entry) :: entries =>
      memberText fmt depth entries.isEmpty name entry ++ membersText fmt depth entries

/-- `depth` is the one of the object; the members are one deeper. -/
def objectBlock (fmt : Bool) (depth : Nat) (entries : List (Text × Text)) : Block where
  needed :=
    if entries = [] then if fmt then depth + 4 else 3
    else
      7 + (if fmt then depth + 1 else 0) +
        (entries.map fun e =>
          e.2.length + e.1.length + 2 + if fmt then 2 + (depth + 1) else 0).sum
  text :=
    openBrace :: ifFmt fmt [10] ++ membersText fmt (depth + 1) entries ++
      ifFmt fmt (tabs (if entries = [] then depth - 1 else depth)) ++ [closeBrace]

mutual

def printValue (D : Doubles δ) (fmt : Bool) (depth : Nat) : Item δ → Except Fault Text
  | .null => (Block.mk 5 (ascii "null")).malloc
  | .false => (Block.mk 6 (ascii "false")).malloc
  | .true => (Block.mk 5 (ascii "true")).malloc
  | .number valueint d => (printNumber D valueint d).malloc
  | .string s => (printStringPtr s).malloc
  | .array child => do
      let entries ← printItems D fmt (depth + 1) child
      (arrayBlock fmt entries).malloc
  | .object child => do
      let entries ← printMembers D fmt (depth + 1) child
      (objectBlock fmt depth entries).malloc

def printItems (D : Doubles δ) (fmt : Bool) (depth : Nat) :
    List (Item δ) → Except Fault (List Text)
  | [] => .ok []
  | v :: child => do
      let ret ← printValue D fmt depth v
      let entries ← printItems D fmt depth child
      .ok (ret :: entries)

def printMembers (D : Doubles δ) (fmt : Bool) (depth : Nat) :
    List (Text × Item δ) → Except Fault (List (Text × Text))
  | [] => .ok []
  | (name, v) :: child => do
      let str ← (printStringPtr name).malloc
      let ret ← printValue D fmt depth v
      let entries ← printMembers D fmt depth child
      .ok ((str, ret) :: entries)

end

def print (D : Doubles δ) (v : Item δ) : Except Fault Text :=
  printValue D true 0 v

def printUnformatted (D : Doubles δ) (v : Item δ) : Except Fault Text :=
  printValue D false 0 v

/-! ## The layout -/

def stringLayout (s : Text) : Text :=
  quote :: (s.flatMap escape ++ [quote])

mutual

/-- The text of an item. -/
def layout (D : Doubles δ) (fmt : Bool) (depth : Nat) : Item δ → Text
  | .null => ascii "null"
  | .false => ascii "false"
  | .true => ascii "true"
  | .number valueint d => (printNumber D valueint d).text
  | .string s => stringLayout s
  | .array child => (arrayBlock fmt (itemLayouts D fmt (depth + 1) child)).text
  | .object child => (objectBlock fmt depth (memberLayouts D fmt (depth + 1) child)).text

def itemLayouts (D : Doubles δ) (fmt : Bool) (depth : Nat) : List (Item δ) → List Text
  | [] => []
  | v :: child => layout D fmt depth v :: itemLayouts D fmt depth child

def memberLayouts (D : Doubles δ) (fmt : Bool) (depth : Nat) :
    List (Text × Item δ) → List (Text × Text)
  | [] => []
  | (name, v) :: child =>
      (stringLayout name, layout D fmt depth v) :: memberLayouts D fmt depth child

end

theorem itemLayouts_eq_map (D : Doubles δ) (fmt : Bool) (depth : Nat) (child : List (Item δ)) :
    itemLayouts D fmt depth child = child.map (layout D fmt depth) := by
  induction child with
  | nil => rfl
  | cons v child ih => rw [itemLayouts, ih, List.map_cons]

theorem memberLayouts_eq_map (D : Doubles δ) (fmt : Bool) (depth : Nat)
    (child : List (Text × Item δ)) :
    memberLayouts D fmt depth child =
      child.map fun m => (stringLayout m.1, layout D fmt depth m.2) := by
  induction child with
  | nil => rfl
  | cons m child ih => rw [memberLayouts, ih, List.map_cons]

/-! ## The sizes of the blocks -/

variable {D : Doubles δ} {fmt : Bool} {depth : Nat}

theorem length_decimal_lt {n : Int} (h : IntRange n) : (decimal n).length < 21 := by
  cases n with
  | ofNat n =>
      have hn : (n : Int) < 2 ^ 31 := h.2
      have hle : (decimalNat n).length ≤ 10 := length_decimalNat_le (by omega) (by decide)
      rw [decimal]
      omega
  | negSucc n =>
      have hn := h.1
      have hle : (decimalNat (n + 1)).length ≤ 10 := length_decimalNat_le (by omega) (by decide)
      rw [decimal, List.length_cons]
      omega

theorem enough_printNumber (hD : D.Fits) {n : Int} (h : IntRange n) (d : δ) :
    (printNumber D n d).Enough := by
  unfold printNumber
  split
  · decide
  · split
    · exact length_decimal_lt h
    · exact hD.length_lt d

theorem lookup_of_plain {c : UInt8} (h : isPlain c = true) : shortEscapes.lookup c = none := by
  refine List.lookup_eq_none_iff.2 fun p hp => ?_
  have hplain : isPlain p.1 = false := by
    simp only [shortEscapes, List.mem_cons, List.not_mem_nil, or_false] at hp
    rcases hp with rfl | rfl | rfl | rfl | rfl | rfl | rfl <;> rfl
  rw [bne_iff_ne]
  rintro rfl
  rw [h] at hplain
  cases hplain

theorem control_of_lookup {c : UInt8} (h : isPlain c = false)
    (hlookup : shortEscapes.lookup c = none) : c.toNat < 32 := by
  by_contra hprint
  have hquote : c ≠ quote := by
    rintro rfl
    cases hlookup
  have hbackslash : c ≠ backslash := by
    rintro rfl
    cases hlookup
  have hlt : 31 < c.toNat := by omega
  simp [isPlain, hquote, hbackslash, hlt] at h

/-- The loop over the string counts what is written. -/
theorem length_escape (c : UInt8) : (escape c).length = escapedLength c := by
  unfold escape escapedLength
  cases h : isPlain c with
  | true =>
      have hprint : 31 < c.toNat := by
        rw [isPlain, Bool.and_eq_true, Bool.and_eq_true, decide_eq_true_eq] at h
        exact h.1.1
      simp [lookup_of_plain h, Nat.not_lt.2 hprint]
  | false =>
      cases hlookup : shortEscapes.lookup c with
      | some letter => simp
      | none => simp [control_of_lookup h hlookup, hexEscape]

theorem length_flatMap_escape (s : Text) :
    (s.flatMap escape).length = (s.map escapedLength).sum := by
  rw [List.length_flatMap]
  exact congrArg List.sum (List.map_congr_left fun c _ => length_escape c)

theorem flatMap_escape_of_plain {s : Text} (h : s.all isPlain = true) : s.flatMap escape = s := by
  induction s with
  | nil => rfl
  | cons c s ih =>
      rw [List.all_cons, Bool.and_eq_true] at h
      rw [List.flatMap_cons, ih h.2, escape, if_pos h.1, List.singleton_append]

theorem printStringPtr_text (s : Text) : (printStringPtr s).text = stringLayout s := by
  unfold printStringPtr stringLayout
  split
  · rename_i h
    rw [flatMap_escape_of_plain h]
  · rfl

theorem enough_printStringPtr (s : Text) : (printStringPtr s).Enough := by
  unfold printStringPtr Block.Enough
  split
  · simp
  · rw [List.length_cons, List.length_append, length_flatMap_escape]
    simp

@[simp] theorem length_ifFmt (fmt : Bool) (w : Text) :
    (ifFmt fmt w).length = if fmt then w.length else 0 := by
  cases fmt <;> rfl

@[simp] theorem length_tabs (n : Nat) : (tabs n).length = n :=
  List.length_replicate

theorem length_intercalate_le (fmt : Bool) (entries : List Text) :
    ((separator fmt).intercalate entries).length ≤
      (entries.map fun ret => ret.length + 2 + if fmt then 1 else 0).sum := by
  induction entries with
  | nil => simp
  | cons ret entries ih =>
      cases entries with
      | nil =>
          simp only [List.intercalate_singleton, List.map_cons, List.map_nil, List.sum_cons,
            List.sum_nil]
          omega
      | cons next entries =>
          have hseparator : (separator fmt).length = 1 + if fmt then 1 else 0 := by
            cases fmt <;> rfl
          rw [List.intercalate_cons_cons, List.length_append, List.length_append, List.map_cons,
            List.sum_cons, hseparator]
          omega

theorem enough_arrayBlock (fmt : Bool) (entries : List Text) : (arrayBlock fmt entries).Enough := by
  have hle := length_intercalate_le fmt entries
  unfold Block.Enough arrayBlock
  rw [List.length_cons, List.length_append, List.length_singleton]
  split
  · rename_i hnil
    simp [hnil]
  · simp only
    omega

theorem length_membersText_le (fmt : Bool) (depth : Nat) (entries : List (Text × Text)) :
    (membersText fmt depth entries).length ≤
      (entries.map fun e => e.2.length + e.1.length + 2 + if fmt then 2 + depth else 0).sum := by
  induction entries with
  | nil => simp [membersText]
  | cons e entries ih =>
      rw [membersText, List.length_append, List.map_cons, List.sum_cons]
      refine Nat.add_le_add ?_ ih
      cases fmt <;> cases entries <;> (simp [memberText]; omega)

theorem enough_objectBlock (fmt : Bool) (depth : Nat) (entries : List (Text × Text)) :
    (objectBlock fmt depth entries).Enough := by
  have hle := length_membersText_le fmt (depth + 1) entries
  unfold Block.Enough objectBlock
  simp only [List.length_append, List.length_cons, List.length_nil, length_ifFmt, length_tabs]
  by_cases hnil : entries = []
  · cases fmt
    · simp [hnil, membersText]
    · simp [hnil, membersText]
      omega
  · cases fmt <;> simp [hnil] at hle ⊢ <;> omega

theorem printItems_eq {child : List (Item δ)}
    (h : ∀ v ∈ child, printValue D fmt depth v = .ok (layout D fmt depth v)) :
    printItems D fmt depth child = .ok (itemLayouts D fmt depth child) := by
  induction child with
  | nil => rfl
  | cons v child ih =>
      rw [printItems, h v List.mem_cons_self, ih fun w hw => h w (List.mem_cons_of_mem v hw),
        itemLayouts]
      rfl

theorem printMembers_eq {child : List (Text × Item δ)}
    (h : ∀ m ∈ child, printValue D fmt depth m.2 = .ok (layout D fmt depth m.2)) :
    printMembers D fmt depth child = .ok (memberLayouts D fmt depth child) := by
  induction child with
  | nil => rfl
  | cons m child ih =>
      rw [printMembers, h m List.mem_cons_self, ih fun w hw => h w (List.mem_cons_of_mem m hw),
        Block.malloc_eq (enough_printStringPtr m.1), printStringPtr_text, memberLayouts]
      rfl

/-- Nothing is written behind a block, at any depth. -/
theorem printValue_eq (hD : D.Fits) {v : Item δ} (h : v.Printable) (fmt : Bool) (depth : Nat) :
    printValue D fmt depth v = .ok (layout D fmt depth v) := by
  induction v generalizing depth with
  | null => rfl
  | false => rfl
  | true => rfl
  | number n d =>
      exact Block.malloc_eq (enough_printNumber hD h d)
  | string s =>
      rw [printValue, Block.malloc_eq (enough_printStringPtr s), printStringPtr_text, layout]
  | array child ih =>
      have hchild : printItems D fmt (depth + 1) child =
          .ok (itemLayouts D fmt (depth + 1) child) :=
        printItems_eq fun v hv => ih v hv (Item.everyItem_iff.1 h v hv) _
      rw [printValue, hchild, layout]
      exact Block.malloc_eq (enough_arrayBlock fmt _)
  | object child ih =>
      have hchild : printMembers D fmt (depth + 1) child =
          .ok (memberLayouts D fmt (depth + 1) child) :=
        printMembers_eq fun m hm => ih m hm (Item.everyMember_iff.1 h m hm).2 _
      rw [printValue, hchild, layout]
      exact Block.malloc_eq (enough_objectBlock fmt depth _)

end Json
end LinuxLearn
