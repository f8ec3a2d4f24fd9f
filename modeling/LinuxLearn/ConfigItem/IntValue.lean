import LinuxLearn.Lib.Text
import LinuxLearn.ConfigItem.Lookup

/-!
# IntValue — integers in fields of four characters

`writeIntValue` pads a number to four characters, so that the new line is as long as the old one and
the writer changes nothing else.  `readIntValue` reads it back with `atoi`, which does not mind the
blanks and the newline that the reader leaves behind the number.  What it minds is a carriage return
in the key: there the reader believes that the line ends, and cuts the number off at that index.
-/

namespace LinuxLearn
namespace ConfigItem

open Lib

/-! ## `writeIntValue` and `readIntValue` -/

/-- `"%-4d"` -/
def paddedInt (val : Int) : Bytes :=
  (decimal val).rightpad 4 32

def writeIntValue (section' key : Bytes) (val : Int) (text : Bytes) : Option Bytes :=
  writeStringVlaue section' key (paddedInt val) text

def readIntValue (section' key text : Bytes) : Except BufferFault Int :=
  (readStringValue section' key (List.replicate STRVALUE_MAX_LEN 0) text).map fun r =>
    atoi (stringIn r.1)

/-! ## Texts with a field of four characters -/

/-- A text in which the key has one line in the first section with the header, whose value has four
characters.  The section ends before the next line with a leading `[`. -/
structure FixedField (sect key : Bytes) where
  before : List Bytes
  header : Bytes
  above : List Bytes
  old : Bytes
  below : List Bytes
  after : List Bytes
  plain : ∀ l ∈ before ++ header :: (above ++ (key ++ equalsSign :: old) :: (below ++ after)),
    PlainLine l
  isHeader : sectionHeader sect <+: header
  isFirst : ∀ l ∈ before, ¬ sectionHeader sect <+: l
  inSection : ∀ l ∈ above ++ key :: below, l.head? ≠ some bracketOpen
  sectionEnd : ∀ l ∈ after.head?, l.head? = some bracketOpen
  keyNonempty : key ≠ []
  only : ∀ l ∈ above ++ below, ¬ key <+: l
  width : old.length = 4

namespace FixedField

variable {sect key : Bytes} (f : FixedField sect key)

/-- The lines with another value in the field. -/
def linesWith (val : Bytes) : List Bytes :=
  f.before ++ f.header :: (f.above ++ (key ++ equalsSign :: val) :: (f.below ++ f.after))

def textWith (val : Bytes) : Bytes :=
  unlines newline (f.linesWith val)

def text : Bytes :=
  f.textWith f.old

end FixedField

/-- Only the four characters are written, and the number is read back. -/
def RoundTrips {sect key : Bytes} (f : FixedField sect key) (val : Int) : Prop :=
  ∃ new, new.length = 4 ∧ writeIntValue sect key val f.text = some (f.textWith new) ∧
    readIntValue sect key (f.textWith new) = .ok val

/-! ## Numbers of four characters -/

theorem length_decimal_le {v : Int} (hlow : -999 ≤ v) (hhigh : v ≤ 9999) :
    (decimal v).length ≤ 4 := by
  cases v with
  | ofNat n =>
      have hn : (n : Int) ≤ 9999 := hhigh
      exact length_decimalNat_le (k := 4) (by omega) (by decide)
  | negSucc n =>
      rw [decimal, List.length_cons]
      have hle := length_decimalNat_le (n := n + 1) (k := 3) (by omega) (by decide)
      omega

theorem paddedInt_eq (v : Int) :
    paddedInt v = decimal v ++ List.replicate (4 - (decimal v).length) 32 := rfl

theorem length_paddedInt {v : Int} (hlow : -999 ≤ v) (hhigh : v ≤ 9999) :
    (paddedInt v).length = 4 := by
  have hle := length_decimal_le hlow hhigh
  rw [paddedInt_eq, List.length_append, List.length_replicate]
  omega

theorem mem_paddedInt {v : Int} {c : UInt8} (hc : c ∈ paddedInt v) :
    isDigit c = true ∨ c = 45 ∨ c = 32 := by
  rw [paddedInt_eq, List.mem_append] at hc
  rcases hc with hnumber | hblank
  · cases v with
    | ofNat n => exact Or.inl (isDigit_of_mem_decimalNat hnumber)
    | negSucc n =>
        rcases List.mem_cons.1 hnumber with hminus | hdigit
        · exact Or.inr (Or.inl hminus)
        · exact Or.inl (isDigit_of_mem_decimalNat hdigit)
  · exact Or.inr (Or.inr (List.eq_of_mem_replicate hblank))

theorem not_endsLine_of_mem_paddedInt {v : Int} {c : UInt8} (hc : c ∈ paddedInt v) :
    endsLine c = false := by
  rcases mem_paddedInt hc with hdigit | rfl | rfl
  · have hne : ∀ d : UInt8, isDigit d = false → (c == d) = false := by
      intro d hd
      rw [beq_eq_false_iff_ne]
      rintro rfl
      exact absurd hdigit (by simp [hd])
    rw [endsLine, hne 0 (by decide), hne carriageReturn (by decide), hne newline (by decide)]
    rfl
  · decide
  · decide

/-- What `atoi` makes of the field and the newline, cut off at `i`. -/
theorem atoi_take_paddedInt (v : Int) (i : Nat) :
    atoi ((paddedInt v ++ [newline]).take i) = v ↔ v = 0 ∨ (decimal v).length ≤ i := by
  have hsplit : paddedInt v ++ [newline] =
      decimal v ++ (List.replicate (4 - (decimal v).length) 32 ++ [newline]) := by
    rw [paddedInt_eq, List.append_assoc]
  rw [hsplit]
  by_cases hle : (decimal v).length ≤ i
  · refine iff_of_true ?_ (Or.inr hle)
    rw [List.take_append, List.take_of_length_le hle]
    apply atoi_decimal
    -- A blank or the newline follows, if anything does.
    generalize 4 - (decimal v).length = n
    generalize i - (decimal v).length = m
    cases m with
    | zero => rfl
    | succ m => cases n <;> rfl
  · have hlt : i < (decimal v).length := Nat.lt_of_not_le hle
    rw [List.take_append_of_le_length hlt.le, atoi_take_decimal hlt, or_iff_left hle]

/-! ## The field is found -/

namespace FixedField

variable {sect key : Bytes}

theorem field_mem (f : FixedField sect key) : key ++ equalsSign :: f.old ∈
    f.before ++ f.header :: (f.above ++ (key ++ equalsSign :: f.old) :: (f.below ++ f.after)) := by
  simp

theorem newline_notMem_key (f : FixedField sect key) : newline ∉ key := fun h =>
  (f.plain _ f.field_mem).noNewline (List.mem_append_left _ h)

theorem zero_notMem_key (f : FixedField sect key) : (0 : UInt8) ∉ key := fun h =>
  (f.plain _ f.field_mem).noZero (List.mem_append_left _ h)

theorem length_key (f : FixedField sect key) : key.length < 250 := by
  have hfits := (f.plain _ f.field_mem).fits
  rw [List.length_append, List.length_cons, f.width] at hfits
  omega

theorem header_plain (f : FixedField sect key) : PlainLine f.header :=
  f.plain _ (List.mem_append_right _ List.mem_cons_self)

theorem newline_notMem_sectionHeader (f : FixedField sect key) :
    newline ∉ sectionHeader sect := fun h =>
  f.header_plain.noNewline (f.isHeader.subset h)

theorem length_sectionHeader (f : FixedField sect key) :
    (sectionHeader sect).length < SECTION_MAX_LEN :=
  lt_of_le_of_lt f.isHeader.length_le (lt_trans f.header_plain.fits (by decide))

/-- The lines stay plain with another value of four ordinary characters. -/
theorem plain_linesWith (f : FixedField sect key) {val : Bytes} (hlength : val.length = 4)
    (hnewline : newline ∉ val) (hzero : (0 : UInt8) ∉ val) :
    ∀ l ∈ f.linesWith val, PlainLine l := by
  have hold := f.plain _ f.field_mem
  intro l hl
  by_cases hfield : l = key ++ equalsSign :: val
  · -- The changed line has the length of the old one.
    subst hfield
    refine ⟨?_, ?_, ?_⟩
    · have hfits := hold.fits
      rw [List.length_append, List.length_cons, f.width] at hfits
      rw [List.length_append, List.length_cons, hlength]
      exact hfits
    · have hne : newline ≠ equalsSign := by decide
      simp [f.newline_notMem_key, hne, hnewline]
    · have hne : (0 : UInt8) ≠ equalsSign := by decide
      simp [f.zero_notMem_key, hne, hzero]
  · apply f.plain
    unfold linesWith at hl
    simp only [List.mem_append, List.mem_cons] at hl ⊢
    tauto

end FixedField

theorem not_prefix_newline {p l : Bytes} (hp : newline ∉ p) (h : ¬ p <+: l) :
    ¬ p <+: l ++ [newline] := fun hprefix => h (prefix_of_prefix_newline hp hprefix)

/-- Lines that are no headers of the section are passed by the outer loops. -/
theorem targetLine_append {sect key : Bytes} {before ls : List Bytes}
    (h : ∀ l ∈ before, ¬ sect <+: l ++ [newline]) :
    targetLine sect key (before ++ ls) = (targetLine sect key ls).map (· + before.length) := by
  induction before with
  | nil => simp
  | cons l before ih =>
      rw [List.cons_append, targetLine, if_neg (h l List.mem_cons_self),
        ih fun l' hl' => h l' (List.mem_cons_of_mem _ hl'), Option.map_map]
      rfl

theorem linesBehind_append {sect : Bytes} {before ls : List Bytes}
    (h : ∀ l ∈ before, ¬ sect <+: l ++ [newline]) :
    linesBehind sect (before ++ ls) = linesBehind sect ls := by
  induction before with
  | nil => rfl
  | cons l before ih =>
      rw [List.cons_append, linesBehind, if_neg (h l List.mem_cons_self)]
      exact ih fun l' hl' => h l' (List.mem_cons_of_mem _ hl')

/-- Lines of the section that do not start with the key are passed by the inner loops. -/
theorem keyLine_append {key : Bytes} {above ls : List Bytes}
    (h : ∀ l ∈ above, ¬ key <+: l ++ [newline] ∧ l.head? ≠ some bracketOpen) :
    keyLine key (above ++ ls) = (keyLine key ls).map (· + above.length) := by
  induction above with
  | nil => simp
  | cons l above ih =>
      have hl := h l List.mem_cons_self
      rw [List.cons_append, keyLine, if_neg hl.1, if_neg hl.2,
        ih fun l' hl' => h l' (List.mem_cons_of_mem _ hl'), Option.map_map]
      rfl

theorem valueLines_append {key val : Bytes} {above ls : List Bytes} {bFoundKey : Bool}
    (h : ∀ l ∈ above, ¬ key <+: l ++ [newline] ∧ l.head? ≠ some bracketOpen) :
    valueLines key (above ++ ls) val bFoundKey = valueLines key ls val bFoundKey := by
  induction above with
  | nil => rfl
  | cons l above ih =>
      have hl := h l List.mem_cons_self
      rw [List.cons_append, valueLines, if_neg hl.1, if_neg hl.2]
      exact ih fun l' hl' => h l' (List.mem_cons_of_mem _ hl')

/-- A zero cuts the string off. -/
theorem stringIn_set_zero {w r : Bytes} {i : Nat} (hw : (0 : UInt8) ∉ w) (hi : i < w.length) :
    stringIn ((w ++ 0 :: r).set i 0) = w.take i := by
  have hset : (w ++ 0 :: r).set i 0 = w.take i ++ 0 :: (w ++ 0 :: r).drop (i + 1) := by
    rw [List.set_eq_take_append_cons_drop, if_pos (by rw [List.length_append]; omega),
      List.take_append_of_le_length hi.le]
  rw [hset, stringIn_zero fun h => hw (List.mem_of_mem_take h)]

namespace FixedField

variable {sect key val : Bytes}

theorem before_not_prefix (f : FixedField sect key) :
    ∀ l ∈ f.before, ¬ sectionHeader sect <+: l ++ [newline] := fun l hl =>
  not_prefix_newline f.newline_notMem_sectionHeader (f.isFirst l hl)

theorem header_prefix (f : FixedField sect key) : sectionHeader sect <+: f.header ++ [newline] :=
  f.isHeader.trans (List.prefix_append _ _)

theorem above_passed (f : FixedField sect key) :
    ∀ l ∈ f.above, ¬ key <+: l ++ [newline] ∧ l.head? ≠ some bracketOpen := fun l hl =>
  ⟨not_prefix_newline f.newline_notMem_key (f.only l (List.mem_append_left _ hl)),
    f.inSection l (List.mem_append_left _ hl)⟩

theorem below_passed (f : FixedField sect key) :
    ∀ l ∈ f.below, ¬ key <+: l ++ [newline] ∧ l.head? ≠ some bracketOpen := fun l hl =>
  ⟨not_prefix_newline f.newline_notMem_key (f.only l (List.mem_append_right _ hl)),
    f.inSection l (List.mem_append_right _ (List.mem_cons_of_mem _ hl))⟩

theorem key_isPrefix (val : Bytes) : key <+: key ++ equalsSign :: val ++ [newline] :=
  ⟨equalsSign :: val ++ [newline], by simp⟩

/-- The lines as far as the field. -/
def linesAbove (f : FixedField sect key) : List Bytes :=
  f.before ++ f.header :: f.above

theorem linesWith_eq (f : FixedField sect key) (val : Bytes) :
    f.linesWith val = f.linesAbove ++ (key ++ equalsSign :: val) :: (f.below ++ f.after) := by
  simp [linesWith, linesAbove]

theorem targetLine_eq (f : FixedField sect key) (val : Bytes) :
    targetLine (sectionHeader sect) key (f.linesWith val) = some f.linesAbove.length := by
  rw [linesWith, targetLine_append f.before_not_prefix, targetLine, if_pos f.header_prefix,
    keyLine_append f.above_passed, keyLine, if_pos (key_isPrefix val)]
  simp only [Option.map_some, linesAbove, List.length_append, List.length_cons]
  congr 1
  omega

/-- The new line covers the old one. -/
theorem write_eq (f : FixedField sect key) (hval : val.length = 4) :
    writeStringVlaue sect key val f.text = some (f.textWith val) := by
  have hfits : (keyValueLine key val).length < LINE_CONTENT_MAX_LEN := by
    have hlength := f.length_key
    simp only [keyValueLine, List.length_append, List.length_cons, List.length_nil, hval]
    change _ < 256
    omega
  have hwrite := writeStringVlaue_eq sect key val (f.linesWith f.old) f.plain
  rw [if_pos ⟨f.length_sectionHeader, hfits⟩, f.targetLine_eq] at hwrite
  rw [text, textWith, hwrite, writtenAt, linesWith_eq, List.take_left, List.nil_append,
    List.nil_append, unlines_append, overwrite_append, unlines_cons]
  -- Behind the new line comes what came behind the old one.
  have hlength : (keyValueLine key val).length =
      (key ++ equalsSign :: f.old ++ [newline]).length := by
    simp [keyValueLine, hval, f.width]
  have hsplit : key ++ equalsSign :: f.old ++ newline :: unlines newline (f.below ++ f.after) =
      (key ++ equalsSign :: f.old ++ [newline]) ++ unlines newline (f.below ++ f.after) := by
    simp
  rw [hsplit, hlength, List.drop_left, textWith, linesWith_eq]
  simp [keyValueLine]

theorem linesBehind_eq (f : FixedField sect key) (val : Bytes) :
    linesBehind (sectionHeader sect) (f.linesWith val) =
      some (f.above ++ (key ++ equalsSign :: val) :: (f.below ++ f.after)) := by
  rw [linesWith, linesBehind_append f.before_not_prefix, linesBehind, if_pos f.header_prefix]

/-- The reader stops at the end of the section. -/
theorem valueLines_after (f : FixedField sect key) (buffer : Bytes) :
    ∃ b, valueLines key f.after buffer true = .ok (buffer, b) := by
  cases hafter : f.after with
  | nil => exact ⟨_, rfl⟩
  | cons l ls =>
      have hopen : l.head? = some bracketOpen := f.sectionEnd l (by simp [hafter])
      have hkey : ¬ key <+: l ++ [newline] := by
        rintro ⟨r, hr⟩
        have hhead : key.head? ≠ some bracketOpen := f.inSection key (by simp)
        rcases List.exists_cons_of_ne_nil f.keyNonempty with ⟨c, k, hcons⟩
        rcases List.exists_cons_of_ne_nil (show l ≠ [] from fun h => by simp [h] at hopen) with
          ⟨d, l', hl⟩
        rw [hcons, hl] at hr
        rw [hl] at hopen
        rw [hcons] at hhead
        exact hhead ((congrArg some (List.cons.inj hr).1).trans hopen)
      rw [valueLines, if_neg hkey, if_pos hopen]
      exact ⟨_, rfl⟩

theorem findEquals_key (f : FixedField sect key) (hzero : (0 : UInt8) ∉ val) :
    findEquals (key ++ equalsSign :: val ++ [newline]) key = some key.length := by
  have hnone : (0 : UInt8) ∉ key ++ equalsSign :: val ++ [newline] := by
    have hequals : (0 : UInt8) ≠ equalsSign := by decide
    have hnewline : (0 : UInt8) ≠ newline := by decide
    simp [f.zero_notMem_key, hequals, hzero, hnewline]
  rw [findEquals, stringIn_of_not_mem hnone, List.append_assoc, List.drop_left, List.cons_append,
    List.findIdx?_cons]
  simp

/-- Where the reader sees the end of the line. -/
def lineEnd (key val : Bytes) : Nat :=
  ((key ++ equalsSign :: val ++ [newline]).takeWhile fun c => !endsLine c).length

/-- The value and the newline are copied to a clear buffer and cut off at the end of the line. -/
theorem copyValue_eq (hval : val.length = 4) (hzero : (0 : UInt8) ∉ val) :
    ∃ buffer, copyValue (List.replicate STRVALUE_MAX_LEN 0) (key ++ equalsSign :: val ++ [newline])
        (key.length + 1) = .ok buffer ∧
      stringIn buffer = (val ++ [newline]).take (lineEnd key val) := by
  have hzero' : (0 : UInt8) ∉ val ++ [newline] := by
    have hnewline : (0 : UInt8) ≠ newline := by decide
    simp [hzero, hnewline]
  have hvalue : stringIn ((key ++ equalsSign :: val ++ [newline]).drop (key.length + 1)) =
      val ++ [newline] := by
    have hsplit : key ++ equalsSign :: val ++ [newline] =
        (key ++ [equalsSign]) ++ (val ++ [newline]) := by simp
    have hlength : key.length + 1 = (key ++ [equalsSign]).length := by simp
    rw [hsplit, hlength, List.drop_left, stringIn_of_not_mem hzero']
  have hfive : (val ++ [newline]).length = 5 := by simp [hval]
  have hroom : ¬ (List.replicate STRVALUE_MAX_LEN (0 : UInt8)).length < 5 := by
    rw [List.length_replicate]
    decide
  rcases (⟨_, rfl⟩ : ∃ r, (List.replicate STRVALUE_MAX_LEN (0 : UInt8)).drop 5 = 0 :: r) with
    ⟨r, hrest⟩
  have hmem : (0 : UInt8) ∈ val ++ [newline] ++ 0 :: r := by simp
  rw [copyValue, hvalue]
  dsimp only
  rw [hfive, hrest, if_neg hroom, if_neg (not_not.2 hmem), stringIn_zero hzero', hfive]
  rw [← lineEnd]
  split
  · rename_i hlt
    exact ⟨_, rfl, stringIn_set_zero hzero' (by omega)⟩
  · refine ⟨_, rfl, ?_⟩
    rw [stringIn_zero hzero', List.take_of_length_le (by omega)]

theorem read_eq (f : FixedField sect key) (hval : val.length = 4) (hnewline : newline ∉ val)
    (hzero : (0 : UInt8) ∉ val) :
    readIntValue sect key (f.textWith val) =
      .ok (atoi ((val ++ [newline]).take (lineEnd key val))) := by
  rcases copyValue_eq hval hzero with ⟨buffer, hcopy, hstring⟩
  rcases f.valueLines_after buffer with ⟨b, hafter⟩
  have hfield : valueLines key (f.above ++ (key ++ equalsSign :: val) :: (f.below ++ f.after))
      (List.replicate STRVALUE_MAX_LEN 0) false = .ok (buffer, b) := by
    rw [valueLines_append f.above_passed, valueLines, if_pos (key_isPrefix val),
      f.findEquals_key hzero]
    dsimp only
    rw [hcopy]
    dsimp only
    rw [valueLines_append f.below_passed, hafter]
  rw [readIntValue, textWith, readStringValue_eq sect key _ _
    (f.plain_linesWith hval hnewline hzero) f.length_sectionHeader, f.linesBehind_eq]
  dsimp only
  rw [hfield, ← hstring]
  rfl

end FixedField

theorem le_length_takeWhile_iff {α : Type*} {p : α → Bool} {l : List α} {n : Nat}
    (hn : n ≤ l.length) : n ≤ (l.takeWhile p).length ↔ ∀ c ∈ l.take n, p c = true := by
  induction l generalizing n with
  | nil =>
      have hzero : n = 0 := Nat.le_zero.1 hn
      simp [hzero]
  | cons c l ih =>
      cases n with
      | zero => simp
      | succ n =>
          have hrec := ih (Nat.le_of_succ_le_succ hn)
          by_cases hc : p c = true
          · simp [hc, hrec]
          · simp [hc]

/-- The end of the line is not seen before index `n` exactly if no carriage return stands there in
the key. -/
theorem le_lineEnd_iff {key : Bytes} {v : Int} {n : Nat} (hnewline : newline ∉ key)
    (hzero : (0 : UInt8) ∉ key) (hn : n ≤ 4) (hwidth : (paddedInt v).length = 4) :
    n ≤ FixedField.lineEnd key (paddedInt v) ↔ carriageReturn ∉ key.take n := by
  have hlength : n ≤ (key ++ equalsSign :: paddedInt v ++ [newline]).length := by
    simp only [List.length_append, List.length_cons, hwidth]
    omega
  have hsplit : (key ++ equalsSign :: paddedInt v ++ [newline]).take n =
      key.take n ++ (equalsSign :: paddedInt v).take (n - key.length) := by
    rw [List.append_assoc, List.take_append, List.take_append_of_le_length]
    rw [List.length_cons, hwidth]
    omega
  rw [FixedField.lineEnd, le_length_takeWhile_iff hlength, hsplit]
  constructor
  · intro hall hmem
    have hend := hall carriageReturn (List.mem_append_left _ hmem)
    exact absurd hend (by decide)
  · intro hcr c hc
    rw [Bool.not_eq_true']
    rcases List.mem_append.1 hc with hkey | hval
    · -- Neither newlines nor zeros stand in a key.
      have hmem := List.mem_of_mem_take hkey
      have hne0 : c ≠ 0 := fun h => hzero (h ▸ hmem)
      have hnenl : c ≠ newline := fun h => hnewline (h ▸ hmem)
      have hnecr : c ≠ carriageReturn := fun h => hcr (h ▸ hkey)
      simp [endsLine, hne0, hnenl, hnecr]
    · rcases List.mem_cons.1 (List.mem_of_mem_take hval) with rfl | hdigits
      · decide
      · exact not_endsLine_of_mem_paddedInt hdigits

theorem plainLine_of_decide {ls : List Bytes}
    (h : ∀ l ∈ ls, l.length < 255 ∧ newline ∉ l ∧ (0 : UInt8) ∉ l) : ∀ l ∈ ls, PlainLine l :=
  fun l hl => ⟨(h l hl).1, (h l hl).2.1, (h l hl).2.2⟩

/-- The text `[s]` with the field `0000` under a key. -/
def oneField (key : Bytes) (hplain : ∀ l ∈ [[91, 115, 93], key ++ equalsSign :: [48, 48, 48, 48]],
    l.length < 255 ∧ newline ∉ l ∧ (0 : UInt8) ∉ l) (hne : key ≠ [])
    (hhead : key.head? ≠ some bracketOpen) : FixedField [115] key where
  before := []
  header := [91, 115, 93]
  above := []
  old := [48, 48, 48, 48]
  below := []
  after := []
  plain := plainLine_of_decide hplain
  isHeader := List.prefix_rfl
  isFirst := fun _ h => nomatch h
  inSection := List.forall_mem_singleton.2 hhead
  sectionEnd := fun _ h => nomatch h
  keyNonempty := hne
  only := fun _ h => nomatch h
  width := rfl

/-- The field is updated in place and read back exactly if no carriage return of the key stands at
an index that the number has too; zero survives even that. -/
theorem roundTrips_iff {sect key : Bytes} (f : FixedField sect key) {val : Int} (hlow : -999 ≤ val)
    (hhigh : val ≤ 9999) :
    RoundTrips f val ↔ val = 0 ∨ carriageReturn ∉ key.take (decimal val).length := by
  have hwidth := length_paddedInt hlow hhigh
  have hends : ∀ c ∈ paddedInt val, endsLine c = false := fun _ hc =>
    not_endsLine_of_mem_paddedInt hc
  have hnewline : newline ∉ paddedInt val := fun h => absurd (hends _ h) (by decide)
  have hzero : (0 : UInt8) ∉ paddedInt val := fun h => absurd (hends _ h) (by decide)
  have hwrite : writeIntValue sect key val f.text = some (f.textWith (paddedInt val)) :=
    f.write_eq hwidth
  have hread := f.read_eq hwidth hnewline hzero
  rw [← le_lineEnd_iff f.newline_notMem_key f.zero_notMem_key (length_decimal_le hlow hhigh) hwidth,
    ← atoi_take_paddedInt]
  constructor
  · rintro ⟨new, _, hnew, hnumber⟩
    have hsame : f.textWith new = f.textWith (paddedInt val) :=
      Option.some.inj (hnew.symm.trans hwrite)
    rw [hsame, hread] at hnumber
    exact Except.ok.inj hnumber
  · intro hnumber
    exact ⟨paddedInt val, hwidth, hwrite, by rw [hread, hnumber]⟩

theorem plain_key_round_trips :
    RoundTrips (oneField [107] (by decide) (by decide) (by decide)) (-42) :=
  (roundTrips_iff _ (by decide) (by decide)).2 (Or.inr (by decide))

/-- The key `k\r` cuts 42 off to 4. -/
theorem carriage_return_cuts_number :
    ¬ ∀ (sect key : Bytes) (f : FixedField sect key) (val : Int), -999 ≤ val → val ≤ 9999 →
      RoundTrips f val := by
  intro hall
  have hplain : ∀ l ∈ [[91, 115, 93], [107, 13] ++ equalsSign :: [48, 48, 48, 48]],
      l.length < 255 ∧ newline ∉ l ∧ (0 : UInt8) ∉ l := by decide
  rcases hall [115] [107, 13] (oneField [107, 13] hplain (by decide) (by decide)) 42 (by decide)
    (by decide) with ⟨new, _, hnew, hnumber⟩
  have hwrite : writeIntValue [115] [107, 13] 42
      (oneField [107, 13] hplain (by decide) (by decide)).text = _ :=
    FixedField.write_eq _ (by decide)
  rw [← Option.some.inj (hwrite.symm.trans hnew),
    FixedField.read_eq _ (by decide) (by decide) (by decide)] at hnumber
  have hcut : atoi ((paddedInt 42 ++ [newline]).take
      (FixedField.lineEnd [107, 13] (paddedInt 42))) = 4 := by decide
  rw [hcut] at hnumber
  exact absurd (Except.ok.inj hnumber) (by decide)

end ConfigItem
end LinuxLearn
