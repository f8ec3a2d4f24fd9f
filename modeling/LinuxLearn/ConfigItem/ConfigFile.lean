import Mathlib.Data.List.TakeWhile
import LinuxLearn.Lib.Lines
import LinuxLearn.Lib.Text

/-!
# ConfigFile — the INI writer of `config_file.c`

`IniWriteValue` scans a file line by line with `fgets` for a section header, then for a line that
starts with the key, seeks back to the start of that line and writes the new line over the old
bytes.  The file is modelled by its bytes, a position and the end-of-file indicator.

A line buffer has `LINE_CONTENT_MAX_LEN` bytes and is cleared before each `fgets`, so it holds the
bytes read followed by zeros; string functions see the bytes up to the first zero.
-/

namespace LinuxLearn
namespace ConfigItem

open Lib

abbrev Bytes := List UInt8

/-! ## Characters and string functions -/

abbrev newline : UInt8 := 10
abbrev carriageReturn : UInt8 := 13
abbrev semicolon : UInt8 := 59
abbrev equalsSign : UInt8 := 61
abbrev bracketOpen : UInt8 := 91
abbrev bracketClose : UInt8 := 93

abbrev LINE_CONTENT_MAX_LEN : Nat := 256
abbrev SECTION_MAX_LEN : Nat := 256

/-- `strncmp(buffer, s, strlen(s)) == 0` -/
def startsWith (buffer s : Bytes) : Bool :=
  s.isPrefixOf (stringIn buffer)

/-- `buffer[0]` of a buffer that was cleared before it was filled. -/
def firstChar (buffer : Bytes) : UInt8 :=
  buffer.headD 0

/-! ## Files -/

structure FileStream where
  text : Bytes
  pos : Nat
  eof : Bool
  deriving DecidableEq, Repr

namespace FileStream

/-- At most `n` bytes, through the first newline. -/
def takeLine : Nat → Bytes → Bytes
  | 0, _ => []
  | _ + 1, [] => []
  | n + 1, c :: cs => if c = newline then [c] else c :: takeLine n cs

/-- The same scan runs into the end of the file. -/
def meetsEnd : Nat → Bytes → Bool
  | 0, _ => false
  | _ + 1, [] => true
  | n + 1, c :: cs => if c = newline then false else meetsEnd n cs

/-- `fgets(lineContent, LINE_CONTENT_MAX_LEN, fp)` on a cleared buffer. -/
def fgets (fp : FileStream) : Bytes × FileStream :=
  let rest := fp.text.drop fp.pos
  let line := takeLine (LINE_CONTENT_MAX_LEN - 1) rest
  (line,
    { fp with
      pos := fp.pos + line.length
      eof := fp.eof || meetsEnd (LINE_CONTENT_MAX_LEN - 1) rest })

/-- `fseek(fp, 0 - n, SEEK_CUR)` -/
def seekBack (fp : FileStream) (n : Nat) : FileStream :=
  { fp with pos := fp.pos - n, eof := false }

def fputs (fp : FileStream) (s : Bytes) : FileStream :=
  { fp with text := overwrite fp.text fp.pos s, pos := fp.pos + s.length }

end FileStream

/-! ## `IniWriteValue` -/

/-- Lines 142-145: comments and empty lines are not compared with the section. -/
def skipped (lineContent : Bytes) : Bool :=
  firstChar lineContent == semicolon || firstChar lineContent == 0 ||
    firstChar lineContent == carriageReturn || firstChar lineContent == newline

/-- The inner loop.  Every pass but the last reads at least one byte, so the length of the file
bounds the number of passes. -/
def keyLoop (key strWrite : Bytes) : Nat → FileStream → FileStream
  | 0, fp => fp
  | fuel + 1, fp =>
      if fp.eof then fp
      else
        let (lineContent, fp) := fp.fgets
        if startsWith lineContent key then
          -- The new line goes over the old bytes, however many there are.
          (fp.seekBack (stringIn lineContent).length).fputs strWrite
        -- The next section begins, the key was not found.
        else if firstChar lineContent == bracketOpen then fp
        else keyLoop key strWrite fuel fp

/-- The outer loop. -/
def sectionLoop (sect key strWrite : Bytes) : Nat → FileStream → FileStream
  | 0, fp => fp
  | fuel + 1, fp =>
      if fp.eof then fp
      else
        let (lineContent, fp) := fp.fgets
        if skipped lineContent then sectionLoop sect key strWrite fuel fp
        -- The header is compared as a prefix, and only the first one is tried.
        else if startsWith lineContent sect then keyLoop key strWrite fuel fp
        else sectionLoop sect key strWrite fuel fp

/-- `"%s=%s\\n"` -/
def keyValueLine (key val : Bytes) : Bytes :=
  key ++ equalsSign :: val ++ [newline]

/-- `"[%s]"` -/
def sectionHeader (sect : Bytes) : Bytes :=
  bracketOpen :: sect ++ [bracketClose]

/-- The text of the file afterwards; `none` is the overflow of the buffer `strWrite`. -/
def iniWriteValue (sect key val text : Bytes) : Option Bytes :=
  let strWrite := keyValueLine key val
  if strWrite.length < LINE_CONTENT_MAX_LEN then
    some (sectionLoop sect key strWrite (text.length + 2) ⟨text, 0, false⟩).text
  else
    none

/-- The text of the file afterwards; `none` is the overflow of a string buffer. -/
def writeStringVlaue (section' key val text : Bytes) : Option Bytes :=
  let sect := sectionHeader section'
  if sect.length < SECTION_MAX_LEN then iniWriteValue sect key val text else none

/-! ## The loops on a text made of lines -/

/-- A line as the loops expect it: it fits the line buffer and contains neither a newline nor a
zero byte. -/
structure PlainLine (l : Bytes) : Prop where
  fits : l.length < 255
  noNewline : newline ∉ l
  noZero : (0 : UInt8) ∉ l

/-- How many lines the inner loop passes before it writes; at the end of the file it sees one
more, empty line. -/
def keyLine (key : Bytes) : List Bytes → Option Nat
  | [] => if key = [] then some 0 else none
  | l :: ls =>
      if key <+: l ++ [newline] then some 0
      else if l.head? = some bracketOpen then none
      else (keyLine key ls).map (· + 1)

/-- The same for both loops together. -/
def targetLine (sect key : Bytes) : List Bytes → Option Nat
  | [] => none
  | l :: ls =>
      if sect <+: l ++ [newline] then (keyLine key ls).map (· + 1)
      else (targetLine sect key ls).map (· + 1)

open FileStream

theorem takeLine_line {n : Nat} {l rest : Bytes} (hl : newline ∉ l) (hn : l.length < n) :
    takeLine n (l ++ newline :: rest) = l ++ [newline] := by
  induction l generalizing n with
  | nil =>
      cases n with
      | zero => cases hn
      | succ n => simp [takeLine]
  | cons c l ih =>
      cases n with
      | zero => cases hn
      | succ n =>
          have hc : c ≠ newline := fun h => hl (h ▸ List.mem_cons_self)
          have hrec := ih (n := n) (fun h => hl (List.mem_cons_of_mem _ h))
            (Nat.lt_of_succ_lt_succ hn)
          simp [takeLine, hc, hrec]

theorem meetsEnd_line {n : Nat} {l rest : Bytes} (hl : newline ∉ l) (hn : l.length < n) :
    meetsEnd n (l ++ newline :: rest) = false := by
  induction l generalizing n with
  | nil =>
      cases n with
      | zero => cases hn
      | succ n => simp [meetsEnd]
  | cons c l ih =>
      cases n with
      | zero => cases hn
      | succ n =>
          have hc : c ≠ newline := fun h => hl (h ▸ List.mem_cons_self)
          have hrec := ih (n := n) (fun h => hl (List.mem_cons_of_mem _ h))
            (Nat.lt_of_succ_lt_succ hn)
          simp [meetsEnd, hc, hrec]

/-- Reading one line. -/
theorem fgets_line {x l rest : Bytes} (hl : PlainLine l) :
    (FileStream.mk (x ++ (l ++ newline :: rest)) x.length false).fgets =
      (l ++ [newline],
        ⟨x ++ (l ++ newline :: rest), (x ++ (l ++ [newline])).length, false⟩) := by
  -- The scan stops at the newline, before the buffer or the file ends.
  have hdrop : (x ++ (l ++ newline :: rest)).drop x.length = l ++ newline :: rest := by simp
  have htake : takeLine (LINE_CONTENT_MAX_LEN - 1) (l ++ newline :: rest) = l ++ [newline] :=
    takeLine_line hl.noNewline hl.fits
  have hmeets : meetsEnd (LINE_CONTENT_MAX_LEN - 1) (l ++ newline :: rest) = false :=
    meetsEnd_line hl.noNewline hl.fits
  simp only [fgets, hdrop, htake, hmeets, List.length_append, Bool.or_false]

/-- Reading at the end of the file. -/
theorem fgets_end (x : Bytes) :
    (FileStream.mk x x.length false).fgets = ([], ⟨x, x.length, true⟩) := by
  simp [fgets, takeLine, meetsEnd]

theorem stringIn_line {l : Bytes} (hl : PlainLine l) :
    stringIn (l ++ [newline]) = l ++ [newline] := by
  apply stringIn_of_not_mem
  have hne : (0 : UInt8) ≠ newline := by decide
  simp [hl.noZero, hne]

theorem startsWith_line {l s : Bytes} (hl : PlainLine l) :
    startsWith (l ++ [newline]) s = true ↔ s <+: l ++ [newline] := by
  rw [startsWith, stringIn_line hl, List.isPrefixOf_iff_prefix]

theorem firstChar_line (l : Bytes) :
    (firstChar (l ++ [newline]) == bracketOpen) = true ↔ l.head? = some bracketOpen := by
  cases l with
  | nil => decide
  | cons c l => simp [firstChar]

/-- The effect of a loop that writes `w` at the start of line `j`, or nowhere. -/
def writtenAt (w : Bytes) (x : Bytes) (ls : List Bytes) : Option Nat → Bytes
  | none => x ++ unlines newline ls
  | some j =>
      overwrite (x ++ unlines newline ls) (x ++ unlines newline (ls.take j)).length w

theorem writtenAt_cons (w x l : Bytes) (ls : List Bytes) (j : Option Nat) :
    writtenAt w (x ++ (l ++ [newline])) ls j = writtenAt w x (l :: ls) (j.map (· + 1)) := by
  -- The offset of a line is the same whether the line before is counted as read or as rest.
  cases j with
  | none => simp [writtenAt]
  | some j => simp [writtenAt]

theorem keyLoop_eq (key w : Bytes) (x : Bytes) (ls : List Bytes) (hls : ∀ l ∈ ls, PlainLine l)
    (fuel : Nat) (hfuel : ls.length < fuel) :
    (keyLoop key w fuel ⟨x ++ unlines newline ls, x.length, false⟩).text =
      writtenAt w x ls (keyLine key ls) := by
  -- By induction on the lines not yet read; `x` is the part of the text before the position.
  induction ls generalizing x fuel with
  | nil =>
      cases fuel with
      | zero => cases hfuel
      | succ fuel =>
          have hend := fgets_end x
          by_cases hkey : key = []
          · simp [keyLoop, hend, keyLine, hkey, startsWith, writtenAt, seekBack, fputs, stringIn]
          · -- The empty line matches neither test, and the next pass sees the end of the file.
            have hstop : ∀ fuel, keyLoop key w fuel ⟨x, x.length, true⟩ = ⟨x, x.length, true⟩ := by
              intro fuel
              cases fuel with
              | zero => rfl
              | succ fuel => simp [keyLoop]
            simp [keyLoop, hend, keyLine, hkey, startsWith, writtenAt, stringIn, firstChar, hstop]
  | cons l ls ih =>
      cases fuel with
      | zero => cases hfuel
      | succ fuel =>
          have hl : PlainLine l := hls l List.mem_cons_self
          have hrest : ∀ l' ∈ ls, PlainLine l' := fun l' h => hls l' (List.mem_cons_of_mem _ h)
          have hfuel' : ls.length < fuel := Nat.lt_of_succ_lt_succ hfuel
          rw [unlines_cons, keyLoop, if_neg (by simp), fgets_line hl, keyLine]
          dsimp only
          by_cases hkey : key <+: l ++ [newline]
          · rw [if_pos ((startsWith_line hl).2 hkey), if_pos hkey, stringIn_line hl]
            simp [writtenAt, seekBack, fputs]
          · rw [if_neg (fun h => hkey ((startsWith_line hl).1 h)), if_neg hkey]
            by_cases hopen : l.head? = some bracketOpen
            · rw [if_pos ((firstChar_line l).2 hopen), if_pos hopen]
              simp [writtenAt]
            · rw [if_neg (fun h => hopen ((firstChar_line l).1 h)), if_neg hopen,
                ← writtenAt_cons, ← ih (x ++ (l ++ [newline])) hrest fuel hfuel']
              simp

/-- Lines that the outer loop skips do not start with a section header. -/
theorem not_prefix_of_skipped {l s : Bytes} (h : skipped (l ++ [newline]) = true) :
    ¬ sectionHeader s <+: l ++ [newline] := by
  intro hprefix
  have hfirst : firstChar (l ++ [newline]) = bracketOpen := by
    rcases hprefix with ⟨r, hr⟩
    rw [← hr]
    rfl
  rw [skipped, hfirst] at h
  revert h
  decide

theorem sectionLoop_eq (s key w : Bytes) (x : Bytes) (ls : List Bytes)
    (hls : ∀ l ∈ ls, PlainLine l) (fuel : Nat) (hfuel : ls.length < fuel) :
    (sectionLoop (sectionHeader s) key w fuel ⟨x ++ unlines newline ls, x.length, false⟩).text =
      writtenAt w x ls (targetLine (sectionHeader s) key ls) := by
  induction ls generalizing x fuel with
  | nil =>
      cases fuel with
      | zero => cases hfuel
      | succ fuel =>
          have hend := fgets_end x
          have hstop : ∀ fuel, sectionLoop (sectionHeader s) key w fuel ⟨x, x.length, true⟩ =
              ⟨x, x.length, true⟩ := by
            intro fuel
            cases fuel with
            | zero => rfl
            | succ fuel => simp [sectionLoop]
          simp [sectionLoop, hend, skipped, firstChar, targetLine, writtenAt, hstop]
  | cons l ls ih =>
      cases fuel with
      | zero => cases hfuel
      | succ fuel =>
          have hl : PlainLine l := hls l List.mem_cons_self
          have hrest : ∀ l' ∈ ls, PlainLine l' := fun l' h => hls l' (List.mem_cons_of_mem _ h)
          have hfuel' : ls.length < fuel := Nat.lt_of_succ_lt_succ hfuel
          -- A line that is no header of the section is passed over.
          have hnext : (sectionLoop (sectionHeader s) key w fuel
              ⟨x ++ (l ++ newline :: unlines newline ls),
                (x ++ (l ++ [newline])).length, false⟩).text =
              writtenAt w x (l :: ls) ((targetLine (sectionHeader s) key ls).map (· + 1)) := by
            rw [← writtenAt_cons, ← ih (x ++ (l ++ [newline])) hrest fuel hfuel']
            simp
          rw [unlines_cons, sectionLoop, if_neg (by simp), fgets_line hl, targetLine]
          dsimp only
          by_cases hskip : skipped (l ++ [newline]) = true
          · rw [if_pos hskip, if_neg (not_prefix_of_skipped hskip)]
            exact hnext
          · rw [if_neg hskip]
            by_cases hsect : sectionHeader s <+: l ++ [newline]
            · rw [if_pos ((startsWith_line hl).2 hsect), if_pos hsect, ← writtenAt_cons,
                ← keyLoop_eq key w (x ++ (l ++ [newline])) ls hrest fuel hfuel']
              simp
            · rw [if_neg (fun h => hsect ((startsWith_line hl).1 h)), if_neg hsect]
              exact hnext

theorem length_le_unlines (ls : List Bytes) : ls.length ≤ (unlines newline ls).length := by
  induction ls with
  | nil => simp
  | cons l ls ih =>
      rw [unlines_cons, List.length_append, List.length_cons, List.length_cons]
      omega

/-- What the writer does to a text made of plain lines: it overwrites the target line, if there is
one, provided that neither string buffer overflows. -/
theorem writeStringVlaue_eq (s key val : Bytes) (ls : List Bytes)
    (hls : ∀ l ∈ ls, PlainLine l) :
    writeStringVlaue s key val (unlines newline ls) =
      if (sectionHeader s).length < SECTION_MAX_LEN ∧
          (keyValueLine key val).length < LINE_CONTENT_MAX_LEN then
        some (writtenAt (keyValueLine key val) [] ls (targetLine (sectionHeader s) key ls))
      else none := by
  have hfuel : ls.length < (unlines newline ls).length + 2 := by
    have hle := length_le_unlines ls
    omega
  have hloop := sectionLoop_eq s key (keyValueLine key val) [] ls hls _ hfuel
  rw [List.nil_append] at hloop
  by_cases hsect : (sectionHeader s).length < SECTION_MAX_LEN
  · by_cases hline : (keyValueLine key val).length < LINE_CONTENT_MAX_LEN
    · rw [writeStringVlaue, if_pos hsect, iniWriteValue, if_pos hline, if_pos ⟨hsect, hline⟩,
        ← hloop]
      rfl
    · rw [writeStringVlaue, if_pos hsect, iniWriteValue, if_neg hline,
        if_neg (fun h => hline h.2)]
  · rw [writeStringVlaue, if_neg hsect, if_neg (fun h => hsect h.1)]

end ConfigItem
end LinuxLearn
