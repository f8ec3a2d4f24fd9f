import LinuxLearn.Lib.Lines
import LinuxLearn.Lib.Machine
import LinuxLearn.Lib.Shell

/-!
# DirHistory — the directory history of `qcd`

The script `qcd` keeps a history of directories in a text file.  Each line has a number and a
directory; `-s` inserts a line at a given position, `-d` takes one out, and `-e` looks one up.  All
of them go through the file line by line and write the numbers anew.

The loops run in the last part of a pipeline, so `exit 1` leaves the loop and not the script.
-/

namespace LinuxLearn
namespace Qcd

open Lib

/-! ## Lines -/

/-- Blanks, the backslash and the characters with a meaning for the shell. -/
def specials : Text :=
  [9, 10, 32, 33, 34, 35, 36, 37, 38, 39, 40, 41, 42, 59, 60, 61, 62, 63, 91, 92, 93, 94, 96, 123,
    124, 125, 126]

/-- An absolute directory name. -/
structure Dir where
  name : Text
  absolute : name.head? = some 47
  plain : ∀ c ∈ name, c ∉ specials
  deriving DecidableEq

/-- `echo "$num  $content"` -/
def echoLine (num content : Text) : Text :=
  num ++ 32 :: 32 :: content

/-! ## The script -/

/-- The loop of `-s`; `newNum` counts the lines written. -/
def insertLoop (pos enterDir : Text) : Nat → Bool → List Text → List Text
  | _, _, [] => []
  | newNum, flag, line :: lines =>
      let (num, content) := readFields line
      match (testInt num).map fun n => if flag then n + 1 else n with
      | none => []
      | some num =>
          if 20 < num then []
          else if testInt pos = some num then
            echoLine pos enterDir :: echoLine (decimalNat (newNum + 2)) content ::
              insertLoop pos enterDir (newNum + 2) true lines
          else
            echoLine (decimalNat (newNum + 1)) content ::
              insertLoop pos enterDir (newNum + 1) flag lines

/-- `-s dir [p]` -/
def handleS (history : List Text) (enterDir : Text) (p : Option Text) : List Text :=
  let lineNum := history.length
  let pos := p.getD (decimalNat 1)
  if testGt pos (decimalNat lineNum) = some true then
    history ++ [echoLine (decimalNat (lineNum + 1)) enterDir]
  else if lineNum = 0 then history ++ [echoLine pos enterDir]
  else insertLoop pos enterDir 0 false history

/-- The loop of `-d`. -/
def deleteLoop (pos : Text) : Nat → List Text → List Text
  | _, [] => []
  | newNum, line :: lines =>
      let (num, content) := readFields line
      if testInt num ≠ none ∧ testInt num = testInt pos then deleteLoop pos newNum lines
      else echoLine (decimalNat (newNum + 1)) content :: deleteLoop pos (newNum + 1) lines

/-- `-d [p]`; the default is the last entry. -/
def handleD (history : List Text) (p : Option Text) : List Text :=
  let lineNum := decimalNat history.length
  let pos := p.getD lineNum
  if testGt pos lineNum = some false then deleteLoop pos 0 history else history

/-- `sed "s/$pat//"`, for a pattern that stands for itself. -/
def sedRemove (pat : Text) : Text → Text
  | [] => []
  | c :: line =>
      if pat.isPrefixOf (c :: line) then (c :: line).drop pat.length else c :: sedRemove pat line

/-- `-e p`: the lines written to `$QD`, if there is an entry with this number. -/
def handleE (history : List Text) (p : Text) : Option (List Text) :=
  if p ∈ history.map cutFirst then
    some ((history.filter fun line => (p ++ [32]).isPrefixOf line).map (sedRemove (p ++ [32, 32])))
  else none

/-- A call of the script; a position is given by its decimal digits. -/
inductive Call
  | save (dir : Dir) (p : Option ℕ+)
  | delete (p : Option Nat)
  | enter (p : Nat)

/-- The history file, and what the last call wrote to `$QD`. -/
structure Files where
  history : List Text
  qd : Option (List Text)
  deriving DecidableEq, Repr

def Files.call (f : Files) : Call → Files
  | .save dir p => ⟨handleS f.history dir.name (p.map fun p => decimalNat p), none⟩
  | .delete p => ⟨handleD f.history (p.map decimalNat), none⟩
  | .enter p => ⟨f.history, handleE f.history (decimalNat p)⟩

/-! ## What the calls should do -/

/-- The directories in order, and what the last call looked up. -/
structure Dirs where
  dirs : List Dir
  found : Option Dir

/-- Positions count from 1. -/
def Dirs.call (a : Dirs) : Call → Dirs
  | .save dir p =>
      let pos := (p.map PNat.val).getD 1
      ⟨(a.dirs.insertIdx (min pos (a.dirs.length + 1) - 1) dir).take 20, none⟩
  | .delete none => ⟨a.dirs.dropLast, none⟩
  | .delete (some 0) => ⟨a.dirs, none⟩
  | .delete (some (p + 1)) => ⟨a.dirs.eraseIdx p, none⟩
  | .enter 0 => ⟨a.dirs, none⟩
  | .enter (p + 1) => ⟨a.dirs, a.dirs[p]?⟩

/-- The lines of a list of directories, numbered from `k` on. -/
def numbered : Nat → List Dir → List Text
  | _, [] => []
  | k, d :: ds => echoLine (decimalNat k) d.name :: numbered (k + 1) ds

/-- The files beside the directories that they should hold. -/
structure Run where
  files : Files
  spec : Dirs

/-- The file holds at most 20 lines, which are numbered from 1 on and give the directories, and the
last lookup has found the right one. -/
structure Right (s : Run) : Prop where
  lines : s.files.history = numbered 1 s.spec.dirs
  atMost : s.spec.dirs.length ≤ 20
  entered : s.files.qd = s.spec.found.map fun d => [d.name]

instance (s : Run) : Decidable (Right s) :=
  decidable_of_iff (s.files.history = numbered 1 s.spec.dirs ∧ s.spec.dirs.length ≤ 20 ∧
      s.files.qd = s.spec.found.map fun d => [d.name])
    ⟨fun h => ⟨h.1, h.2.1, h.2.2⟩, fun h => ⟨h.lines, h.atMost, h.entered⟩⟩

def calls : Machine Run Call Empty where
  init := ⟨⟨[], none⟩, ⟨[], none⟩⟩
  step s c := .ok ⟨s.files.call c, s.spec.call c⟩

/-- The condition on an insertion: it does not use a position from 20 on when the file holds 20
lines.  A position out of the range of `test` is never found, which is right only if the new entry
would be dropped. -/
def PositionOk (s : Run) : Call → Prop
  | .save _ p =>
      let pos : Nat := (p.map PNat.val).getD 1
      if (pos : Int) ≤ intMax then s.files.history.length < 20 ∨ pos < 20
      else s.files.history.length = 20
  | _ => True

/-! ## Numbered lines -/

theorem Dir.not_blank (d : Dir) {c : UInt8} (hc : c ∈ d.name) : isBlank c = false := by
  have hplain := d.plain c hc
  have h32 : c ≠ 32 := by
    rintro rfl
    exact hplain (by decide)
  have h9 : c ≠ 9 := by
    rintro rfl
    exact hplain (by decide)
  simp [isBlank, h32, h9]

theorem decimalNat_not_blank {n : Nat} {c : UInt8} (hc : c ∈ decimalNat n) : isBlank c = false :=
  isBlank_of_isDigit (isDigit_of_mem_decimalNat hc)

theorem readFields_echoLine (n : Nat) (d : Dir) :
    readFields (echoLine (decimalNat n) d.name) = (decimalNat n, d.name) :=
  readFields_words (fun _ hc => decimalNat_not_blank hc) (fun _ hc => d.not_blank hc)
    (decimalNat_ne_nil n)

theorem cutFirst_echoLine (n : Nat) (content : Text) :
    cutFirst (echoLine (decimalNat n) content) = decimalNat n :=
  cutFirst_words fun _ hc => decimalNat_not_blank hc

theorem length_numbered (k : Nat) (ds : List Dir) : (numbered k ds).length = ds.length := by
  induction ds generalizing k with
  | nil => rfl
  | cons d ds ih => simp [numbered, ih]

theorem numbered_append (k : Nat) (ds es : List Dir) :
    numbered k (ds ++ es) = numbered k ds ++ numbered (k + ds.length) es := by
  induction ds generalizing k with
  | nil => rfl
  | cons d ds ih =>
      rw [List.cons_append, numbered, numbered, ih, List.cons_append, List.length_cons]
      congr 3
      omega

/-- Line numbers are small enough for `test`. -/
theorem testInt_small {n : Nat} (hn : n ≤ 1000) : testInt (decimalNat n) = some (n : Int) := by
  rw [testInt_decimalNat, if_pos]
  unfold intMax
  omega

/-! ## The loops -/

/-- Once the new line is written, the loop of `-s` shifts the lines and stops at the limit. -/
theorem insertLoop_shift {pos enterDir : Text} {k : Nat} {ds : List Dir} (hk : k + ds.length ≤ 100)
    (hpos : ∀ n : Nat, k < n → testInt pos ≠ some (n : Int)) :
    insertLoop pos enterDir k true (numbered k ds) = numbered (k + 1) (ds.take (20 - k)) := by
  induction ds generalizing k with
  | nil =>
      rw [List.take_nil]
      rfl
  | cons d ds ih =>
      rw [List.length_cons] at hk
      have hnum : testInt (decimalNat k) = some (k : Int) := testInt_small (by omega)
      have hne := hpos (k + 1) (Nat.lt_succ_self k)
      rw [Nat.cast_succ] at hne
      simp only [numbered, insertLoop, readFields_echoLine, hnum, Option.map_some, if_true,
        if_neg hne]
      by_cases hlimit : (20 : Int) < (k : Int) + 1
      · have hzero : 20 - k = 0 := by omega
        rw [if_pos hlimit, hzero, List.take_zero]
        rfl
      · have hsucc : 20 - k = 20 - (k + 1) + 1 := by omega
        rw [if_neg hlimit, ih (by omega) fun n hn => hpos n (by omega), hsucc,
          List.take_succ_cons, numbered]

/-- A position that is not met changes nothing. -/
theorem insertLoop_same {pos enterDir : Text} {k : Nat} {ds : List Dir} (hk : k + ds.length ≤ 20)
    (hpos : ∀ n : Nat, k < n → testInt pos ≠ some (n : Int)) :
    insertLoop pos enterDir k false (numbered (k + 1) ds) = numbered (k + 1) ds := by
  induction ds generalizing k with
  | nil => rfl
  | cons d ds ih =>
      rw [List.length_cons] at hk
      have hnum : testInt (decimalNat (k + 1)) = some ((k + 1 : Nat) : Int) :=
        testInt_small (by omega)
      have hlimit : ¬ (20 : Int) < ((k + 1 : Nat) : Int) := by omega
      simp only [numbered, insertLoop, readFields_echoLine, hnum, Option.map_some,
        Bool.false_eq_true, if_false, if_neg hlimit, if_neg (hpos (k + 1) (Nat.lt_succ_self k))]
      rw [ih (by omega) fun n hn => hpos n (by omega)]

/-- The loop of `-s`.  The line that held the position before is written without a look at the
limit, so an insertion at position 20 gives 21 lines. -/
theorem insertLoop_numbered {p k : Nat} {dir : Dir} {ds : List Dir} (hk : k + ds.length ≤ 20)
    (hlow : k < p) (hhigh : p ≤ k + ds.length) :
    insertLoop (decimalNat p) dir.name k false (numbered (k + 1) ds) =
      numbered (k + 1) ((ds.insertIdx (p - (k + 1)) dir).take (max 20 (p + 1) - k)) := by
  have hp : testInt (decimalNat p) = some (p : Int) := testInt_small (by omega)
  -- By induction on the lines up to the position.
  induction ds generalizing k with
  | nil =>
      rw [List.length_nil] at hhigh
      omega
  | cons d ds ih =>
      rw [List.length_cons] at hk hhigh
      have hnum : testInt (decimalNat (k + 1)) = some ((k + 1 : Nat) : Int) :=
        testInt_small (by omega)
      have hlimit : ¬ (20 : Int) < ((k + 1 : Nat) : Int) := by omega
      simp only [numbered, insertLoop, readFields_echoLine, hnum, Option.map_some,
        Bool.false_eq_true, if_false, if_neg hlimit, hp, Option.some.injEq, Nat.cast_inj]
      by_cases heq : p = k + 1
      · have hshift : insertLoop (decimalNat p) dir.name (k + 2) true (numbered (k + 2) ds) =
            numbered (k + 3) (ds.take (20 - (k + 2))) := by
          apply insertLoop_shift (by omega)
          intro n hn
          rw [hp, heq]
          intro h
          have h' := Option.some.inj h
          omega
        have hcount : max 20 (p + 1) - k = 20 - (k + 2) + 1 + 1 := by omega
        have hzero : p - (k + 1) = 0 := by omega
        rw [if_pos heq, hshift, hcount, hzero, List.insertIdx_zero, List.take_succ_cons,
          List.take_succ_cons, heq]
        rfl
      · have hcount : max 20 (p + 1) - k = max 20 (p + 1) - (k + 1) + 1 := by omega
        have hindex : p - (k + 1) = p - (k + 1 + 1) + 1 := by omega
        rw [if_neg heq, ih (by omega) (by omega) (by omega), hcount, hindex,
          List.insertIdx_succ_cons, List.take_succ_cons, numbered]

theorem deleteLoop_same {pos : Text} {j k : Nat} {ds : List Dir} (hj : j + ds.length ≤ 100)
    (hpos : ∀ n : Nat, j ≤ n → testInt pos ≠ some (n : Int)) :
    deleteLoop pos k (numbered j ds) = numbered (k + 1) ds := by
  induction ds generalizing j k with
  | nil => rfl
  | cons d ds ih =>
      rw [List.length_cons] at hj
      have hnum : testInt (decimalNat j) = some (j : Int) := testInt_small (by omega)
      have hne : ¬ (some (j : Int) ≠ none ∧ some (j : Int) = testInt pos) := fun h =>
        hpos j le_rfl h.2.symm
      simp only [numbered, deleteLoop, readFields_echoLine, hnum, if_neg hne]
      rw [ih (by omega) fun n hn => hpos n (by omega)]

/-- The loop of `-d` leaves out the line with the given number. -/
theorem deleteLoop_numbered {p k : Nat} {ds : List Dir} (hk : k + ds.length ≤ 20) (hlow : k < p) :
    deleteLoop (decimalNat p) k (numbered (k + 1) ds) =
      numbered (k + 1) (ds.eraseIdx (p - (k + 1))) := by
  induction ds generalizing k with
  | nil => rfl
  | cons d ds ih =>
      rw [List.length_cons] at hk
      have hnum : testInt (decimalNat (k + 1)) = some ((k + 1 : Nat) : Int) :=
        testInt_small (by omega)
      simp only [numbered, deleteLoop, readFields_echoLine, hnum]
      by_cases heq : p = k + 1
      · have hzero : p - (k + 1) = 0 := by omega
        have hrest : deleteLoop (decimalNat p) k (numbered (k + 2) ds) = numbered (k + 1) ds := by
          apply deleteLoop_same (by omega)
          intro n hn
          rw [heq, hnum]
          intro h
          have h' := Option.some.inj h
          omega
        rw [if_pos ⟨Option.some_ne_none _, by rw [heq, hnum]⟩, hrest, hzero,
          List.eraseIdx_cons_zero]
      · have hindex : p - (k + 1) = p - (k + 1 + 1) + 1 := by omega
        have hne : ¬ (some ((k + 1 : Nat) : Int) ≠ none ∧
            some ((k + 1 : Nat) : Int) = testInt (decimalNat p)) := by
          rintro ⟨_, h⟩
          rw [testInt_decimalNat] at h
          split at h
          · have h' := Option.some.inj h
            omega
          · cases h
        rw [if_neg hne, ih (by omega) (by omega), hindex, List.eraseIdx_cons_succ, numbered]

/-! ## Lookups -/

theorem mem_cutFirst_numbered {p k : Nat} {ds : List Dir} :
    decimalNat p ∈ (numbered k ds).map cutFirst ↔ k ≤ p ∧ p < k + ds.length := by
  induction ds generalizing k with
  | nil =>
      simp only [numbered, List.map_nil, List.not_mem_nil, List.length_nil, false_iff]
      omega
  | cons d ds ih =>
      rw [numbered, List.map_cons, List.mem_cons, cutFirst_echoLine, ih, List.length_cons]
      constructor
      · rintro (heq | hrest)
        · have hpk := decimalNat_injective heq
          omega
        · omega
      · intro h
        by_cases hpk : p = k
        · exact Or.inl (by rw [hpk])
        · right
          omega

/-- `grep "^$p "` tells the numbers apart. -/
theorem isPrefixOf_echoLine (p k : Nat) (content : Text) :
    (decimalNat p ++ [32]).isPrefixOf (echoLine (decimalNat k) content) = decide (p = k) := by
  have hnotin : ∀ n, (32 : UInt8) ∉ decimalNat n := by
    intro n hn
    exact absurd (decimalNat_not_blank hn) (by decide)
  rw [Bool.eq_iff_iff, List.isPrefixOf_iff_prefix, decide_eq_true_eq]
  constructor
  · rintro ⟨rest, hrest⟩
    rw [List.append_assoc, List.singleton_append, echoLine] at hrest
    exact decimalNat_injective (append_sep_inj (hnotin p) (hnotin k) hrest).1
  · rintro rfl
    exact ⟨32 :: content, by simp [echoLine]⟩

theorem sedRemove_echoLine (p : Nat) (content : Text) :
    sedRemove (decimalNat p ++ [32, 32]) (echoLine (decimalNat p) content) = content := by
  have hline : echoLine (decimalNat p) content = decimalNat p ++ [32, 32] ++ content := by
    simp [echoLine]
  rw [hline]
  cases hcons : decimalNat p ++ [32, 32] ++ content with
  | nil => simp at hcons
  | cons c line =>
      -- The pattern is found at the start of the line.
      have hpat : (decimalNat p ++ [32, 32]).isPrefixOf (c :: line) = true := by
        rw [List.isPrefixOf_iff_prefix, ← hcons]
        exact List.prefix_append _ _
      rw [sedRemove, if_pos hpat, ← hcons, List.drop_left]

theorem lookup_numbered (p k : Nat) (ds : List Dir) :
    ((numbered k ds).filter fun line => (decimalNat p ++ [32]).isPrefixOf line).map
        (sedRemove (decimalNat p ++ [32, 32])) =
      if k ≤ p then (ds[p - k]?).toList.map Dir.name else [] := by
  induction ds generalizing k with
  | nil => simp [numbered]
  | cons d ds ih =>
      rw [numbered, List.filter_cons, isPrefixOf_echoLine]
      by_cases hpk : p = k
      · have hdone : ¬ k + 1 ≤ k := by omega
        subst hpk
        rw [if_pos (decide_eq_true rfl), List.map_cons, sedRemove_echoLine, ih, if_neg hdone,
          if_pos le_rfl, Nat.sub_self]
        rfl
      · have hnot : ¬ decide (p = k) = true := by simpa using hpk
        rw [if_neg hnot, ih]
        by_cases hle : k + 1 ≤ p
        · have hsub : p - k = p - (k + 1) + 1 := by omega
          rw [if_pos hle, if_pos (by omega), hsub, List.getElem?_cons_succ]
        · rw [if_neg hle, if_neg (by omega)]

theorem handleE_numbered (p : Nat) (ds : List Dir) :
    handleE (numbered 1 ds) (decimalNat p) =
      (if p = 0 then none else ds[p - 1]?).map fun d => [d.name] := by
  rw [handleE, lookup_numbered]
  by_cases hmem : decimalNat p ∈ (numbered 1 ds).map cutFirst
  · rw [if_pos hmem]
    rw [mem_cutFirst_numbered] at hmem
    have hlt : p - 1 < ds.length := by omega
    rw [if_pos hmem.1, if_neg (by omega), List.getElem?_eq_getElem hlt]
    rfl
  · rw [if_neg hmem]
    rw [mem_cutFirst_numbered] at hmem
    by_cases hzero : p = 0
    · rw [if_pos hzero]
      rfl
    · rw [if_neg hzero, List.getElem?_eq_none (by omega)]
      rfl

/-! ## Insertions and deletions -/

section Save

variable {ds : List Dir} {q : Nat} {p : Option Text} (dir : Dir)

theorem testGt_length (hn : ds.length ≤ 20) :
    testGt (decimalNat q) (decimalNat (numbered 1 ds).length) =
      if (q : Int) ≤ intMax then some (decide (ds.length < q)) else none := by
  have hlength : testInt (decimalNat ds.length) = some (ds.length : Int) := testInt_small (by omega)
  rw [testGt, length_numbered, testInt_decimalNat, hlength]
  by_cases hmax : (q : Int) ≤ intMax
  · simp [if_pos hmax]
  · simp [if_neg hmax]

/-- A position behind the last line. -/
theorem handleS_append (hn : ds.length ≤ 20) (hp : p.getD (decimalNat 1) = decimalNat q)
    (hmax : (q : Int) ≤ intMax) (hlt : ds.length < q) :
    handleS (numbered 1 ds) dir.name p = numbered 1 (ds ++ [dir]) := by
  rw [handleS, hp, testGt_length hn, if_pos hmax, if_pos (by rw [decide_eq_true hlt]),
    numbered_append, length_numbered, Nat.add_comm 1 ds.length]
  rfl

theorem handleS_insert (hn : ds.length ≤ 20) (hp : p.getD (decimalNat 1) = decimalNat q)
    (hq : 1 ≤ q) (hle : q ≤ ds.length) :
    handleS (numbered 1 ds) dir.name p =
      numbered 1 ((ds.insertIdx (q - 1) dir).take (max 20 (q + 1))) := by
  have hmax : (q : Int) ≤ intMax := by
    unfold intMax
    omega
  have hloop : insertLoop (decimalNat q) dir.name 0 false (numbered (0 + 1) ds) = _ :=
    insertLoop_numbered (by omega) (by omega) (by omega)
  rw [handleS, hp, testGt_length hn, if_pos hmax, if_neg (by simp [hle]),
    if_neg (by rw [length_numbered]; omega), hloop]
  rfl

/-- A position that `test` refuses. -/
theorem handleS_refused (hn : ds.length ≤ 20) (hp : p.getD (decimalNat 1) = decimalNat q)
    (hmax : ¬ (q : Int) ≤ intMax) :
    handleS (numbered 1 ds) dir.name p =
      if ds.length = 0 then [echoLine (decimalNat q) dir.name] else numbered 1 ds := by
  have hnever : ∀ n : Nat, 0 < n → testInt (decimalNat q) ≠ some (n : Int) := by
    intro n _
    rw [testInt_decimalNat, if_neg hmax]
    exact fun h => nomatch h
  rw [handleS, hp, testGt_length hn, if_neg hmax, if_neg (fun h => nomatch h), length_numbered]
  split
  · rename_i hzero
    rw [List.eq_nil_of_length_eq_zero hzero]
    rfl
  · exact insertLoop_same (by omega) hnever

/-- A line at the end is right as long as the file has room for it. -/
theorem append_right_iff (hn : ds.length ≤ 20) :
    numbered 1 (ds ++ [dir]) = numbered 1 ((ds ++ [dir]).take 20) ↔ ds.length < 20 := by
  constructor
  · intro h
    have hlength := congrArg List.length h
    simp only [length_numbered, List.length_take, List.length_append, List.length_singleton]
      at hlength
    omega
  · intro h
    rw [List.take_of_length_le]
    rw [List.length_append, List.length_singleton]
    omega

/-- The loop stops after 20 lines, but not before it has written the new one and the next. -/
theorem insert_right_iff (hq : 1 ≤ q) (hle : q ≤ ds.length) (hn : ds.length ≤ 20) :
    numbered 1 ((ds.insertIdx (q - 1) dir).take (max 20 (q + 1))) =
        numbered 1 ((ds.insertIdx (q - 1) dir).take 20) ↔ ds.length < 20 ∨ q < 20 := by
  constructor
  · intro h
    have hinsert : (ds.insertIdx (q - 1) dir).length = ds.length + 1 :=
      List.length_insertIdx_of_le_length (by omega) dir
    have hlength := congrArg List.length h
    simp only [length_numbered, List.length_take, hinsert] at hlength
    omega
  · intro h
    have hcount : max 20 (q + 1) = 20 := by omega
    rw [hcount]

/-- Nothing is inserted, or a line with the wrong number; that is right for a full file only. -/
theorem refused_right_iff (hmax : ¬ (q : Int) ≤ intMax) :
    (if ds.length = 0 then [echoLine (decimalNat q) dir.name] else numbered 1 ds) =
        numbered 1 ((ds ++ [dir]).take 20) ↔ ds.length = 20 := by
  constructor
  · intro h
    by_contra hne
    split at h
    · -- The line has the wrong number.
      rename_i hzero
      rw [List.eq_nil_of_length_eq_zero hzero] at h
      have hnum := congrArg (List.map cutFirst) h
      simp only [List.nil_append, List.take_succ_cons, List.take_nil, numbered, List.map_cons,
        List.map_nil, cutFirst_echoLine, List.cons.injEq, and_true] at hnum
      have hone := decimalNat_injective hnum
      unfold intMax at hmax
      omega
    · have hlength := congrArg List.length h
      simp only [length_numbered, List.length_take, List.length_append, List.length_singleton]
        at hlength
      omega
  · intro h
    have htake : (ds ++ [dir]).take 20 = ds := by
      rw [← h, List.take_left]
    rw [if_neg (by omega), htake]

/-- The file after an insertion is the right one exactly under the condition. -/
theorem handleS_right_iff (hn : ds.length ≤ 20) (hp : p.getD (decimalNat 1) = decimalNat q)
    (hq : 1 ≤ q) :
    handleS (numbered 1 ds) dir.name p =
        numbered 1 ((ds.insertIdx (min q (ds.length + 1) - 1) dir).take 20) ↔
      if (q : Int) ≤ intMax then ds.length < 20 ∨ q < 20 else ds.length = 20 := by
  by_cases hmax : (q : Int) ≤ intMax
  · rw [if_pos hmax]
    by_cases hlt : ds.length < q
    · have hindex : min q (ds.length + 1) - 1 = ds.length := by omega
      rw [handleS_append dir hn hp hmax hlt, hindex, List.insertIdx_length_self,
        append_right_iff dir hn]
      omega
    · have hindex : min q (ds.length + 1) - 1 = q - 1 := by omega
      rw [handleS_insert dir hn hp hq (by omega), hindex]
      exact insert_right_iff dir hq (by omega) hn
  · have hindex : min q (ds.length + 1) - 1 = ds.length := by
      unfold intMax at hmax
      omega
    rw [if_neg hmax, handleS_refused dir hn hp hmax, hindex, List.insertIdx_length_self]
    exact refused_right_iff dir hmax

end Save

theorem handleD_default {ds : List Dir} (hn : ds.length ≤ 20) :
    handleD (numbered 1 ds) none = numbered 1 ds.dropLast := by
  have hmax : (ds.length : Int) ≤ intMax := by
    unfold intMax
    omega
  have hgt := testGt_length (q := ds.length) hn
  rw [if_pos hmax, decide_eq_false (Nat.lt_irrefl _), length_numbered] at hgt
  rw [handleD, Option.getD_none, length_numbered, hgt, if_pos rfl]
  cases hlength : ds.length with
  | zero =>
      rw [List.eq_nil_of_length_eq_zero hlength]
      rfl
  | succ n =>
      rw [deleteLoop_numbered (by omega) (Nat.succ_pos n), List.dropLast_eq_eraseIdx hlength.symm]
      rfl

theorem handleD_position {ds : List Dir} (hn : ds.length ≤ 20) (p : Nat) :
    handleD (numbered 1 ds) (some (decimalNat p)) =
      numbered 1 (if p = 0 then ds else ds.eraseIdx (p - 1)) := by
  rw [handleD, Option.getD_some, testGt_length hn]
  by_cases hle : p ≤ ds.length
  · have hmax : (p : Int) ≤ intMax := by
      unfold intMax
      omega
    rw [if_pos hmax, if_pos (by simp [hle])]
    by_cases hzero : p = 0
    · -- No line has the number 0.
      rw [if_pos hzero]
      apply deleteLoop_same (by omega)
      intro n hn'
      rw [hzero, testInt_small (Nat.zero_le _)]
      intro h
      have h' := Option.some.inj h
      omega
    · rw [if_neg hzero]
      exact deleteLoop_numbered (by omega) (Nat.pos_of_ne_zero hzero)
  · have hkeep : ¬ (if (p : Int) ≤ intMax then some (decide (ds.length < p)) else none) =
        some false := by
      split
      · simpa using hle
      · exact fun h => nomatch h
    rw [if_neg hkeep, if_neg (by omega), List.eraseIdx_of_length_le (by omega)]

/-! ## Whole runs -/

section Calls

variable {ds : List Dir} {found : Option Dir} {qd : Option (List Text)}

theorem right_save (hn : ds.length ≤ 20) (dir : Dir) (p : Option PNat) :
    Right ⟨(Files.mk (numbered 1 ds) qd).call (.save dir p),
        (Dirs.mk ds found).call (.save dir p)⟩ ↔
      PositionOk ⟨⟨numbered 1 ds, qd⟩, ⟨ds, found⟩⟩ (.save dir p) := by
  have hp : (p.map fun p => decimalNat p).getD (decimalNat 1) =
      decimalNat ((p.map PNat.val).getD 1) := by
    cases p with
    | none => rfl
    | some q => rfl
  have hq : 1 ≤ (p.map PNat.val).getD 1 := by
    cases p with
    | none => exact le_rfl
    | some q => exact q.pos
  have hiff := handleS_right_iff dir hn hp hq
  rw [PositionOk, length_numbered, ← hiff]
  constructor
  · exact fun h => h.lines
  · intro h
    exact ⟨h, by simp [Dirs.call], rfl⟩

theorem right_delete (hn : ds.length ≤ 20) (p : Option Nat) :
    Right ⟨(Files.mk (numbered 1 ds) qd).call (.delete p),
      (Dirs.mk ds found).call (.delete p)⟩ := by
  cases p with
  | none =>
      have hlength : ds.dropLast.length ≤ ds.length := by simp
      exact ⟨handleD_default hn, hlength.trans hn, rfl⟩
  | some p =>
      cases p with
      | zero => exact ⟨handleD_position hn 0, hn, rfl⟩
      | succ p => exact ⟨handleD_position hn (p + 1), (List.length_eraseIdx_le ds p).trans hn, rfl⟩

theorem right_enter (hn : ds.length ≤ 20) (p : Nat) :
    Right ⟨(Files.mk (numbered 1 ds) qd).call (.enter p), (Dirs.mk ds found).call (.enter p)⟩ := by
  cases p with
  | zero => exact ⟨rfl, hn, handleE_numbered 0 ds⟩
  | succ p => exact ⟨rfl, hn, handleE_numbered (p + 1) ds⟩

end Calls

/-- The step lemma: what a call leaves is right exactly if its position is. -/
theorem right_call {s : Run} (hs : Right s) (c : Call) :
    Right ⟨s.files.call c, s.spec.call c⟩ ↔ PositionOk s c := by
  rcases s with ⟨⟨history, qd⟩, ⟨ds, found⟩⟩
  rcases hs with ⟨hlines, hn, _⟩
  change history = numbered 1 ds at hlines
  subst hlines
  cases c with
  | save dir p => exact right_save hn dir p
  | delete p => exact iff_of_true (right_delete hn p) trivial
  | enter p => exact iff_of_true (right_enter hn p) trivial

/-- In every run, the file is right after each call exactly if all positions are. -/
theorem history_right_iff (cs : List Call) :
    calls.EveryState Right calls.init cs ↔ calls.EveryStep PositionOk calls.init cs := by
  have hinit : Right calls.init := ⟨rfl, Nat.zero_le _, rfl⟩
  have hstep : ∀ s c t, True → Right s → calls.step s c = .ok t →
      (Right t ↔ PositionOk s c) ∧ (Right t → True) := by
    intro s c t _ hs ht
    cases ht
    exact ⟨right_call hs c, fun _ => trivial⟩
  rw [calls.everyState_iff_everyTakenStep hstep trivial hinit cs, Machine.EveryTakenStep]
  -- Every call is taken.
  apply calls.everyStep_congr (A := fun _ => True) (fun _ _ _ _ _ => trivial) _ trivial
  intro s c _
  exact imp_iff_right ⟨_, rfl⟩

def root : Dir :=
  ⟨[47], rfl, List.forall_mem_singleton.2 (by decide)⟩

/-- Twenty insertions fill the file, and one at position 20 writes a line too many. -/
def fullHistory : List Call :=
  List.replicate 20 (.save root none) ++ [.save root (some 20)]

theorem full_history_gets_21_lines : ¬ ∀ cs, calls.EveryState Right calls.init cs := by
  intro h
  have hrun := h fullHistory
  revert hrun
  decide +kernel

end Qcd
end LinuxLearn
