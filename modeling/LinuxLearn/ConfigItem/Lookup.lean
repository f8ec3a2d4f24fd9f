import LinuxLearn.ConfigItem.Update

/-!
# Lookup — the INI reader of `config_file.c`

`IniReadValue` scans a file as the writer does.  Behind the section header it copies what follows
the first `=` of each line that starts with the key into the buffer of the caller, and then looks
for the end of the line to cut it off: in the line, but with the index of the value.

The buffer of the caller is a list of bytes; a string function that runs past its end is a fault.
-/

namespace LinuxLearn
namespace ConfigItem

open Lib

/-! ## `IniReadValue` -/

abbrev STRVALUE_MAX_LEN : Nat := 256

inductive BufferFault
  | writePastEnd
  | readPastEnd
  deriving DecidableEq, Repr

/-- What the reader prints when it has not found what it was asked for. -/
inductive Message
  | noSection (sect : Bytes)
  | noKey (key : Bytes)
  deriving DecidableEq, Repr

/-- The index of the first `=` behind the key. -/
def findEquals (lineContent key : Bytes) : Option Nat :=
  (((stringIn lineContent).drop key.length).findIdx? (· == equalsSign)).map (key.length + ·)

def endsLine (c : UInt8) : Bool :=
  c == 0 || c == carriageReturn || c == newline

/-- The value is copied without a terminating zero; the line ends where `lineContent` does. -/
def copyValue (val lineContent : Bytes) (position : Nat) : Except BufferFault Bytes :=
  let value := stringIn (lineContent.drop position)
  if val.length < value.length then .error .writePastEnd
  else
    let val := value ++ val.drop value.length
    -- `strlen(val)` needs a zero somewhere.
    if 0 ∉ val then .error .readPastEnd
    else
      let i := (lineContent.takeWhile fun c => !endsLine c).length
      if i < (stringIn val).length then .ok (val.set i 0) else .ok val

/-- The inner loop, with `val` and `bFoundKey`.  It goes on after a match. -/
def valueLoop (key : Bytes) : Nat → FileStream → Bytes → Bool → Except BufferFault (Bytes × Bool)
  | 0, _, val, bFoundKey => .ok (val, bFoundKey)
  | fuel + 1, fp, val, bFoundKey =>
      if fp.eof then .ok (val, bFoundKey)
      else
        let (lineContent, fp) := fp.fgets
        if startsWith lineContent key then
          match findEquals lineContent key with
          | none => .ok (val, true)
          | some i =>
              match copyValue val lineContent (i + 1) with
              | .error e => .error e
              | .ok val => valueLoop key fuel fp val true
        else if firstChar lineContent == bracketOpen then .ok (val, bFoundKey)
        else valueLoop key fuel fp val bFoundKey

def readLoop (sect key : Bytes) :
    Nat → FileStream → Bytes → Except BufferFault (Bytes × Option Message)
  | 0, _, val => .ok (val, some (.noSection sect))
  | fuel + 1, fp, val =>
      if fp.eof then .ok (val, some (.noSection sect))
      else
        let (lineContent, fp) := fp.fgets
        if skipped lineContent then readLoop sect key fuel fp val
        else if startsWith lineContent sect then
          (valueLoop key fuel fp val false).map fun r =>
            (r.1, if r.2 then none else some (.noKey key))
        else readLoop sect key fuel fp val

def iniReadValue (sect key val text : Bytes) : Except BufferFault (Bytes × Option Message) :=
  readLoop sect key (text.length + 2) ⟨text, 0, false⟩ val

/-- The buffer of the caller afterwards, and what has been printed. -/
def readStringValue (section' key val text : Bytes) : Except BufferFault (Bytes × Option Message) :=
  let sect := sectionHeader section'
  if sect.length < SECTION_MAX_LEN then iniReadValue sect key val text else .error .writePastEnd

/-! ## The loops on a text made of lines -/

/-- The lines behind the first one that starts with the header. -/
def linesBehind (sect : Bytes) : List Bytes → Option (List Bytes)
  | [] => none
  | l :: ls => if sect <+: l ++ [newline] then some ls else linesBehind sect ls

def valueLines (key : Bytes) : List Bytes → Bytes → Bool → Except BufferFault (Bytes × Bool)
  | [], val, bFoundKey => .ok (val, bFoundKey || key == [])
  | l :: ls, val, bFoundKey =>
      if key <+: l ++ [newline] then
        match findEquals (l ++ [newline]) key with
        | none => .ok (val, true)
        | some i =>
            match copyValue val (l ++ [newline]) (i + 1) with
            | .error e => .error e
            | .ok val => valueLines key ls val true
      else if l.head? = some bracketOpen then .ok (val, bFoundKey)
      else valueLines key ls val bFoundKey

/-- The lines from which the inner loop copies a value: they start with the key and have a `=`
behind it. -/
def copied (key : Bytes) : List Bytes → List Bytes
  | [] => []
  | l :: ls =>
      if key <+: l ++ [newline] then
        if (findEquals (l ++ [newline]) key).isSome = true then l :: copied key ls else []
      else if l.head? = some bracketOpen then []
      else copied key ls

def copiedLines (sect key : Bytes) (ls : List Bytes) : List Bytes :=
  match linesBehind sect ls with
  | none => []
  | some ls => copied key ls

open FileStream

theorem valueLoop_eof (key : Bytes) (fuel : Nat) {fp : FileStream} (h : fp.eof = true) (val : Bytes)
    (bFoundKey : Bool) : valueLoop key fuel fp val bFoundKey = .ok (val, bFoundKey) := by
  cases fuel with
  | zero => rfl
  | succ fuel => rw [valueLoop, if_pos h]

theorem valueLoop_eq (key x : Bytes) (ls : List Bytes) (hls : ∀ l ∈ ls, PlainLine l) (fuel : Nat)
    (hfuel : ls.length < fuel) (val : Bytes) (bFoundKey : Bool) :
    valueLoop key fuel ⟨x ++ unlines newline ls, x.length, false⟩ val bFoundKey =
      valueLines key ls val bFoundKey := by
  -- By induction on the lines not yet read, as for the loop of the writer.
  induction ls generalizing x fuel val bFoundKey with
  | nil =>
      cases fuel with
      | zero => cases hfuel
      | succ fuel =>
          rw [unlines_nil, List.append_nil, valueLoop, if_neg (by simp), fgets_end, valueLines]
          dsimp only
          by_cases hkey : key = []
          · simp [hkey, startsWith, findEquals, stringIn]
          · have hstop : valueLoop key fuel ⟨x, x.length, true⟩ val bFoundKey =
                .ok (val, bFoundKey) := valueLoop_eof key fuel rfl val bFoundKey
            simp [hkey, startsWith, stringIn, firstChar, hstop]
  | cons l ls ih =>
      cases fuel with
      | zero => cases hfuel
      | succ fuel =>
          have hl : PlainLine l := hls l List.mem_cons_self
          have hrest : ∀ l' ∈ ls, PlainLine l' := fun l' h => hls l' (List.mem_cons_of_mem _ h)
          have hfuel' : ls.length < fuel := Nat.lt_of_succ_lt_succ hfuel
          have hnext : ∀ val bFoundKey, valueLoop key fuel
              ⟨x ++ (l ++ newline :: unlines newline ls), (x ++ (l ++ [newline])).length, false⟩
              val bFoundKey = valueLines key ls val bFoundKey := by
            intro val bFoundKey
            rw [← ih (x ++ (l ++ [newline])) hrest fuel hfuel' val bFoundKey]
            simp
          rw [unlines_cons, valueLoop, if_neg (by simp), fgets_line hl, valueLines]
          dsimp only
          by_cases hkey : key <+: l ++ [newline]
          · rw [if_pos ((startsWith_line hl).2 hkey), if_pos hkey]
            simp only [hnext]
          · rw [if_neg (fun h => hkey ((startsWith_line hl).1 h)), if_neg hkey]
            by_cases hopen : l.head? = some bracketOpen
            · rw [if_pos ((firstChar_line l).2 hopen), if_pos hopen]
            · rw [if_neg (fun h => hopen ((firstChar_line l).1 h)), if_neg hopen, hnext]

theorem readLoop_eq (s key x : Bytes) (ls : List Bytes) (hls : ∀ l ∈ ls, PlainLine l) (fuel : Nat)
    (hfuel : ls.length < fuel) (val : Bytes) :
    readLoop (sectionHeader s) key fuel ⟨x ++ unlines newline ls, x.length, false⟩ val =
      match linesBehind (sectionHeader s) ls with
      | none => .ok (val, some (.noSection (sectionHeader s)))
      | some ls => (valueLines key ls val false).map fun r =>
          (r.1, if r.2 then none else some (.noKey key)) := by
  induction ls generalizing x fuel with
  | nil =>
      cases fuel with
      | zero => cases hfuel
      | succ fuel =>
          have hstop : readLoop (sectionHeader s) key fuel ⟨x, x.length, true⟩ val =
              .ok (val, some (.noSection (sectionHeader s))) := by
            cases fuel with
            | zero => rfl
            | succ fuel => rw [readLoop, if_pos rfl]
          rw [unlines_nil, List.append_nil, readLoop, if_neg (by simp), fgets_end]
          dsimp only
          rw [if_pos (by decide), hstop]
          rfl
  | cons l ls ih =>
      cases fuel with
      | zero => cases hfuel
      | succ fuel =>
          have hl : PlainLine l := hls l List.mem_cons_self
          have hrest : ∀ l' ∈ ls, PlainLine l' := fun l' h => hls l' (List.mem_cons_of_mem _ h)
          have hfuel' : ls.length < fuel := Nat.lt_of_succ_lt_succ hfuel
          have htext : FileStream.mk (x ++ (l ++ newline :: unlines newline ls))
              (x ++ (l ++ [newline])).length false =
              ⟨(x ++ (l ++ [newline])) ++ unlines newline ls, (x ++ (l ++ [newline])).length,
                false⟩ := by
            simp
          have hrec := ih (x ++ (l ++ [newline])) hrest fuel hfuel'
          rw [unlines_cons, readLoop, if_neg (by simp), fgets_line hl, linesBehind]
          dsimp only
          by_cases hskip : skipped (l ++ [newline]) = true
          · rw [if_pos hskip, if_neg (not_prefix_of_skipped hskip), htext]
            exact hrec
          · rw [if_neg hskip]
            by_cases hsect : sectionHeader s <+: l ++ [newline]
            · rw [if_pos ((startsWith_line hl).2 hsect), if_pos hsect, htext,
                valueLoop_eq key (x ++ (l ++ [newline])) ls hrest fuel hfuel']
            · rw [if_neg (fun h => hsect ((startsWith_line hl).1 h)), if_neg hsect, htext]
              exact hrec

theorem readStringValue_eq (s key val : Bytes) (ls : List Bytes) (hls : ∀ l ∈ ls, PlainLine l)
    (hsect : (sectionHeader s).length < SECTION_MAX_LEN) :
    readStringValue s key val (unlines newline ls) =
      match linesBehind (sectionHeader s) ls with
      | none => .ok (val, some (.noSection (sectionHeader s)))
      | some ls => (valueLines key ls val false).map fun r =>
          (r.1, if r.2 then none else some (.noKey key)) := by
  have hfuel : ls.length < (unlines newline ls).length + 2 := by
    have hle := length_le_unlines ls
    omega
  rw [readStringValue, if_pos hsect, iniReadValue]
  exact readLoop_eq s key [] ls hls _ hfuel val

/-! ## What is copied -/

/-- The `=` that is found lies within the line. -/
theorem findEquals_lt {l key : Bytes} {i : Nat} (hl : PlainLine l)
    (h : findEquals (l ++ [newline]) key = some i) : i < l.length := by
  rw [findEquals, stringIn_line hl] at h
  rcases Option.map_eq_some_iff.1 h with ⟨k, hk, rfl⟩
  rcases List.findIdx?_eq_some_iff_getElem.1 hk with ⟨hlt, hequals, _⟩
  rw [List.length_drop, List.length_append, List.length_singleton] at hlt
  by_contra hge
  -- The last character is the newline.
  have hlast : key.length + k = l.length := by omega
  have hget : (l ++ [newline])[key.length + k]? = some equalsSign := by
    rw [List.getElem_drop] at hequals
    rw [List.getElem?_eq_getElem]
    exact congrArg some (by simpa using hequals)
  rw [hlast, List.getElem?_concat_length] at hget
  exact absurd (Option.some.inj hget) (by decide)

/-- The newline is copied with the value. -/
theorem stringIn_drop_line {l : Bytes} (hl : PlainLine l) {p : Nat} (hp : p ≤ l.length) :
    stringIn ((l ++ [newline]).drop p) = l.drop p ++ [newline] ∧ (0 : UInt8) ∉ l.drop p := by
  have hzero : (0 : UInt8) ∉ l.drop p := fun h => hl.noZero (List.mem_of_mem_drop h)
  rw [List.drop_append_of_le_length hp, stringIn_append hzero]
  exact ⟨rfl, hzero⟩

/-- Without a zero in the buffer `strlen` runs past its end. -/
theorem copyValue_dirty {val l : Bytes} (hl : PlainLine l) {p : Nat} (hp : p ≤ l.length)
    (hval : (0 : UInt8) ∉ val) : ∃ e, copyValue val (l ++ [newline]) p = .error e := by
  rcases stringIn_drop_line hl hp with ⟨hvalue, hzero⟩
  rw [copyValue, hvalue]
  dsimp only
  split
  · exact ⟨_, rfl⟩
  · rw [if_pos]
    · exact ⟨_, rfl⟩
    · have hne : (0 : UInt8) ≠ newline := by decide
      simp only [List.mem_append, List.mem_singleton, not_or]
      exact ⟨⟨hzero, hne⟩, fun h => hval (List.mem_of_mem_drop h)⟩

/-- The newline is looked for with the index that it has in the line, which is too large. -/
theorem copyValue_newline {val val' l : Bytes} (hl : PlainLine l) (hcr : carriageReturn ∉ l)
    {p : Nat} (hp : p ≤ l.length) (hpos : 0 < p)
    (h : copyValue val (l ++ [newline]) p = .ok val') : newline ∈ stringIn val' := by
  rcases stringIn_drop_line hl hp with ⟨hvalue, hzero⟩
  have hkeep : ∀ r : Bytes, newline ∈ stringIn (l.drop p ++ newline :: r) := by
    intro r
    rw [stringIn_append hzero, stringIn, List.takeWhile_cons_of_pos (by decide)]
    simp
  have hi : ((l ++ [newline]).takeWhile fun c => !endsLine c).length = l.length := by
    have hall : ∀ c ∈ l, (!endsLine c) = true := by
      intro c hc
      have hzero : c ≠ 0 := fun h => hl.noZero (h ▸ hc)
      have hcarriage : c ≠ carriageReturn := fun h => hcr (h ▸ hc)
      have hnewline : c ≠ newline := fun h => hl.noNewline (h ▸ hc)
      simp [endsLine, hzero, hcarriage, hnewline]
    rw [List.takeWhile_append_of_pos hall]
    simp [endsLine]
  rw [copyValue, hvalue] at h
  dsimp only at h
  split at h
  · cases h
  split at h
  · cases h
  rw [hi, List.append_assoc, List.singleton_append] at h
  split at h
  · cases h
    -- The zero is put behind the newline.
    rw [List.set_append_right _ _ (by simp)]
    have hindex : l.length - (l.drop p).length = (p - 1) + 1 := by
      rw [List.length_drop]
      omega
    rw [hindex, List.set_cons_succ]
    exact hkeep _
  · cases h
    exact hkeep _

theorem valueLines_of_copied_eq_nil {key : Bytes} {ls : List Bytes} (h : copied key ls = [])
    (val : Bytes) (bFoundKey : Bool) : ∃ b, valueLines key ls val bFoundKey = .ok (val, b) := by
  induction ls generalizing bFoundKey with
  | nil => exact ⟨_, rfl⟩
  | cons l ls ih =>
      rw [copied] at h
      rw [valueLines]
      by_cases hkey : key <+: l ++ [newline]
      · rw [if_pos hkey] at h ⊢
        cases hequals : findEquals (l ++ [newline]) key with
        | none => exact ⟨_, rfl⟩
        | some i => simp [hequals] at h
      · rw [if_neg hkey] at h ⊢
        by_cases hopen : l.head? = some bracketOpen
        · rw [if_pos hopen]
          exact ⟨_, rfl⟩
        · rw [if_neg hopen] at h ⊢
          exact ih h bFoundKey

/-- The first value copied to a buffer without a zero. -/
theorem valueLines_dirty {key : Bytes} {ls : List Bytes} (hls : ∀ l ∈ ls, PlainLine l)
    (h : copied key ls ≠ []) {val : Bytes} (hval : (0 : UInt8) ∉ val) (bFoundKey : Bool) :
    ∃ e, valueLines key ls val bFoundKey = .error e := by
  induction ls generalizing bFoundKey with
  | nil => exact absurd rfl h
  | cons l ls ih =>
      have hl : PlainLine l := hls l List.mem_cons_self
      have hrest : ∀ l' ∈ ls, PlainLine l' := fun l' h => hls l' (List.mem_cons_of_mem _ h)
      rw [copied] at h
      rw [valueLines]
      by_cases hkey : key <+: l ++ [newline]
      · rw [if_pos hkey] at h ⊢
        cases hequals : findEquals (l ++ [newline]) key with
        | none => simp [hequals] at h
        | some i =>
            rcases copyValue_dirty hl (findEquals_lt hl hequals) hval with ⟨e, he⟩
            dsimp only
            rw [he]
            exact ⟨e, rfl⟩
      · rw [if_neg hkey] at h ⊢
        by_cases hopen : l.head? = some bracketOpen
        · rw [if_pos hopen] at h
          exact absurd rfl h
        · rw [if_neg hopen] at h ⊢
          exact ih hrest h bFoundKey

/-- In a text without carriage returns the newline stays in the buffer, with the last value
copied. -/
theorem valueLines_newline {key : Bytes} {ls : List Bytes} (hls : ∀ l ∈ ls, PlainLine l)
    (hcr : ∀ l ∈ ls, carriageReturn ∉ l) {val : Bytes}
    (hval : copied key ls ≠ [] ∨ newline ∈ stringIn val) {bFoundKey : Bool} {r : Bytes × Bool}
    (h : valueLines key ls val bFoundKey = .ok r) : newline ∈ stringIn r.1 := by
  induction ls generalizing val bFoundKey with
  | nil =>
      cases h
      exact hval.resolve_left fun hne => hne rfl
  | cons l ls ih =>
      have hl : PlainLine l := hls l List.mem_cons_self
      have hrest : ∀ l' ∈ ls, PlainLine l' := fun l' h => hls l' (List.mem_cons_of_mem _ h)
      have hcrrest : ∀ l' ∈ ls, carriageReturn ∉ l' := fun l' h => hcr l' (List.mem_cons_of_mem _ h)
      rw [copied] at hval
      rw [valueLines] at h
      by_cases hkey : key <+: l ++ [newline]
      · rw [if_pos hkey] at h hval
        cases hequals : findEquals (l ++ [newline]) key with
        | none =>
            rw [hequals] at h hval
            cases h
            exact hval.resolve_left fun hne => hne rfl
        | some i =>
            rw [hequals] at h
            dsimp only at h
            split at h
            · cases h
            · rename_i val' hcopy
              have hnewline := copyValue_newline hl (hcr l List.mem_cons_self)
                (findEquals_lt hl hequals) (Nat.succ_pos i) hcopy
              exact ih hrest hcrrest (Or.inr hnewline) h
      · rw [if_neg hkey] at h hval
        by_cases hopen : l.head? = some bracketOpen
        · rw [if_pos hopen] at h hval
          cases h
          exact hval.resolve_left fun hne => hne rfl
        · rw [if_neg hopen] at h hval
          exact ih hrest hcrrest hval h

/-! ## Entries that exist -/

theorem prefix_of_prefix_newline {l key : Bytes} (hkey : newline ∉ key)
    (h : key <+: l ++ [newline]) : key <+: l := by
  rcases List.prefix_concat_iff.1 (by simpa using h) with heq | hprefix
  · exact absurd (heq ▸ by simp) hkey
  · exact hprefix

/-- A line that starts with a proper key has its `=` behind it. -/
theorem findEquals_isSome {l key : Bytes} (hl : PlainLine l) (hparse : (parseLine l).isSome = true)
    (hkey : ValidKey key) (hnewline : newline ∉ key) (hblank : key.all isBlank = false)
    (h : key <+: l ++ [newline]) : (findEquals (l ++ [newline]) key).isSome = true := by
  have hprefix := prefix_of_prefix_newline hnewline h
  rcases hprefix with ⟨r, rfl⟩
  have hhead : (key ++ r).head? = key.head? := by
    cases hcase : key with
    | nil => exact absurd hcase hkey.nonempty
    | cons c k => rfl
  -- The line is neither blank nor a comment nor a header, so it is an entry.
  have hequals : equalsSign ∈ key ++ r := by
    have hnotblank : ¬ (key ++ r).all isBlank = true := by simp [List.all_append, hblank]
    unfold parseLine at hparse
    rw [if_neg hnotblank, hhead, if_neg hkey.noComment, if_neg hkey.noHeader] at hparse
    split at hparse
    · rename_i hentry
      exact hentry.1
    · cases hparse
  have hr : equalsSign ∈ r := (List.mem_append.1 hequals).resolve_left hkey.noEquals
  rw [findEquals, stringIn_line hl, Option.isSome_map, List.append_assoc, List.drop_left,
    List.findIdx?_isSome, List.any_append]
  have hany : r.any (· == equalsSign) = true := List.any_eq_true.2 ⟨_, hr, by decide⟩
  simp [hany]

theorem copied_ne_nil {key : Bytes} {ls : List Bytes} (hls : ∀ l ∈ ls, PlainLine l)
    (hparses : ∀ l ∈ ls, (parseLine l).isSome = true) (hkey : ValidKey key)
    (hnewline : newline ∉ key) (hblank : key.all isBlank = false)
    (h : (keyLine key ls).isSome = true) : copied key ls ≠ [] := by
  induction ls with
  | nil =>
      rw [keyLine, if_neg hkey.nonempty] at h
      cases h
  | cons l ls ih =>
      rw [keyLine] at h
      rw [copied]
      by_cases hprefix : key <+: l ++ [newline]
      · have hequals := findEquals_isSome (hls l List.mem_cons_self)
          (hparses l List.mem_cons_self) hkey hnewline hblank hprefix
        rw [if_pos hprefix, if_pos hequals]
        exact List.cons_ne_nil _ _
      · rw [if_neg hprefix] at h ⊢
        by_cases hopen : l.head? = some bracketOpen
        · rw [if_pos hopen] at h
          cases h
        · rw [if_neg hopen, Option.isSome_map] at h
          rw [if_neg hopen]
          exact ih (fun l' hl' => hls l' (List.mem_cons_of_mem _ hl'))
            (fun l' hl' => hparses l' (List.mem_cons_of_mem _ hl')) h

/-- The reader and the writer look into the same section. -/
theorem linesBehind_of_targetLine {sect key : Bytes} {ls : List Bytes}
    (h : (targetLine sect key ls).isSome = true) :
    ∃ ms, linesBehind sect ls = some ms ∧ (∀ l ∈ ms, l ∈ ls) ∧ (keyLine key ms).isSome = true := by
  induction ls with
  | nil => cases h
  | cons l ls ih =>
      rw [targetLine] at h
      rw [linesBehind]
      split at h
      · rw [Option.isSome_map] at h
        exact ⟨ls, if_pos ‹_›, fun l' hl' => List.mem_cons_of_mem _ hl', h⟩
      · rw [Option.isSome_map] at h
        rcases ih h with ⟨ms, hms, hsub, hsome⟩
        exact ⟨ms, (if_neg ‹_›).trans hms,
          fun l' hl' => List.mem_cons_of_mem _ (hsub l' hl'), hsome⟩

theorem mem_of_linesBehind {sect : Bytes} {ls ms : List Bytes} (h : linesBehind sect ls = some ms)
    {l : Bytes} (hl : l ∈ ms) : l ∈ ls := by
  induction ls with
  | nil => cases h
  | cons l' ls ih =>
      rw [linesBehind] at h
      split at h
      · cases h
        exact List.mem_cons_of_mem _ hl
      · exact List.mem_cons_of_mem _ (ih h)

theorem value_of_map {ini : IniText} {p : Place} {v : Bytes} (h : ini.map p = some v) :
    v.length < 255 ∧ newline ∉ v := by
  have hmem : (p, v) ∈ entriesFrom none ini.lines := by
    rcases List.lookup_eq_some_iff.1 h with ⟨xs, ys, heq, _⟩
    rw [heq]
    exact List.mem_append_right _ List.mem_cons_self
  rcases exists_line_of_mem_entriesFrom hmem with ⟨l, hl, hparse⟩
  have hplain := ini.wellFormed.plain l hl
  have hline := (parseLine_eq_entry hparse).1
  have hfits := hplain.fits
  rw [hline, List.length_append, List.length_cons] at hfits
  refine ⟨by omega, fun hv => hplain.noNewline ?_⟩
  rw [hline]
  exact List.mem_append_right _ (List.mem_cons_of_mem _ hv)

/-! ## Lookups -/

/-- The buffer holds the value of the entry, or is as it was if there is none. -/
def ReadsExactly (ini : IniText) (sect key val : Bytes) : Prop :=
  ∃ r, readStringValue sect key val ini.text = .ok r ∧
    match ini.map (some sect, key) with
    | some v => stringIn r.1 = v
    | none => r.1 = val

section Lookup

variable {ini : IniText} {sect key val : Bytes}

/-- The section is not found, or its lines are read. -/
theorem read_cases (ini : IniText) (key val : Bytes)
    (hsect : (sectionHeader sect).length < SECTION_MAX_LEN) :
    (copiedLines (sectionHeader sect) key ini.lines = [] ∧
      ∃ message, readStringValue sect key val ini.text = .ok (val, message)) ∨
    ∃ ls, (∀ l ∈ ls, l ∈ ini.lines) ∧
      copiedLines (sectionHeader sect) key ini.lines = copied key ls ∧
      readStringValue sect key val ini.text = (valueLines key ls val false).map fun r =>
        (r.1, if r.2 then none else some (.noKey key)) := by
  rw [IniText.text, readStringValue_eq sect key val ini.lines ini.wellFormed.plain hsect,
    copiedLines]
  cases hlines : linesBehind (sectionHeader sect) ini.lines with
  | none => exact Or.inl ⟨rfl, _, rfl⟩
  | some ls => exact Or.inr ⟨ls, fun l hl => mem_of_linesBehind hlines hl, rfl, rfl⟩

theorem read_of_copiedLines_eq_nil (hsect : (sectionHeader sect).length < SECTION_MAX_LEN)
    (h : copiedLines (sectionHeader sect) key ini.lines = []) (val : Bytes) :
    ∃ message, readStringValue sect key val ini.text = .ok (val, message) := by
  rcases read_cases ini key val hsect with
    ⟨_, hread⟩ | ⟨ls, _, hcopied, hread⟩
  · exact hread
  · rcases valueLines_of_copied_eq_nil (hcopied.symm.trans h) val false with ⟨b, hb⟩
    rw [hread, hb]
    exact ⟨_, rfl⟩

theorem read_dirty (h : copiedLines (sectionHeader sect) key ini.lines ≠ [])
    (hval : (0 : UInt8) ∉ val) : ∃ e, readStringValue sect key val ini.text = .error e := by
  by_cases hsect : (sectionHeader sect).length < SECTION_MAX_LEN
  · rcases read_cases ini key val hsect with
      ⟨hnil, _⟩ | ⟨ls, hsub, hcopied, hread⟩
    · exact absurd hnil h
    · rcases valueLines_dirty (fun l hl => ini.wellFormed.plain l (hsub l hl)) (hcopied ▸ h) hval
        false with ⟨e, he⟩
      rw [hread, he]
      exact ⟨e, rfl⟩
  · rw [readStringValue, if_neg hsect]
    exact ⟨_, rfl⟩

theorem read_newline (h : copiedLines (sectionHeader sect) key ini.lines ≠ [])
    (hcr : ∀ l ∈ ini.lines, carriageReturn ∉ l) {r : Bytes × Option Message}
    (hr : readStringValue sect key val ini.text = .ok r) : newline ∈ stringIn r.1 := by
  by_cases hsect : (sectionHeader sect).length < SECTION_MAX_LEN
  · rcases read_cases ini key val hsect with
      ⟨hnil, _⟩ | ⟨ls, hsub, hcopied, hread⟩
    · exact absurd hnil h
    · rw [hread] at hr
      cases hvalue : valueLines key ls val false with
      | error e =>
          rw [hvalue] at hr
          cases hr
      | ok r' =>
          rw [hvalue] at hr
          cases hr
          exact valueLines_newline (fun l hl => ini.wellFormed.plain l (hsub l hl))
            (fun l hl => hcr l (hsub l hl)) (Or.inl (hcopied ▸ h)) hvalue
  · rw [readStringValue, if_neg hsect] at hr
    cases hr

/-- An entry whose key is not blank is copied from some line. -/
theorem copiedLines_ne_nil (hblank : key.all isBlank = false)
    (h : (ini.map (some sect, key)).isSome = true) :
    copiedLines (sectionHeader sect) key ini.lines ≠ [] := by
  rcases exists_entry_at h with ⟨hkey, hnewline, _, htarget⟩
  rcases linesBehind_of_targetLine htarget with ⟨ls, hlines, hsub, hsome⟩
  rw [copiedLines, hlines]
  exact copied_ne_nil (fun l hl => ini.wellFormed.plain l (hsub l hl))
    (fun l hl => ini.wellFormed.parses l (hsub l hl)) hkey hnewline hblank hsome

/-- A buffer full of ones. -/
def ones : Bytes :=
  List.replicate STRVALUE_MAX_LEN 1

theorem zero_notMem_ones : (0 : UInt8) ∉ ones := by
  intro hmem
  exact absurd (List.eq_of_mem_replicate hmem) (by decide)

/-- With this buffer the reader is right only where it copies nothing and there is no entry. -/
theorem of_reads_ones (h : ReadsExactly ini sect key ones) :
    (sectionHeader sect).length < SECTION_MAX_LEN ∧ ini.map (some sect, key) = none ∧
      copiedLines (sectionHeader sect) key ini.lines = [] := by
  rcases h with ⟨r, hread, hexact⟩
  have hsect : (sectionHeader sect).length < SECTION_MAX_LEN := by
    by_contra hlong
    rw [readStringValue, if_neg hlong] at hread
    cases hread
  have hnothing : copiedLines (sectionHeader sect) key ini.lines = [] := by
    by_contra hsome
    rcases read_dirty hsome zero_notMem_ones with ⟨e, he⟩
    cases he.symm.trans hread
  rcases read_of_copiedLines_eq_nil hsect hnothing ones with ⟨message, hsame⟩
  cases hsame.symm.trans hread
  refine ⟨hsect, ?_, hnothing⟩
  cases hmap : ini.map (some sect, key) with
  | none => rfl
  | some v =>
      -- The value would have to be as long as the buffer.
      rw [hmap] at hexact
      have hv := (value_of_map hmap).1
      rw [← hexact, stringIn_of_not_mem zero_notMem_ones, ones, List.length_replicate] at hv
      exact absurd hv (by decide)

theorem not_readsExactly_of_newline (h : copiedLines (sectionHeader sect) key ini.lines ≠ [])
    (hcr : ∀ l ∈ ini.lines, carriageReturn ∉ l) {v : Bytes}
    (hv : ini.map (some sect, key) = some v) : ¬ ReadsExactly ini sect key val := by
  rintro ⟨r, hread, hexact⟩
  have hnewline := read_newline h hcr hread
  rw [hv] at hexact
  rw [hexact] at hnewline
  exact (value_of_map hv).2 hnewline

end Lookup

/-- For a place of the store the reader is right with any buffer, exactly if there is no entry and
nothing that it takes for one.  In texts without carriage returns it is wrong about each entry with
a key that is not blank, whatever the buffer: the newline stays in the value. -/
theorem reads_exactly_iff (ini : IniText) (sect key : Bytes) :
    ((∀ val : Bytes, val.length = STRVALUE_MAX_LEN → ReadsExactly ini sect key val) ↔
      (sectionHeader sect).length < SECTION_MAX_LEN ∧ ini.map (some sect, key) = none ∧
        copiedLines (sectionHeader sect) key ini.lines = []) ∧
    ((∀ l ∈ ini.lines, carriageReturn ∉ l) → key.all isBlank = false →
      (ini.map (some sect, key)).isSome = true → ∀ val, ¬ ReadsExactly ini sect key val) := by
  refine ⟨⟨fun hall => of_reads_ones (hall ones List.length_replicate), ?_⟩,
    fun hcr hblank hexists val => ?_⟩
  · rintro ⟨hsect, hnone, hnothing⟩ val _
    rcases read_of_copiedLines_eq_nil hsect hnothing val with ⟨message, hsame⟩
    refine ⟨_, hsame, ?_⟩
    rw [hnone]
  · rcases Option.isSome_iff_exists.1 hexists with ⟨v, hv⟩
    exact not_readsExactly_of_newline (copiedLines_ne_nil hblank hexists) hcr hv

/-- The value of `a` in a cleared buffer: the newline is still there. -/
theorem newline_stays_in_value :
    ¬ ∀ (ini : IniText) (sect key val : Bytes), val.length = STRVALUE_MAX_LEN →
      ReadsExactly ini sect key val := by
  intro hall
  rcases hall twoEntries [115] [97] (List.replicate STRVALUE_MAX_LEN 0)
    List.length_replicate with ⟨r, hread, hexact⟩
  have hleft : readStringValue [115] [97] (List.replicate STRVALUE_MAX_LEN 0) twoEntries.text =
      .ok (49 :: newline :: List.replicate 254 0, none) := by decide +kernel
  have hmap : twoEntries.map (some [115], [97]) = some [49] := by decide
  cases hleft.symm.trans hread
  rw [hmap] at hexact
  exact absurd hexact (by decide)

end ConfigItem
end LinuxLearn
