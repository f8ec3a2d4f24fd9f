import Mathlib.Logic.Function.Basic
import LinuxLearn.ConfigItem.IniMap

/-!
# Update — `writeStringVlaue` as an update of the map

The writer puts the new line over the bytes at the target line, whatever stands there.  On a
well-formed text this changes the map in the entry alone exactly if the bytes written over are
the entry: the text without them denotes the map without the entry.
-/

namespace LinuxLearn
namespace ConfigItem

open Lib

/-! ## Inserting one entry line -/

section Insert

variable {xs post : List Bytes} {l k v : Bytes} {cur : Option Bytes}

theorem headers_insert (hparse : parseLine l = some (.entry k v)) :
    headers (xs ++ l :: post) = headers (xs ++ post) := by
  have hnone : headerOf l = [] := by simp [headerOf, hparse]
  simp [headers, hnone]

theorem entriesFrom_insert (hparse : parseLine l = some (.entry k v))
    (hcur : sectionAfter none xs = cur) :
    entriesFrom none (xs ++ l :: post) =
      entriesFrom none xs ++ ((cur, k), v) :: entriesFrom cur post := by
  have hentry : entryOf cur l = [((cur, k), v)] := by simp [entryOf, hparse]
  have hsect : sectionOf cur l = cur := by simp [sectionOf, hparse]
  rw [entriesFrom_append, hcur, entriesFrom, hentry, hsect]
  rfl

theorem wellFormed_insert_iff (hl : PlainLine l) (hparse : parseLine l = some (.entry k v))
    (hcur : sectionAfter none xs = cur) :
    WellFormed (xs ++ l :: post) ↔
      WellFormed (xs ++ post) ∧ mapOf (xs ++ post) (cur, k) = none := by
  -- Of the four conditions only the one on keys tells the two texts apart.
  have hkeys : ((entriesFrom none (xs ++ l :: post)).map Prod.fst).Nodup ↔
      mapOf (xs ++ post) (cur, k) = none ∧
        ((entriesFrom none (xs ++ post)).map Prod.fst).Nodup := by
    rw [entriesFrom_insert hparse hcur, entriesFrom_append none xs post, hcur, List.map_append,
      List.map_cons, List.nodup_middle, List.nodup_cons, ← List.map_append]
    refine and_congr_left fun _ => ?_
    rw [mapOf, entriesFrom_append, hcur, lookup_eq_none_iff_not_mem]
  constructor
  · intro h
    have hsub : (xs ++ post).Sublist (xs ++ l :: post) := by simp
    refine ⟨⟨?_, ?_, ?_, (hkeys.1 h.keys).2⟩, (hkeys.1 h.keys).1⟩
    · intro l' hl'
      exact h.plain l' (hsub.subset hl')
    · intro l' hl'
      exact h.parses l' (hsub.subset hl')
    · simpa [headers_insert hparse] using h.sections
  · rintro ⟨h, hnone⟩
    refine ⟨?_, ?_, ?_, hkeys.2 ⟨hnone, h.keys⟩⟩
    · intro l' hl'
      rcases List.mem_append.1 hl' with hxs | hcons
      · exact h.plain l' (List.mem_append_left _ hxs)
      · rcases List.mem_cons.1 hcons with rfl | hpost
        · exact hl
        · exact h.plain l' (List.mem_append_right _ hpost)
    · intro l' hl'
      rcases List.mem_append.1 hl' with hxs | hcons
      · exact h.parses l' (List.mem_append_left _ hxs)
      · rcases List.mem_cons.1 hcons with rfl | hpost
        · simp [hparse]
        · exact h.parses l' (List.mem_append_right _ hpost)
    · simpa [headers_insert hparse] using h.sections

theorem mapOf_insert (hparse : parseLine l = some (.entry k v))
    (hcur : sectionAfter none xs = cur) (h : WellFormed (xs ++ l :: post)) :
    mapOf (xs ++ l :: post) = Function.update (mapOf (xs ++ post)) (cur, k) (some v) := by
  have hkeys := h.keys
  rw [entriesFrom_insert hparse hcur] at hkeys
  have hlookup := (lookup_middle hkeys).1
  unfold mapOf
  rw [entriesFrom_insert hparse hcur, hlookup, entriesFrom_append none xs post, hcur]

/-- A text that starts with given lines and an entry denotes `m` with that entry, exactly if the
text without the entry denotes `m` without it. -/
theorem denotes_insert_iff {rest : Bytes} {m : IniMap} (hxs : ∀ l' ∈ xs, newline ∉ l')
    (hl : PlainLine l) (hparse : parseLine l = some (.entry k v))
    (hcur : sectionAfter none xs = cur) :
    Denotes (unlines newline xs ++ (l ++ [newline]) ++ rest)
        (Function.update m (cur, k) (some v)) ↔
      Denotes (unlines newline xs ++ rest) (Function.update m (cur, k) none) := by
  constructor
  · rintro ⟨ls, hls, htext, hmap⟩
    have hpre : ∀ l' ∈ xs ++ [l], newline ∉ l' := by
      intro l' hl'
      rcases List.mem_append.1 hl' with hmem | hmem
      · exact hxs l' hmem
      · exact List.mem_singleton.1 hmem ▸ hl.noNewline
    have hcut : unlines newline ls = unlines newline (xs ++ [l]) ++ rest := by
      rw [← htext]
      simp
    -- The given part ends in a newline, so the text is cut between two lines.
    rcases exists_of_unlines_eq_append (fun l' h => (hls.plain l' h).noNewline) hpre hcut with
      ⟨post, hsplit, hrest⟩
    have hlist : ls = xs ++ l :: post := by simpa using hsplit
    subst hlist
    rcases (wellFormed_insert_iff hl hparse hcur).1 hls with ⟨hwell, hnone⟩
    refine ⟨xs ++ post, hwell, by simp [hrest], ?_⟩
    -- Both sides of `hmap` agree once the entry is taken out.
    rw [mapOf_insert hparse hcur hls] at hmap
    calc
      Function.update m (cur, k) none
          = Function.update (Function.update m (cur, k) (some v)) (cur, k) none := by simp
      _ = Function.update (mapOf (xs ++ post)) (cur, k) none := by rw [hmap]; simp
      _ = mapOf (xs ++ post) := by rw [← hnone, Function.update_eq_self]
  · rintro ⟨ls, hls, htext, hmap⟩
    rcases exists_of_unlines_eq_append (fun l' h => (hls.plain l' h).noNewline) hxs htext.symm with
      ⟨post, rfl, hrest⟩
    have hnone : mapOf (xs ++ post) (cur, k) = none := by
      rw [← hmap]
      simp
    have hwell := (wellFormed_insert_iff hl hparse hcur).2 ⟨hls, hnone⟩
    refine ⟨xs ++ l :: post, hwell, by simp [hrest], ?_⟩
    rw [mapOf_insert hparse hcur hwell, ← hmap]
    simp

end Insert

/-! ## The target line -/

/-- The lines that the inner loop passes belong to the section that it started in. -/
theorem sectionAfter_keyLine {key : Bytes} {cur : Option Bytes} {ls : List Bytes} {j : Nat}
    (h : keyLine key ls = some j) : sectionAfter cur (ls.take j) = cur := by
  induction ls generalizing j with
  | nil => simp [sectionAfter]
  | cons l ls ih =>
      rw [keyLine] at h
      split at h
      · cases h
        rfl
      split at h
      · cases h
      rcases Option.map_eq_some_iff.1 h with ⟨i, hi, rfl⟩
      -- The loop would have stopped at a header.
      have hsect : sectionOf cur l = cur := by
        rcases sectionOf_cases cur l with ⟨name, _, _, _, hparse⟩ | ⟨_, hsect, _⟩
        · exact absurd (head?_of_header hparse) ‹_›
        · exact hsect
      have hrec := ih hi
      simpa [sectionAfter, hsect] using hrec

theorem parseLine_of_sectionHeader {s l : Bytes} (hs : bracketClose ∉ s)
    (hl : (parseLine l).isSome = true) (h : sectionHeader s <+: l ++ [newline]) :
    parseLine l = some (.header s) := by
  rcases h with ⟨r, hr⟩
  have hhead : l.head? = some bracketOpen := by
    cases l with
    | nil => exact absurd (List.cons.inj hr).1 (by decide)
    | cons c cs => exact congrArg some (List.cons.inj hr).1.symm
  -- A line that starts with a bracket and means something is a header.
  rcases Option.isSome_iff_exists.1 hl with ⟨line, hline⟩
  rcases parseLine_of_bracketOpen hhead hline with ⟨name, rfl, rfl, hname⟩
  have hsplit : s ++ bracketClose :: r = name ++ bracketClose :: [newline] := by
    simpa [sectionHeader] using hr
  rw [hline, (append_sep_inj hs hname hsplit).1]

theorem eq_sectionHeader {l s : Bytes} (h : parseLine l = some (.header s)) :
    l = sectionHeader s ∧ bracketClose ∉ s := by
  rcases parseLine_of_bracketOpen (head?_of_header h) h with ⟨name, hname, hl, hclose⟩
  cases hname
  exact ⟨hl, hclose⟩

/-- The target line lies in the section asked for. -/
theorem sectionAfter_targetLine {s key : Bytes} {cur : Option Bytes} {ls : List Bytes} {j : Nat}
    (hs : bracketClose ∉ s) (hls : ∀ l ∈ ls, (parseLine l).isSome = true)
    (h : targetLine (sectionHeader s) key ls = some j) :
    sectionAfter cur (ls.take j) = some s := by
  induction ls generalizing cur j with
  | nil => cases h
  | cons l ls ih =>
      rw [targetLine] at h
      split at h
      · rcases Option.map_eq_some_iff.1 h with ⟨i, hi, rfl⟩
        have hparse := parseLine_of_sectionHeader hs (hls l List.mem_cons_self) ‹_›
        have hsect : sectionOf cur l = some s := by simp [sectionOf, hparse]
        have hrest : sectionAfter (some s) (ls.take i) = some s := sectionAfter_keyLine hi
        simpa [sectionAfter, hsect] using hrest
      · rcases Option.map_eq_some_iff.1 h with ⟨i, hi, rfl⟩
        have hrec : sectionAfter (sectionOf cur l) (ls.take i) = some s :=
          ih (fun l' hl' => hls l' (List.mem_cons_of_mem _ hl')) hi
        simpa [sectionAfter] using hrec

theorem keyLine_isSome {s k v : Bytes} {ls : List Bytes}
    (hls : ∀ l ∈ ls, (parseLine l).isSome = true) (hs : s ∉ headers ls)
    (h : ((some s, k), v) ∈ entriesFrom (some s) ls) : (keyLine k ls).isSome = true := by
  induction ls with
  | nil => cases h
  | cons l ls ih =>
      have hheaders : headers (l :: ls) = headerOf l ++ headers ls := by simp [headers]
      rw [hheaders, List.mem_append, not_or] at hs
      rw [keyLine]
      by_cases hkey : k <+: l ++ [newline]
      · rw [if_pos hkey]
        rfl
      rw [if_neg hkey]
      rw [entriesFrom, List.mem_append] at h
      have hrest : ((some s, k), v) ∈ entriesFrom (sectionOf (some s) l) ls := by
        rcases h with hhere | hrest
        · have hline := (parseLine_eq_entry (mem_entryOf hhere).2).1
          exact absurd ⟨equalsSign :: v ++ [newline], by simp [hline]⟩ hkey
        · exact hrest
      rcases sectionOf_cases (some s) l with ⟨name, hname, hsect, _⟩ | ⟨_, hsect, hno⟩
      · -- Past another header the section could only return with a second header of its own.
        have hne : some name ≠ some s := by
          intro heq
          apply hs.1
          rw [hname, Option.some.inj heq]
          exact List.mem_singleton_self s
        rw [hsect] at hrest
        exact absurd (mem_headers_of_mem_entriesFrom hne hrest) hs.2
      · have hopen : l.head? ≠ some bracketOpen := by
          intro hhead
          rcases Option.isSome_iff_exists.1 (hls l List.mem_cons_self) with ⟨line, hline⟩
          rcases parseLine_of_bracketOpen hhead hline with ⟨name, rfl, _⟩
          exact hno name hline
        rw [hsect] at hrest
        rw [if_neg hopen, Option.isSome_map]
        exact ih (fun l' hl' => hls l' (List.mem_cons_of_mem _ hl')) hs.2 hrest

/-- An entry that exists has a target line. -/
theorem targetLine_isSome {s k v : Bytes} {cur : Option Bytes} {ls : List Bytes}
    (hs : bracketClose ∉ s) (hls : ∀ l ∈ ls, (parseLine l).isSome = true)
    (hnodup : (headers ls).Nodup) (hcur : cur ≠ some s)
    (h : ((some s, k), v) ∈ entriesFrom cur ls) :
    (targetLine (sectionHeader s) k ls).isSome = true := by
  induction ls generalizing cur with
  | nil => cases h
  | cons l ls ih =>
      have hheaders : headers (l :: ls) = headerOf l ++ headers ls := by simp [headers]
      have hrestParses : ∀ l' ∈ ls, (parseLine l').isSome = true := by
        intro l' hl'
        exact hls l' (List.mem_cons_of_mem _ hl')
      rw [hheaders] at hnodup
      rw [entriesFrom, List.mem_append] at h
      have hrest : ((some s, k), v) ∈ entriesFrom (sectionOf cur l) ls := by
        rcases h with hhere | hrest
        · exact absurd (mem_entryOf hhere).1.symm hcur
        · exact hrest
      rw [targetLine]
      -- The first header that matches is the header of the section, as names are distinct.
      by_cases hmatch : sectionHeader s <+: l ++ [newline]
      · have hparse := parseLine_of_sectionHeader hs (hls l List.mem_cons_self) hmatch
        have hname : headerOf l = [s] := by simp [headerOf, hparse]
        have hsect : sectionOf cur l = some s := by simp [sectionOf, hparse]
        rw [hname, List.singleton_append, List.nodup_cons] at hnodup
        rw [hsect] at hrest
        rw [if_pos hmatch, Option.isSome_map]
        exact keyLine_isSome hrestParses hnodup.1 hrest
      · have hne : sectionOf cur l ≠ some s := by
          rcases sectionOf_cases cur l with ⟨name, _, hsect, _, hparse⟩ | ⟨_, hsect, _⟩
          · intro heq
            have hname : name = s := Option.some.inj (hsect.symm.trans heq)
            apply hmatch
            rw [(eq_sectionHeader hparse).1, hname]
            exact List.prefix_append _ _
          · rwa [hsect]
        rw [if_neg hmatch, Option.isSome_map]
        exact ih hrestParses (hnodup.sublist (List.sublist_append_right _ _)) hne hrest

/-! ## Requests -/

/-- An INI text, by its lines. -/
structure IniText where
  lines : List Bytes
  wellFormed : WellFormed lines

namespace IniText

def text (ini : IniText) : Bytes :=
  unlines newline ini.lines

def map (ini : IniText) : IniMap :=
  mapOf ini.lines

end IniText

/-- The arguments of `writeStringVlaue`: three C strings, a value without a newline, and a line
that fits in 255 bytes. -/
structure WriteRequest where
  sect : Bytes
  key : Bytes
  val : Bytes
  sectNoZero : (0 : UInt8) ∉ sect
  keyNoZero : (0 : UInt8) ∉ key
  valNoZero : (0 : UInt8) ∉ val
  valNoNewline : newline ∉ val
  fits : (keyValueLine key val).length ≤ 255

namespace WriteRequest

def line (req : WriteRequest) : Bytes :=
  keyValueLine req.key req.val

def place (req : WriteRequest) : Place :=
  (some req.sect, req.key)

end WriteRequest

/-- The store behaves as a map: an entry that exists gets the new value and nothing else changes;
otherwise the text stays as it is. -/
def Updates (ini : IniText) (req : WriteRequest) : Prop :=
  ∃ text, writeStringVlaue req.sect req.key req.val ini.text = some text ∧
    if (ini.map req.place).isSome = true then
      Denotes text (Function.update ini.map req.place (some req.val))
    else text = ini.text

/-- The bytes written over, from the target line on, are the entry that exists; or they are the
new line already. -/
def CutsOutEntry (ini : IniText) (req : WriteRequest) (j : Nat) : Prop :=
  let before := unlines newline (ini.lines.take j)
  let after := unlines newline (ini.lines.drop j)
  if (ini.map req.place).isSome = true then
    Denotes (before ++ after.drop req.line.length) (Function.update ini.map req.place none)
  else req.line <+: after

/-- The buffer for the section header suffices, and the target line is right. -/
def TargetsEntry (ini : IniText) (req : WriteRequest) : Prop :=
  (sectionHeader req.sect).length < SECTION_MAX_LEN ∧
    ∀ j, targetLine (sectionHeader req.sect) req.key ini.lines = some j → CutsOutEntry ini req j

/-- What an existing entry says about its place. -/
theorem exists_entry_at {ini : IniText} {s key : Bytes}
    (h : (ini.map (some s, key)).isSome = true) :
    ValidKey key ∧ newline ∉ key ∧ bracketClose ∉ s ∧
      (targetLine (sectionHeader s) key ini.lines).isSome = true := by
  rcases Option.isSome_iff_exists.1 h with ⟨v, hv⟩
  have hmem : ((some s, key), v) ∈ entriesFrom none ini.lines := by
    -- The entry stands on some line, which makes its key valid.
    rcases List.lookup_eq_some_iff.1 hv with ⟨xs, ys, heq, _⟩
    rw [heq]
    exact List.mem_append_right _ List.mem_cons_self
  rcases exists_line_of_mem_entriesFrom hmem with ⟨l, hl, hparse⟩
  rcases parseLine_eq_entry hparse with ⟨hline, hvalid⟩
  have hplain := ini.wellFormed.plain l hl
  have hnewline : newline ∉ key := by
    intro hmem
    apply hplain.noNewline
    rw [hline]
    exact List.mem_append_left _ hmem
  have hheader : s ∈ headers ini.lines :=
    mem_headers_of_mem_entriesFrom (Option.some_ne_none s).symm hmem
  have hclose : bracketClose ∉ s := by
    rcases List.mem_flatMap.1 hheader with ⟨l', _, hname⟩
    rcases sectionOf_cases none l' with ⟨name, heq, _, _, hparse'⟩ | ⟨hnil, _⟩
    · rw [heq, List.mem_singleton] at hname
      exact hname ▸ (eq_sectionHeader hparse').2
    · rw [hnil] at hname
      cases hname
  exact ⟨hvalid, hnewline, hclose, targetLine_isSome hclose ini.wellFormed.parses
    ini.wellFormed.sections (by simp) hmem⟩

theorem exists_entry {ini : IniText} {req : WriteRequest}
    (h : (ini.map req.place).isSome = true) :
    ValidKey req.key ∧ newline ∉ req.key ∧ bracketClose ∉ req.sect ∧
      (targetLine (sectionHeader req.sect) req.key ini.lines).isSome = true :=
  exists_entry_at h

theorem plainLine_of_request {req : WriteRequest} (h : newline ∉ req.key) :
    PlainLine (req.key ++ equalsSign :: req.val) := by
  have hzero : (0 : UInt8) ≠ equalsSign := by decide
  have hnewline : newline ≠ equalsSign := by decide
  refine ⟨?_, ?_, ?_⟩
  · have hfits := req.fits
    simp only [keyValueLine, List.length_append, List.length_cons, List.length_nil] at hfits
    simp only [List.length_append, List.length_cons]
    omega
  · simp [h, hnewline, req.valNoNewline]
  · simp [hzero, req.keyNoZero, req.valNoZero]

/-- The text after a write at line `j`. -/
theorem writtenAt_some (ini : IniText) (w : Bytes) (j : Nat) :
    writtenAt w [] ini.lines (some j) =
      unlines newline (ini.lines.take j) ++ w ++
        (unlines newline (ini.lines.drop j)).drop w.length := by
  have hsplit : unlines newline ini.lines =
      unlines newline (ini.lines.take j) ++ unlines newline (ini.lines.drop j) := by
    rw [← unlines_append, List.take_append_drop]
  rw [writtenAt, List.nil_append, List.nil_append, hsplit, overwrite_append]

theorem writtenAt_some_eq_text_iff (ini : IniText) (w : Bytes) (j : Nat) :
    writtenAt w [] ini.lines (some j) = ini.text ↔
      w <+: unlines newline (ini.lines.drop j) := by
  have hsplit : ini.text =
      unlines newline (ini.lines.take j) ++ unlines newline (ini.lines.drop j) := by
    rw [IniText.text, ← unlines_append, List.take_append_drop]
  rw [writtenAt_some, hsplit, ← overwrite_append, overwrite_append_eq_self_iff]

/-- A write at the target line does what is asked for exactly if it cuts out the entry. -/
theorem written_iff_cutsOutEntry {ini : IniText} {req : WriteRequest} {j : Nat}
    (h : targetLine (sectionHeader req.sect) req.key ini.lines = some j) :
    (if (ini.map req.place).isSome = true then
        Denotes (writtenAt req.line [] ini.lines (some j))
          (Function.update ini.map req.place (some req.val))
      else writtenAt req.line [] ini.lines (some j) = ini.text) ↔ CutsOutEntry ini req j := by
  unfold CutsOutEntry
  -- With the entry, the write inserts its line; without, it must not be seen.
  by_cases hexists : (ini.map req.place).isSome = true
  · rcases exists_entry hexists with ⟨hvalid, hnewline, hclose, _⟩
    have hbefore : ∀ l ∈ ini.lines.take j, newline ∉ l := by
      intro l hl
      exact (ini.wellFormed.plain l (List.mem_of_mem_take hl)).noNewline
    have hsect : sectionAfter none (ini.lines.take j) = some req.sect :=
      sectionAfter_targetLine hclose ini.wellFormed.parses h
    rw [if_pos hexists, if_pos hexists, writtenAt_some]
    exact denotes_insert_iff hbefore (plainLine_of_request hnewline) (parseLine_entry hvalid) hsect
  · rw [if_neg hexists, if_neg hexists]
    exact writtenAt_some_eq_text_iff ini req.line j

theorem updates_iff_written {ini : IniText} {req : WriteRequest}
    (hsect : (sectionHeader req.sect).length < SECTION_MAX_LEN) :
    Updates ini req ↔
      if (ini.map req.place).isSome = true then
        Denotes (writtenAt req.line [] ini.lines
            (targetLine (sectionHeader req.sect) req.key ini.lines))
          (Function.update ini.map req.place (some req.val))
      else writtenAt req.line [] ini.lines
          (targetLine (sectionHeader req.sect) req.key ini.lines) = ini.text := by
  have hwrite := writeStringVlaue_eq req.sect req.key req.val ini.lines ini.wellFormed.plain
  rw [if_pos ⟨hsect, Nat.lt_succ_of_le req.fits⟩] at hwrite
  constructor
  · rintro ⟨text, htext, hresult⟩
    cases Option.some.inj (hwrite.symm.trans htext)
    exact hresult
  · intro hresult
    exact ⟨_, hwrite, hresult⟩

theorem updates_iff_cutsOutEntry {ini : IniText} {req : WriteRequest} {j : Nat}
    (hsect : (sectionHeader req.sect).length < SECTION_MAX_LEN)
    (h : targetLine (sectionHeader req.sect) req.key ini.lines = some j) :
    Updates ini req ↔ CutsOutEntry ini req j := by
  rw [updates_iff_written hsect, h]
  exact written_iff_cutsOutEntry h

/-- Without a target line nothing is written, and nothing had to be. -/
theorem updates_of_targetLine_eq_none {ini : IniText} {req : WriteRequest}
    (hsect : (sectionHeader req.sect).length < SECTION_MAX_LEN)
    (h : targetLine (sectionHeader req.sect) req.key ini.lines = none) : Updates ini req := by
  have habsent : ¬ (ini.map req.place).isSome = true := by
    intro hexists
    have hsome := (exists_entry hexists).2.2.2
    rw [h] at hsome
    cases hsome
  rw [updates_iff_written hsect, h, if_neg habsent]
  rfl

/-- A value of the length of the old one is written in its place, if the line found is the line of
the entry. -/
theorem updates_of_length_eq {ini : IniText} {req : WriteRequest} {j : Nat} {old : Bytes}
    (hsect : (sectionHeader req.sect).length < SECTION_MAX_LEN)
    (htarget : targetLine (sectionHeader req.sect) req.key ini.lines = some j)
    (hold : ini.lines[j]? = some (req.key ++ equalsSign :: old))
    (hexists : (ini.map req.place).isSome = true) (hlength : old.length = req.val.length) :
    Updates ini req := by
  rcases exists_entry hexists with ⟨hvalid, _, hclose, _⟩
  have hj : sectionAfter none (ini.lines.take j) = some req.sect :=
    sectionAfter_targetLine hclose ini.wellFormed.parses htarget
  have hdrop : ini.lines.drop j = (req.key ++ equalsSign :: old) :: ini.lines.drop (j + 1) := by
    rcases List.getElem?_eq_some_iff.1 hold with ⟨hlt, hget⟩
    rw [List.drop_eq_getElem_cons hlt, hget]
  have hlines : ini.lines =
      ini.lines.take j ++ (req.key ++ equalsSign :: old) :: ini.lines.drop (j + 1) := by
    rw [← hdrop, List.take_append_drop]
  have hrest : (unlines newline (ini.lines.drop j)).drop req.line.length =
      unlines newline (ini.lines.drop (j + 1)) := by
    have hlen : req.line.length = (req.key ++ equalsSign :: old ++ [newline]).length := by
      simp [WriteRequest.line, keyValueLine, hlength]
    have htext : unlines newline (ini.lines.drop j) =
        (req.key ++ equalsSign :: old ++ [newline]) ++
          unlines newline (ini.lines.drop (j + 1)) := by
      rw [hdrop, unlines_cons]
      simp
    rw [htext, hlen, List.drop_left]
  have hwell : WellFormed (ini.lines.take j ++
      (req.key ++ equalsSign :: old) :: ini.lines.drop (j + 1)) := by
    rw [← hlines]
    exact ini.wellFormed
  have hplain := ini.wellFormed.plain _ (List.mem_of_getElem? hold)
  have hparse : parseLine (req.key ++ equalsSign :: old) = some (.entry req.key old) :=
    parseLine_entry hvalid
  have hmap : ini.map = Function.update
      (mapOf (ini.lines.take j ++ ini.lines.drop (j + 1))) req.place (some old) := by
    have hinsert := mapOf_insert hparse hj hwell
    rwa [← hlines] at hinsert
  rcases (wellFormed_insert_iff hplain hparse hj).1 hwell with ⟨hcut, hnone⟩
  rw [updates_iff_cutsOutEntry hsect htarget, CutsOutEntry, if_pos hexists, hrest, ← unlines_append]
  refine ⟨_, hcut, rfl, ?_⟩
  have hplace : mapOf (ini.lines.take j ++ ini.lines.drop (j + 1)) req.place = none := hnone
  rw [hmap, Function.update_idem, ← hplace, Function.update_eq_self]

/-- `writeStringVlaue` updates the store as a map exactly if the bytes that it overwrites are the
entry asked for. -/
theorem updates_iff_targetsEntry (ini : IniText) (req : WriteRequest) :
    Updates ini req ↔ TargetsEntry ini req := by
  by_cases hsect : (sectionHeader req.sect).length < SECTION_MAX_LEN
  · cases htarget : targetLine (sectionHeader req.sect) req.key ini.lines with
    | none =>
        refine iff_of_true (updates_of_targetLine_eq_none hsect htarget) ⟨hsect, ?_⟩
        intro j hj
        rw [htarget] at hj
        cases hj
    | some j =>
        rw [updates_iff_cutsOutEntry hsect htarget]
        constructor
        · intro hcuts
          refine ⟨hsect, ?_⟩
          intro i hi
          rw [htarget] at hi
          cases hi
          exact hcuts
        · intro htargets
          exact htargets.2 j htarget
  · -- `sprintf` writes the header past the end of its buffer.
    have hwrite := writeStringVlaue_eq req.sect req.key req.val ini.lines ini.wellFormed.plain
    rw [if_neg (fun h => hsect h.1)] at hwrite
    constructor
    · rintro ⟨text, htext, _⟩
      rw [IniText.text, hwrite] at htext
      cases htext
    · intro htargets
      exact absurd htargets.1 hsect

/-- The text `[s]`, `a=1`, `b=2`. -/
def twoEntries : IniText where
  lines := [[91, 115, 93], [97, 61, 49], [98, 61, 50]]
  wellFormed :=
    { plain := by
        have hplain : ∀ l ∈ [[91, 115, 93], [97, 61, 49], [98, 61, 50]],
            l.length < 255 ∧ newline ∉ l ∧ (0 : UInt8) ∉ l := by decide
        intro l hl
        exact ⟨(hplain l hl).1, (hplain l hl).2.1, (hplain l hl).2.2⟩
      parses := by decide
      sections := by decide
      keys := by decide }

/-- The request for `a=22` in section `s`. -/
def longerValue : WriteRequest where
  sect := [115]
  key := [97]
  val := [50, 50]
  sectNoZero := by decide
  keyNoZero := by decide
  valNoZero := by decide
  valNoNewline := by decide
  fits := by decide

/-- The longer line runs into the next one: `b=2` becomes `=2`. -/
theorem longer_value_damages_next_entry : ¬ Updates twoEntries longerValue := by
  rintro ⟨text, htext, hresult⟩
  have hwrite : writeStringVlaue longerValue.sect longerValue.key longerValue.val twoEntries.text =
      some (unlines newline [[91, 115, 93], [97, 61, 50, 50], [61, 50]]) := by decide
  have hexists : (twoEntries.map longerValue.place).isSome = true := by decide
  cases Option.some.inj (hwrite.symm.trans htext)
  rw [if_pos hexists] at hresult
  rcases hresult with ⟨ls, hls, hlines, _⟩
  have hplain : ∀ l ∈ [[91, 115, 93], [97, 61, 50, 50], [61, 50]], newline ∉ l := by decide
  have heq := unlines_injective hplain (fun l hl => (hls.plain l hl).noNewline) hlines
  have hparse := hls.parses [61, 50] (by rw [← heq]; decide)
  revert hparse
  decide

end ConfigItem
end LinuxLearn
