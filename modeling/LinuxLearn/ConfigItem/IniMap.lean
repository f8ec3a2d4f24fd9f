import LinuxLearn.ConfigItem.ConfigFile

/-!
# IniMap — what an INI text means

An INI text is a list of lines: blank lines, comments, section headers and entries.  It denotes a
map from section and key to value, where entries above the first header belong to no section.
Nothing in this file is taken from the source; it states what the store is for.
-/

namespace LinuxLearn
namespace ConfigItem

open Lib

/-! ## Lines -/

inductive Line
  | blank
  | comment
  | header (name : Bytes)
  | entry (key value : Bytes)
  deriving DecidableEq, Repr

def isBlank (c : UInt8) : Bool :=
  c == 32 || c == 9 || c == carriageReturn

/-- A key is not empty, does not contain `=`, and does not look like a comment or a header. -/
structure ValidKey (k : Bytes) : Prop where
  nonempty : k ≠ []
  noEquals : equalsSign ∉ k
  noComment : k.head? ≠ some semicolon
  noHeader : k.head? ≠ some bracketOpen

def parseLine (l : Bytes) : Option Line :=
  if l.all isBlank then some .blank
  else if l.head? = some semicolon then some .comment
  else if l.head? = some bracketOpen then
    if l.getLast? = some bracketClose ∧ bracketClose ∉ l.tail.dropLast then
      some (.header l.tail.dropLast)
    else none
  else if equalsSign ∈ l ∧ l.head? ≠ some equalsSign then
    some (.entry (l.takeWhile fun c => c != equalsSign)
      (l.dropWhile fun c => c != equalsSign).tail)
  else none

theorem takeWhile_key {k v : Bytes} (hk : equalsSign ∉ k) :
    (k ++ equalsSign :: v).takeWhile (fun c => c != equalsSign) = k := by
  induction k with
  | nil => simp
  | cons c k ih =>
      have hc : c ≠ equalsSign := fun h => hk (h ▸ List.mem_cons_self)
      have hrec := ih fun h => hk (List.mem_cons_of_mem _ h)
      simp [hc, hrec]

theorem dropWhile_key {k v : Bytes} (hk : equalsSign ∉ k) :
    (k ++ equalsSign :: v).dropWhile (fun c => c != equalsSign) = equalsSign :: v := by
  induction k with
  | nil => simp
  | cons c k ih =>
      have hc : c ≠ equalsSign := fun h => hk (h ▸ List.mem_cons_self)
      have hrec := ih fun h => hk (List.mem_cons_of_mem _ h)
      simp [hc, hrec]

theorem parseLine_entry {k v : Bytes} (hk : ValidKey k) :
    parseLine (k ++ equalsSign :: v) = some (.entry k v) := by
  have hblank : (k ++ equalsSign :: v).all isBlank = false := by
    simp only [List.all_append, List.all_cons]
    have hne : isBlank equalsSign = false := by decide
    simp [hne]
  have hhead : (k ++ equalsSign :: v).head? = k.head? := by
    cases hcase : k with
    | nil => exact absurd hcase hk.nonempty
    | cons c k' => rfl
  have hfirst : k.head? ≠ some equalsSign := by
    intro h
    exact hk.noEquals (List.mem_of_mem_head? h)
  -- None of the earlier tests of `parseLine` applies to a valid key.
  rw [parseLine, hblank, hhead, if_neg Bool.false_ne_true, if_neg hk.noComment,
    if_neg hk.noHeader, if_pos ⟨by simp, hfirst⟩, takeWhile_key hk.noEquals,
    dropWhile_key hk.noEquals]
  rfl

/-- An entry line is its key, `=` and its value. -/
theorem parseLine_eq_entry {l k v : Bytes} (h : parseLine l = some (.entry k v)) :
    l = k ++ equalsSign :: v ∧ ValidKey k := by
  unfold parseLine at h
  split at h
  · cases h
  split at h
  · cases h
  split at h
  · split at h <;> cases h
  split at h
  · rename_i hcomment hheader hentry
    -- The line is cut at its first equals sign.
    rcases List.eq_append_cons_of_mem hentry.1 with ⟨k', v', rfl, hk'⟩
    rw [takeWhile_key hk', dropWhile_key hk'] at h
    have hkv : k' = k ∧ v' = v := by simpa using h
    rw [← hkv.1, ← hkv.2]
    have hhead : ∀ c, k'.head? = some c → (k' ++ equalsSign :: v').head? = some c := by
      intro c hc
      rw [List.head?_append, hc]
      rfl
    refine ⟨rfl, ?_, hk', fun hc => hcomment (hhead _ hc), fun hc => hheader (hhead _ hc)⟩
    intro hnil
    apply hentry.2
    rw [hnil]
    rfl
  · cases h

/-- A line that starts with `[` is a header or nothing. -/
theorem parseLine_of_bracketOpen {l : Bytes} {line : Line} (hl : l.head? = some bracketOpen)
    (h : parseLine l = some line) : ∃ name, line = .header name ∧ l = sectionHeader name ∧
      bracketClose ∉ name := by
  cases l with
  | nil => cases hl
  | cons c cs =>
      have hc : c = bracketOpen := by simpa using hl
      subst hc
      have hblank : (bracketOpen :: cs).all isBlank = false := by
        have hne : isBlank bracketOpen = false := by decide
        simp [hne]
      have hcomment : ¬ (bracketOpen :: cs).head? = some semicolon := by
        have hne : bracketOpen ≠ semicolon := by decide
        simp [hne]
      rw [parseLine, hblank, if_neg Bool.false_ne_true, if_neg hcomment, if_pos hl] at h
      split at h
      · rename_i hclose
        cases h
        refine ⟨_, rfl, ?_, hclose.2⟩
        have hne : cs ≠ [] := by
          rintro rfl
          exact absurd hclose.1 (by decide)
        have hlast : cs.getLast? = some bracketClose := by
          rw [← hclose.1, List.getLast?_cons]
          cases hcs : cs.getLast? with
          | none => exact absurd (List.getLast?_eq_none_iff.1 hcs) hne
          | some x => rfl
        -- The name lies between the two brackets.
        have hdecomp := List.dropLast_append_getLast? bracketClose hlast
        rw [sectionHeader, List.tail_cons, List.cons_append, hdecomp]
      · cases h

/-- Only lines with a leading `[` are headers. -/
theorem head?_of_header {l name : Bytes} (h : parseLine l = some (.header name)) :
    l.head? = some bracketOpen := by
  unfold parseLine at h
  split at h
  · cases h
  split at h
  · cases h
  split at h
  · assumption
  split at h
  · cases h
  · cases h

/-! ## The map of a list of lines -/

/-- A place in the store: a section, or `none` above the first header, and a key. -/
abbrev Place := Option Bytes × Bytes

/-- The section after a line, if `cur` is the one before it. -/
def sectionOf (cur : Option Bytes) (l : Bytes) : Option Bytes :=
  match parseLine l with
  | some (.header name) => some name
  | _ => cur

def entryOf (cur : Option Bytes) (l : Bytes) : List (Place × Bytes) :=
  match parseLine l with
  | some (.entry key value) => [((cur, key), value)]
  | _ => []

def headerOf (l : Bytes) : List Bytes :=
  match parseLine l with
  | some (.header name) => [name]
  | _ => []

def headers (ls : List Bytes) : List Bytes :=
  ls.flatMap headerOf

def sectionAfter (cur : Option Bytes) (ls : List Bytes) : Option Bytes :=
  ls.foldl sectionOf cur

/-- The entries of the lines, with the section they belong to. -/
def entriesFrom : Option Bytes → List Bytes → List (Place × Bytes)
  | _, [] => []
  | cur, l :: ls => entryOf cur l ++ entriesFrom (sectionOf cur l) ls

theorem entriesFrom_append (cur : Option Bytes) (ls ms : List Bytes) :
    entriesFrom cur (ls ++ ms) =
      entriesFrom cur ls ++ entriesFrom (sectionAfter cur ls) ms := by
  induction ls generalizing cur with
  | nil => rfl
  | cons l ls ih =>
      rw [List.cons_append, entriesFrom, entriesFrom, ih, List.append_assoc]
      rfl

theorem sectionOf_cases (cur : Option Bytes) (l : Bytes) :
    (∃ name, headerOf l = [name] ∧ sectionOf cur l = some name ∧ entryOf cur l = [] ∧
        parseLine l = some (.header name)) ∨
      (headerOf l = [] ∧ sectionOf cur l = cur ∧ ∀ name, parseLine l ≠ some (.header name)) := by
  cases hparse : parseLine l with
  | none => exact Or.inr (by simp [headerOf, sectionOf, hparse])
  | some line =>
      cases line with
      | header name => exact Or.inl ⟨name, by simp [headerOf, sectionOf, entryOf, hparse]⟩
      | blank => exact Or.inr (by simp [headerOf, sectionOf, hparse])
      | comment => exact Or.inr (by simp [headerOf, sectionOf, hparse])
      | entry key value => exact Or.inr (by simp [headerOf, sectionOf, hparse])

theorem mem_entryOf {cur : Option Bytes} {l : Bytes} {p : Place} {v : Bytes}
    (h : (p, v) ∈ entryOf cur l) : p.1 = cur ∧ parseLine l = some (.entry p.2 v) := by
  unfold entryOf at h
  split at h
  · rename_i key value hparse
    rw [List.mem_singleton] at h
    cases h
    exact ⟨rfl, hparse⟩
  · cases h

theorem exists_line_of_mem_entriesFrom {cur : Option Bytes} {ls : List Bytes} {p : Place}
    {v : Bytes} (h : (p, v) ∈ entriesFrom cur ls) :
    ∃ l ∈ ls, parseLine l = some (.entry p.2 v) := by
  induction ls generalizing cur with
  | nil => cases h
  | cons l ls ih =>
      rw [entriesFrom, List.mem_append] at h
      rcases h with hhere | hrest
      · exact ⟨l, List.mem_cons_self, (mem_entryOf hhere).2⟩
      · rcases ih hrest with ⟨l', hl', hparse⟩
        exact ⟨l', List.mem_cons_of_mem _ hl', hparse⟩

/-- An entry of a section other than the current one comes after a header of that section. -/
theorem mem_headers_of_mem_entriesFrom {cur : Option Bytes} {ls : List Bytes} {s k v : Bytes}
    (hcur : cur ≠ some s) (h : ((some s, k), v) ∈ entriesFrom cur ls) : s ∈ headers ls := by
  induction ls generalizing cur with
  | nil => cases h
  | cons l ls ih =>
      have hcons : headers (l :: ls) = headerOf l ++ headers ls := by simp [headers]
      -- Either this line opens the section, or a later one does.
      rw [hcons, List.mem_append]
      rw [entriesFrom, List.mem_append] at h
      rcases h with hhere | hrest
      · exact absurd (mem_entryOf hhere).1.symm hcur
      · rcases sectionOf_cases cur l with ⟨name, hname, hsect, _⟩ | ⟨_, hsect, _⟩
        · by_cases heq : name = s
          · left
            rw [hname, heq]
            exact List.mem_singleton_self s
          · right
            rw [hsect] at hrest
            exact ih (fun h => heq (Option.some.inj h)) hrest
        · right
          rw [hsect] at hrest
          exact ih hcur hrest

/-- A well-formed INI text, as the list of its lines. -/
structure WellFormed (ls : List Bytes) : Prop where
  plain : ∀ l ∈ ls, PlainLine l
  parses : ∀ l ∈ ls, (parseLine l).isSome = true
  sections : (headers ls).Nodup
  keys : ((entriesFrom none ls).map Prod.fst).Nodup

abbrev IniMap := Place → Option Bytes

def mapOf (ls : List Bytes) : IniMap :=
  fun p => (entriesFrom none ls).lookup p

/-- The text is well formed and its entries are the map `m`. -/
def Denotes (text : Bytes) (m : IniMap) : Prop :=
  ∃ ls, WellFormed ls ∧ text = unlines newline ls ∧ m = mapOf ls

/-! ## Removing and adding one entry -/

theorem lookup_eq_none_iff_not_mem {α β : Type*} [BEq α] [LawfulBEq α] {l : List (α × β)} {a : α} :
    l.lookup a = none ↔ a ∉ l.map Prod.fst := by
  simp only [List.lookup_eq_none_iff, bne_iff_ne, List.mem_map, not_exists, not_and]
  constructor
  · intro h p hp heq
    exact h p hp heq.symm
  · intro h p hp heq
    exact h p hp heq.symm

/-- With distinct keys, an entry in the middle is what its key is mapped to, and taking it out
only unmaps its key. -/
theorem lookup_middle {α β : Type*} [DecidableEq α] [BEq α] [LawfulBEq α]
    {xs ys : List (α × β)} {a : α} {v : β} (h : ((xs ++ (a, v) :: ys).map Prod.fst).Nodup) :
    (fun b => (xs ++ (a, v) :: ys).lookup b) =
        Function.update (fun b => (xs ++ ys).lookup b) a (some v) ∧
      (xs ++ ys).lookup a = none := by
  rw [List.map_append, List.map_cons, List.nodup_middle, List.nodup_cons, ← List.map_append] at h
  have hnone : (xs ++ ys).lookup a = none := lookup_eq_none_iff_not_mem.2 h.1
  refine ⟨funext fun b => ?_, hnone⟩
  have hxs : xs.lookup a = none := by
    apply lookup_eq_none_iff_not_mem.2
    intro hmem
    apply h.1
    rw [List.map_append]
    exact List.mem_append_left _ hmem
  -- Only a lookup of `a` itself sees the entry.
  by_cases hb : b = a
  · subst hb
    simp [List.lookup_append, hxs]
  · have hne : (b == a) = false := beq_false_of_ne hb
    simp [List.lookup_append, List.lookup_cons, hne, Function.update_of_ne hb]

end ConfigItem
end LinuxLearn
