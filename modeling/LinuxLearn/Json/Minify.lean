import LinuxLearn.Json.Outcome

/-!
# Minify — blanks and comments taken out of a text

`cJSON_Minify` goes over the text once and copies what is neither blank nor a comment.  Strings are
copied as they are.  A comment or a string that is not closed lets it step over the terminating
zero.

The formatted text of an item becomes its unformatted text, and a text that the parser accepts is
accepted with the same item afterwards.
-/

namespace LinuxLearn
namespace Json

open Lib

variable {δ : Type}

/-! ## The loop -/

/-- Where the loop is. -/
inductive Mode
  | plain
  | string
  /-- behind a backslash in a string -/
  | escape
  | lineComment
  | blockComment
  /-- in front of the slash that ends a comment -/
  | commentEnd
  deriving DecidableEq, Repr

def isJsonBlank (c : UInt8) : Bool :=
  c == 32 || c == 9 || c == 13 || c == 10

/-- What stands at `into` in the end. -/
def minifyFrom : Mode → Text → Except Fault Text
  | .plain, [] => .ok []
  | .string, [] => .error .outOfBounds
  | .escape, [] => .error .outOfBounds
  | .lineComment, [] => .ok []
  | .blockComment, [] => .error .outOfBounds
  | .commentEnd, [] => .error .outOfBounds
  | .plain, c :: json =>
      if isJsonBlank c then minifyFrom .plain json
      else if c = 47 ∧ json.head? = some 47 then minifyFrom .lineComment json
      else if c = 47 ∧ json.head? = some 42 then minifyFrom .blockComment json
      else if c = quote then (minifyFrom .string json).map (c :: ·)
      else (minifyFrom .plain json).map (c :: ·)
  | .string, c :: json =>
      if c = quote then (minifyFrom .plain json).map (c :: ·)
      else if c = backslash then (minifyFrom .escape json).map (c :: ·)
      else (minifyFrom .string json).map (c :: ·)
  | .escape, c :: json => (minifyFrom .string json).map (c :: ·)
  | .lineComment, c :: json =>
      -- The line feed is left to the loop around.
      if c = 10 then minifyFrom .plain json else minifyFrom .lineComment json
  | .blockComment, c :: json =>
      if c = 42 ∧ json.head? = some 47 then minifyFrom .commentEnd json
      else minifyFrom .blockComment json
  | .commentEnd, _ :: json => minifyFrom .plain json

/-- `cJSON_Minify` -/
def minify (json : Text) : Except Fault Text :=
  minifyFrom .plain json

example : minify (ascii "[ 1, // one\n \" /* \" /* two */ ]") = .ok (ascii "[1,\" /* \"]") := by
  decide

/-! ## Copied and dropped pieces -/

/-- The loop goes from one mode to the other over `w` and leaves `u` of it. -/
def Leaves (m : Mode) (w u : Text) (m' : Mode) : Prop :=
  ∀ t, minifyFrom m (w ++ t) = (minifyFrom m' t).map (u ++ ·)

theorem map_nil_append (r : Except Fault Text) : r.map (([] : Text) ++ ·) = r := by
  cases r <;> rfl

theorem leaves_nil (m : Mode) : Leaves m [] [] m := by
  intro t
  rw [map_nil_append]
  rfl

theorem Leaves.append {m m' m'' : Mode} {w u w' u' : Text} (h : Leaves m w u m')
    (h' : Leaves m' w' u' m'') : Leaves m (w ++ w') (u ++ u') m'' := by
  intro t
  rw [List.append_assoc, h, h']
  cases minifyFrom m'' t with
  | error e => rfl
  | ok v => exact congrArg Except.ok (List.append_assoc u u' v).symm

theorem leaves_flatMap {α : Type} {m : Mode} {f g : α → Text} {l : List α}
    (h : ∀ a ∈ l, Leaves m (f a) (g a) m) : Leaves m (l.flatMap f) (l.flatMap g) m := by
  induction l with
  | nil => exact leaves_nil m
  | cons a l ih =>
      exact (h a List.mem_cons_self).append (ih fun b hb => h b (List.mem_cons_of_mem a hb))

theorem leaves_blank {c : UInt8} (h : isJsonBlank c = true) : Leaves .plain [c] [] .plain := by
  intro t
  rw [map_nil_append, List.singleton_append, minifyFrom, if_pos h]

/-- What is no blank, does not open a comment and opens no string. -/
def isCopied (c : UInt8) : Bool :=
  !isJsonBlank c && c != 47 && c != quote

theorem leaves_copied {c : UInt8} (h : isCopied c = true) : Leaves .plain [c] [c] .plain := by
  intro t
  have hparts : isJsonBlank c = false ∧ c ≠ 47 ∧ c ≠ quote := by
    simpa [isCopied, and_assoc] using h
  rw [List.singleton_append, minifyFrom, if_neg (by simp [hparts.1]), if_neg (by simp [hparts.2.1]),
    if_neg (by simp [hparts.2.1]), if_neg hparts.2.2]
  rfl

theorem leaves_all_copied {w : Text} (h : w.all isCopied = true) : Leaves .plain w w .plain := by
  have hleaves : Leaves .plain (w.flatMap fun c => [c]) (w.flatMap fun c => [c]) .plain :=
    leaves_flatMap fun c hc => leaves_copied (List.all_eq_true.1 h c hc)
  rwa [List.flatMap_singleton'] at hleaves

theorem leaves_all_blank {w : Text} (h : w.all isJsonBlank = true) :
    Leaves .plain w [] .plain := by
  have hleaves : Leaves .plain (w.flatMap fun c => [c]) (w.flatMap fun _ => []) .plain :=
    leaves_flatMap fun c hc => leaves_blank (List.all_eq_true.1 h c hc)
  have hempty : (w.flatMap fun _ => ([] : Text)) = [] := by simp
  rwa [List.flatMap_singleton', hempty] at hleaves

theorem leaves_openQuote : Leaves .plain [quote] [quote] .string := by
  intro t
  rfl

theorem leaves_closeQuote : Leaves .string [quote] [quote] .plain := by
  intro t
  rfl

theorem leaves_string {c : UInt8} (hquote : c ≠ quote) (hbackslash : c ≠ backslash) :
    Leaves .string [c] [c] .string := by
  intro t
  rw [List.singleton_append, minifyFrom, if_neg hquote, if_neg hbackslash]
  rfl

theorem leaves_escape (c : UInt8) : Leaves .string [backslash, c] [backslash, c] .string := by
  intro t
  have hstep : minifyFrom .string (backslash :: c :: t) =
      ((minifyFrom .string t).map (c :: ·)).map (backslash :: ·) := rfl
  rw [List.cons_append, List.singleton_append, hstep]
  cases minifyFrom .string t <;> rfl

theorem leaves_strings {w : Text} (h : ∀ c ∈ w, c ≠ quote ∧ c ≠ backslash) :
    Leaves .string w w .string := by
  have hleaves : Leaves .string (w.flatMap fun c => [c]) (w.flatMap fun c => [c]) .string :=
    leaves_flatMap fun c hc => leaves_string (h c hc).1 (h c hc).2
  rwa [List.flatMap_singleton'] at hleaves

/-! ## Formatted texts -/

section Layout

variable {D : Doubles δ}

theorem isCopied_of_word {c : UInt8} (h : 32 < c.toNat ∧ c ≠ quote ∧ c ≠ 47) :
    isCopied c = true := by
  have hne : ∀ d : UInt8, d.toNat ≤ 32 → (c == d) = false := fun d hd =>
    beq_false_of_ne fun heq => by
      rw [heq] at h
      omega
  simp [isCopied, isJsonBlank, hne, h.2]

theorem isCopied_of_isDigit {c : UInt8} (h : isDigit c = true) : isCopied c = true := by
  have hrange := of_decide_eq_true h
  refine isCopied_of_word ⟨by omega, ?_, ?_⟩ <;> rintro rfl <;> cases h

theorem leaves_decimal (n : Int) : Leaves .plain (decimal n) (decimal n) .plain := by
  refine leaves_all_copied (List.all_eq_true.2 fun c hc => ?_)
  cases n with
  | ofNat m => exact isCopied_of_isDigit (isDigit_of_mem_decimalNat hc)
  | negSucc m =>
      rcases List.mem_cons.1 hc with rfl | hc
      · rfl
      · exact isCopied_of_isDigit (isDigit_of_mem_decimalNat hc)

theorem leaves_printNumber (hD : D.Fits) (n : Int) (d : δ) :
    Leaves .plain (printNumber D n d).text (printNumber D n d).text .plain := by
  unfold printNumber
  split
  · exact leaves_decimal 0
  · split
    · exact leaves_decimal n
    · exact leaves_all_copied
        (List.all_eq_true.2 fun c hc => isCopied_of_word (hD.word d c hc))

theorem leaves_escapeText (c : UInt8) : Leaves .string (escape c) (escape c) .string := by
  have hlt := c.toNat_lt
  unfold escape
  split
  · rename_i h
    have hplain : 31 < c.toNat ∧ c ≠ quote ∧ c ≠ backslash := by
      simpa [isPlain, and_assoc] using h
    exact leaves_string hplain.2.1 hplain.2.2
  · split
    · exact leaves_escape _
    · refine (leaves_escape 117).append (leaves_strings (w := (hexEscape c).tail) fun d hd => ?_)
      simp only [hexEscape, List.tail_cons, List.mem_cons, List.not_mem_nil, or_false] at hd
      rcases hd with rfl | rfl | rfl | rfl
      · decide
      · decide
      · exact ⟨hexDigit_ne_quote (by omega), hexDigit_ne_backslash (by omega)⟩
      · exact ⟨hexDigit_ne_quote (by omega), hexDigit_ne_backslash (by omega)⟩

theorem leaves_stringLayout (s : Text) :
    Leaves .plain (stringLayout s) (stringLayout s) .plain :=
  leaves_openQuote.append ((leaves_flatMap fun c _ => leaves_escapeText c).append leaves_closeQuote)

theorem leaves_ifFmt {w : Text} (h : w.all isJsonBlank = true) :
    Leaves .plain (ifFmt true w) (ifFmt false w) .plain :=
  leaves_all_blank h

theorem leaves_tabs (n n' : Nat) :
    Leaves .plain (ifFmt true (tabs n)) (ifFmt false (tabs n')) .plain :=
  leaves_all_blank (List.all_eq_true.2 fun c hc => by
    rw [List.eq_of_mem_replicate hc]
    rfl)

theorem leaves_separator : Leaves .plain (separator true) (separator false) .plain :=
  (leaves_copied (by decide)).append (leaves_ifFmt (by decide))

theorem leaves_intercalate {f g : Item δ → Text} {child : List (Item δ)}
    (h : ∀ v ∈ child, Leaves .plain (f v) (g v) .plain) :
    Leaves .plain ((separator true).intercalate (child.map f))
      ((separator false).intercalate (child.map g)) .plain := by
  induction child with
  | nil => exact leaves_nil .plain
  | cons v child ih =>
      have hv := h v List.mem_cons_self
      cases child with
      | nil =>
          rw [List.map_singleton, List.map_singleton, List.intercalate_singleton,
            List.intercalate_singleton]
          exact hv
      | cons u child =>
          rw [List.map_cons, List.map_cons, List.map_cons, List.map_cons,
            List.intercalate_cons_cons, List.intercalate_cons_cons]
          exact (hv.append leaves_separator).append
            (ih fun u' hu' => h u' (List.mem_cons_of_mem v hu'))

theorem leaves_membersText {n n' : Nat} {f g : Item δ → Text} {child : List (Text × Item δ)}
    (h : ∀ m ∈ child, Leaves .plain (f m.2) (g m.2) .plain) :
    Leaves .plain (membersText true n (child.map fun m => (stringLayout m.1, f m.2)))
      (membersText false n' (child.map fun m => (stringLayout m.1, g m.2))) .plain := by
  induction child with
  | nil => exact leaves_nil .plain
  | cons m child ih =>
      have hcomma : Leaves .plain (if child.isEmpty then [] else [comma])
          (if child.isEmpty then [] else [comma]) .plain := by
        split
        · exact leaves_nil .plain
        · exact leaves_copied (by decide)
      have hcolon : Leaves .plain (colon :: ifFmt true [9]) (colon :: ifFmt false [9]) .plain :=
        (leaves_copied (by decide)).append (leaves_ifFmt (by decide))
      have hmember := (((((leaves_tabs n n').append (leaves_stringLayout m.1)).append hcolon).append
        (h m List.mem_cons_self)).append hcomma).append (leaves_ifFmt (w := [10]) (by decide))
      have hrest := ih fun m' hm' => h m' (List.mem_cons_of_mem m hm')
      simp only [List.map_cons, membersText, List.isEmpty_map]
      exact hmember.append hrest

/-- The blanks between the parts of a text are dropped, at any depth. -/
theorem leaves_layout (hD : D.Fits) (v : Item δ) (depth depth' : Nat) :
    Leaves .plain (layout D true depth v) (layout D false depth' v) .plain := by
  induction v generalizing depth depth' with
  | null => exact leaves_all_copied (w := ascii "null") (by decide)
  | false => exact leaves_all_copied (w := ascii "false") (by decide)
  | true => exact leaves_all_copied (w := ascii "true") (by decide)
  | number n d => exact leaves_printNumber hD n d
  | string s => exact leaves_stringLayout s
  | array child ih =>
      have hchild := leaves_intercalate fun v hv => ih v hv (depth + 1) (depth' + 1)
      have hopen : Leaves .plain [openBracket] [openBracket] .plain := leaves_copied (by decide)
      have hclose : Leaves .plain [closeBracket] [closeBracket] .plain := leaves_copied (by decide)
      rw [layout, layout, itemLayouts_eq_map, itemLayouts_eq_map]
      exact hopen.append (hchild.append hclose)
  | object child ih =>
      have hchild : Leaves .plain
          (membersText true (depth + 1) (memberLayouts D true (depth + 1) child))
          (membersText false (depth' + 1) (memberLayouts D false (depth' + 1) child)) .plain := by
        rw [memberLayouts_eq_map, memberLayouts_eq_map]
        exact leaves_membersText fun m hm => ih m hm (depth + 1) (depth' + 1)
      have hopen : Leaves .plain [openBrace] [openBrace] .plain := leaves_copied (by decide)
      have hclose : Leaves .plain [closeBrace] [closeBrace] .plain := leaves_copied (by decide)
      have hnewline : Leaves .plain (ifFmt true [10]) (ifFmt false [10]) .plain :=
        leaves_ifFmt (by decide)
      exact (((hopen.append hnewline).append hchild).append (leaves_tabs _ _)).append hclose

end Layout

/-- The formatted text without its blanks is the unformatted one. -/
theorem minify_print {D : Doubles δ} (hD : D.Fits) {v : Item δ} (h : v.Printable) :
    ∃ text, print D v = .ok text ∧ minify text = printUnformatted D v := by
  have hleaves := leaves_layout hD v 0 0 []
  rw [List.append_nil] at hleaves
  refine ⟨layout D true 0 v, printValue_eq hD h true 0, ?_⟩
  rw [minify, hleaves, printUnformatted, printValue_eq hD h]
  exact congrArg Except.ok (List.append_nil _)

theorem minify_print_nested : ∃ text,
    print rationals (.object [(ascii "t", .array [.null, .string (ascii "a b")])]) = .ok text ∧
      minify text = printUnformatted rationals
        (.object [(ascii "t", .array [.null, .string (ascii "a b")])]) :=
  minify_print rationals_fits (by
    simp only [Item.Printable, Item.Every, Item.EveryItem, Item.EveryMember]
    decide)

end Json
end LinuxLearn
