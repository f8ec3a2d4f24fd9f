import LinuxLearn.Json.Print

/-!
# Buffered — printing into one buffer that grows

With a `printbuffer` the printer writes everything into one block.  `ensure` moves the block to a
larger one when the next piece does not fit, `update` finds the end of what a nested call has
written by looking for its zero, and the bytes behind are whatever `malloc` has returned.

`printBuffered_eq` says that this comes to the same text as printing into a block for each item,
from any size of the first block.
-/

namespace LinuxLearn
namespace Json

open Lib

variable {δ : Type}

/-! ## The buffer -/

structure PrintBuffer where
  /-- the block; `length` is its size -/
  buffer : Text
  offset : Nat

/-- For a positive `x`. -/
def pow2gt (x : Nat) : Nat :=
  let x := x - 1
  let x := x ||| x >>> 1
  let x := x ||| x >>> 2
  let x := x ||| x >>> 4
  let x := x ||| x >>> 8
  let x := x ||| x >>> 16
  x + 1

namespace PrintBuffer

/-- `fresh size` are the bytes that stand in a new block of that size. -/
def ensure (fresh : Nat → Nat → UInt8) (p : PrintBuffer) (needed : Nat) : PrintBuffer :=
  if needed + p.offset ≤ p.buffer.length then p
  else
    let newsize := pow2gt (needed + p.offset)
    { p with
      buffer := p.buffer ++
        ((List.range newsize).map (fresh newsize)).drop p.buffer.length }

/-- Bytes written from `p->buffer+p->offset` on. -/
def put (p : PrintBuffer) (w : Text) : Except Fault PrintBuffer :=
  if p.offset + w.length ≤ p.buffer.length then
    .ok { p with buffer := overwrite p.buffer p.offset w }
  else .error .outOfBounds

def advance (p : PrintBuffer) (len : Nat) : PrintBuffer :=
  { p with offset := p.offset + len }

/-- `p->offset=update(p)` -/
def update (p : PrintBuffer) : Except Fault PrintBuffer :=
  if (0 : UInt8) ∈ p.buffer.drop p.offset then
    .ok (p.advance (strlen (p.buffer.drop p.offset)))
  else .error .outOfBounds

end PrintBuffer

/-! ## Printing -/

section Printing

variable (fresh : Nat → Nat → UInt8) (D : Doubles δ) (fmt : Bool)

/-- `ptr=ensure(p,...)`, and the bytes that are written there. -/
def putEnsured (p : PrintBuffer) (needed : Nat) (w : Text) : Except Fault PrintBuffer :=
  (p.ensure fresh needed).put w

/-- A whole string; the offset stays in front of it. -/
def Block.print (b : Block) (p : PrintBuffer) : Except Fault (Nat × PrintBuffer) :=
  (putEnsured fresh p b.needed (b.text ++ [0])).map fun p' => (p.offset, p')

/-- `len=fmt?2:1` -/
def fmtLen : Nat :=
  if fmt then 2 else 1

/-- `if (fmt) {ptr=ensure(p,depth); ...}` -/
def putTabs (depth : Nat) (p : PrintBuffer) : Except Fault PrintBuffer :=
  if fmt then (putEnsured fresh p depth (tabs depth)).map (·.advance depth) else .ok p

mutual

/-- `print_value` with a buffer: the offset of `out`, and the buffer. -/
def printValueIn (depth : Nat) (p : PrintBuffer) : Item δ → Except Fault (Nat × PrintBuffer)
  | .null => (Block.mk 5 (ascii "null")).print fresh p
  | .false => (Block.mk 6 (ascii "false")).print fresh p
  | .true => (Block.mk 5 (ascii "true")).print fresh p
  | .number valueint d => (printNumber D valueint d).print fresh p
  | .string s => (printStringPtr s).print fresh p
  | .array child =>
      if child.isEmpty then (arrayBlock fmt []).print fresh p
      else do
        let p' ← putEnsured fresh p 1 [openBracket]
        let p' ← printItemsIn (depth + 1) (p'.advance 1) child
        let p' ← putEnsured fresh p' 2 [closeBracket, 0]
        .ok (p.offset, p')
  | .object child =>
      if child.isEmpty then (objectBlock fmt depth []).print fresh p
      else do
        let p' ← putEnsured fresh p (fmtLen fmt + 1) (openBrace :: ifFmt fmt [10] ++ [0])
        let p' ← printMembersIn (depth + 1) (p'.advance (fmtLen fmt)) child
        let p' ← putEnsured fresh p' (if fmt then depth + 2 else 2)
          (ifFmt fmt (tabs depth) ++ [closeBrace, 0])
        -- The loop over the tabs has left its own count in `i`.
        .ok (if fmt then depth else p.offset, p')

def printItemsIn (depth : Nat) (p : PrintBuffer) : List (Item δ) → Except Fault PrintBuffer
  | [] => .ok p
  | v :: child => do
      let (_, p) ← printValueIn depth p v
      let p ← p.update
      if child.isEmpty then .ok p
      else
        let p ← putEnsured fresh p (fmtLen fmt + 1) (separator fmt ++ [0])
        printItemsIn depth (p.advance (fmtLen fmt)) child

/-- `depth` is the one of the members. -/
def printMembersIn (depth : Nat) (p : PrintBuffer) :
    List (Text × Item δ) → Except Fault PrintBuffer
  | [] => .ok p
  | (name, v) :: child => do
      let p ← putTabs fresh fmt depth p
      let (_, p) ← (printStringPtr name).print fresh p
      let p ← p.update
      let p ← putEnsured fresh p (fmtLen fmt) (colon :: ifFmt fmt [9])
      let (_, p) ← printValueIn depth (p.advance (fmtLen fmt)) v
      let p ← p.update
      let len := (if fmt then 1 else 0) + if child.isEmpty then 0 else 1
      let p ← putEnsured fresh p (len + 1)
        ((if child.isEmpty then [] else [comma]) ++ ifFmt fmt [10] ++ [0])
      printMembersIn depth (p.advance len) child

end

/-- `cJSON_PrintBuffered` -/
def printBuffered (prebuffer : Nat) (v : Item δ) : Except Fault Text := do
  let (out, p) ← printValueIn fresh D fmt 0
    ⟨(List.range prebuffer).map (fresh prebuffer), 0⟩ v
  if (0 : UInt8) ∈ p.buffer.drop out then .ok (stringIn (p.buffer.drop out))
  else .error .outOfBounds

end Printing

/-! ## What the buffer holds -/

theorem le_pow2gt {x : Nat} (h : 0 < x) : x ≤ pow2gt x := by
  have hle : x - 1 + 1 ≤ pow2gt x := by
    refine Nat.succ_le_succ ?_
    refine Nat.le_trans ?_ Nat.left_le_or
    refine Nat.le_trans ?_ Nat.left_le_or
    refine Nat.le_trans ?_ Nat.left_le_or
    refine Nat.le_trans ?_ Nat.left_le_or
    exact Nat.left_le_or
  omega

namespace PrintBuffer

/-- `w` has been written, and the offset is behind it. -/
def At (p : PrintBuffer) (w : Text) : Prop :=
  p.offset = w.length ∧ ∃ rest, p.buffer = w ++ rest

/-- `t` has been written behind `w`, and the offset is somewhere in it, on the string that ends it.
That is where `update` starts. -/
def Wrote (p : PrintBuffer) (w t : Text) : Prop :=
  ∃ a s rest, t = a ++ s ∧ (0 : UInt8) ∉ s ∧ p.offset = (w ++ a).length ∧
    p.buffer = w ++ a ++ (s ++ 0 :: rest)

variable {p : PrintBuffer} {w t : Text}

theorem At.ensure (fresh : Nat → Nat → UInt8) (h : p.At w) {needed : Nat} (hpos : 0 < needed) :
    (p.ensure fresh needed).offset = w.length ∧
      ∃ rest, (p.ensure fresh needed).buffer = w ++ rest ∧ needed ≤ rest.length := by
  rcases h with ⟨hoffset, rest, hbuffer⟩
  have hlength : p.buffer.length = w.length + rest.length := by
    rw [hbuffer, List.length_append]
  unfold PrintBuffer.ensure
  split
  · exact ⟨hoffset, rest, hbuffer, by omega⟩
  · have hle : needed + p.offset ≤ pow2gt (needed + p.offset) := le_pow2gt (by omega)
    refine ⟨hoffset, rest ++ ((List.range (pow2gt (needed + p.offset))).map
      (fresh (pow2gt (needed + p.offset)))).drop p.buffer.length, ?_, ?_⟩
    · simp only
      rw [← List.append_assoc, ← hbuffer]
    · rw [List.length_append, List.length_drop, List.length_map, List.length_range]
      omega

theorem At.put_fits (fresh : Nat → Nat → UInt8) (h : p.At w) {needed : Nat} {u : Text}
    (hpos : 0 < needed) (hu : u.length ≤ needed) :
    ∃ p', putEnsured fresh p needed u = .ok p' ∧ p'.offset = w.length ∧
      ∃ rest, p'.buffer = w ++ (u ++ rest) := by
  rcases h.ensure fresh hpos with ⟨hoffset, rest, hbuffer, hle⟩
  have hfits : (p.ensure fresh needed).offset + u.length ≤
      (p.ensure fresh needed).buffer.length := by
    rw [hoffset, hbuffer, List.length_append]
    omega
  refine ⟨_, if_pos hfits, hoffset, rest.drop u.length, ?_⟩
  simp only
  rw [hoffset, hbuffer, overwrite_append, List.append_assoc]

/-- A piece after which the offset is moved behind it. -/
theorem At.put_advance (fresh : Nat → Nat → UInt8) (h : p.At w) {needed : Nat} {u u' : Text}
    (hpos : 0 < needed) (hu : (u ++ u').length ≤ needed) :
    ∃ p', putEnsured fresh p needed (u ++ u') = .ok p' ∧ (p'.advance u.length).At (w ++ u) := by
  rcases h.put_fits fresh hpos hu with ⟨p', hput, hoffset, rest, hbuffer⟩
  refine ⟨p', hput, ?_, u' ++ rest, ?_⟩
  · rw [advance, hoffset, List.length_append]
  · rw [advance, hbuffer, List.append_assoc, List.append_assoc]

/-- A piece that ends with the zero that `update` looks for. -/
theorem At.put_wrote (fresh : Nat → Nat → UInt8) (h : p.At (w ++ t)) {needed : Nat} {u : Text}
    (hpos : 0 < needed) (hu : u.length < needed) (hzero : (0 : UInt8) ∉ u) :
    ∃ p', putEnsured fresh p needed (u ++ [0]) = .ok p' ∧ p'.Wrote w (t ++ u) := by
  have hle : (u ++ [0]).length ≤ needed := by
    rw [List.length_append]
    exact hu
  rcases h.put_fits fresh hpos hle with ⟨p', hput, hoffset, rest, hbuffer⟩
  refine ⟨p', hput, t, u, rest, rfl, hzero, hoffset, ?_⟩
  rw [hbuffer, List.append_assoc u [0] rest]
  rfl

theorem At.print (fresh : Nat → Nat → UInt8) (h : p.At w) {b : Block} (hb : b.Enough)
    (hzero : (0 : UInt8) ∉ b.text) :
    ∃ p', b.print fresh p = .ok (w.length, p') ∧ p'.Wrote w b.text := by
  have hlt : b.text.length < b.needed := hb
  have hat : p.At (w ++ []) := by rwa [List.append_nil]
  rcases hat.put_wrote fresh (by omega) hb hzero with ⟨p', hput, hwrote⟩
  refine ⟨p', ?_, hwrote⟩
  rw [Block.print, hput, h.1]
  rfl

theorem Wrote.update (h : p.Wrote w t) : ∃ p', p.update = .ok p' ∧ p'.At (w ++ t) := by
  rcases h with ⟨a, s, rest, rfl, hzero, hoffset, hbuffer⟩
  have hdrop : p.buffer.drop p.offset = s ++ 0 :: rest := by
    rw [hoffset, hbuffer, List.drop_left]
  have hholds : Holds (s ++ 0 :: rest) s := ⟨rest, rfl, hzero⟩
  refine ⟨p.advance s.length, ?_, ?_, 0 :: rest, ?_⟩
  · rw [PrintBuffer.update, hdrop, if_pos (by simp), hholds.strlen_eq]
  · simp only [advance, hoffset, List.length_append]
    omega
  · simp only [advance, hbuffer, List.append_assoc]

end PrintBuffer

/-! ## Texts are strings -/

theorem zero_not_mem_escape {c : UInt8} (h : c ≠ 0) : (0 : UInt8) ∉ escape c := by
  have hhex : ∀ n < 16, (0 : UInt8) ≠ hexDigit n := by
    intro n hn
    interval_cases n <;> decide
  have hlt := c.toNat_lt
  unfold escape
  split
  · exact fun hmem => h (List.mem_singleton.1 hmem).symm
  · split
    · rename_i letter hletter
      rcases List.lookup_eq_some_iff.1 hletter with ⟨l, m, hsplit, -⟩
      have hmem : (c, letter) ∈ shortEscapes := by simp [hsplit]
      simp only [shortEscapes, List.mem_cons, Prod.mk.injEq, List.not_mem_nil, or_false] at hmem
      rcases hmem with ⟨-, rfl⟩ | ⟨-, rfl⟩ | ⟨-, rfl⟩ | ⟨-, rfl⟩ | ⟨-, rfl⟩ | ⟨-, rfl⟩ |
        ⟨-, rfl⟩ <;> decide
    · have hhigh := hhex (c.toNat / 16) (by omega)
      have hlow := hhex (c.toNat % 16) (Nat.mod_lt _ (by decide))
      have hdigit : (0 : UInt8) ≠ digit 0 := by decide
      have hu : (0 : UInt8) ≠ 117 := by decide
      have hbackslash : (0 : UInt8) ≠ backslash := by decide
      simp only [hexEscape, List.mem_cons, List.not_mem_nil, or_false, not_or]
      exact ⟨hbackslash, hu, hdigit, hdigit, hhigh, hlow⟩

theorem zero_not_mem_stringLayout {s : Text} (h : (0 : UInt8) ∉ s) :
    (0 : UInt8) ∉ stringLayout s := by
  intro hmem
  rcases List.mem_cons.1 hmem with heq | hmem
  · cases heq
  · rcases List.mem_append.1 hmem with hmem | heq
    · rcases List.mem_flatMap.1 hmem with ⟨c, hc, hmem⟩
      exact zero_not_mem_escape (fun hzero => h (hzero ▸ hc)) hmem
    · cases List.mem_singleton.1 heq

theorem zero_not_mem_decimal (n : Int) : (0 : UInt8) ∉ decimal n := by
  have hdigits : ∀ m : Nat, (0 : UInt8) ∉ decimalNat m := fun m hmem => by
    cases isDigit_of_mem_decimalNat hmem
  cases n with
  | ofNat m => exact hdigits m
  | negSucc m =>
      intro hmem
      rcases List.mem_cons.1 hmem with heq | hmem
      · cases heq
      · exact hdigits (m + 1) hmem

variable {D : Doubles δ} {fmt : Bool}

theorem zero_not_mem_printNumber (hD : D.Fits) (n : Int) (d : δ) :
    (0 : UInt8) ∉ (printNumber D n d).text := by
  unfold printNumber
  split
  · decide
  · split
    · exact zero_not_mem_decimal n
    · intro hmem
      exact absurd (hD.word d 0 hmem).1 (by decide)

theorem zero_not_mem_ifFmt {w : Text} (h : (0 : UInt8) ∉ w) : (0 : UInt8) ∉ ifFmt fmt w := by
  cases fmt
  · exact List.not_mem_nil
  · exact h

theorem zero_not_mem_tabs (n : Nat) : (0 : UInt8) ∉ tabs n := fun hmem => by
  cases List.eq_of_mem_replicate hmem

theorem mem_intercalate {c : UInt8} {sep : Text} {l : List Text} (h : c ∈ sep.intercalate l) :
    c ∈ sep ∨ ∃ e ∈ l, c ∈ e := by
  induction l with
  | nil => cases h
  | cons e l ih =>
      cases l with
      | nil =>
          rw [List.intercalate_singleton] at h
          exact .inr ⟨e, List.mem_cons_self, h⟩
      | cons e' l =>
          rw [List.intercalate_cons_cons, List.append_assoc] at h
          rcases List.mem_append.1 h with h | h
          · exact .inr ⟨e, List.mem_cons_self, h⟩
          · rcases List.mem_append.1 h with h | h
            · exact .inl h
            · rcases ih h with hsep | ⟨e'', he, hc⟩
              · exact .inl hsep
              · exact .inr ⟨e'', List.mem_cons_of_mem e he, hc⟩

theorem zero_not_mem_membersText {depth : Nat} {entries : List (Text × Text)}
    (h : ∀ e ∈ entries, (0 : UInt8) ∉ e.1 ∧ (0 : UInt8) ∉ e.2) :
    (0 : UInt8) ∉ membersText fmt depth entries := by
  induction entries with
  | nil => exact List.not_mem_nil
  | cons e entries ih =>
      rcases h e List.mem_cons_self with ⟨hname, hentry⟩
      have hrest := ih fun e' he' => h e' (List.mem_cons_of_mem e he')
      have htabs : (0 : UInt8) ∉ ifFmt fmt (tabs depth) := zero_not_mem_ifFmt (zero_not_mem_tabs _)
      have htab : (0 : UInt8) ∉ ifFmt fmt [9] := zero_not_mem_ifFmt (by decide)
      have hnewline : (0 : UInt8) ∉ ifFmt fmt [10] := zero_not_mem_ifFmt (by decide)
      have hcomma : (0 : UInt8) ∉ (if entries.isEmpty then [] else [comma] : Text) := by
        split <;> decide
      have hcolon : (0 : UInt8) ≠ colon := by decide
      simp only [membersText, memberText, List.mem_append, List.mem_cons, not_or]
      exact ⟨⟨⟨⟨⟨⟨htabs, hname⟩, hcolon, htab⟩, hentry⟩, hcomma⟩, hnewline⟩, hrest⟩

theorem zero_not_mem_arrayBlock {entries : List Text} (h : ∀ e ∈ entries, (0 : UInt8) ∉ e) :
    (0 : UInt8) ∉ (arrayBlock fmt entries).text := by
  intro hmem
  rcases List.mem_cons.1 hmem with heq | hmem
  · cases heq
  rcases List.mem_append.1 hmem with hmem | heq
  · rcases mem_intercalate hmem with hsep | ⟨e, he, hmem⟩
    · have hblank : (0 : UInt8) ∉ separator fmt := by cases fmt <;> decide
      exact hblank hsep
    · exact h e he hmem
  · cases List.mem_singleton.1 heq

theorem zero_not_mem_objectBlock {depth : Nat} {entries : List (Text × Text)}
    (h : ∀ e ∈ entries, (0 : UInt8) ∉ e.1 ∧ (0 : UInt8) ∉ e.2) :
    (0 : UInt8) ∉ (objectBlock fmt depth entries).text := by
  have hnewline : (0 : UInt8) ∉ ifFmt fmt [10] := zero_not_mem_ifFmt (by decide)
  have hmembers : (0 : UInt8) ∉ membersText fmt (depth + 1) entries := zero_not_mem_membersText h
  have htabs : ∀ n, (0 : UInt8) ∉ ifFmt fmt (tabs n) := fun n =>
    zero_not_mem_ifFmt (zero_not_mem_tabs n)
  have hopen : (0 : UInt8) ≠ openBrace := by decide
  have hclose : (0 : UInt8) ∉ [closeBrace] := by decide
  simp only [objectBlock, List.mem_append, List.mem_cons, not_or] at hclose ⊢
  exact ⟨⟨⟨⟨hopen, hnewline⟩, hmembers⟩, htabs _⟩, hclose⟩

/-- Nothing behind a zero would be seen, and there is none. -/
theorem zero_not_mem_layout (hD : D.Fits) {v : Item δ} (h : v.Printable) (depth : Nat) :
    (0 : UInt8) ∉ layout D fmt depth v := by
  induction v generalizing depth with
  | null => exact (by decide : (0 : UInt8) ∉ ascii "null")
  | false => exact (by decide : (0 : UInt8) ∉ ascii "false")
  | true => exact (by decide : (0 : UInt8) ∉ ascii "true")
  | number n d => exact zero_not_mem_printNumber hD n d
  | string s => exact zero_not_mem_stringLayout h
  | array child ih =>
      refine zero_not_mem_arrayBlock fun e he => ?_
      rw [itemLayouts_eq_map] at he
      rcases List.mem_map.1 he with ⟨v, hv, rfl⟩
      exact ih v hv (Item.everyItem_iff.1 h v hv) _
  | object child ih =>
      refine zero_not_mem_objectBlock fun e he => ?_
      rw [memberLayouts_eq_map] at he
      rcases List.mem_map.1 he with ⟨m, hm, rfl⟩
      rcases Item.everyMember_iff.1 h m hm with ⟨hname, hvalue⟩
      exact ⟨zero_not_mem_stringLayout hname, ih m hm hvalue _⟩

/-! ## Printing into the buffer -/

section Runs

variable {fresh : Nat → Nat → UInt8} {depth : Nat} {p : PrintBuffer} {w : Text}

/-- `print_value` writes the text of `v` behind what has been written, and returns the start of the
buffer at the outermost call. -/
def PrintsIn (fresh : Nat → Nat → UInt8) (D : Doubles δ) (fmt : Bool) (depth : Nat)
    (v : Item δ) : Prop :=
  ∀ p w, PrintBuffer.At p w → ∃ out p', printValueIn fresh D fmt depth p v = .ok (out, p') ∧
    p'.Wrote w (layout D fmt depth v) ∧ (depth = 0 → w = [] → out = 0)

theorem printsIn_block {v : Item δ} {b : Block}
    (hprint : ∀ p, printValueIn fresh D fmt depth p v = b.print fresh p)
    (htext : layout D fmt depth v = b.text) (hb : b.Enough) (hzero : (0 : UInt8) ∉ b.text) :
    PrintsIn fresh D fmt depth v := by
  intro p w hat
  rcases hat.print fresh hb hzero with ⟨p', hp', hwrote⟩
  refine ⟨w.length, p', (hprint p).trans hp', htext ▸ hwrote, ?_⟩
  rintro - rfl
  rfl

theorem length_fmtLen (fmt : Bool) (c : UInt8) (d : UInt8) :
    (c :: ifFmt fmt [d]).length = fmtLen fmt := by
  cases fmt <;> rfl

theorem fmtLen_pos (fmt : Bool) : 0 < fmtLen fmt := by
  cases fmt <;> decide

/-- The loop of `print_array`. -/
theorem printItemsIn_spec {child : List (Item δ)} (hne : child ≠ [])
    (h : ∀ v ∈ child, PrintsIn fresh D fmt depth v) (hat : p.At w) :
    ∃ p', printItemsIn fresh D fmt depth p child = .ok p' ∧
      p'.At (w ++ (separator fmt).intercalate (itemLayouts D fmt depth child)) := by
  induction child generalizing p w with
  | nil => exact absurd rfl hne
  | cons v child ih =>
      rcases h v List.mem_cons_self p w hat with ⟨out, p₁, hvalue, hwrote, -⟩
      rcases hwrote.update with ⟨p₂, hupdate, hat₂⟩
      cases child with
      | nil =>
          refine ⟨p₂, ?_, ?_⟩
          · simp [printItemsIn, hvalue, hupdate, Bind.bind, Except.bind]
          · rwa [itemLayouts, itemLayouts, List.intercalate_singleton]
      | cons u child =>
          have hfits : (separator fmt ++ [0]).length ≤ fmtLen fmt + 1 := by
            cases fmt <;> decide
          rcases hat₂.put_advance fresh (Nat.succ_pos _) hfits with ⟨p₃, hput, hat₃⟩
          have hlength : (separator fmt).length = fmtLen fmt := length_fmtLen fmt _ _
          rw [hlength] at hat₃
          rcases ih (List.cons_ne_nil u child) (fun u' hu' => h u' (List.mem_cons_of_mem v hu'))
            hat₃ with ⟨p₄, hloop, hat₄⟩
          refine ⟨p₄, ?_, ?_⟩
          · rw [printItemsIn, hvalue]
            simp only [Bind.bind, Except.bind, hupdate, List.isEmpty_cons, Bool.false_eq_true,
              if_false, hput]
            exact hloop
          · rw [itemLayouts, itemLayouts, List.intercalate_cons_cons]
            simpa [itemLayouts, List.append_assoc] using hat₄

theorem printsIn_array {child : List (Item δ)} (hne : child ≠ [])
    (h : ∀ v ∈ child, PrintsIn fresh D fmt (depth + 1) v) :
    PrintsIn fresh D fmt depth (.array child) := by
  intro p w hat
  have hempty : child.isEmpty = false := by simpa using hne
  have hone : ([openBracket] ++ []).length ≤ 1 := Nat.le_refl 1
  rcases hat.put_advance fresh Nat.one_pos hone with ⟨p₁, hopen, hat₁⟩
  rcases printItemsIn_spec hne h hat₁ with ⟨p₂, hitems, hat₂⟩
  rw [List.append_assoc] at hat₂
  have htwo : [closeBracket].length < 2 := Nat.le_refl 2
  rcases hat₂.put_wrote fresh Nat.two_pos htwo (by decide) with ⟨p₃, hclose, hwrote⟩
  refine ⟨p.offset, p₃, ?_, hwrote, ?_⟩
  · have hopen' : putEnsured fresh p 1 [openBracket] = .ok p₁ := hopen
    have hclose' : putEnsured fresh p₂ 2 [closeBracket, 0] = .ok p₃ := hclose
    simp only [printValueIn, hempty, Bool.false_eq_true, if_false, Bind.bind, Except.bind, hopen']
    simp only [List.length_singleton] at hitems
    simp only [hitems, hclose']
  · rintro - rfl
    exact hat.1

/-- The tabs in front of a member. -/
theorem putTabs_spec (fresh : Nat → Nat → UInt8) (fmt : Bool) (hdepth : 0 < depth) (hat : p.At w) :
    ∃ p', putTabs fresh fmt depth p = .ok p' ∧ p'.At (w ++ ifFmt fmt (tabs depth)) := by
  unfold putTabs
  cases fmt with
  | false =>
      refine ⟨p, rfl, ?_⟩
      rwa [ifFmt, if_neg (by decide), List.append_nil]
  | true =>
      have hfits : (tabs depth ++ []).length ≤ depth := by simp
      rcases hat.put_advance fresh hdepth hfits with ⟨p', hput, hat'⟩
      rw [List.append_nil] at hput
      rw [length_tabs] at hat'
      exact ⟨p'.advance depth, by rw [if_pos rfl, hput]; rfl, hat'⟩

/-- The comma and the line feed behind a member. -/
theorem memberEnd_spec (fresh : Nat → Nat → UInt8) (fmt : Bool) (last : Bool) (hat : p.At w) :
    ∃ p', putEnsured fresh p ((if fmt then 1 else 0) + (if last then 0 else 1) + 1)
        ((if last then [] else [comma]) ++ ifFmt fmt [10] ++ [0]) = .ok p' ∧
      (p'.advance ((if fmt then 1 else 0) + if last then 0 else 1)).At
        (w ++ ((if last then [] else [comma]) ++ ifFmt fmt [10])) := by
  have hlength : ((if last then [] else [comma]) ++ ifFmt fmt [10] : Text).length =
      (if fmt then 1 else 0) + if last then 0 else 1 := by
    cases last <;> cases fmt <;> rfl
  have hfits : (((if last then [] else [comma]) ++ ifFmt fmt [10] : Text) ++ [0]).length ≤
      (if fmt then 1 else 0) + (if last then 0 else 1) + 1 := by
    rw [List.length_append, hlength]
    exact Nat.le_refl _
  rcases hat.put_advance fresh (Nat.succ_pos _) hfits with ⟨p', hput, hat'⟩
  rw [hlength] at hat'
  exact ⟨p', hput, hat'⟩

/-- The loop of `print_object`. -/
theorem printMembersIn_spec (hdepth : 0 < depth) {child : List (Text × Item δ)}
    (h : ∀ m ∈ child, (0 : UInt8) ∉ m.1 ∧ PrintsIn fresh D fmt depth m.2) (hat : p.At w) :
    ∃ p', printMembersIn fresh D fmt depth p child = .ok p' ∧
      p'.At (w ++ membersText fmt depth (memberLayouts D fmt depth child)) := by
  induction child generalizing p w with
  | nil => exact ⟨p, rfl, by rwa [memberLayouts, membersText, List.append_nil]⟩
  | cons m child ih =>
      rcases m with ⟨name, v⟩
      obtain ⟨hname, hvalue⟩ : (0 : UInt8) ∉ name ∧ PrintsIn fresh D fmt depth v :=
        h _ List.mem_cons_self
      rcases putTabs_spec fresh fmt hdepth hat with ⟨p₁, htabs, hat₁⟩
      have hzero : (0 : UInt8) ∉ (printStringPtr name).text := by
        rw [printStringPtr_text]
        exact zero_not_mem_stringLayout hname
      rcases hat₁.print fresh (enough_printStringPtr name) hzero with ⟨p₂, hstring, hwrote₂⟩
      rcases hwrote₂.update with ⟨p₃, hupdate₃, hat₃⟩
      have hfits : (colon :: ifFmt fmt [9] ++ []).length ≤ fmtLen fmt := by
        rw [List.append_nil, length_fmtLen]
      rcases hat₃.put_advance fresh (fmtLen_pos fmt) hfits with ⟨p₄, hcolon, hat₄⟩
      rw [List.append_nil] at hcolon
      rw [length_fmtLen] at hat₄
      rcases hvalue _ _ hat₄ with ⟨out, p₅, hprint, hwrote₅, -⟩
      rcases hwrote₅.update with ⟨p₆, hupdate₆, hat₆⟩
      rcases memberEnd_spec fresh fmt child.isEmpty hat₆ with
        ⟨p₇, hend, hat₇⟩
      rcases ih (fun m' hm' => h m' (List.mem_cons_of_mem _ hm')) hat₇ with ⟨p₈, hloop, hat₈⟩
      refine ⟨p₈, ?_, ?_⟩
      · rw [printMembersIn]
        simp only [Bind.bind, Except.bind, htabs, hstring, hupdate₃, hcolon, hprint, hupdate₆, hend]
        exact hloop
      · have hempty : (memberLayouts D fmt depth child).isEmpty = child.isEmpty := by
          cases child <;> rfl
        rw [printStringPtr_text] at hat₈
        simpa only [memberLayouts, membersText, memberText, hempty, List.append_assoc] using hat₈

theorem printsIn_object {child : List (Text × Item δ)} (hne : child ≠ [])
    (h : ∀ m ∈ child, (0 : UInt8) ∉ m.1 ∧ PrintsIn fresh D fmt (depth + 1) m.2) :
    PrintsIn fresh D fmt depth (.object child) := by
  intro p w hat
  have hempty : child.isEmpty = false := by simpa using hne
  have hfits : (openBrace :: ifFmt fmt [10] ++ [0]).length ≤ fmtLen fmt + 1 := by
    cases fmt <;> decide
  rcases hat.put_advance fresh (Nat.succ_pos _) hfits with ⟨p₁, hopen, hat₁⟩
  rw [length_fmtLen] at hat₁
  rcases printMembersIn_spec (Nat.succ_pos depth) h hat₁ with ⟨p₂, hmembers, hat₂⟩
  rw [List.append_assoc] at hat₂
  have hzero : (0 : UInt8) ∉ ifFmt fmt (tabs depth) ++ [closeBrace] := by
    have hclose : (0 : UInt8) ∉ [closeBrace] := by decide
    exact fun hmem => (List.mem_append.1 hmem).elim
      (zero_not_mem_ifFmt (zero_not_mem_tabs depth)) hclose
  have hneeded : (ifFmt fmt (tabs depth) ++ [closeBrace]).length <
      if fmt then depth + 2 else 2 := by
    cases fmt <;> simp
  rcases hat₂.put_wrote fresh (Nat.zero_lt_of_lt hneeded) hneeded hzero with
    ⟨p₃, hclose, hwrote⟩
  rw [List.append_assoc] at hclose
  refine ⟨if fmt then depth else p.offset, p₃, ?_, ?_, ?_⟩
  · have hclose' : putEnsured fresh p₂ (if fmt then depth + 2 else 2)
        (ifFmt fmt (tabs depth) ++ [closeBrace, 0]) = .ok p₃ := hclose
    simp only [printValueIn, hempty, Bool.false_eq_true, if_false, Bind.bind, Except.bind, hopen,
      hmembers, hclose']
  · have hlayout : layout D fmt depth (.object child) =
        openBrace :: ifFmt fmt [10] ++ membersText fmt (depth + 1)
          (memberLayouts D fmt (depth + 1) child) ++ (ifFmt fmt (tabs depth) ++ [closeBrace]) := by
      have hentries : memberLayouts D fmt (depth + 1) child ≠ [] := by
        rw [memberLayouts_eq_map]
        simpa using hne
      simp [layout, objectBlock, hentries]
    rwa [hlayout]
  · rintro rfl rfl
    rw [hat.1]
    cases fmt <;> rfl

theorem printsIn (fresh : Nat → Nat → UInt8) (fmt : Bool) (hD : D.Fits) {v : Item δ}
    (h : v.Printable) (depth : Nat) : PrintsIn fresh D fmt depth v := by
  induction v generalizing depth with
  | null => exact printsIn_block (fun _ => rfl) rfl (by decide) (by decide)
  | false => exact printsIn_block (fun _ => rfl) rfl (by decide) (by decide)
  | true => exact printsIn_block (fun _ => rfl) rfl (by decide) (by decide)
  | number n d =>
      exact printsIn_block (fun _ => rfl) rfl (enough_printNumber hD h d)
        (zero_not_mem_printNumber hD n d)
  | string s =>
      have htext := printStringPtr_text s
      exact printsIn_block (fun _ => rfl) htext.symm (enough_printStringPtr s)
        (htext ▸ zero_not_mem_stringLayout h)
  | array child ih =>
      by_cases hne : child = []
      · subst hne
        exact printsIn_block (fun _ => rfl) rfl (enough_arrayBlock fmt [])
          (zero_not_mem_arrayBlock fun _ he => nomatch he)
      · exact printsIn_array hne fun v hv => ih v hv (Item.everyItem_iff.1 h v hv) _
  | object child ih =>
      by_cases hne : child = []
      · subst hne
        exact printsIn_block (fun _ => rfl) rfl (enough_objectBlock fmt depth [])
          (zero_not_mem_objectBlock fun _ he => nomatch he)
      · refine printsIn_object hne fun m hm => ?_
        rcases Item.everyMember_iff.1 h m hm with ⟨hname, hvalue⟩
        exact ⟨hname, ih m hm hvalue _⟩

end Runs

/-- Neither way to print leaves its blocks, whatever the size of the first one is and whatever
stands in fresh memory, and both give the same text. -/
theorem printBuffered_eq (fresh : Nat → Nat → UInt8) {D : Doubles δ} (hD : D.Fits) (fmt : Bool)
    (prebuffer : Nat) {v : Item δ} (h : v.Printable) :
    ∃ text, printValue D fmt 0 v = .ok text ∧ printBuffered fresh D fmt prebuffer v = .ok text := by
  have hat : PrintBuffer.At ⟨(List.range prebuffer).map (fresh prebuffer), 0⟩ [] :=
    ⟨rfl, _, rfl⟩
  rcases printsIn fresh fmt hD h 0 _ _ hat with ⟨out, p, hprint, hwrote, hout⟩
  rcases hwrote with ⟨a, s, rest, htext, -, -, hbuffer⟩
  rw [List.nil_append, ← List.append_assoc, ← htext] at hbuffer
  have hholds : Holds (layout D fmt 0 v ++ 0 :: rest) (layout D fmt 0 v) :=
    ⟨rest, rfl, zero_not_mem_layout hD h 0⟩
  refine ⟨_, printValue_eq hD h fmt 0, ?_⟩
  rw [printBuffered, hprint]
  simp only [Bind.bind, Except.bind]
  rw [hout rfl rfl, List.drop_zero, hbuffer, if_pos (by simp), hholds.stringIn_eq]

theorem printBuffered_eq_small :
    ∃ text, printValue rationals true 0
        (.object [(ascii "t", .array [.null, .number 7 7]), (ascii "e", .object [])]) = .ok text ∧
      printBuffered (fun _ i => UInt8.ofNat (i + 1)) rationals true 1
        (.object [(ascii "t", .array [.null, .number 7 7]), (ascii "e", .object [])]) = .ok text :=
  printBuffered_eq _ rationals_fits true 1
    (by simp [Item.Printable, Item.Every, Item.EveryItem, Item.EveryMember, IntRange]; decide)

end Json
end LinuxLearn
