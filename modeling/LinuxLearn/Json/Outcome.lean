import LinuxLearn.Json.RoundTrip

/-!
# Outcome — the parser on any text

`Sound` lists what the parser may do: it returns an item and moves on in the text, it returns null
with `ep` in the text, or, if the text has an escape that is cut off, it leaves the text or the
block of a string.  So a text whose escapes are complete is parsed within its bounds, whatever else
is wrong with it.
-/

namespace LinuxLearn
namespace Json

open Lib

variable {δ α β : Type}

/-! ## Escapes -/

/-- What stands behind a backslash: a character, and four hexadecimal digits if that is a `u`. -/
def escapeFollows : Text → Bool
  | [] => false
  | e :: w => e != 117 || decide (4 ≤ w.length) && (w.take 4).all fun d => (hexVal d).isSome

/-- Every escape in the text is complete. -/
def escaped : Text → Bool
  | [] => true
  | c :: w => (c != backslash || escapeFollows w) && escaped w

theorem escaped_of_suffix {u w : Text} (hsuffix : w <:+ u) (h : escaped u = true) :
    escaped w = true := by
  rcases hsuffix with ⟨t, rfl⟩
  induction t with
  | nil => exact h
  | cons c t ih =>
      rw [List.cons_append, escaped, Bool.and_eq_true] at h
      exact ih h.2

theorem not_escaped_of_suffix {u w : Text} (hsuffix : w <:+ u) (h : escaped w = false) :
    escaped u = false :=
  Bool.eq_false_iff.2 fun htrue => by
    rw [escaped_of_suffix hsuffix htrue] at h
    cases h

/-! ## Outcomes -/

/-- What may come of parsing a text into something that satisfies `P`. -/
def Sound (text : Text) (P : α → Prop) : Except Stop (α × Text) → Prop
  | .ok (a, rest) => P a ∧ ∃ used, used ≠ [] ∧ text = used ++ rest
  | .error (.malformed ep) => ep <:+ text
  | .error .behindText => escaped text = false
  | .error .behindBlock => escaped text = false
  | .error .fuel => False

theorem Sound.of_suffix {text text' : Text} {P : α → Prop} {r : Except Stop (α × Text)}
    (hsuffix : text' <:+ text) (h : Sound text' P r) : Sound text P r := by
  match r with
  | .ok (a, rest) =>
      rcases h with ⟨ha, used, hne, rfl⟩
      rcases hsuffix with ⟨u, rfl⟩
      exact ⟨ha, u ++ used, by simp [hne], by rw [List.append_assoc]⟩
  | .error (.malformed ep) => exact h.trans hsuffix
  | .error .behindText => exact not_escaped_of_suffix hsuffix h
  | .error .behindBlock => exact not_escaped_of_suffix hsuffix h

theorem Sound.map {text : Text} {P : α → Prop} {Q : β → Prop} {r : Except Stop (α × Text)}
    (h : Sound text P r) {f : α → β} (hf : ∀ a, P a → Q (f a)) :
    Sound text Q (r.map (Prod.map f id)) := by
  match r with
  | .ok (a, rest) => exact ⟨hf a h.1, h.2⟩
  | .error (.malformed ep) => exact h
  | .error .behindText => exact h
  | .error .behindBlock => exact h

/-- What goes on from a result may look at a shorter text only. -/
theorem Sound.bind {text : Text} {P : α → Prop} {Q : β → Prop} {r : Except Stop (α × Text)}
    (h : Sound text P r) {f : α × Text → Except Stop (β × Text)}
    (hf : ∀ a rest, P a → rest <:+ text → rest.length < text.length → Sound rest Q (f (a, rest))) :
    Sound text Q (r >>= f) := by
  match r with
  | .ok (a, rest) =>
      rcases h with ⟨ha, used, hne, rfl⟩
      have hpos := List.length_pos_of_ne_nil hne
      have hsuffix : rest <:+ used ++ rest := List.suffix_append used rest
      exact (hf a rest ha hsuffix (by rw [List.length_append]; omega)).of_suffix hsuffix
  | .error (.malformed ep) => exact h
  | .error .behindText => exact h
  | .error .behindBlock => exact h

theorem sound_ok_cons {c : UInt8} {text rest : Text} {P : α → Prop} {a : α} (ha : P a)
    (h : rest <:+ text) : Sound (c :: text) P (.ok (a, rest)) := by
  rcases h with ⟨used, rfl⟩
  exact ⟨ha, c :: used, List.cons_ne_nil c used, rfl⟩

theorem skip_suffix (text : Text) : skip text <:+ text :=
  List.dropWhile_suffix _

/-! ## Characters -/

/-- A byte with its highest bit set is not zero. -/
theorem ofNat_ne_zero {n : Nat} (h : n.testBit 7 = true) : UInt8.ofNat n ≠ 0 := by
  intro heq
  have hmod : n % 2 ^ 8 = 0 := by
    have := congrArg UInt8.toNat heq
    simpa using this
  have hbit : (n % 2 ^ 8).testBit 7 = true := by
    rw [Nat.testBit_mod_two_pow, h]
    rfl
  rw [hmod, Nat.zero_testBit] at hbit
  cases hbit

theorem continuation_ne_zero (uc : Nat) : continuation uc ≠ 0 :=
  ofNat_ne_zero (by
    rw [Nat.testBit_and, Nat.testBit_or]
    have h80 : Nat.testBit 0x80 7 = true := by decide
    have hBF : Nat.testBit 0xBF 7 = true := by decide
    rw [h80, hBF, Bool.or_true, Bool.and_true])

theorem ofNat_or_ne_zero (uc : Nat) {mark : Nat} (h : mark.testBit 7 = true) :
    UInt8.ofNat (uc ||| mark) ≠ 0 :=
  ofNat_ne_zero (by rw [Nat.testBit_or, h, Bool.or_true])

theorem zero_not_mem_utf8 {uc : Nat} (h : uc ≠ 0) : (0 : UInt8) ∉ utf8 uc := by
  unfold utf8
  split
  · rename_i hshort
    rw [List.mem_singleton]
    intro heq
    have hzero := congrArg UInt8.toNat heq
    rw [UInt8.toNat_ofNat'] at hzero
    have hmod : (0 : UInt8).toNat = 0 := rfl
    omega
  · have hlast : ∀ n, ¬ (0 : UInt8) = continuation n := fun n => (continuation_ne_zero n).symm
    split_ifs <;>
      simp only [List.mem_cons, List.not_mem_nil, or_false, hlast] <;>
      exact (ofNat_or_ne_zero _ (by decide)).symm

theorem zero_not_mem_transcode (ptr : Text) : (0 : UInt8) ∉ (transcode ptr).1 := by
  unfold transcode
  simp only
  split
  · simp
  · rename_i hvalid
    split
    · split
      · split
        · exact zero_not_mem_utf8 (by omega)
        · simp
      · simp
    · refine zero_not_mem_utf8 fun hzero => hvalid ?_
      rw [hzero]
      rfl

/-! ## Strings -/

theorem unescape_ne_zero {c : UInt8} (h : c ≠ 0) : unescape c ≠ 0 := by
  unfold unescape
  split_ifs <;> first | decide | exact h

theorem map_eq_ok {ε : Type} {r : Except ε α} {f : α → β} {b : β} (h : r.map f = .ok b) :
    ∃ a, r = .ok a ∧ f a = b := by
  cases r with
  | error e => cases h
  | ok a => exact ⟨a, rfl, Except.ok.inj h⟩

theorem map_eq_error {ε : Type} {r : Except ε α} {f : α → β} {e : ε} (h : r.map f = .error e) :
    r = .error e := by
  cases r with
  | error e => exact congrArg _ (Except.error.inj h)
  | ok a => cases h

theorem countString_error {n : Nat} {text : Text} {e : Stop} (h : countString n text = .error e) :
    e = .behindText := by
  fun_induction countString n text with
  | case1 => cases h
  | case2 => exact (Except.error.inj h).symm
  | case3 n c ptr ih => exact ih h
  | case4 ptr => cases h
  | case5 c ptr _ ih => exact ih (map_eq_error h)

theorem decodeString_error {n : Nat} {text : Text} {e : Stop}
    (h : decodeString n text = .error e) : e = .behindText := by
  fun_induction decodeString n text with
  | case1 => cases h
  | case2 => exact (Except.error.inj h).symm
  | case3 n c ptr ih => exact ih h
  | case4 ptr => cases h
  | case5 => exact (Except.error.inj h).symm
  | case6 =>
      rename_i ih
      exact ih (map_eq_error h)
  | case7 =>
      rename_i ih
      exact ih (map_eq_error h)
  | case8 =>
      rename_i ih
      exact ih (map_eq_error h)

/-- What a step of the loop puts in front of the rest. -/
theorem map_decode_eq_ok {r : Except Stop (Text × Text)} {u out rest : Text}
    (h : r.map (Prod.map (u ++ ·) id) = .ok (out, rest)) :
    ∃ v, r = .ok (v, rest) ∧ out = u ++ v := by
  rcases map_eq_ok h with ⟨⟨v, rest'⟩, hr, heq⟩
  cases heq
  exact ⟨v, hr, rfl⟩

/-- The string is one, and ends in the text. -/
theorem decodeString_ok {n : Nat} {text out rest : Text} (hzero : (0 : UInt8) ∉ text)
    (h : decodeString n text = .ok (out, rest)) : (0 : UInt8) ∉ out ∧ rest <:+ text := by
  fun_induction decodeString n text generalizing out with
  | case1 =>
      cases h
      exact ⟨by simp, List.suffix_refl []⟩
  | case2 => cases h
  | case3 n c ptr ih =>
      rcases ih (fun hmem => hzero (List.mem_cons_of_mem c hmem)) h with ⟨hout, hrest⟩
      exact ⟨hout, hrest.trans (List.suffix_cons c ptr)⟩
  | case4 ptr =>
      cases h
      exact ⟨by simp, List.suffix_refl _⟩
  | case5 => cases h
  | case6 =>
      rename_i ptr _ _ ih
      rcases map_decode_eq_ok h with ⟨v, hv, rfl⟩
      rcases ih (fun hmem => hzero (List.mem_cons_of_mem _ hmem)) hv with ⟨hout, hrest⟩
      refine ⟨?_, hrest.trans (List.suffix_cons _ _)⟩
      rw [List.mem_append]
      exact not_or.2 ⟨zero_not_mem_transcode _, hout⟩
  | case7 =>
      rename_i ptr e _ hhead _ ih
      rcases map_decode_eq_ok (u := [unescape e]) h with ⟨v, hv, rfl⟩
      rcases ih (fun hmem => hzero (List.mem_cons_of_mem _ hmem)) hv with ⟨hout, hrest⟩
      refine ⟨?_, hrest.trans (List.suffix_cons _ _)⟩
      have he : e ≠ 0 := by
        rintro rfl
        exact hzero (List.mem_cons_of_mem _ (List.mem_of_mem_head? hhead))
      rw [List.mem_append, List.mem_singleton]
      exact not_or.2 ⟨(unescape_ne_zero he).symm, hout⟩
  | case8 =>
      rename_i c ptr _ _ ih
      rcases map_decode_eq_ok (u := [c]) h with ⟨v, hv, rfl⟩
      rcases ih (fun hmem => hzero (List.mem_cons_of_mem _ hmem)) hv with ⟨hout, hrest⟩
      refine ⟨?_, hrest.trans (List.suffix_cons _ _)⟩
      have hc : (0 : UInt8) ≠ c := fun heq => hzero (heq ▸ List.mem_cons_self)
      rw [List.mem_append, List.mem_singleton]
      exact not_or.2 ⟨hc, hout⟩

theorem escaped_cons {c : UInt8} {w : Text} (h : escaped (c :: w) = true) :
    (c = backslash → escapeFollows w = true) ∧ escaped w = true := by
  rw [escaped, Bool.and_eq_true, Bool.or_eq_true, bne_iff_ne] at h
  exact ⟨fun hc => h.1.resolve_left fun hne => hne hc, h.2⟩

/-- The four digits of a complete `\u`. -/
theorem digits_of_escapeFollows {w : Text} (h : escapeFollows (117 :: w) = true) :
    ∃ u w', w = u ++ w' ∧ u.length = 4 ∧ ∀ d ∈ u, d ≠ quote ∧ d ≠ backslash := by
  have hdigits : 4 ≤ w.length ∧ ∀ d ∈ w.take 4, (hexVal d).isSome = true := by
    simpa [escapeFollows] using h
  refine ⟨w.take 4, w.drop 4, (List.take_append_drop 4 w).symm, ?_,
    fun d hd => plain_of_hexVal (hdigits.2 d hd)⟩
  rw [List.length_take, Nat.min_eq_left hdigits.1]

/-- A part of a string in which no quote stands by itself and no backslash is the last byte. -/
inductive Body : Text → Prop
  | nil : Body []
  | plain {c : UInt8} {w : Text} (hquote : c ≠ quote) (hbackslash : c ≠ backslash) (h : Body w) :
      Body (c :: w)
  | escape (c : UInt8) {w : Text} (h : Body w) : Body (backslash :: c :: w)

theorem body_plains {u w : Text} (hu : ∀ d ∈ u, d ≠ quote ∧ d ≠ backslash) (h : Body w) :
    Body (u ++ w) := by
  induction u with
  | nil => exact h
  | cons d u ih =>
      have hd := hu d List.mem_cons_self
      exact .plain hd.1 hd.2 (ih fun e he => hu e (List.mem_cons_of_mem d he))

/-- The end of the text, or a quote. -/
def Ended (tail : Text) : Prop :=
  ∀ c ∈ tail.head?, c = quote

/-- `w` is read as `out` in front of the end of the string. -/
def Reads (w out : Text) : Prop :=
  Body w ∧ (∃ k, out.length ≤ k ∧ Counts w k) ∧
    ∀ t, Ended t → decodeString 0 (w ++ t) = .ok (out, t)

theorem Reads.append {w out w' u : Text} {k : Nat} (h : Reads w out) (hbody : Body (w' ++ w))
    (hu : u.length ≤ k) (hcount : Counts w' k)
    (hdecode : ∀ t, Ended t →
      decodeString 0 (w' ++ (w ++ t)) = (decodeString 0 (w ++ t)).map (Prod.map (u ++ ·) id)) :
    Reads (w' ++ w) (u ++ out) := by
  rcases h with ⟨-, ⟨len, hlen, hcounts⟩, hreads⟩
  refine ⟨hbody, ⟨len + k, by rw [List.length_append]; omega, hcount.append hcounts⟩, ?_⟩
  intro t ht
  rw [List.append_assoc, hdecode t ht, hreads t ht]
  rfl

/-- A text begins with what is read as a string. -/
def Splits (text : Text) : Prop :=
  ∃ w out tail, text = w ++ tail ∧ Ended tail ∧ Reads w out

/-- A body begins with `\u` if what it stands in does. -/
theorem Body.unicode {w t : Text} (h : Body w) (ht : Ended t) {r : Text}
    (hsplit : w ++ t = backslash :: 117 :: r) : ∃ w', w = backslash :: 117 :: w' := by
  cases h with
  | nil =>
      have hquote := ht backslash (by rw [List.nil_append] at hsplit; rw [hsplit]; rfl)
      cases hquote
  | plain hquote hbackslash h =>
      exact absurd (List.cons.inj hsplit).1 hbackslash
  | escape c h =>
      have hc := (List.cons.inj (List.cons.inj hsplit).2).1
      exact ⟨_, by rw [hc]⟩

theorem splits_unicode {u w : Text} (hu : u.length = 4)
    (hplain : ∀ d ∈ u, d ≠ quote ∧ d ≠ backslash) (hw : escaped w = true)
    (ih : ∀ v : Text, v.length ≤ w.length → escaped v = true → Splits v) :
    Splits (backslash :: 117 :: (u ++ w)) := by
  have hcount := counts_unicode hplain
  cases hhigh : isHighSurrogate (parseHex4 u) with
  | false =>
      rcases transcode_not_high hu hhigh with ⟨v, hv⟩
      rcases ih w (Nat.le_refl _) hw with ⟨w', out, tail, rfl, htail, hreads⟩
      refine ⟨backslash :: 117 :: u ++ w', v ++ out, tail, by simp, htail, ?_⟩
      refine hreads.append (.escape 117 (body_plains hplain hreads.1)) ?_ hcount fun t _ => ?_
      · have hle := length_transcode_le (u ++ [])
        rw [hv] at hle
        exact hle.trans (by omega)
      · have hdecode := decodeString_unicode (u ++ (w' ++ t))
        rw [hv, ← hu, decodeString_pass] at hdecode
        exact hdecode
  | true =>
      by_cases hnext : ∃ r, w = backslash :: 117 :: r
      · -- The second escape is complete, too, and is taken with the first one.
        rcases hnext with ⟨r, rfl⟩
        rcases escaped_cons hw with ⟨hfollows, hrest⟩
        rcases escaped_cons hrest with ⟨-, hr⟩
        rcases digits_of_escapeFollows (hfollows rfl) with ⟨u', w', rfl, hu', hplain'⟩
        rcases transcode_high_pair hu hu' hhigh with ⟨v, hv⟩
        have hshort : w'.length ≤ (backslash :: 117 :: (u' ++ w')).length := by
          simp only [List.length_cons, List.length_append]
          omega
        rcases ih w' hshort (escaped_of_suffix (List.suffix_append u' w') hr) with
          ⟨w'', out, tail, rfl, htail, hreads⟩
        have hcounts := hcount.append (counts_unicode hplain')
        refine ⟨backslash :: 117 :: u ++ backslash :: 117 :: u' ++ w'', v ++ out, tail, by simp,
          htail, ?_⟩
        have hbody : Body (backslash :: 117 :: u ++ backslash :: 117 :: u' ++ w'') := by
          rw [List.append_assoc]
          exact .escape 117 (body_plains hplain (.escape 117 (body_plains hplain' hreads.1)))
        refine hreads.append hbody ?_ hcounts fun t _ => ?_
        · have hle := length_transcode_le (u ++ backslash :: 117 :: (u' ++ []))
          rw [hv] at hle
          exact hle.trans (by omega)
        · have hdecode := decodeString_unicode (u ++ backslash :: 117 :: (u' ++ (w'' ++ t)))
          have hten : 10 = (u ++ backslash :: 117 :: u').length := by simp [hu, hu']
          have hsplit : u ++ backslash :: 117 :: (u' ++ (w'' ++ t)) =
              (u ++ backslash :: 117 :: u') ++ (w'' ++ t) := by simp
          rw [hv, hten, hsplit, decodeString_pass, ← hsplit] at hdecode
          simpa using hdecode
      · rcases ih w (Nat.le_refl _) hw with ⟨w', out, tail, rfl, htail, hreads⟩
        refine ⟨backslash :: 117 :: u ++ w', [] ++ out, tail, by simp, htail, ?_⟩
        refine hreads.append (.escape 117 (body_plains hplain hreads.1)) (Nat.zero_le _) hcount
          fun t ht => ?_
        have hdecode := decodeString_unicode (u ++ (w' ++ t))
        have halone : ∀ r, w' ++ t ≠ backslash :: 117 :: r := by
          intro r hr
          rcases hreads.1.unicode ht hr with ⟨w'', rfl⟩
          exact hnext ⟨_, rfl⟩
        rw [transcode_high_alone hu hhigh halone, ← hu, decodeString_pass] at hdecode
        exact hdecode

theorem reads_nil : Reads [] [] := by
  refine ⟨.nil, ⟨0, Nat.le_refl 0, counts_nil⟩, fun t ht => ?_⟩
  match t with
  | [] => rfl
  | c :: t =>
      cases ht c rfl
      rfl

theorem splits_of_escaped (text : Text) (h : escaped text = true) : Splits text := by
  induction hn : text.length using Nat.strong_induction_on generalizing text with
  | _ n ih =>
      subst hn
      have hstep : ∀ v : Text, v.length < text.length → escaped v = true → Splits v :=
        fun v hv hescaped => ih v.length hv v hescaped rfl
      match text with
      | [] => exact ⟨[], [], [], rfl, (fun c hc => nomatch hc), reads_nil⟩
      | c :: w =>
          rcases escaped_cons h with ⟨hfollows, hw⟩
          by_cases hquote : c = quote
          · refine ⟨[], [], c :: w, rfl, fun d hd => ?_, reads_nil⟩
            cases hd
            exact hquote
          by_cases hbackslash : c = backslash
          · subst hbackslash
            match w with
            | [] => cases hfollows rfl
            | e :: w =>
                have hw' := (escaped_cons hw).2
                by_cases hu : e = 117
                · subst hu
                  rcases digits_of_escapeFollows (hfollows rfl) with ⟨u, w', rfl, hlength, hplain⟩
                  exact splits_unicode hlength hplain
                    (escaped_of_suffix (List.suffix_append u w') hw') fun v hv =>
                      hstep v (by simp only [List.length_cons, List.length_append]; omega)
                · rcases hstep w (by simp) hw' with ⟨w', out, tail, rfl, htail, hreads⟩
                  refine ⟨[backslash, e] ++ w', [unescape e] ++ out, tail, rfl, htail, ?_⟩
                  exact hreads.append (.escape e hreads.1) (Nat.le_refl 1)
                    (countString_backslash e) fun t _ => decodeString_letter hu (w' ++ t)
          · rcases hstep w (by simp) hw with ⟨w', out, tail, rfl, htail, hreads⟩
            refine ⟨[c] ++ w', [c] ++ out, tail, rfl, htail, ?_⟩
            exact hreads.append (.plain hquote hbackslash hreads.1) (Nat.le_refl 1)
              (countString_plain hquote hbackslash) fun t _ =>
                decodeString_plain hquote hbackslash (w' ++ t)

/-- The loops agree on where a string with complete escapes ends. -/
theorem loops_of_escaped {text : Text} (h : escaped text = true) :
    ∃ len out tail, countString 0 text = .ok len ∧ decodeString 0 text = .ok (out, tail) ∧
      out.length ≤ len := by
  rcases splits_of_escaped text h with ⟨w, out, tail, rfl, htail, -, ⟨k, hk, hcounts⟩, hreads⟩
  have hzero : countString 0 tail = .ok 0 := by
    match tail with
    | [] => rfl
    | c :: tail =>
        cases htail c rfl
        rfl
  refine ⟨0 + k, out, tail, ?_, hreads tail htail, by omega⟩
  rw [hcounts, hzero]
  rfl

theorem parseString_sound {str : Text} (hzero : (0 : UInt8) ∉ str) :
    Sound str (fun s => (0 : UInt8) ∉ s) (parseString str) := by
  unfold parseString
  split
  · exact List.suffix_refl str
  · rename_i hquote
    obtain ⟨text, rfl⟩ : ∃ text, str = quote :: text := by
      cases str with
      | nil => exact absurd (by simp) hquote
      | cons c text => exact ⟨text, by simpa using hquote⟩
    have hsuffix : text <:+ quote :: text := List.suffix_cons quote text
    have htext : (0 : UInt8) ∉ text := fun hmem => hzero (List.mem_cons_of_mem _ hmem)
    -- A text with complete escapes leads to none of the errors.
    have hagree : ∀ b, escaped (quote :: text) = b →
        ((∃ len out tail, countString 0 text = .ok len ∧ decodeString 0 text = .ok (out, tail) ∧
          out.length ≤ len) → b = false) → b = false := by
      intro b hb hnot
      cases b with
      | false => rfl
      | true => exact hnot (loops_of_escaped (escaped_of_suffix hsuffix hb))
    rw [List.tail_cons]
    cases hcount : countString 0 text with
    | error e =>
        cases countString_error hcount
        refine hagree _ rfl fun ⟨len, out, rest, hlen, _, _⟩ => ?_
        rw [hcount] at hlen
        cases hlen
    | ok len =>
        cases hdecode : decodeString 0 text with
        | error e =>
            cases decodeString_error hdecode
            refine hagree _ rfl fun ⟨len', out, rest, _, hout, _⟩ => ?_
            rw [hdecode] at hout
            cases hout
        | ok r =>
            rcases r with ⟨out, ptr⟩
            rcases decodeString_ok htext hdecode with ⟨hout, hptr⟩
            by_cases hfits : out.length ≤ len
            · have hrest : (if ptr.head? = some quote then ptr.tail else ptr) <:+ text := by
                split
                · exact (List.tail_suffix ptr).trans hptr
                · exact hptr
              simp only [Bind.bind, Except.bind, if_pos hfits]
              exact sound_ok_cons hout hrest
            · simp only [Bind.bind, Except.bind, if_neg hfits]
              refine hagree _ rfl fun ⟨len', out', rest, hlen, hout', hle⟩ => ?_
              rw [hcount] at hlen
              rw [hdecode] at hout'
              cases hlen
              cases hout'
              exact absurd hle hfits

/-! ## Numbers -/

theorem spanDigits_suffix (num : Text) : (spanDigits num).2 <:+ num :=
  List.dropWhile_suffix _

theorem integerPart_suffix (num : Text) : (integerPart num).2 <:+ num := by
  have hpart : ∀ w : Text, (if w.head? = some 48 then ([], w) else spanDigits w).2 <:+ w := by
    intro w
    split
    · exact List.suffix_refl w
    · exact spanDigits_suffix w
  unfold integerPart
  by_cases hzero : num.head? = some 48
  · simp only [if_pos hzero]
    exact (hpart num.tail).trans (List.tail_suffix num)
  · rw [if_neg hzero]
    exact hpart num

/-- A digit in front is read. -/
theorem integerPart_digit {c : UInt8} (hc : isDigit c = true) (w : Text) :
    (integerPart (c :: w)).2 <:+ w := by
  unfold integerPart
  simp only [List.head?_cons, List.tail_cons, Option.some.injEq]
  by_cases hzero : c = 48
  · rw [if_pos hzero]
    split
    · exact List.suffix_refl w
    · exact spanDigits_suffix w
  · rw [if_neg hzero, if_neg (by simpa using hzero), spanDigits, List.dropWhile_cons_of_pos hc]
    exact List.dropWhile_suffix _

theorem fractionPart_suffix (num : Text) : (fractionPart num).2 <:+ num := by
  unfold fractionPart
  split
  · split
    · exact (spanDigits_suffix _).trans (List.suffix_cons _ _)
    · exact List.suffix_refl _
  · exact List.suffix_refl _

theorem exponentPart_suffix (num : Text) : (exponentPart num).2 <:+ num := by
  cases num with
  | nil => exact List.suffix_refl []
  | cons e num =>
      rw [exponentPart]
      split
      · refine List.IsSuffix.trans ?_ (List.suffix_cons e num)
        unfold signedDigits
        split
        · exact (spanDigits_suffix _).trans (List.suffix_cons _ _)
        · exact (spanDigits_suffix _).trans (List.suffix_cons _ _)
        · exact spanDigits_suffix _
      · exact List.suffix_refl _

variable {D : Doubles δ}

/-- What holds of every item that the parser builds. -/
def FromText (D : Doubles δ) (v : Item δ) : Prop :=
  v.Every (fun s => (0 : UInt8) ∉ s) fun n d => n = D.toInt d

theorem parseNumber_sound {c : UInt8} (hc : c = 45 ∨ isDigit c = true) (w : Text) :
    Sound (c :: w) (FromText D) (.ok (parseNumber D (c :: w))) := by
  refine sound_ok_cons (a := (parseNumber D (c :: w)).1) rfl ?_
  simp only [List.head?_cons, List.tail_cons, Option.some.injEq]
  refine (exponentPart_suffix _).trans ((fractionPart_suffix _).trans ?_)
  by_cases hsign : c = 45
  · rw [if_pos hsign]
    exact integerPart_suffix w
  · rw [if_neg hsign]
    exact integerPart_digit (hc.resolve_left hsign) w

/-! ## Values -/

theorem closing_sound {bracket : UInt8} {result : α} {value : Text} {P : α → Prop}
    (h : P result) : Sound value P (closing bracket result value) := by
  unfold closing
  split
  · rename_i hhead
    cases value with
    | nil => cases hhead
    | cons c value => exact sound_ok_cons h (List.suffix_refl value)
  · exact List.suffix_refl value

/-- The calls that the three functions need for a text. -/
def EnoughFuel (D : Doubles δ) (n : Nat) : Prop :=
  (∀ value, (0 : UInt8) ∉ value → fuelFor value ≤ n →
    Sound value (FromText D) (parseValue D n value)) ∧
  (∀ value, (0 : UInt8) ∉ value → fuelFor value + 1 ≤ n →
    Sound value (fun child => ∀ v ∈ child, FromText D v) (parseItems D n value)) ∧
  ∀ value, (0 : UInt8) ∉ value → fuelFor value + 1 ≤ n →
    Sound value (fun child => ∀ m ∈ child, (0 : UInt8) ∉ m.1 ∧ FromText D m.2)
      (parseMembers D n value)

theorem not_mem_of_suffix {u w : Text} (hsuffix : w <:+ u) (h : (0 : UInt8) ∉ u) :
    (0 : UInt8) ∉ w :=
  fun hmem => h (hsuffix.mem hmem)

theorem fuelFor_of_suffix {u w : Text} (hsuffix : w <:+ u) : fuelFor w ≤ fuelFor u := by
  have hle := hsuffix.length_le
  unfold fuelFor
  omega

/-- A loop that goes on behind a comma has less text left. -/
theorem fuelFor_next {value value' next : Text} (hlt : value'.length < (skip value).length)
    (hnext : next <:+ (skip value').tail) : fuelFor next + 2 ≤ fuelFor value := by
  have hskip := (skip_suffix value).length_le
  have hskip' := (skip_suffix value').length_le
  have htail := (List.tail_suffix (skip value')).length_le
  have hle := hnext.length_le
  unfold fuelFor
  omega

theorem parseItems_sound {n : Nat} (ih : EnoughFuel D n) {value : Text}
    (hzero : (0 : UInt8) ∉ value) (hfuel : fuelFor value + 1 ≤ n + 1) :
    Sound value (fun child => ∀ v ∈ child, FromText D v) (parseItems D (n + 1) value) := by
  rcases ih with ⟨hvalue, hitems, -⟩
  have hskip := skip_suffix value
  have hskipFuel := fuelFor_of_suffix hskip
  rw [parseItems]
  refine Sound.of_suffix hskip ?_
  refine Sound.bind (hvalue _ (not_mem_of_suffix hskip hzero) (by omega)) ?_
  intro v rest hv hrest hlt
  simp only
  refine Sound.of_suffix (skip_suffix rest) ?_
  split
  · have hnext := List.tail_suffix (skip rest)
    have hsuffix := hnext.trans ((skip_suffix rest).trans (hrest.trans hskip))
    have hnextFuel := fuelFor_next hlt (List.suffix_refl _)
    refine (Sound.of_suffix hnext (hitems _ (not_mem_of_suffix hsuffix hzero) (by omega))).map ?_
    exact fun child hchild => List.forall_mem_cons.2 ⟨hv, hchild⟩
  · exact closing_sound (by simpa using hv)

theorem parseMembers_sound {n : Nat} (ih : EnoughFuel D n) {value : Text}
    (hzero : (0 : UInt8) ∉ value) (hfuel : fuelFor value + 1 ≤ n + 1) :
    Sound value (fun child => ∀ m ∈ child, (0 : UInt8) ∉ m.1 ∧ FromText D m.2)
      (parseMembers D (n + 1) value) := by
  rcases ih with ⟨hvalue, -, hmembers⟩
  have hskip := skip_suffix value
  rw [parseMembers]
  refine Sound.of_suffix hskip ?_
  refine Sound.bind (parseString_sound (not_mem_of_suffix hskip hzero)) ?_
  intro name value' hname hvalue' hlt
  simp only
  refine Sound.of_suffix (skip_suffix value') ?_
  split
  · exact List.suffix_refl _
  · have hcolon := List.tail_suffix (skip value')
    have hskip' := skip_suffix (skip value').tail
    have hsuffix := hskip'.trans (hcolon.trans ((skip_suffix value').trans (hvalue'.trans hskip)))
    have hvalueFuel := fuelFor_next hlt hskip'
    refine Sound.of_suffix (hskip'.trans hcolon) ?_
    refine Sound.bind (hvalue _ (not_mem_of_suffix hsuffix hzero) (by omega)) ?_
    intro v rest hv hrest hlt'
    simp only
    refine Sound.of_suffix (skip_suffix rest) ?_
    split
    · have hnext := List.tail_suffix (skip rest)
      have hsuffix' := hnext.trans ((skip_suffix rest).trans (hrest.trans hsuffix))
      have hnextFuel := fuelFor_next hlt' (List.suffix_refl _)
      have htailFuel := fuelFor_next hlt (List.suffix_refl _)
      refine (Sound.of_suffix hnext
        (hmembers _ (not_mem_of_suffix hsuffix' hzero) (by omega))).map ?_
      exact fun child hchild => List.forall_mem_cons.2 ⟨⟨hname, hv⟩, hchild⟩
    · exact closing_sound (by simpa using ⟨hname, hv⟩)

/-- The brackets of an empty array or object, or what the loop makes of the rest. -/
theorem container_sound {bracket c : UInt8} {w : Text} (empty : Item δ)
    (hempty : FromText D empty) {r : Except Stop (α × Text)} {P : α → Prop} {f : α → Item δ}
    (hr : Sound (skip w) P r) (hf : ∀ a, P a → FromText D (f a)) :
    Sound (c :: w) (FromText D)
      (if (skip w).head? = some bracket then .ok (empty, (skip w).tail)
        else r.map (Prod.map f id)) := by
  split
  · exact sound_ok_cons hempty ((List.tail_suffix _).trans (skip_suffix w))
  · exact Sound.of_suffix ((skip_suffix w).trans (List.suffix_cons c w)) (hr.map hf)

theorem word_sound {u value : Text} {v : Item δ} (hne : u ≠ []) (h : u <+: value)
    (hv : FromText D v) : Sound value (FromText D) (.ok (v, value.drop u.length)) := by
  rcases h with ⟨rest, rfl⟩
  exact ⟨hv, u, hne, by rw [List.drop_left]⟩

theorem parseValue_sound {n : Nat} (ih : EnoughFuel D n) {value : Text}
    (hzero : (0 : UInt8) ∉ value) (hfuel : fuelFor value ≤ n + 1) :
    Sound value (FromText D) (parseValue D (n + 1) value) := by
  rcases ih with ⟨-, hitems, hmembers⟩
  rw [parseValue]
  split
  · rename_i hword
    exact word_sound (by decide) hword trivial
  split
  · rename_i hword
    exact word_sound (by decide) hword trivial
  split
  · rename_i hword
    exact word_sound (by decide) hword trivial
  cases value with
  | nil => exact List.suffix_refl []
  | cons c w =>
      have hskip := (skip_suffix w).trans (List.suffix_cons c w)
      have hskipZero := not_mem_of_suffix hskip hzero
      have hskipFuel : fuelFor (skip w) + 1 ≤ n := by
        have hle := (skip_suffix w).length_le
        unfold fuelFor at hfuel ⊢
        rw [List.length_cons] at hfuel
        omega
      simp only [List.head?_cons, List.tail_cons]
      split
      · exact (parseString_sound hzero).map fun s hs => hs
      split
      · rename_i hnumber
        exact parseNumber_sound hnumber w
      split
      · exact container_sound (.array []) trivial (hitems _ hskipZero hskipFuel) fun child hchild =>
          Item.everyItem_iff.2 hchild
      split
      · exact container_sound (.object []) trivial (hmembers _ hskipZero hskipFuel)
          fun child hchild => Item.everyMember_iff.2 hchild
      · exact List.suffix_refl _

theorem enoughFuel (D : Doubles δ) (n : Nat) : EnoughFuel D n := by
  induction n with
  | zero =>
      refine ⟨fun value _ h => ?_, fun value _ h => ?_, fun value _ h => ?_⟩ <;>
        unfold fuelFor at h <;> omega
  | succ n ih =>
      exact ⟨fun _ hzero h => parseValue_sound ih hzero h,
        fun _ hzero h => parseItems_sound ih hzero h,
        fun _ hzero h => parseMembers_sound ih hzero h⟩

/-! ## Calls -/

/-- `r'` is `r`, unless the calls have run out for `r`. -/
def Stable (r r' : Except Stop α) : Prop :=
  r ≠ .error .fuel → r' = r

theorem Stable.map {r r' : Except Stop α} (h : Stable r r') (f : α → β) :
    Stable (r.map f) (r'.map f) := by
  intro hne
  rw [h fun hr => hne (by rw [hr]; rfl)]

theorem Stable.bind {r r' : Except Stop (α × Text)} (h : Stable r r')
    {f f' : α × Text → Except Stop β} (hf : ∀ a rest, Stable (f (a, rest)) (f' (a, rest))) :
    Stable (r >>= f) (r' >>= f') := by
  intro hne
  rw [h fun hr => hne (by rw [hr]; rfl)]
  cases r with
  | error e => rfl
  | ok a => exact hf a.1 a.2 hne

theorem Stable.ite {c : Prop} [Decidable c] {r r' u u' : Except Stop α} (h : Stable r r')
    (h' : Stable u u') : Stable (if c then r else u) (if c then r' else u') := by
  split
  · exact h
  · exact h'

theorem stable_refl (r : Except Stop α) : Stable r r :=
  fun _ => rfl

theorem stable_succ (D : Doubles δ) (n : Nat) (value : Text) :
    Stable (parseValue D n value) (parseValue D (n + 1) value) ∧
      Stable (parseItems D n value) (parseItems D (n + 1) value) ∧
      Stable (parseMembers D n value) (parseMembers D (n + 1) value) := by
  induction n generalizing value with
  | zero => exact ⟨fun h => absurd rfl h, fun h => absurd rfl h, fun h => absurd rfl h⟩
  | succ n ih =>
      have hvalue := fun w => (ih w).1
      have hitems := fun w => (ih w).2.1
      have hmembers := fun w => (ih w).2.2
      refine ⟨?_, ?_, ?_⟩
      · rw [parseValue, parseValue]
        refine (stable_refl _).ite ((stable_refl _).ite ((stable_refl _).ite ?_))
        cases value.head? with
        | none => exact stable_refl _
        | some c =>
            have harray := ((hitems (skip value.tail)).map (Prod.map Item.array id))
            have hobject := ((hmembers (skip value.tail)).map (Prod.map Item.object id))
            exact (stable_refl _).ite ((stable_refl _).ite (((stable_refl _).ite harray).ite
              (((stable_refl _).ite hobject).ite (stable_refl _))))
      · rw [parseItems, parseItems]
        exact (hvalue _).bind fun _ _ => ((hitems _).map _).ite (stable_refl _)
      · rw [parseMembers, parseMembers]
        exact (stable_refl _).bind fun _ _ => (stable_refl _).ite
          ((hvalue _).bind fun _ _ => ((hmembers _).map _).ite (stable_refl _))

/-- More calls than a text needs change nothing. -/
theorem parseValue_fuel (D : Doubles δ) {value : Text} (hzero : (0 : UInt8) ∉ value) {n : Nat}
    (hn : fuelFor value ≤ n) : parseValue D n value = parseValue D (fuelFor value) value := by
  induction n, hn using Nat.le_induction with
  | base => rfl
  | succ n hn ih =>
      have hsound := (enoughFuel D n).1 value hzero hn
      have hne : parseValue D n value ≠ .error .fuel := fun h => by
        rw [h] at hsound
        exact hsound
      rw [(stable_succ D n value).1 hne, ih]

theorem parse_eq (D : Doubles δ) (text : Text) :
    parse D text = parseValue D (fuelFor text) (skip text) := by
  rw [parse, parseWithOpts]
  cases parseValue D (fuelFor text) (skip text) with
  | error e => rfl
  | ok r => rfl

/-- Whatever the text is, it is left only at an escape that is cut off. -/
theorem parse_sound (D : Doubles δ) {text : Text} (hzero : (0 : UInt8) ∉ text) :
    Sound text (FromText D) (parse D text) := by
  have hskip := skip_suffix text
  rw [parse_eq]
  exact Sound.of_suffix hskip ((enoughFuel D _).1 _ (not_mem_of_suffix hskip hzero)
    (fuelFor_of_suffix hskip))

theorem FromText.printable (hD : ∀ d, IntRange (D.toInt d)) {v : Item δ} (h : FromText D v) :
    v.Printable :=
  h.mono (fun _ hs => hs) fun n d hn => by
    rw [hn]
    exact hD d

/-- Whatever the text is, the parser stays in it, unless an escape is cut off. -/
theorem parse_outcome (hD : ∀ d, IntRange (D.toInt d)) {text : Text}
    (hzero : (0 : UInt8) ∉ text) :
    (∀ v rest, parse D text = .ok (v, rest) →
      FromText D v ∧ v.Printable ∧ rest <:+ text ∧ rest.length < text.length) ∧
    (∀ ep, parse D text = .error (.malformed ep) → ep <:+ text) ∧
    parse D text ≠ .error .fuel ∧
    (escaped text = true → ∀ e, parse D text = .error e → ∃ ep, e = .malformed ep) := by
  have hsound := parse_sound D hzero
  refine ⟨fun v rest h => ?_, fun ep h => ?_, fun h => ?_, fun hescaped e h => ?_⟩
  · rw [h] at hsound
    rcases hsound with ⟨hv, used, hne, rfl⟩
    have hpos := List.length_pos_of_ne_nil hne
    have hprintable := hv.printable hD
    exact ⟨hv, hprintable, List.suffix_append used rest, by rw [List.length_append]; omega⟩
  · rwa [h] at hsound
  · rwa [h] at hsound
  · rw [h] at hsound
    cases e with
    | malformed ep => exact ⟨ep, rfl⟩
    | behindText => exact absurd (hescaped.symm.trans hsound) (by decide)
    | behindBlock => exact absurd (hescaped.symm.trans hsound) (by decide)
    | fuel => exact hsound.elim

theorem parse_outcome_unclosed : ascii "]" <:+ ascii "\x7b\"a\" : null ]" :=
  (parse_outcome rationals_toInt (by decide)).2.1 (ascii "]") rfl

/-- What has been read is printed, in either format, as a text that reads the same. -/
theorem parse_print_of_parse {D : Doubles δ} {ofInt : Int → δ} (hD : D.Exact ofInt)
    (hfits : D.Fits) {text rest : Text} {v : Item δ} (hzero : (0 : UInt8) ∉ text)
    (h : parse D text = .ok (v, rest))
    (hint : v.Every (fun _ => True) fun n d => IntRange n ∧ d = ofInt n) (fmt : Bool) :
    ∃ text', printValue D fmt 0 v = .ok text' ∧ parse D text' = .ok (v, []) := by
  have hsound := parse_sound D hzero
  rw [h] at hsound
  have hwhole : v.Whole ofInt :=
    (hsound.1.and hint).mono (fun s hs => hs.1) fun n d hn => hn.2
  have hread := parse_layout hD hwhole fmt (w := []) (fun _ hc => nomatch hc)
    (fun _ hc => nomatch hc : EndsNumber [])
  refine ⟨layout D fmt 0 v, printValue_eq hfits hwhole.printable fmt 0, ?_⟩
  rw [List.nil_append, List.append_nil] at hread
  rw [parse_eq, hread]

theorem rationals_five : rationals.number false (ascii "5") [] 0 = 5 := by
  have hfive : numeral 10 (ascii "5") = 5 := by rfl
  have hdigit : ∀ c ∈ ascii "5", isDigit c = true := List.forall_mem_singleton.2 (by decide)
  have hrange : IntRange (numeral 10 (ascii "5")) := by
    rw [hfive]
    decide
  rw [rationals_exact.number_pos _ hdigit hrange, hfive]
  rfl

theorem parse_five_blanks :
    parse rationals (ascii "[ 5 , \x7b\"a\" : \"b\" \x7d ]") =
      .ok (.array [.number 5 5, .object [(ascii "a", .string (ascii "b"))]], []) := by
  have hread : parse rationals (ascii "[ 5 , \x7b\"a\" : \"b\" \x7d ]") =
      .ok (.array [.number (rationals.toInt (rationals.number false (ascii "5") [] 0))
        (rationals.number false (ascii "5") [] 0),
        .object [(ascii "a", .string (ascii "b"))]], []) := by rfl
  rw [hread, rationals_five]
  rfl

theorem parse_print_of_parse_blanks :
    ∃ text', printValue rationals false 0
        (.array [.number 5 5, .object [(ascii "a", .string (ascii "b"))]]) = .ok text' ∧
      parse rationals text' =
        .ok (.array [.number 5 5, .object [(ascii "a", .string (ascii "b"))]], []) :=
  parse_print_of_parse rationals_exact rationals_fits (by decide) parse_five_blanks
    (by simp [Item.Every, Item.EveryItem, Item.EveryMember, IntRange]) false

end Json
end LinuxLearn
