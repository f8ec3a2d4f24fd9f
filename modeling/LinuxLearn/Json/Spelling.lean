import LinuxLearn.Json.Parse

/-!
# Spelling — the strings of a JSON text

`Spells w u` says what a part `w` of a string becomes: wherever it stands, the second loop of
`parse_string` writes `u` for it, and the first loop has counted at least as many bytes.  Spellings
can be put one behind the other, so `parse_string` is right about a string if it is about its
characters.

`Spelling c w` are the texts that stand for a character: itself, an escape with a letter, `\u` with
four digits, or two of these for a character behind the first 65536.
-/

namespace LinuxLearn
namespace Json

open Lib

/-! ## The two loops -/

theorem decodeString_pass (u w : Text) : decodeString u.length (u ++ w) = decodeString 0 w := by
  induction u with
  | nil => rfl
  | cons c u ih => exact ih

theorem countString_plain {c : UInt8} (hquote : c ≠ quote) (hbackslash : c ≠ backslash) (w : Text) :
    countString 0 (c :: w) = (countString 0 w).map (· + 1) := by
  rw [countString, if_neg hquote, if_neg hbackslash]

theorem countString_backslash (c : UInt8) (w : Text) :
    countString 0 (backslash :: c :: w) = (countString 0 w).map (· + 1) := by
  rw [countString, if_neg (by decide), if_pos rfl, countString]

theorem decodeString_plain {c : UInt8} (hquote : c ≠ quote) (hbackslash : c ≠ backslash)
    (w : Text) : decodeString 0 (c :: w) = (decodeString 0 w).map (Prod.map (c :: ·) id) := by
  rw [decodeString, if_neg hquote, if_neg hbackslash]

theorem decodeString_letter {c : UInt8} (hu : c ≠ 117) (w : Text) :
    decodeString 0 (backslash :: c :: w) =
      (decodeString 0 w).map (Prod.map (unescape c :: ·) id) := by
  rw [decodeString, if_neg (by decide), if_pos rfl, List.head?_cons]
  split
  · rename_i h
    cases h
  · rename_i h
    exact absurd (Option.some.inj h) hu
  · rename_i h
    cases h
    rfl

theorem decodeString_unicode (w : Text) :
    decodeString 0 (backslash :: 117 :: w) =
      (decodeString (transcode w).2 w).map (Prod.map ((transcode w).1 ++ ·) id) :=
  rfl

theorem length_utf8_le (uc : Nat) : (utf8 uc).length ≤ 4 := by
  unfold utf8
  split_ifs <;> simp

theorem length_transcode_le (ptr : Text) : (transcode ptr).1.length ≤ 4 := by
  unfold transcode
  simp only
  split
  · simp
  · split
    · split
      · split
        · exact length_utf8_le _
        · simp
      · simp
    · exact length_utf8_le _

theorem plain_of_hexVal {d : UInt8} (h : (hexVal d).isSome = true) : d ≠ quote ∧ d ≠ backslash := by
  refine ⟨?_, ?_⟩ <;> rintro rfl <;> cases h

theorem parseHex4_append {u : Text} (hu : u.length = 4) (t : Text) :
    parseHex4 (u ++ t) = parseHex4 u := by
  match u, hu with
  | [a, b, c, d], _ => rfl

/-- Only a high surrogate makes a second escape matter. -/
theorem transcode_not_high {u : Text} (hu : u.length = 4)
    (h : isHighSurrogate (parseHex4 u) = false) : ∃ v, ∀ t, transcode (u ++ t) = (v, 4) := by
  refine ⟨(transcode u).1, fun t => ?_⟩
  simp only [transcode, parseHex4_append hu, h, Bool.false_eq_true, if_false]
  split <;> rfl

theorem high_not_low {uc : Nat} (h : isHighSurrogate uc = true) :
    (isLowSurrogate uc || uc == 0) = false := by
  have hrange := of_decide_eq_true h
  have hlow : isLowSurrogate uc = false := decide_eq_false (by omega)
  rw [hlow, Bool.false_or]
  exact beq_false_of_ne (by omega)

theorem transcode_high_pair {u u' : Text} (hu : u.length = 4) (hu' : u'.length = 4)
    (h : isHighSurrogate (parseHex4 u) = true) :
    ∃ v, ∀ t, transcode (u ++ backslash :: 117 :: (u' ++ t)) = (v, 10) := by
  refine ⟨(transcode (u ++ backslash :: 117 :: u')).1, fun t => ?_⟩
  have hdrop : ∀ t, (u ++ t).drop 4 = t := fun t => by rw [← hu, List.drop_left]
  simp only [transcode, parseHex4_append hu, high_not_low h, h, hdrop, parseHex4_append hu',
    Bool.false_eq_true, if_false, if_true]
  split <;> rfl

theorem transcode_high_alone {u t : Text} (hu : u.length = 4)
    (h : isHighSurrogate (parseHex4 u) = true) (ht : ∀ r, t ≠ backslash :: 117 :: r) :
    transcode (u ++ t) = ([], 4) := by
  have hdrop : (u ++ t).drop 4 = t := by rw [← hu, List.drop_left]
  simp only [transcode, parseHex4_append hu, high_not_low h, h, hdrop, Bool.false_eq_true,
    if_false, if_true]

/-! ## Spellings -/

/-- The first loop adds `k` for `w`. -/
def Counts (w : Text) (k : Nat) : Prop :=
  ∀ t, countString 0 (w ++ t) = (countString 0 t).map (· + k)

theorem counts_nil : Counts [] 0 := by
  intro t
  rw [List.nil_append]
  cases countString 0 t <;> rfl

theorem Counts.append {w w' : Text} {k k' : Nat} (h : Counts w k) (h' : Counts w' k') :
    Counts (w ++ w') (k' + k) := by
  intro t
  rw [List.append_assoc, h, h']
  cases countString 0 t with
  | error e => rfl
  | ok len => exact congrArg Except.ok (Nat.add_assoc len k' k)

theorem counts_plains {u : Text} (h : ∀ c ∈ u, c ≠ quote ∧ c ≠ backslash) :
    Counts u u.length := by
  induction u with
  | nil => exact counts_nil
  | cons c u ih =>
      have hc := h c List.mem_cons_self
      have hplain : Counts [c] 1 := countString_plain hc.1 hc.2
      exact hplain.append (ih fun d hd => h d (List.mem_cons_of_mem c hd))

theorem counts_unicode {u : Text} (h : ∀ c ∈ u, c ≠ quote ∧ c ≠ backslash) :
    Counts (backslash :: 117 :: u) (u.length + 1) := by
  have hescape : Counts [backslash, 117] 1 := countString_backslash 117
  exact hescape.append (counts_plains h)

/-- The second loop writes `u` for `w`, and the first one has counted enough. -/
def Spells (w u : Text) : Prop :=
  (∃ k, u.length ≤ k ∧ Counts w k) ∧
    ∀ t, decodeString 0 (w ++ t) = (decodeString 0 t).map (Prod.map (u ++ ·) id)

theorem spells_nil : Spells [] [] := by
  refine ⟨⟨0, Nat.le_refl 0, counts_nil⟩, fun t => ?_⟩
  rw [List.nil_append]
  cases decodeString 0 t <;> rfl

theorem Spells.append {w u w' u' : Text} (h : Spells w u) (h' : Spells w' u') :
    Spells (w ++ w') (u ++ u') := by
  rcases h with ⟨⟨k, hk, hcount⟩, hdecode⟩
  rcases h' with ⟨⟨k', hk', hcount'⟩, hdecode'⟩
  refine ⟨⟨k' + k, by rw [List.length_append]; omega, hcount.append hcount'⟩, fun t => ?_⟩
  rw [List.append_assoc, hdecode, hdecode']
  cases decodeString 0 t with
  | error e => rfl
  | ok r => exact congrArg (fun v => Except.ok (v, r.2)) (List.append_assoc u u' r.1).symm

theorem spells_flatMap {α : Type} {f g : α → Text} {l : List α}
    (h : ∀ a ∈ l, Spells (f a) (g a)) : Spells (l.flatMap f) (l.flatMap g) := by
  induction l with
  | nil => exact spells_nil
  | cons a l ih =>
      exact (h a List.mem_cons_self).append (ih fun b hb => h b (List.mem_cons_of_mem a hb))

theorem spells_plain {c : UInt8} (hquote : c ≠ quote) (hbackslash : c ≠ backslash) :
    Spells [c] [c] :=
  ⟨⟨1, Nat.le_refl 1, countString_plain hquote hbackslash⟩, decodeString_plain hquote hbackslash⟩

theorem spells_plains {u : Text} (h : ∀ c ∈ u, c ≠ quote ∧ c ≠ backslash) : Spells u u := by
  have hspells : Spells (u.flatMap fun c => [c]) (u.flatMap fun c => [c]) :=
    spells_flatMap fun c hc => spells_plain (h c hc).1 (h c hc).2
  rwa [List.flatMap_singleton'] at hspells

theorem spells_letter {c : UInt8} (hu : c ≠ 117) : Spells [backslash, c] [unescape c] :=
  ⟨⟨1, Nat.le_refl 1, countString_backslash c⟩, decodeString_letter hu⟩

/-- Escapes `\u` are spelled if they are counted and `transcode` takes all of them. -/
theorem spells_unicode {p v : Text} {k : Nat} (hk : 4 ≤ k)
    (hcount : Counts (backslash :: 117 :: p) k)
    (h : ∀ t, transcode (p ++ t) = (v, p.length)) : Spells (backslash :: 117 :: p) v := by
  have hlength := length_transcode_le (p ++ [])
  rw [h] at hlength
  refine ⟨⟨k, hlength.trans hk, hcount⟩, fun t => ?_⟩
  have hdecode := decodeString_unicode (p ++ t)
  rw [h] at hdecode
  exact hdecode.trans (congrArg _ (decodeString_pass p t))

/-- `parse_string` reads what is spelled between two quotes. -/
theorem parseString_spells {w u : Text} (h : Spells w u) (rest : Text) :
    parseString (quote :: (w ++ quote :: rest)) = .ok (u, rest) := by
  rcases h with ⟨⟨k, hk, hcount⟩, hdecode⟩
  have hlen : countString 0 (w ++ quote :: rest) = .ok (0 + k) := hcount (quote :: rest)
  have hout : decodeString 0 (w ++ quote :: rest) = .ok (u ++ [], quote :: rest) :=
    hdecode (quote :: rest)
  rw [Nat.zero_add] at hlen
  rw [List.append_nil] at hout
  rw [parseString, if_neg (by simp), List.tail_cons, hlen, hout]
  exact if_pos hk

end Json
end LinuxLearn
