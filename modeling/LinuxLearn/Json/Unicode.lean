import LinuxLearn.Json.Spelling

/-!
# Unicode — the strings of a JSON text as sequences of characters

`Spelling c w` says that `w` is one of the ways to write the character `c` in a string: the
character itself, a backslash and a letter, `\u` and the four digits of its number, or the two
halves of a number above 65535.  Whatever way is chosen for each character of a string,
`parse_string` returns its encoding in UTF-8.
-/

namespace LinuxLearn
namespace Json

open Lib

/-! ## The encoding -/

theorem or_eq_add {b i : Nat} (hb : b < 2 ^ i) (a : Nat) : b ||| 2 ^ i * a = b + 2 ^ i * a := by
  rw [Nat.or_comm, ← Nat.two_pow_add_eq_or_of_lt hb, Nat.add_comm]

theorem or_and_eq (uc : Nat) : (uc ||| 0x80) &&& 0xBF = uc % 2 ^ 6 + 2 ^ 6 * 2 := by
  have habsorb : uc &&& 0x80 ||| 0x80 = 0x80 := by
    apply Nat.eq_of_testBit_eq
    intro i
    rw [Nat.testBit_or, Nat.testBit_and]
    cases uc.testBit i <;> cases Nat.testBit 0x80 i <;> rfl
  calc (uc ||| 0x80) &&& 0xBF
      = uc &&& (0x3F ||| 0x80) ||| 0x80 &&& 0xBF := Nat.and_or_distrib_right uc 0x80 0xBF
    _ = uc &&& 0x3F ||| (uc &&& 0x80 ||| 0x80) := by
        rw [Nat.and_or_distrib_left, Nat.or_assoc]
        rfl
    _ = uc % 2 ^ 6 ||| 2 ^ 6 * 2 := by
        rw [habsorb, ← Nat.and_two_pow_sub_one_eq_mod uc 6]
        rfl
    _ = uc % 2 ^ 6 + 2 ^ 6 * 2 := or_eq_add (Nat.mod_lt _ (by decide)) 2

theorem continuation_eq (uc : Nat) : continuation uc = UInt8.ofNat (uc % 0x40 + 0x80) :=
  congrArg UInt8.ofNat (or_and_eq uc)

theorem toNat_char (c : Char) : c.toNat < 0xD800 ∨ 0xDFFF < c.toNat ∧ c.toNat < 0x110000 :=
  c.valid

/-- The bytes that `parse_string` writes are the encoding of the character. -/
theorem utf8_eq (c : Char) : utf8 c.toNat = String.utf8EncodeChar c := by
  have hvalid := toNat_char c
  have hval : c.val.toNat = c.toNat := rfl
  have hC0 : 0xC0 = 2 ^ 5 * 6 := rfl
  have hE0 : 0xE0 = 2 ^ 4 * 14 := rfl
  have hF0 : 0xF0 = 2 ^ 3 * 30 := rfl
  unfold utf8 String.utf8EncodeChar
  simp only [hval, Nat.shiftRight_eq_div_pow, continuation_eq]
  by_cases h₁ : c.toNat ≤ 0x7F
  · rw [if_pos (by omega), if_pos h₁]
  rw [if_neg (by omega), if_neg h₁]
  by_cases h₂ : c.toNat ≤ 0x7FF
  · rw [if_pos (by omega), if_pos h₂, hC0, or_eq_add (by omega),
      Nat.mod_eq_of_lt (b := 0x20) (by omega)]
  rw [if_neg (by omega), if_neg h₂]
  by_cases h₃ : c.toNat ≤ 0xFFFF
  · rw [if_pos (by omega), if_pos h₃, hE0, or_eq_add (by omega),
      Nat.mod_eq_of_lt (b := 0x10) (by omega)]
  rw [if_neg (by omega), if_neg h₃, hF0, or_eq_add (by omega),
    Nat.mod_eq_of_lt (b := 0x08) (by omega)]

/-! ## Ways to write a character -/

/-- The letters behind a backslash. -/
def letters : List (Char × UInt8) :=
  [('"', 34), ('\\', 92), ('/', 47), (Char.ofNat 8, 98), (Char.ofNat 12, 102), ('\n', 110),
    ('\r', 114), ('\t', 116)]

/-- The number that four hexadecimal digits denote. -/
def IsHex4 (u : Text) (n : Nat) : Prop :=
  ∃ a b c d va vb vc vd, u = [a, b, c, d] ∧ hexVal a = some va ∧ hexVal b = some vb ∧
    hexVal c = some vc ∧ hexVal d = some vd ∧ n = va * 16 ^ 3 + vb * 16 ^ 2 + vc * 16 + vd

/-- A way to write a character in a string literal.  The character with the number zero has none:
as it stands it ends the text, and nothing is written for its escape. -/
inductive Spelling : Char → Text → Prop
  | itself {c : Char} (hzero : c.toNat ≠ 0) (hquote : c ≠ '"') (hbackslash : c ≠ '\\') :
      Spelling c (String.utf8EncodeChar c)
  | letter {c : Char} {e : UInt8} (h : (c, e) ∈ letters) : Spelling c [backslash, e]
  | unit {c : Char} {u : Text} (hzero : c.toNat ≠ 0) (h : IsHex4 u c.toNat) :
      Spelling c (backslash :: 117 :: u)
  | pair {c : Char} {high low : Text} (hlarge : 0x10000 ≤ c.toNat)
      (hhigh : IsHex4 high (0xD800 + (c.toNat - 0x10000) / 0x400))
      (hlow : IsHex4 low (0xDC00 + (c.toNat - 0x10000) % 0x400)) :
      Spelling c (backslash :: 117 :: (high ++ backslash :: 117 :: low))

theorem IsHex4.plain {u : Text} {n : Nat} (h : IsHex4 u n) :
    u.length = 4 ∧ ∀ d ∈ u, d ≠ quote ∧ d ≠ backslash := by
  rcases h with ⟨a, b, c, d, va, vb, vc, vd, rfl, ha, hb, hc, hd, -⟩
  refine ⟨rfl, fun e he => ?_⟩
  simp only [List.mem_cons, List.not_mem_nil, or_false] at he
  rcases he with rfl | rfl | rfl | rfl
  · exact plain_of_hexVal (Option.isSome_of_eq_some ha)
  · exact plain_of_hexVal (Option.isSome_of_eq_some hb)
  · exact plain_of_hexVal (Option.isSome_of_eq_some hc)
  · exact plain_of_hexVal (Option.isSome_of_eq_some hd)

theorem IsHex4.parseHex4 {u : Text} {n : Nat} (h : IsHex4 u n) (t : Text) :
    parseHex4 (u ++ t) = n := by
  rcases h with ⟨a, b, c, d, va, vb, vc, vd, rfl, ha, hb, hc, hd, rfl⟩
  simp only [List.cons_append, Json.parseHex4, ha, hb, hc, hd]
  ring

theorem transcode_unit {c : Char} {u : Text} (hzero : c.toNat ≠ 0) (h : IsHex4 u c.toNat)
    (t : Text) : transcode (u ++ t) = (String.utf8EncodeChar c, 4) := by
  have hvalid := toNat_char c
  have hlow : isLowSurrogate c.toNat = false := decide_eq_false (by omega)
  have hhigh : isHighSurrogate c.toNat = false := decide_eq_false (by omega)
  have hne : (c.toNat == 0) = false := beq_false_of_ne hzero
  simp only [transcode, h.parseHex4 t, hlow, hhigh, hne, Bool.or_self, Bool.false_eq_true, if_false,
    utf8_eq]

/-- The two halves give the number back. -/
theorem join_surrogates {m : Nat} (h : m < 0x100000) :
    (((0xD800 + m / 0x400) &&& 0x3FF) <<< 10) ||| ((0xDC00 + m % 0x400) &&& 0x3FF) = m := by
  have hhigh : (0xD800 + m / 0x400) &&& 0x3FF = m / 0x400 := by
    refine (Nat.and_two_pow_sub_one_eq_mod _ 10).trans ?_
    omega
  have hlow : (0xDC00 + m % 0x400) &&& 0x3FF = m % 0x400 := by
    refine (Nat.and_two_pow_sub_one_eq_mod _ 10).trans ?_
    omega
  have hlt : m % 0x400 < 2 ^ 10 := Nat.mod_lt _ (by decide)
  rw [hhigh, hlow, Nat.shiftLeft_eq, Nat.or_comm, Nat.mul_comm, or_eq_add hlt]
  omega

theorem transcode_pair {c : Char} {high low : Text} (hlarge : 0x10000 ≤ c.toNat)
    (hhigh : IsHex4 high (0xD800 + (c.toNat - 0x10000) / 0x400))
    (hlow : IsHex4 low (0xDC00 + (c.toNat - 0x10000) % 0x400)) (t : Text) :
    transcode (high ++ backslash :: 117 :: low ++ t) = (String.utf8EncodeChar c, 10) := by
  have hvalid := toNat_char c
  have hdrop : (high ++ backslash :: 117 :: low ++ t).drop 4 = backslash :: 117 :: (low ++ t) := by
    rw [List.append_assoc, ← hhigh.plain.1, List.drop_left]
    rfl
  have hfirst := hhigh.parseHex4 (backslash :: 117 :: low ++ t)
  rw [← List.append_assoc] at hfirst
  have hlowFirst : isLowSurrogate (0xD800 + (c.toNat - 0x10000) / 0x400) = false :=
    decide_eq_false (by omega)
  have hhighFirst : isHighSurrogate (0xD800 + (c.toNat - 0x10000) / 0x400) = true :=
    decide_eq_true (by omega)
  have hlowSecond : isLowSurrogate (0xDC00 + (c.toNat - 0x10000) % 0x400) = true :=
    decide_eq_true (by omega)
  have hne : (0xD800 + (c.toNat - 0x10000) / 0x400 == 0) = false := beq_false_of_ne (by omega)
  have hjoin : 0x10000 + (c.toNat - 0x10000) = c.toNat := by omega
  simp only [transcode, hfirst, hlowFirst, hhighFirst, hne, hdrop, hlow.parseHex4 t, hlowSecond,
    Bool.or_self, Bool.false_eq_true, if_false, if_true,
    join_surrogates (by omega : c.toNat - 0x10000 < 0x100000), hjoin, utf8_eq]

/-- The bytes of a character are its own, or none of the first 128. -/
theorem plain_of_mem_encode {c : Char} (hquote : c ≠ '"') (hbackslash : c ≠ '\\') {b : UInt8}
    (hb : b ∈ String.utf8EncodeChar c) : b ≠ quote ∧ b ≠ backslash := by
  have hbyte : b.toNat = c.toNat ∨ 0x80 ≤ b.toNat := by
    have hval : c.val.toNat = c.toNat := rfl
    unfold String.utf8EncodeChar at hb
    simp only [hval] at hb
    split_ifs at hb <;> simp only [List.mem_cons, List.not_mem_nil, or_false] at hb
    · left
      rw [hb, UInt8.toNat_ofNat']
      omega
    · right
      rcases hb with rfl | rfl <;> rw [UInt8.toNat_ofNat'] <;> omega
    · right
      rcases hb with rfl | rfl | rfl <;> rw [UInt8.toNat_ofNat'] <;> omega
    · right
      rcases hb with rfl | rfl | rfl | rfl <;> rw [UInt8.toNat_ofNat'] <;> omega
  have hne : ∀ {d : UInt8} {e : Char}, d.toNat = e.toNat → d.toNat < 0x80 → c ≠ e → b ≠ d := by
    rintro d e hde hd hce rfl
    rcases hbyte with heq | hlarge
    · exact hce (Char.toNat_inj.1 (heq.symm.trans hde))
    · omega
  exact ⟨hne (e := '"') rfl (by decide) hquote, hne (e := '\\') rfl (by decide) hbackslash⟩

theorem spells_of_spelling {c : Char} {w : Text} (h : Spelling c w) :
    Spells w (String.utf8EncodeChar c) := by
  cases h with
  | itself _ hquote hbackslash =>
      exact spells_plains fun b hb => plain_of_mem_encode hquote hbackslash hb
  | letter h =>
      simp only [letters, List.mem_cons, Prod.mk.injEq, List.not_mem_nil, or_false] at h
      rcases h with ⟨rfl, rfl⟩ | ⟨rfl, rfl⟩ | ⟨rfl, rfl⟩ | ⟨rfl, rfl⟩ | ⟨rfl, rfl⟩ | ⟨rfl, rfl⟩ |
        ⟨rfl, rfl⟩ | ⟨rfl, rfl⟩ <;> exact spells_letter (by decide)
  | unit hzero h =>
      rename_i u
      rcases h.plain with ⟨hlength, hplain⟩
      refine spells_unicode (k := u.length + 1) (by omega) (counts_unicode hplain) fun t => ?_
      rw [transcode_unit hzero h, hlength]
  | pair hlarge hhigh hlow =>
      rename_i high low
      rcases hhigh.plain with ⟨hlength, hplain⟩
      rcases hlow.plain with ⟨hlength', hplain'⟩
      have hcount := (counts_unicode hplain).append (counts_unicode hplain')
      refine spells_unicode (by omega) hcount fun t => ?_
      have hten : (high ++ backslash :: 117 :: low).length = 10 := by simp [hlength, hlength']
      rw [transcode_pair hlarge hhigh hlow, hten]

/-- However its characters are written, a string is read as their encoding in UTF-8. -/
theorem parseString_spelled {l : List (Char × Text)} (h : ∀ p ∈ l, Spelling p.1 p.2)
    (rest : Text) :
    parseString (quote :: ((l.flatMap Prod.snd) ++ quote :: rest)) =
      .ok (l.flatMap fun p => String.utf8EncodeChar p.1, rest) :=
  parseString_spells (spells_flatMap fun p hp => spells_of_spelling (h p hp)) rest

theorem parseString_spelled_mixed :
    parseString (quote :: ([('a', [97]), ('\n', [92, 110]),
        ('😀', [92, 117, 100, 56, 51, 68, 92, 117, 68, 101, 48, 48])].flatMap Prod.snd ++
          quote :: [44])) =
      .ok ([('a', [97]), ('\n', [92, 110]),
        ('😀', [92, 117, 100, 56, 51, 68, 92, 117, 68, 101, 48, 48])].flatMap
          fun p => String.utf8EncodeChar p.1, [44]) := by
  have hhigh : IsHex4 [100, 56, 51, 68] (0xD800 + ('😀'.toNat - 0x10000) / 0x400) :=
    ⟨_, _, _, _, 13, 8, 3, 13, rfl, rfl, rfl, rfl, rfl, rfl⟩
  have hlow : IsHex4 [68, 101, 48, 48] (0xDC00 + ('😀'.toNat - 0x10000) % 0x400) :=
    ⟨_, _, _, _, 13, 14, 0, 0, rfl, rfl, rfl, rfl, rfl, rfl⟩
  refine parseString_spelled ?_ [44]
  intro p hp
  simp only [List.mem_cons, List.not_mem_nil, or_false] at hp
  rcases hp with rfl | rfl | rfl
  · exact .itself (by decide) (by decide) (by decide)
  · exact .letter (by decide)
  · exact .pair (by decide) hhigh hlow

end Json
end LinuxLearn
