import Mathlib.Tactic.IntervalCases
import LinuxLearn.Lib.RoundCipher
import LinuxLearn.Aes.Tables

/-!
# Cipher — keys and blocks

The software path of `aes.c`: `setkeyEnc` and `setkeyDec` expand a key, `internalAesEncrypt` and
`internalAesDecrypt` take a block through the rounds.  The two undo each other
(`cryptEcb_inverse`): the rounds are those of a `Layers`, and the keys that `setkeyDec` makes are
the ones that its inverse needs.

`key` is all that can be read behind the pointer.  The contexts are filled before they are used.
-/

namespace LinuxLearn
namespace Aes

open Lib

abbrev Block : Type := Vector Byte 16

inductive Fault
  | invalidKeyLength
  | outOfBounds
  deriving DecidableEq, Repr

inductive Mode
  | encrypt
  | decrypt
  deriving DecidableEq, Repr

/-! ## States -/

/-- The words `X0` to `X3`, or four words of a key. -/
@[ext]
structure State where
  x0 : Word
  x1 : Word
  x2 : Word
  x3 : Word
  deriving DecidableEq, Repr

namespace State

def xor (k x : State) : State :=
  ⟨k.x0 ^^^ x.x0, k.x1 ^^^ x.x1, k.x2 ^^^ x.x2, k.x3 ^^^ x.x3⟩

def map (f : Word → Word) (x : State) : State :=
  ⟨f x.x0, f x.x1, f x.x2, f x.x3⟩

def words (x : State) : List Word :=
  [x.x0, x.x1, x.x2, x.x3]

end State

/-- `GET_UINT32_LE` of the whole block -/
def getBlock (input : Block) : State where
  x0 := word input[0] input[1] input[2] input[3]
  x1 := word input[4] input[5] input[6] input[7]
  x2 := word input[8] input[9] input[10] input[11]
  x3 := word input[12] input[13] input[14] input[15]

/-- `PUT_UINT32_LE` -/
def putBlock (x : State) : Block :=
  #v[byte 0 x.x0, byte 1 x.x0, byte 2 x.x0, byte 3 x.x0,
    byte 0 x.x1, byte 1 x.x1, byte 2 x.x1, byte 3 x.x1,
    byte 0 x.x2, byte 1 x.x2, byte 2 x.x2, byte 3 x.x2,
    byte 0 x.x3, byte 1 x.x3, byte 2 x.x3, byte 3 x.x3]

/-! ## Keys -/

structure Context where
  nr : Nat
  rk : List Word

/-- The four words that `RK` points to in round `i`. -/
def roundKey (rk : List Word) (i : Nat) : State :=
  ⟨rk.getD (4 * i) 0, rk.getD (4 * i + 1) 0, rk.getD (4 * i + 2) 0, rk.getD (4 * i + 3) 0⟩

/-- The loop over `GET_UINT32_LE`. -/
def getWords : Nat → List Byte → List Word
  | n + 1, a :: b :: c :: d :: key => word a b c d :: getWords n key
  | _, _ => []

/-- What is added to the first word of a group. -/
def subRot (w : Word) : Word :=
  (fsb (byte 1 w)).setWidth 32 ^^^ (fsb (byte 2 w)).setWidth 32 <<< 8 ^^^
    (fsb (byte 3 w)).setWidth 32 <<< 16 ^^^ (fsb (byte 0 w)).setWidth 32 <<< 24

/-- What is added to the fifth word of a group of eight. -/
def subWord (w : Word) : Word :=
  (fsb (byte 0 w)).setWidth 32 ^^^ (fsb (byte 1 w)).setWidth 32 <<< 8 ^^^
    (fsb (byte 2 w)).setWidth 32 <<< 16 ^^^ (fsb (byte 3 w)).setWidth 32 <<< 24

def expand10 (rc : Word) : List Word → List Word
  | [rk0, rk1, rk2, rk3] =>
      let rk4 := rk0 ^^^ rc ^^^ subRot rk3
      let rk5 := rk1 ^^^ rk4
      let rk6 := rk2 ^^^ rk5
      let rk7 := rk3 ^^^ rk6
      [rk4, rk5, rk6, rk7]
  | _ => []

def expand12 (rc : Word) : List Word → List Word
  | [rk0, rk1, rk2, rk3, rk4, rk5] =>
      let rk6 := rk0 ^^^ rc ^^^ subRot rk5
      let rk7 := rk1 ^^^ rk6
      let rk8 := rk2 ^^^ rk7
      let rk9 := rk3 ^^^ rk8
      let rk10 := rk4 ^^^ rk9
      let rk11 := rk5 ^^^ rk10
      [rk6, rk7, rk8, rk9, rk10, rk11]
  | _ => []

def expand14 (rc : Word) : List Word → List Word
  | [rk0, rk1, rk2, rk3, rk4, rk5, rk6, rk7] =>
      let rk8 := rk0 ^^^ rc ^^^ subRot rk7
      let rk9 := rk1 ^^^ rk8
      let rk10 := rk2 ^^^ rk9
      let rk11 := rk3 ^^^ rk10
      let rk12 := rk4 ^^^ subWord rk11
      let rk13 := rk5 ^^^ rk12
      let rk14 := rk6 ^^^ rk13
      let rk15 := rk7 ^^^ rk14
      [rk8, rk9, rk10, rk11, rk12, rk13, rk14, rk15]
  | _ => []

/-- The loops of `mbedtls_aes_setkey_enc`, each turn of which makes the next group of words. -/
def expand (next : Word → List Word → List Word) : List Word → List Word → List Word
  | [], rk => rk
  | rc :: rcs, rk => rk ++ expand next rcs (next rc rk)

def keyRounds : Nat → Option Nat
  | 128 => some 10
  | 192 => some 12
  | 256 => some 14
  | _ => none

/-- The key schedule, which depends on the number of rounds. -/
def schedule : Nat → List Word → List Word
  | 10, key => expand expand10 (rcon.take 10) key
  | 12, key => expand expand12 (rcon.take 8) key
  | 14, key => expand expand14 (rcon.take 7) key
  | _, key => key

def setkeyEnc (key : List Byte) (keybits : Nat) : Except Fault Context :=
  match keyRounds keybits with
  | none => .error .invalidKeyLength
  | some nr =>
      if key.length < keybits / 8 then .error .outOfBounds
      else .ok ⟨nr, schedule nr (getWords (keybits >>> 5) key)⟩

/-- What is stored for a word of the middle rounds. -/
def unmixWord (sk : Word) : Word :=
  rt0 (fsb (byte 0 sk)) ^^^ rt1 (fsb (byte 1 sk)) ^^^ rt2 (fsb (byte 2 sk)) ^^^
    rt3 (fsb (byte 3 sk))

/-- The loop of `mbedtls_aes_setkey_dec` from `i` down to 1. -/
def unmixKeys (rk : List Word) : Nat → List Word
  | 0 => []
  | i + 1 => (roundKey rk (i + 1)).words.map unmixWord ++ unmixKeys rk i

def setkeyDec (key : List Byte) (keybits : Nat) : Except Fault Context := do
  let cty ← setkeyEnc key keybits
  .ok ⟨cty.nr, (roundKey cty.rk cty.nr).words ++
    (unmixKeys cty.rk (cty.nr - 1) ++ (roundKey cty.rk 0).words)⟩

/-! ## Blocks -/

/-- Which bytes go into a word of `AES_FROUND`, and of the last round. -/
def forward (f : Word → Byte → Byte → Byte → Byte → Word) (k y : State) : State where
  x0 := f k.x0 (byte 0 y.x0) (byte 1 y.x1) (byte 2 y.x2) (byte 3 y.x3)
  x1 := f k.x1 (byte 0 y.x1) (byte 1 y.x2) (byte 2 y.x3) (byte 3 y.x0)
  x2 := f k.x2 (byte 0 y.x2) (byte 1 y.x3) (byte 2 y.x0) (byte 3 y.x1)
  x3 := f k.x3 (byte 0 y.x3) (byte 1 y.x0) (byte 2 y.x1) (byte 3 y.x2)

/-- The same for `AES_RROUND`. -/
def backward (f : Word → Byte → Byte → Byte → Byte → Word) (k y : State) : State where
  x0 := f k.x0 (byte 0 y.x0) (byte 1 y.x3) (byte 2 y.x2) (byte 3 y.x1)
  x1 := f k.x1 (byte 0 y.x1) (byte 1 y.x0) (byte 2 y.x3) (byte 3 y.x2)
  x2 := f k.x2 (byte 0 y.x2) (byte 1 y.x1) (byte 2 y.x0) (byte 3 y.x3)
  x3 := f k.x3 (byte 0 y.x3) (byte 1 y.x2) (byte 2 y.x1) (byte 3 y.x0)

def fround : State → State → State :=
  forward fun k a b c d => k ^^^ ft0 a ^^^ ft1 b ^^^ ft2 c ^^^ ft3 d

def rround : State → State → State :=
  backward fun k a b c d => k ^^^ rt0 a ^^^ rt1 b ^^^ rt2 c ^^^ rt3 d

def lastWord (box : Byte → Byte) (k : Word) (a b c d : Byte) : Word :=
  k ^^^ (box a).setWidth 32 ^^^ (box b).setWidth 32 <<< 8 ^^^ (box c).setWidth 32 <<< 16 ^^^
    (box d).setWidth 32 <<< 24

/-- The loop over two rounds, with `i` turns to go, from round `r` on. -/
def roundPairs (round : State → State → State) (rk : List Word) : Nat → Nat → State → State
  | 0, _, x => x
  | i + 1, r, x =>
      roundPairs round rk i (r + 2) (round (roundKey rk (r + 1)) (round (roundKey rk r) x))

/-- What the functions for both directions share. -/
def crypt (round last : State → State → State) (ctx : Context) (input : Block) : Block :=
  let i := (ctx.nr >>> 1) - 1
  let x := (roundKey ctx.rk 0).xor (getBlock input)
  let x := roundPairs round ctx.rk i 1 x
  let y := round (roundKey ctx.rk (2 * i + 1)) x
  putBlock (last (roundKey ctx.rk (2 * i + 2)) y)

def internalAesEncrypt (ctx : Context) (input : Block) : Block :=
  crypt fround (forward (lastWord fsb)) ctx input

def internalAesDecrypt (ctx : Context) (input : Block) : Block :=
  crypt rround (backward (lastWord rsb)) ctx input

def cryptEcb (ctx : Context) (mode : Mode) (input : Block) : Block :=
  match mode with
  | .encrypt => internalAesEncrypt ctx input
  | .decrypt => internalAesDecrypt ctx input

/-! ## Blocks and states -/

theorem getBlock_putBlock (x : State) : getBlock (putBlock x) = x := by
  simp only [getBlock, putBlock]
  ext1
  · exact word_byte x.x0
  · exact word_byte x.x1
  · exact word_byte x.x2
  · exact word_byte x.x3

theorem putBlock_getBlock (b : Block) : putBlock (getBlock b) = b := by
  simp only [getBlock, putBlock, byte_word_zero, byte_word_one, byte_word_two, byte_word_three]
  refine Vector.ext fun i hi => ?_
  interval_cases i <;> rfl

theorem State.xor_cancel (k x : State) : k.xor (k.xor x) = x := by
  simp only [State.xor, Lib.xor_cancel]

/-! ## The layers -/

/-- `MixColumns` of a word, and its inverse. -/
def mixWord : Word → Word :=
  circulant (multiples 2 1 1 3)

def mixInvWord : Word → Word :=
  circulant (multiples 0x0E 0x09 0x0D 0x0B)

theorem additive_mixWord : Additive mixWord :=
  additive_circulant (additive_multiples _ _ _ _)

theorem additive_mixInvWord : Additive mixInvWord :=
  additive_circulant (additive_multiples _ _ _ _)

theorem mixInvWord_mixWord (w : Word) : mixInvWord (mixWord w) = w := by
  refine (additive_mixInvWord.comp additive_mixWord).ext Additive.id ?_ w
  decide +kernel

theorem mixWord_mixInvWord (w : Word) : mixWord (mixInvWord w) = w := by
  refine (additive_mixWord.comp additive_mixInvWord).ext Additive.id ?_ w
  decide +kernel

theorem unmixWord_eq (w : Word) : unmixWord w = mixInvWord w := by
  simp only [unmixWord, rt1, rt2, rt3, rt0_eq, rsb_fsb, mixInvWord, circulant]

def layers : Layers State where
  add := State.xor
  sub := forward (fun _ a b c d => word (fsb a) (fsb b) (fsb c) (fsb d)) ⟨0, 0, 0, 0⟩
  mix := State.map mixWord

def layersInv : Layers State where
  add := State.xor
  sub := backward (fun _ a b c d => word (rsb a) (rsb b) (rsb c) (rsb d)) ⟨0, 0, 0, 0⟩
  mix := State.map mixInvWord

theorem map_xor {f : Word → Word} (hf : Additive f) (x y : State) :
    (x.xor y).map f = (x.map f).xor (y.map f) := by
  simp only [State.map, State.xor, hf _ _]

theorem map_map_id {f g : Word → Word} (h : ∀ w, f (g w) = w) (x : State) :
    (x.map g).map f = x := by
  simp only [State.map, h]

theorem undoes_layers : layersInv.Undoes layers where
  add := rfl
  cancel := State.xor_cancel
  sub x := by
    simp only [layersInv, layers, forward, backward, byte_word_zero, byte_word_one, byte_word_two,
      byte_word_three, rsb_fsb, word_byte]
  mix := map_map_id mixInvWord_mixWord
  mix_add := map_xor additive_mixInvWord

theorem undoes_layersInv : layers.Undoes layersInv where
  add := rfl
  cancel := State.xor_cancel
  sub x := by
    simp only [layersInv, layers, forward, backward, byte_word_zero, byte_word_one, byte_word_two,
      byte_word_three, fsb_rsb, word_byte]
  mix := map_map_id mixWord_mixInvWord
  mix_add := map_xor additive_mixWord

/-! ## The rounds -/

theorem xor_assoc4 (k a b c d : Word) :
    k ^^^ a ^^^ b ^^^ c ^^^ d = k ^^^ (a ^^^ b ^^^ c ^^^ d) := by
  simp only [BitVec.xor_assoc]

theorem fround_eq (k y : State) : fround k y = layers.add k (layers.mix (layers.sub y)) := by
  simp only [fround, forward, layers, State.xor, State.map, mixWord, circulant, byte_word_zero,
    byte_word_one, byte_word_two, byte_word_three, ft1, ft2, ft3, ft0_eq, xor_assoc4]

theorem rround_eq (k y : State) :
    rround k y = layersInv.add k (layersInv.mix (layersInv.sub y)) := by
  simp only [rround, backward, layersInv, State.xor, State.map, mixInvWord, circulant,
    byte_word_zero, byte_word_one, byte_word_two, byte_word_three, rt1, rt2, rt3, rt0_eq,
    xor_assoc4]

theorem lastWord_eq (box : Byte → Byte) (k : Word) (a b c d : Byte) :
    lastWord box k a b c d = k ^^^ word (box a) (box b) (box c) (box d) := by
  rw [lastWord, xor_assoc4, shifts_eq_word]

theorem flast_eq (k y : State) :
    forward (lastWord fsb) k y = layers.add k (layers.sub y) := by
  simp only [forward, lastWord_eq, layers, State.xor]

theorem rlast_eq (k y : State) :
    backward (lastWord rsb) k y = layersInv.add k (layersInv.sub y) := by
  simp only [backward, lastWord_eq, layersInv, State.xor]

/-- The keys of `n` rounds, from round `r` on. -/
def roundKeys (rk : List Word) (r n : Nat) : List State :=
  (List.range' r n).map (roundKey rk)

theorem roundPairs_eq {round : State → State → State} {C : Layers State}
    (hround : ∀ k y, round k y = C.add k (C.mix (C.sub y))) (rk : List Word) (i r : Nat)
    (x : State) : roundPairs round rk i r x = C.rounds (roundKeys rk r (2 * i)) x := by
  induction i generalizing r x with
  | zero => rfl
  | succ i ih =>
      rw [roundPairs, ih, hround, hround]
      rfl

/-- Both directions are ciphers in the sense of `Layers`. -/
theorem crypt_eq {round last : State → State → State} {C : Layers State}
    (hround : ∀ k y, round k y = C.add k (C.mix (C.sub y)))
    (hlast : ∀ k y, last k y = C.add k (C.sub y)) (hadd : C.add = State.xor) {n : Nat}
    (rk : List Word) (input : Block) :
    crypt round last ⟨2 * n + 2, rk⟩ input =
      putBlock (C.cipher (roundKey rk 0) (roundKeys rk 1 (2 * n + 1)) (roundKey rk (2 * n + 2))
        (getBlock input)) := by
  have hhalf : (2 * n + 2) >>> 1 - 1 = n := by
    rw [Nat.shiftRight_eq_div_pow]
    omega
  have hkeys : roundKeys rk 1 (2 * n + 1) =
      roundKeys rk 1 (2 * n) ++ [roundKey rk (2 * n + 1)] := by
    rw [roundKeys, List.range'_concat, List.map_append, Nat.one_mul, Nat.add_comm 1]
    rfl
  have hone : ∀ k x, C.rounds [k] x = C.add k (C.mix (C.sub x)) := fun _ _ => rfl
  simp only [crypt, hhalf, roundPairs_eq hround, hlast, hround]
  rw [Layers.cipher, hkeys, Layers.rounds_append, hone, hadd]

/-! ## The keys -/

theorem roundKey_words (x : State) (rest : List Word) : roundKey (x.words ++ rest) 0 = x :=
  rfl

theorem roundKey_words_succ (x : State) (rest : List Word) (i : Nat) :
    roundKey (x.words ++ rest) (i + 1) = roundKey rest i := by
  have hskip : ∀ j, (x.words ++ rest).getD (4 * (i + 1) + j) 0 = rest.getD (4 * i + j) 0 := by
    intro j
    rw [show 4 * (i + 1) + j = 4 * i + j + 4 by omega]
    rfl
  exact State.ext (hskip 0) (hskip 1) (hskip 2) (hskip 3)

theorem unmixKeys_succ (rk : List Word) (n : Nat) :
    unmixKeys rk (n + 1) = ((roundKey rk (n + 1)).map mixInvWord).words ++ unmixKeys rk n := by
  rw [unmixKeys, funext unmixWord_eq]
  rfl

/-- The keys of the middle rounds come in the opposite order. -/
theorem roundKey_unmixKeys (rk rest : List Word) {n i : Nat} (hi : i < n) :
    roundKey (unmixKeys rk n ++ rest) i = (roundKey rk (n - i)).map mixInvWord := by
  induction n generalizing i with
  | zero => exact absurd hi (Nat.not_lt_zero i)
  | succ n ih =>
      rw [unmixKeys_succ, List.append_assoc]
      cases i with
      | zero => exact roundKey_words _ _
      | succ i =>
          rw [roundKey_words_succ, ih (Nat.lt_of_succ_lt_succ hi), Nat.succ_sub_succ]

theorem roundKey_behind (rk rest : List Word) (n : Nat) :
    roundKey (unmixKeys rk n ++ rest) n = roundKey rest 0 := by
  induction n with
  | zero => rfl
  | succ n ih => rw [unmixKeys_succ, List.append_assoc, roundKey_words_succ, ih]

/-- What `mbedtls_aes_setkey_dec` makes of the key of `mbedtls_aes_setkey_enc`. -/
def inverseKey (rk : List Word) (nr : Nat) : List Word :=
  (roundKey rk nr).words ++ (unmixKeys rk (nr - 1) ++ (roundKey rk 0).words)

theorem roundKeys_inverseKey (rk : List Word) (n : Nat) :
    roundKeys (inverseKey rk (n + 1)) 1 n =
      (roundKeys rk 1 n).reverse.map (State.map mixInvWord) := by
  refine List.ext_getElem (by simp [roundKeys]) fun j hj _ => ?_
  have hlt : j < n := by simpa [roundKeys] using hj
  have hindex : 1 + (n - 1 - j) = n - j := by omega
  simp only [roundKeys, List.getElem_map, List.getElem_range', List.getElem_reverse,
    List.length_map, List.length_range', Nat.one_mul, hindex]
  rw [inverseKey, Nat.add_comm 1 j, roundKey_words_succ, Nat.add_sub_cancel,
    roundKey_unmixKeys _ _ hlt]

theorem roundKey_inverseKey_last (rk : List Word) (n : Nat) :
    roundKey (inverseKey rk (n + 1)) (n + 1) = roundKey rk 0 := by
  rw [inverseKey, roundKey_words_succ, Nat.add_sub_cancel, roundKey_behind]
  rfl

/-! ## Encryption and decryption -/

theorem decrypt_encrypt (rk : List Word) (n : Nat) (block : Block) :
    internalAesDecrypt ⟨2 * n + 2, inverseKey rk (2 * n + 2)⟩
      (internalAesEncrypt ⟨2 * n + 2, rk⟩ block) = block := by
  rw [internalAesDecrypt, internalAesEncrypt, crypt_eq fround_eq flast_eq rfl,
    crypt_eq rround_eq rlast_eq rfl, getBlock_putBlock, roundKeys_inverseKey,
    roundKey_inverseKey_last]
  exact (congrArg putBlock (Layers.cipher_cipher undoes_layers _ _ _ _)).trans
    (putBlock_getBlock block)

theorem encrypt_decrypt (rk : List Word) (n : Nat) (block : Block) :
    internalAesEncrypt ⟨2 * n + 2, rk⟩
      (internalAesDecrypt ⟨2 * n + 2, inverseKey rk (2 * n + 2)⟩ block) = block := by
  -- The keys of the cipher are the inverse keys of its inverse.
  have hkeys : (roundKeys (inverseKey rk (2 * n + 1 + 1)) 1 (2 * n + 1)).reverse.map
      (State.map mixWord) = roundKeys rk 1 (2 * n + 1) := by
    rw [roundKeys_inverseKey, ← List.map_reverse, List.reverse_reverse, List.map_map]
    exact List.map_id'' (map_map_id mixWord_mixInvWord) _
  rw [internalAesDecrypt, internalAesEncrypt, crypt_eq fround_eq flast_eq rfl,
    crypt_eq rround_eq rlast_eq rfl, getBlock_putBlock, ← hkeys, roundKey_inverseKey_last]
  exact (congrArg putBlock (Layers.cipher_cipher undoes_layersInv _ _ _ _)).trans
    (putBlock_getBlock block)

/-- The number of rounds that a key of this length has. -/
theorem keyRounds_even {keybits nr : Nat} (h : keyRounds keybits = some nr) :
    ∃ n, nr = 2 * n + 2 := by
  unfold keyRounds at h
  split at h <;> cases h
  · exact ⟨4, rfl⟩
  · exact ⟨5, rfl⟩
  · exact ⟨6, rfl⟩

theorem setkeyDec_eq (key : List Byte) (keybits : Nat) :
    setkeyDec key keybits =
      (setkeyEnc key keybits).map fun ctx => ⟨ctx.nr, inverseKey ctx.rk ctx.nr⟩ := by
  rw [setkeyDec]
  cases setkeyEnc key keybits <;> rfl

theorem setkeyEnc_rounds {key : List Byte} {keybits : Nat} {ctx : Context}
    (h : setkeyEnc key keybits = .ok ctx) : ∃ n, ctx.nr = 2 * n + 2 := by
  unfold setkeyEnc at h
  split at h
  · cases h
  · rename_i nr hnr
    split at h
    · cases h
    · cases h
      exact keyRounds_even hnr

/-- With the two keys, the two directions undo each other. -/
structure Inverse (e d : Context) : Prop where
  decrypt : ∀ block, cryptEcb d .decrypt (cryptEcb e .encrypt block) = block
  encrypt : ∀ block, cryptEcb e .encrypt (cryptEcb d .decrypt block) = block

theorem inverse_of_setkey {key : List Byte} {keybits : Nat} {e d : Context}
    (he : setkeyEnc key keybits = .ok e) (hd : setkeyDec key keybits = .ok d) : Inverse e d := by
  rw [setkeyDec_eq, he] at hd
  cases hd
  rcases e with ⟨nr, rk⟩
  rcases setkeyEnc_rounds he with ⟨n, rfl⟩
  exact ⟨decrypt_encrypt rk n, encrypt_decrypt rk n⟩

/-- Every key of one of the three lengths makes `mbedtls_aes_crypt_ecb` a permutation of the blocks,
with the other direction as its inverse. -/
theorem cryptEcb_inverse {key : List Byte} {keybits : Nat}
    (hbits : keybits = 128 ∨ keybits = 192 ∨ keybits = 256) (hkey : keybits / 8 ≤ key.length) :
    ∃ e d, setkeyEnc key keybits = .ok e ∧ setkeyDec key keybits = .ok d ∧ Inverse e d := by
  have hrounds : ∃ nr, keyRounds keybits = some nr := by
    rcases hbits with rfl | rfl | rfl
    · exact ⟨10, rfl⟩
    · exact ⟨12, rfl⟩
    · exact ⟨14, rfl⟩
  rcases hrounds with ⟨nr, hnr⟩
  have he : setkeyEnc key keybits = .ok ⟨nr, schedule nr (getWords (keybits >>> 5) key)⟩ := by
    rw [setkeyEnc, hnr]
    exact if_neg (Nat.not_lt.2 hkey)
  have hd := setkeyDec_eq key keybits
  rw [he] at hd
  exact ⟨_, _, he, hd, inverse_of_setkey he hd⟩

/-- The bytes from 0 to 31. -/
def countingKey : List Byte :=
  (List.range 32).map (BitVec.ofNat 8)

theorem cryptEcb_inverse_counting : ∃ e d, setkeyEnc countingKey 256 = .ok e ∧
    setkeyDec countingKey 256 = .ok d ∧ Inverse e d :=
  cryptEcb_inverse (.inr (.inr rfl)) (by decide)

end Aes
end LinuxLearn
