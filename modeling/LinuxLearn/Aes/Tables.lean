import Mathlib.Data.Fintype.EquivFin
import LinuxLearn.Lib.ByteField

/-!
# Tables — `aes_gen_tables`

The tables of `aes.c` are computed before the first key is set.  `pow` and `log` turn products
into sums (`mul_eq_gmul`), the S-boxes come from the inverses (`fsb_eq`) and undo each other, and an
entry of the other tables is a column of multiples of an entry of an S-box (`ft0_eq`, `rt0_eq`).
-/

namespace LinuxLearn
namespace Aes

open Lib

/-! ## Logarithms -/

/-- `pow` and `log` are not initialised; of what is not written, nothing is read. -/
structure Logs where
  pow : List Byte
  log : List Nat

/-- The body of the first loop, with `x` beside the tables. -/
def logTurn (t : Logs × Byte) (i : Nat) : Logs × Byte :=
  (⟨t.1.pow.set i t.2, t.1.log.set t.2.toNat i⟩, t.2 ^^^ xtime t.2)

def logs : Logs :=
  ((List.range 256).foldl logTurn (⟨List.replicate 256 0, List.replicate 256 0⟩, 1)).1

def pow (i : Nat) : Byte :=
  logs.pow.getD i 0

def log (x : Byte) : Nat :=
  logs.log.getD x.toNat 0

/-- `MUL` -/
def mul (x y : Byte) : Byte :=
  if x ≠ 0 ∧ y ≠ 0 then pow ((log x + log y) % 255) else 0

/-- The second loop, with `n` turns to go. -/
def rconFrom : Nat → Byte → List Word
  | 0, _ => []
  | n + 1, x => x.setWidth 32 :: rconFrom n (xtime x)

def rcon : List Word :=
  rconFrom 10 1

/-! ## S-boxes -/

structure Boxes where
  fsb : List Byte
  rsb : List Byte

/-- `((y << 1) | (y >> 7)) & 0xFF` -/
def turn (y : Byte) : Byte :=
  (y <<< 1) ||| (y >>> 7)

/-- What the third loop makes of `pow[255 - log[i]]`. -/
def affine (x : Byte) : Byte :=
  x ^^^ turn x ^^^ turn (turn x) ^^^ turn (turn (turn x)) ^^^ (turn (turn (turn (turn x))) ^^^ 0x63)

/-- The body of the third loop. -/
def boxTurn (t : Boxes) (i : Nat) : Boxes :=
  let x := affine (pow (255 - log (BitVec.ofNat 8 i)))
  ⟨t.fsb.set i x, t.rsb.set x.toNat (BitVec.ofNat 8 i)⟩

def boxes : Boxes :=
  (List.range' 1 255).foldl boxTurn
    ⟨(List.replicate 256 0).set 0x00 0x63, (List.replicate 256 0).set 0x63 0x00⟩

def fsb (i : Byte) : Byte :=
  boxes.fsb.getD i.toNat 0

def rsb (i : Byte) : Byte :=
  boxes.rsb.getD i.toNat 0

/-! ## Forward and reverse tables -/

def ft0 (i : Byte) : Word :=
  let x := fsb i
  let y := xtime x
  let z := y ^^^ x
  y.setWidth 32 ^^^ x.setWidth 32 <<< 8 ^^^ x.setWidth 32 <<< 16 ^^^ z.setWidth 32 <<< 24

def ft1 (i : Byte) : Word :=
  rotl8 (ft0 i)

def ft2 (i : Byte) : Word :=
  rotl8 (ft1 i)

def ft3 (i : Byte) : Word :=
  rotl8 (ft2 i)

def rt0 (i : Byte) : Word :=
  let x := rsb i
  (mul 0x0E x).setWidth 32 ^^^ (mul 0x09 x).setWidth 32 <<< 8 ^^^
    (mul 0x0D x).setWidth 32 <<< 16 ^^^ (mul 0x0B x).setWidth 32 <<< 24

def rt1 (i : Byte) : Word :=
  rotl8 (rt0 i)

def rt2 (i : Byte) : Word :=
  rotl8 (rt1 i)

def rt3 (i : Byte) : Word :=
  rotl8 (rt2 i)

/-! ## The first loop -/

/-- What holds after `n` turns: `pow` has the first powers, and `log` an exponent of each. -/
structure LogInv (n : Nat) (t : Logs × Byte) : Prop where
  next : t.2 = power n
  length_pow : t.1.pow.length = 256
  length_log : t.1.log.length = 256
  pow : ∀ i < n, t.1.pow.getD i 0 = power i
  log : ∀ i < n, t.1.log.getD (power i).toNat 0 < n ∧
    power (t.1.log.getD (power i).toNat 0) = power i

theorem getD_set_self {α : Type*} {l : List α} {i : Nat} (h : i < l.length) (a d : α) :
    (l.set i a).getD i d = a := by
  rw [List.getD_eq_getElem?_getD, List.getElem?_set_self h]
  rfl

theorem getD_set_ne {α : Type*} (l : List α) {i j : Nat} (h : i ≠ j) (a d : α) :
    (l.set i a).getD j d = l.getD j d := by
  rw [List.getD_eq_getElem?_getD, List.getElem?_set_ne h, ← List.getD_eq_getElem?_getD]

theorem LogInv.step {n : Nat} {t : Logs × Byte} (h : LogInv n t) (hn : n < 256) :
    LogInv (n + 1) (logTurn t n) where
  next := by
    rw [power_succ, ← h.next]
    rfl
  length_pow := by rw [logTurn, List.length_set, h.length_pow]
  length_log := by rw [logTurn, List.length_set, h.length_log]
  pow i hi := by
    rcases Nat.lt_succ_iff_lt_or_eq.1 hi with hlt | rfl
    · rw [logTurn, getD_set_ne _ (by omega), h.pow i hlt]
    · rw [logTurn, getD_set_self (by rw [h.length_pow]; exact hn), h.next]
  log i hi := by
    have hfits : t.2.toNat < t.1.log.length := by
      rw [h.length_log]
      exact t.2.isLt
    rw [logTurn]
    by_cases heq : power i = power n
    · -- The exponent is overwritten by a later one.
      rw [heq, ← h.next, getD_set_self hfits]
      exact ⟨Nat.lt_succ_self n, h.next.symm⟩
    · have hlt : i < n := by
        rcases Nat.lt_succ_iff_lt_or_eq.1 hi with hlt | rfl
        · exact hlt
        · exact absurd rfl heq
      have hne : t.2.toNat ≠ (power i).toNat := by
        rw [h.next]
        exact fun hnat => heq (BitVec.eq_of_toNat_eq hnat.symm)
      rw [getD_set_ne _ hne]
      exact ⟨Nat.lt_succ_of_lt (h.log i hlt).1, (h.log i hlt).2⟩

theorem logInv_foldl {n : Nat} (hn : n ≤ 256) :
    LogInv n ((List.range n).foldl logTurn
      (⟨List.replicate 256 0, List.replicate 256 0⟩, 1)) := by
  induction n with
  | zero =>
      exact ⟨rfl, List.length_replicate, List.length_replicate, fun i hi => absurd hi (by omega),
        fun i hi => absurd hi (by omega)⟩
  | succ n ih =>
      rw [List.range_succ, List.foldl_append]
      exact (ih (by omega)).step (by omega)

theorem pow_eq {i : Nat} (hi : i < 256) : pow i = power i :=
  (logInv_foldl (Nat.le_refl 256)).pow i hi

theorem log_spec {x : Byte} (hx : x ≠ 0) : log x < 256 ∧ power (log x) = x := by
  rcases exists_power hx with ⟨i, hi, rfl⟩
  exact (logInv_foldl (Nat.le_refl 256)).log i (by omega)

theorem mul_eq_gmul (x y : Byte) : mul x y = gmul x y := by
  rw [mul]
  by_cases hx : x = 0
  · rw [if_neg (fun h => h.1 hx), hx, zero_gmul]
  by_cases hy : y = 0
  · rw [if_neg (fun h => h.2 hy), hy, gmul_zero]
  rw [if_pos ⟨hx, hy⟩, pow_eq (Nat.lt_trans (Nat.mod_lt _ (by decide)) (by decide)), power_mod,
    ← gmul_power, (log_spec hx).2, (log_spec hy).2]

/-- The code takes the inverse from the tables. -/
theorem pow_log {x : Byte} (hx : x ≠ 0) : pow (255 - log x) = inverse x := by
  rcases log_spec hx with ⟨hlt, hpower⟩
  refine eq_inverse ?_
  rw [pow_eq (by omega)]
  calc gmul x (power (255 - log x))
      = power (log x + (255 - log x)) := by rw [← gmul_power, hpower]
    _ = power 255 := by rw [Nat.add_sub_cancel' (by omega)]
    _ = 1 := power_255

/-! ## The S-boxes -/

theorem affine_injective : Function.Injective affine := by
  have hlinear : Additive fun x => x ^^^ turn x ^^^ turn (turn x) ^^^ turn (turn (turn x)) ^^^
      turn (turn (turn (turn x))) :=
    additive_of_span (by decide +kernel)
  have hinj := hlinear.injective (by decide +kernel)
  intro x y h
  rw [affine, affine, ← BitVec.xor_assoc, ← BitVec.xor_assoc] at h
  exact hinj ((BitVec.xor_left_inj _).1 h)

theorem inverse_injective : Function.Injective inverse :=
  Function.LeftInverse.injective inverse_inverse

/-- What the code stores for `i`. -/
def sbox (i : Byte) : Byte :=
  affine (inverse i)

theorem sbox_injective : Function.Injective sbox :=
  affine_injective.comp inverse_injective

theorem sbox_zero : sbox 0 = 0x63 := by
  rw [sbox, inverse_zero]
  decide

/-- What holds when the entries below `n` have been written. -/
structure BoxInv (n : Nat) (t : Boxes) : Prop where
  length_fsb : t.fsb.length = 256
  length_rsb : t.rsb.length = 256
  fsb : ∀ i : Byte, i.toNat < n → t.fsb.getD i.toNat 0 = sbox i
  rsb : ∀ i : Byte, i.toNat < n → t.rsb.getD (sbox i).toNat 0 = i

theorem BoxInv.step {n : Nat} {t : Boxes} (h : BoxInv n t) (hn : n < 256) (hpos : 0 < n) :
    BoxInv (n + 1) (boxTurn t n) := by
  -- The byte of this turn.
  obtain ⟨b, rfl⟩ : ∃ b : Byte, b.toNat = n := ⟨BitVec.ofNat 8 n, Nat.mod_eq_of_lt hn⟩
  have hb : b ≠ 0 := by
    rintro rfl
    exact absurd hpos (by decide)
  have hturn : boxTurn t b.toNat = ⟨t.fsb.set b.toNat (sbox b), t.rsb.set (sbox b).toNat b⟩ := by
    rw [boxTurn, BitVec.ofNat_toNat, BitVec.setWidth_eq, pow_log hb]
    rfl
  have hfits : ∀ c : Byte, c.toNat < 256 := fun c => c.isLt
  rw [hturn]
  refine ⟨by rw [List.length_set, h.length_fsb], by rw [List.length_set, h.length_rsb],
    fun i hi => ?_, fun i hi => ?_⟩
  · by_cases heq : i = b
    · rw [heq, getD_set_self (by rw [h.length_fsb]; exact hfits b)]
    · have hne : b.toNat ≠ i.toNat := fun hnat => heq (BitVec.eq_of_toNat_eq hnat.symm)
      rw [getD_set_ne _ hne, h.fsb i (by omega)]
  · by_cases heq : i = b
    · rw [heq, getD_set_self (by rw [h.length_rsb]; exact hfits _)]
    · have hne : b.toNat ≠ i.toNat := fun hnat => heq (BitVec.eq_of_toNat_eq hnat.symm)
      have hbox : (sbox b).toNat ≠ (sbox i).toNat := fun hnat =>
        heq (sbox_injective (BitVec.eq_of_toNat_eq hnat.symm))
      rw [getD_set_ne _ hbox, h.rsb i (by omega)]

theorem boxInv_foldl {n : Nat} (hn : n < 256) :
    BoxInv (n + 1) ((List.range' 1 n).foldl boxTurn
      ⟨(List.replicate 256 0).set 0x00 0x63, (List.replicate 256 0).set 0x63 0x00⟩) := by
  induction n with
  | zero =>
      have hzero : ∀ i : Byte, i.toNat < 0 + 1 → i = 0 := fun i hi =>
        BitVec.eq_of_toNat_eq (Nat.lt_one_iff.1 hi)
      refine ⟨by rw [List.range'_zero, List.foldl_nil, List.length_set, List.length_replicate],
        by rw [List.range'_zero, List.foldl_nil, List.length_set, List.length_replicate],
        fun i hi => ?_, fun i hi => ?_⟩
      · rw [hzero i hi, sbox_zero]
        exact getD_set_self (by rw [List.length_replicate]; decide) _ _
      · rw [hzero i hi, sbox_zero]
        exact getD_set_self (by rw [List.length_replicate]; decide) _ _
  | succ n ih =>
      rw [List.range'_concat, List.foldl_append, Nat.one_mul, Nat.add_comm 1 n]
      exact (ih (by omega)).step hn (Nat.succ_pos n)

theorem fsb_eq (i : Byte) : fsb i = sbox i :=
  (boxInv_foldl (by decide : 255 < 256)).fsb i i.isLt

theorem rsb_fsb (i : Byte) : rsb (fsb i) = i := by
  rw [fsb_eq]
  exact (boxInv_foldl (by decide : 255 < 256)).rsb i i.isLt

theorem fsb_rsb (i : Byte) : fsb (rsb i) = i := by
  have hfinite : Finite Byte := Finite.of_injective BitVec.toFin fun _ _ => BitVec.eq_of_toFin_eq
  have hleft : Function.LeftInverse rsb fsb := rsb_fsb
  exact hleft.rightInverse_of_surjective (Finite.surjective_of_injective hleft.injective) i

/-! ## The forward and reverse tables -/

theorem ft0_eq (i : Byte) : ft0 i = multiples 2 1 1 3 (fsb i) := by
  have htwo : ∀ x, gmul 2 x = xtime x := (additive_gmul 2).ext additive_xtime (by decide +kernel)
  have hthree : ∀ x, gmul 3 x = xtime x ^^^ x :=
    (additive_gmul 3).ext (additive_xtime.xor Additive.id) (by decide +kernel)
  rw [ft0, shifts_eq_word, multiples, htwo, hthree, one_gmul]

theorem rt0_eq (i : Byte) : rt0 i = multiples 0x0E 0x09 0x0D 0x0B (rsb i) := by
  rw [rt0, shifts_eq_word, mul_eq_gmul, mul_eq_gmul, mul_eq_gmul, mul_eq_gmul, multiples]

end Aes
end LinuxLearn
