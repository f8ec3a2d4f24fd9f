import LinuxLearn.Lib.OnesComplement
import LinuxLearn.Ping.Packet

/-!
# Checksum — the checksum of the packets that ping sends

`cal_chksum` adds the 16-bit words of a buffer in an `int` and folds the sum twice.  For buffers of
up to 65535 bytes the `int` does not overflow and two folds are enough, so the result is the
complement of the end-around-carry sum of the words.  A buffer that carries its own checksum has
the checksum zero, and so have the packets of `icmp_pack`.
-/

namespace LinuxLearn
namespace Ping

open Lib

/-! ## The functions -/

/-- Addition of `int`; `none` is an overflow, which is undefined. -/
def addInt (sum w : Nat) : Option Nat :=
  if sum + w < 2 ^ 31 then some (sum + w) else none

/-- The loop of `cal_chksum`; a last single byte is the lower half of a word. -/
def addWords : Bytes → Nat → Option Nat
  | [], sum => some sum
  | [b], sum => addInt sum b.toNat
  | lo :: hi :: addr, sum => do
      let sum ← addInt sum (lo.toNat + 256 * hi.toNat)
      addWords addr sum

/-- The second and the third statement behind the loop. -/
def foldTwice (sum : Nat) : Nat :=
  let sum := (sum >>> 16) + (sum &&& 0xffff)
  sum + (sum >>> 16)

/-- `answer = ~sum` -/
def complement16 (sum : Nat) : Nat :=
  (~~~(sum : Int) % 65536).toNat

def calChksum (addr : Bytes) : Option Nat :=
  (addWords addr 0).map fun sum => complement16 (foldTwice sum)

def ICMP_ECHO : UInt8 := 8

/-- A two-byte field, in the byte order of the host. -/
def putShort (buf : Bytes) (o v : Nat) : Bytes :=
  (buf.set o (UInt8.ofNat v)).set (o + 1) (UInt8.ofNat (v / 256))

/-- `for (i = 0; i < length; i++) icmp_data[i] = i;` -/
def putData (buf : Bytes) (length : Nat) : Bytes :=
  (List.range length).foldl (fun buf i => buf.set (8 + i) (UInt8.ofNat i)) buf

/-- The packet without its checksum. -/
def icmpFields (pid seq : Int) (length : Nat) (icmphdr : Bytes) : Bytes :=
  let icmphdr := icmphdr.set 0 ICMP_ECHO
  let icmphdr := icmphdr.set 1 0
  let icmphdr := putShort icmphdr 2 0
  let icmphdr := putShort icmphdr 6 (seq % 65536).toNat
  let icmphdr := putShort icmphdr 4 (pid % 65536).toNat
  putData icmphdr length

def icmpPack (pid seq : Int) (length : Nat) (icmphdr : Bytes) : Option Bytes :=
  let icmphdr := icmpFields pid seq length icmphdr
  (calChksum (icmphdr.take length)).map (putShort icmphdr 2)

/-! ## What the checksum is -/

/-- The 16-bit words of a buffer, the last one filled up with zero. -/
def words : Bytes → List Nat
  | [] => []
  | [b] => [b.toNat]
  | lo :: hi :: addr => (lo.toNat + 256 * hi.toNat) :: words addr

theorem words_le (addr : Bytes) : ∀ w ∈ words addr, w ≤ 65535 := by
  induction addr using words.induct with
  | case1 => simp [words]
  | case2 b =>
      have hb := b.toNat_lt
      simp only [words, List.mem_singleton, forall_eq]
      omega
  | case3 lo hi addr ih =>
      have hlo := lo.toNat_lt
      have hhi := hi.toNat_lt
      rw [words, List.forall_mem_cons]
      exact ⟨by omega, ih⟩

theorem sum_words_le (addr : Bytes) :
    (words addr).sum ≤ 65535 * (addr.length / 2) + 255 * (addr.length % 2) := by
  induction addr using words.induct with
  | case1 => simp [words]
  | case2 b =>
      have hb := b.toNat_lt
      simp only [words, List.sum_singleton, List.length_singleton]
      omega
  | case3 lo hi addr ih =>
      have hlo := lo.toNat_lt
      have hhi := hi.toNat_lt
      simp only [words, List.sum_cons, List.length_cons]
      omega

/-- The loop adds the words, as long as their sum is an `int`. -/
theorem addWords_eq (addr : Bytes) (sum : Nat) (h : sum + (words addr).sum < 2 ^ 31) :
    addWords addr sum = some (sum + (words addr).sum) := by
  induction addr using words.induct generalizing sum with
  | case1 => rfl
  | case2 b =>
      simp only [words, List.sum_singleton] at h ⊢
      rw [addWords, addInt, if_pos h]
  | case3 lo hi addr ih =>
      simp only [words, List.sum_cons, ← Nat.add_assoc] at h ⊢
      have hfirst : addInt sum (lo.toNat + 256 * hi.toNat) =
          some (sum + lo.toNat + 256 * hi.toNat) := by
        rw [addInt, if_pos (by omega), Nat.add_assoc]
      rw [addWords, hfirst]
      exact ih _ h

/-- 32767 words and a byte are the most that there can be. -/
theorem sum_words_lt {addr : Bytes} (h : addr.length ≤ 65535) : (words addr).sum < 2 ^ 31 := by
  have hle := sum_words_le addr
  omega

/-- What a second fold leaves of a sum that the first one has made small. -/
theorem fold_mod {f : Nat} (h : f < 2 * 65535) : (f + f / 65536) % 65536 = canon 65535 f := by
  by_cases hsmall : f ≤ 65535
  · rw [canon_of_le hsmall]
    omega
  · have hsplit : f = f - 65535 + 65535 * 1 := by omega
    have hcanon : canon 65535 f = f - 65535 := by
      rw [hsplit, canon_add_mul 1 (by omega), canon_of_le (by omega)]
      omega
    rw [hcanon]
    omega

/-- After two folds the lower half is the end-around-carry sum. -/
theorem foldTwice_mod {sum : Nat} (h : sum < 2 ^ 31) : foldTwice sum % 65536 = canon 65535 sum := by
  have hmask : sum &&& 0xffff = sum % 65536 := Nat.and_two_pow_sub_one_eq_mod sum 16
  have hfold : canon 65535 (sum / 65536 + sum % 65536) = canon 65535 sum := canon_fold 65535 sum
  rw [foldTwice, hmask, Nat.shiftRight_eq_div_pow, Nat.shiftRight_eq_div_pow, ← hfold]
  exact fold_mod (by omega)

theorem complement16_eq (sum : Nat) : complement16 sum = 65535 - sum % 65536 := by
  have hnot : ~~~(sum : Int) = -((sum : Int) + 1) := Int.negSucc_eq sum
  rw [complement16, hnot]
  omega

theorem calChksum_eq {addr : Bytes} (h : addr.length ≤ 65535) :
    calChksum addr = some (65535 - ocSum 65535 (words addr)) := by
  have hsum := sum_words_lt h
  have hwords := addWords_eq addr 0 (by omega)
  rw [Nat.zero_add] at hwords
  rw [calChksum, hwords, Option.map_some, complement16_eq, foldTwice_mod hsum,
    ocSum_eq (by decide) (words_le addr)]

/-! ## A buffer with its own checksum -/

/-- A two-byte field with value zero. -/
def ZeroField (buf : Bytes) (k : Nat) : Prop :=
  buf[k]? = some 0 ∧ buf[k + 1]? = some 0

theorem ZeroField.split {buf : Bytes} {k : Nat} (h : ZeroField buf k) :
    ∃ x y, buf = x ++ 0 :: 0 :: y ∧ x.length = k := by
  rcases List.getElem?_eq_some_iff.1 h.1 with ⟨hk, hfirst⟩
  rcases List.getElem?_eq_some_iff.1 h.2 with ⟨hk', hsecond⟩
  have hdrop : buf.drop k = 0 :: 0 :: buf.drop (k + 2) := by
    rw [List.drop_eq_getElem_cons hk, List.drop_eq_getElem_cons hk', hfirst, hsecond]
  refine ⟨buf.take k, buf.drop (k + 2), ?_, List.length_take_of_le (Nat.le_of_lt hk)⟩
  rw [← hdrop, List.take_append_drop]

theorem words_append {x : Bytes} (hx : Even x.length) (y : Bytes) :
    words (x ++ y) = words x ++ words y := by
  induction x using words.induct with
  | case1 => rfl
  | case2 b => exact absurd hx Nat.not_even_one
  | case3 lo hi x ih =>
      have htail : Even x.length := by
        simpa [Nat.even_add_one] using hx
      rw [List.cons_append, List.cons_append, words, words, List.cons_append, ih htail]

theorem putShort_append (x y : Bytes) (a b : UInt8) (v : Nat) :
    putShort (x ++ a :: b :: y) x.length v =
      x ++ UInt8.ofNat v :: UInt8.ofNat (v / 256) :: y := by
  simp [putShort]

theorem word_short {v : Nat} (hv : v ≤ 65535) :
    (UInt8.ofNat v).toNat + 256 * (UInt8.ofNat (v / 256)).toNat = v := by
  simp only [UInt8.toNat_ofNat']
  omega

theorem length_putShort (buf : Bytes) (k v : Nat) : (putShort buf k v).length = buf.length := by
  simp [putShort]

/-- The stored value is the only change to the sum of the words. -/
theorem sum_words_putShort {buf : Bytes} {k v : Nat} (hk : Even k) (hzero : ZeroField buf k)
    (hv : v ≤ 65535) : (words (putShort buf k v)).sum = (words buf).sum + v := by
  rcases hzero.split with ⟨x, y, rfl, rfl⟩
  rw [putShort_append, words_append hk, words_append hk, words, words, word_short hv]
  simp only [List.sum_append, List.sum_cons, UInt8.toNat_zero]
  omega

/-- Checksum and sum cancel to the other zero. -/
theorem calChksum_putShort {buf : Bytes} (h : buf.length ≤ 65535) {k : Nat} (hk : Even k)
    (hzero : ZeroField buf k) :
    (calChksum buf).bind (fun c => calChksum (putShort buf k c)) = some 0 := by
  have hlength : ∀ v, (putShort buf k v).length ≤ 65535 := by
    intro v
    rwa [length_putShort]
  have hsum := sum_words_putShort hk hzero (Nat.sub_le 65535 (ocSum 65535 (words buf)))
  rw [calChksum_eq h, Option.bind_some, calChksum_eq (hlength _),
    ocSum_eq (by decide) (words_le (putShort buf k _)), hsum,
    ocSum_eq (by decide) (words_le buf), canon_add_complement (by decide)]

/-! ## The packets of `icmp_pack` -/

theorem ZeroField.set {buf : Bytes} {k i : Nat} (h : ZeroField buf k) (a : UInt8) (hi : i ≠ k)
    (hi' : i ≠ k + 1) : ZeroField (buf.set i a) k := by
  refine ⟨?_, ?_⟩
  · rw [List.getElem?_set_ne hi]
    exact h.1
  · rw [List.getElem?_set_ne hi']
    exact h.2

theorem zeroField_putShort {buf : Bytes} {k : Nat} (hk : k + 1 < buf.length) :
    ZeroField (putShort buf k 0) k := by
  have hne : k + 1 ≠ k := Nat.succ_ne_self k
  refine ⟨?_, ?_⟩
  · rw [putShort, List.getElem?_set_ne hne]
    exact List.getElem?_set_self (Nat.lt_of_succ_lt hk)
  · exact List.getElem?_set_self (by simpa using hk)

theorem ZeroField.putData {buf : Bytes} (h : ZeroField buf 2) (length : Nat) :
    ZeroField (putData buf length) 2 := by
  have hfold : ∀ (is : List Nat) (b : Bytes), ZeroField b 2 →
      ZeroField (is.foldl (fun b i => b.set (8 + i) (UInt8.ofNat i)) b) 2 := by
    intro is
    induction is with
    | nil => exact fun b hb => hb
    | cons i is ih => exact fun b hb => ih _ (hb.set _ (by omega) (by omega))
  exact hfold _ buf h

theorem length_putData (buf : Bytes) (length : Nat) : (putData buf length).length = buf.length := by
  have hfold : ∀ (is : List Nat) (b : Bytes),
      (is.foldl (fun b i => b.set (8 + i) (UInt8.ofNat i)) b).length = b.length := by
    intro is
    induction is with
    | nil => exact fun b => rfl
    | cons i is ih => exact fun b => (ih _).trans List.length_set
  exact hfold _ buf

theorem length_icmpFields (pid seq : Int) (length : Nat) (icmphdr : Bytes) :
    (icmpFields pid seq length icmphdr).length = icmphdr.length := by
  simp [icmpFields, length_putData, length_putShort]

theorem zeroField_icmpFields (pid seq : Int) (length : Nat) {icmphdr : Bytes}
    (h : 8 ≤ icmphdr.length) : ZeroField (icmpFields pid seq length icmphdr) 2 := by
  have hlength : 2 + 1 < ((icmphdr.set 0 ICMP_ECHO).set 1 0).length := by
    simp only [List.length_set]
    omega
  -- The fields that are written later are other ones.
  have hcksum := zeroField_putShort hlength
  have hseq := (hcksum.set (UInt8.ofNat (seq % 65536).toNat) (by decide : 6 ≠ 2) (by decide)).set
    (UInt8.ofNat ((seq % 65536).toNat / 256)) (by decide : 6 + 1 ≠ 2) (by decide)
  have hid := (hseq.set (UInt8.ofNat (pid % 65536).toNat) (by decide : 4 ≠ 2) (by decide)).set
    (UInt8.ofNat ((pid % 65536).toNat / 256)) (by decide : 4 + 1 ≠ 2) (by decide)
  exact hid.putData length

theorem ZeroField.take {buf : Bytes} {k n : Nat} (h : ZeroField buf k) (hn : k + 1 < n) :
    ZeroField (buf.take n) k := by
  refine ⟨?_, ?_⟩
  · rw [List.getElem?_take_of_lt (Nat.lt_of_succ_lt hn)]
    exact h.1
  · rw [List.getElem?_take_of_lt hn]
    exact h.2

theorem take_putShort (buf : Bytes) (k v n : Nat) :
    (putShort buf k v).take n = putShort (buf.take n) k v := by
  rw [putShort, putShort, List.take_set, List.take_set]

/-- A packet verifies. -/
theorem icmpPack_verifies (pid seq : Int) {length : Nat} (hmin : 8 ≤ length)
    (hmax : length ≤ 65535) {icmphdr : Bytes} (hroom : 8 + length ≤ icmphdr.length) :
    ∃ b, icmpPack pid seq length icmphdr = some b ∧ b.length = icmphdr.length ∧
      calChksum (b.take length) = some 0 := by
  have hfields := zeroField_icmpFields pid seq length (by omega : 8 ≤ icmphdr.length)
  have hzero := hfields.take (by omega : 2 + 1 < length)
  have hsize : ((icmpFields pid seq length icmphdr).take length).length ≤ 65535 :=
    le_trans (List.length_take_le _ _) hmax
  have hverifies := calChksum_putShort hsize (by decide) hzero
  rw [calChksum_eq hsize, Option.bind_some] at hverifies
  refine ⟨_, by rw [icmpPack, calChksum_eq hsize, Option.map_some], ?_, ?_⟩
  · rw [length_putShort, length_icmpFields]
  · rw [take_putShort]
    exact hverifies

/-- The checksum is the complement of the end-around-carry sum, without an overflow of the `int`;
stored in a zeroed field it makes the checksum of the buffer zero, and so do the packets of
`icmp_pack`. -/
theorem checksum_verifies :
    (∀ addr : Bytes, addr.length ≤ 65535 →
        calChksum addr = some (65535 - ocSum 65535 (words addr))) ∧
      (∀ (addr : Bytes) (k : Nat), addr.length ≤ 65535 → Even k → ZeroField addr k →
        ∃ c, calChksum addr = some c ∧ calChksum (putShort addr k c) = some 0) ∧
      ∀ (pid seq : Int) (length : Nat) (icmphdr : Bytes), 8 ≤ length → length ≤ 65535 →
        8 + length ≤ icmphdr.length → ∃ b, icmpPack pid seq length icmphdr = some b ∧
          b.length = icmphdr.length ∧ calChksum (b.take length) = some 0 := by
  refine ⟨fun addr h => calChksum_eq h, ?_, ?_⟩
  · intro addr k h hk hzero
    have hverifies := calChksum_putShort h hk hzero
    rw [calChksum_eq h, Option.bind_some] at hverifies
    exact ⟨_, calChksum_eq h, hverifies⟩
  · intro pid seq length icmphdr hmin hmax hroom
    exact icmpPack_verifies pid seq hmin hmax hroom

theorem smallest_packet_verifies :
    ∃ b, icmpPack 1 2 8 (List.replicate 16 0) = some b ∧ b.length = 16 ∧
      calChksum (b.take 8) = some 0 :=
  checksum_verifies.2.2 1 2 8 (List.replicate 16 0) (by decide) (by decide) (by decide)

end Ping
end LinuxLearn
