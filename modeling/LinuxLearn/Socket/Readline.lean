import LinuxLearn.Lib.CArray
import LinuxLearn.Lib.Pieces

/-!
# Readline — the line reader of the socket clients

`readline` is the same function in `select_socket/client.c`, `tcp_socket/client.c` and
`epoll_socket/client.c`.  Its counter `n` begins with 1 and is one ahead of the number of bytes
stored, except behind a newline: a `break` leaves it where it is.  When the array is full, the loop
ends without a `break`, and the number returned is one too large.

`readline_right_iff` says when a call, and when repeated calls are right.
-/

namespace LinuxLearn
namespace Socket

open Lib

abbrev NEWLINE : UInt8 := 10

/-- What a read returns behind the last byte. -/
inductive End
  | eof
  | error
  deriving DecidableEq, Repr

structure Stream where
  data : Text
  tail : End
  deriving DecidableEq, Repr

/-- A write behind the end of the array. -/
inductive Fault
  | outOfBounds
  deriving DecidableEq, Repr

/-! ## One call -/

/-- `*ptr = c`, where `ptr` points to index `i`. -/
def store (a : Text) (i : Nat) (c : UInt8) : Except Fault Text :=
  if i < a.length then .ok (a.set i c) else .error .outOfBounds

structure Returned where
  array : Text
  value : Int
  /-- the bytes that have not been read -/
  rest : Text
  deriving DecidableEq, Repr

/-- `*ptr = 0; return value;` -/
def terminate (a : Text) (ptr : Nat) (value : Int) (rest : Text) : Except Fault Returned :=
  (store a ptr 0).map fun a => ⟨a, value, rest⟩

/-- A read that returns no byte ends the call. -/
def noByte (a : Text) (ptr n : Nat) : End → Except Fault Returned
  | .eof => terminate a ptr (n - 1) []
  | .error => .ok ⟨a, -1, []⟩

/-- The loop; `ptr` is the index of the next byte to be stored. -/
def readLoop (maxlen : Nat) (tail : End) : Nat → Nat → Text → Text → Except Fault Returned
  | n, ptr, a, [] =>
      if n < maxlen then noByte a ptr n tail else terminate a ptr n []
  | n, ptr, a, c :: data =>
      if n < maxlen then
        match store a ptr c with
        | .error e => .error e
        | .ok a =>
            if c = NEWLINE then terminate a (ptr + 1) n data
            else readLoop maxlen tail (n + 1) (ptr + 1) a data
      else terminate a ptr n (c :: data)

def readline (maxlen : Nat) (s : Stream) (a : Text) : Except Fault Returned :=
  readLoop maxlen s.tail 1 0 a s.data

/-! ## What a call has to do -/

/-- An error comes before a newline and before the array is full. -/
def Stream.Fails (maxlen : Nat) (s : Stream) : Prop :=
  s.tail = .error ∧ NEWLINE ∉ s.data ∧ s.data.length < maxlen - 1

instance (maxlen : Nat) (s : Stream) : Decidable (s.Fails maxlen) :=
  inferInstanceAs (Decidable (_ ∧ _))

/-- The array holds the longest line that fits and a zero, the line and nothing else has been read,
and its length is returned. -/
def CallRight (maxlen : Nat) (s : Stream) (a : Text) : Prop :=
  ∃ r line, readline maxlen s a = .ok r ∧ LongestPiece NEWLINE (maxlen - 1) s.data line ∧
    r.array.length = a.length ∧ line ++ [0] <+: r.array ∧ s.data = line ++ r.rest ∧
    r.value = if s.Fails maxlen then (-1 : Int) else line.length

/-- The array is not filled by bytes without a newline; if there is an error, then there is a zero
behind the bytes read already. -/
structure CallFits (maxlen : Nat) (s : Stream) (a : Text) : Prop where
  newline : maxlen - 1 ≤ s.data.length → NEWLINE ∈ s.data.take (maxlen - 1)
  zero : s.Fails maxlen → a[s.data.length]? = some 0

/-! ## The loop -/

section Loop

variable {maxlen n : Nat} {tail : End} {w u y data : Text} {c b : UInt8}

theorem store_behind : store (w ++ b :: y) w.length c = .ok (w ++ c :: y) := by
  have hbound : w.length < (w ++ b :: y).length := by simp
  rw [store, if_pos hbound]
  simp

theorem terminate_behind (value : Int) (rest : Text) :
    terminate (w ++ b :: y) w.length value rest = .ok ⟨w ++ 0 :: y, value, rest⟩ := by
  rw [terminate, store_behind]
  rfl

/-- Bytes that are no newlines are stored one behind the other. -/
theorem readLoop_append (tail : End) (w data : Text) (hu : NEWLINE ∉ u)
    (hn : n + u.length ≤ maxlen) (hy : u.length ≤ y.length) :
    readLoop maxlen tail n w.length (w ++ y) (u ++ data) =
      readLoop maxlen tail (n + u.length) (w ++ u).length (w ++ u ++ y.drop u.length) data := by
  induction u generalizing n w y with
  | nil => simp
  | cons c u ih =>
      rw [List.mem_cons, not_or] at hu
      rw [List.length_cons] at hn hy
      obtain ⟨b, y, rfl⟩ : ∃ b y', y = b :: y' := by
        cases y with
        | nil => simp at hy
        | cons b y => exact ⟨b, y, rfl⟩
      have hstep : readLoop maxlen tail n w.length (w ++ b :: y) (c :: (u ++ data)) =
          readLoop maxlen tail (n + 1) (w ++ [c]).length (w ++ [c] ++ y) (u ++ data) := by
        have hruns : n < maxlen := by omega
        rw [readLoop, if_pos hruns, store_behind]
        simp [Ne.symm hu.1]
      have hrest := ih (w ++ [c]) hu.2 (n := n + 1) (y := y) (by omega) (by simpa using hy)
      rw [List.cons_append, hstep, hrest]
      have hcount : n + 1 + u.length = n + (u.length + 1) := by omega
      rw [hcount]
      simp

theorem length_store {a a' : Text} {i : Nat} (h : store a i c = .ok a') : a'.length = a.length := by
  rw [store] at h
  split at h
  · cases h
    exact List.length_set
  · cases h

theorem length_terminate {a : Text} {ptr : Nat} {value : Int} {rest : Text} {r : Returned}
    (h : terminate a ptr value rest = .ok r) : r.array.length = a.length := by
  rw [terminate] at h
  cases hstore : store a ptr 0 with
  | error e => simp [hstore, Except.map] at h
  | ok a' =>
      rw [hstore] at h
      cases h
      exact length_store hstore

theorem length_readLoop {a : Text} {ptr : Nat} {r : Returned}
    (h : readLoop maxlen tail n ptr a data = .ok r) : r.array.length = a.length := by
  induction data generalizing n ptr a with
  | nil =>
      rw [readLoop] at h
      split at h
      · cases tail with
        | eof => exact length_terminate h
        | error =>
            cases h
            rfl
      · exact length_terminate h
  | cons c data ih =>
      rw [readLoop] at h
      split at h
      · split at h
        · cases h
        · rename_i a' hstore
          rw [← length_store hstore]
          split at h
          · exact length_terminate h
          · exact ih h
      · exact length_terminate h

end Loop

/-! ## The four exits -/

section Exits

variable {maxlen : Nat} {a u : Text}

theorem readline_append (tail : End) (rest : Text) (hu : NEWLINE ∉ u)
    (hlength : u.length + 1 ≤ maxlen) (ha : a.length = maxlen) :
    readline maxlen ⟨u ++ rest, tail⟩ a =
      readLoop maxlen tail (u.length + 1) u.length (u ++ a.drop u.length) rest := by
  have hbegin : 1 + u.length ≤ maxlen := by omega
  have hloop := readLoop_append tail [] rest hu hbegin (y := a) (by omega)
  rw [List.nil_append, List.nil_append, List.length_nil, Nat.add_comm] at hloop
  exact hloop

theorem exists_drop_eq_cons {i : Nat} (h : i < a.length) : ∃ b y, a.drop i = b :: y :=
  ⟨a[i], a.drop (i + 1), List.drop_eq_getElem_cons h⟩

theorem readline_line (tail : End) (rest : Text) (hu : NEWLINE ∉ u)
    (hlength : u.length < maxlen - 1) (ha : a.length = maxlen) :
    ∃ y, readline maxlen ⟨u ++ NEWLINE :: rest, tail⟩ a =
      .ok ⟨u ++ [NEWLINE] ++ 0 :: y, (u ++ [NEWLINE]).length, rest⟩ := by
  obtain ⟨b, z, hz⟩ := exists_drop_eq_cons (a := a) (i := u.length) (by omega)
  obtain ⟨b', y, hy⟩ := exists_drop_eq_cons (a := a) (i := u.length + 1) (by omega)
  have hzy : z = b' :: y := by
    rw [← hy, ← List.drop_drop, hz]
    rfl
  have hruns : u.length + 1 < maxlen := by omega
  -- The newline is stored before the zero, and `n` has not been increased behind it.
  have hterminate : terminate (u ++ NEWLINE :: b' :: y) (u.length + 1) (u.length + 1 : Nat) rest =
      .ok ⟨u ++ [NEWLINE] ++ 0 :: y, (u ++ [NEWLINE]).length, rest⟩ := by
    rw [List.append_cons, ← List.length_singleton (a := NEWLINE), ← List.length_append]
    exact terminate_behind _ rest
  refine ⟨y, ?_⟩
  rw [readline_append tail _ hu (by omega) ha, readLoop, if_pos hruns, hz, store_behind, hzy]
  exact hterminate

/-- Bytes without a newline are followed by a read that returns no byte. -/
theorem readline_noByte (tail : End) (hu : NEWLINE ∉ u) (hlength : u.length < maxlen - 1)
    (ha : a.length = maxlen) :
    readline maxlen ⟨u, tail⟩ a =
      noByte (u ++ a.drop u.length) u.length (u.length + 1) tail := by
  have hruns : u.length + 1 < maxlen := by omega
  have happend := readline_append tail [] hu hruns.le ha
  rw [List.append_nil] at happend
  rw [happend, readLoop, if_pos hruns]

theorem readline_eof (hu : NEWLINE ∉ u) (hlength : u.length < maxlen - 1)
    (ha : a.length = maxlen) :
    ∃ y, readline maxlen ⟨u, .eof⟩ a = .ok ⟨u ++ 0 :: y, u.length, []⟩ := by
  obtain ⟨b, y, hy⟩ := exists_drop_eq_cons (a := a) (i := u.length) (by omega)
  have hcount : ((u.length + 1 : Nat) : Int) - 1 = u.length := by omega
  refine ⟨y, ?_⟩
  rw [readline_noByte .eof hu hlength ha, hy, noByte, terminate_behind, hcount]

/-- There is no zero written. -/
theorem readline_error (hu : NEWLINE ∉ u) (hlength : u.length < maxlen - 1)
    (ha : a.length = maxlen) :
    readline maxlen ⟨u, .error⟩ a = .ok ⟨u ++ a.drop u.length, -1, []⟩ := by
  rw [readline_noByte .error hu hlength ha, noByte]

/-- The number returned counts the zero. -/
theorem readline_full (tail : End) (rest : Text) (hu : NEWLINE ∉ u)
    (hlength : u.length + 1 = maxlen) (ha : a.length = maxlen) :
    ∃ y, readline maxlen ⟨u ++ rest, tail⟩ a = .ok ⟨u ++ 0 :: y, maxlen, rest⟩ := by
  obtain ⟨b, y, hy⟩ := exists_drop_eq_cons (a := a) (i := u.length) (by omega)
  have hends : ¬ u.length + 1 < maxlen := by omega
  refine ⟨y, ?_⟩
  have hterminate : terminate (u ++ b :: y) u.length (u.length + 1 : Nat) rest =
      .ok ⟨u ++ 0 :: y, maxlen, rest⟩ := by
    rw [hlength]
    exact terminate_behind _ rest
  rw [readline_append tail rest hu hlength.le ha, hy]
  cases rest with
  | nil => rw [readLoop, if_neg hends, hterminate]
  | cons c rest => rw [readLoop, if_neg hends, hterminate]

end Exits

/-! ## Single calls -/

section Calls

variable {maxlen : Nat} {s : Stream} {a : Text}

/-- What is stored, left and returned does not depend on the choice of the line. -/
theorem callRight_iff_of_ok {r : Returned} {line : Text} (hr : readline maxlen s a = .ok r)
    (hline : LongestPiece NEWLINE (maxlen - 1) s.data line) :
    CallRight maxlen s a ↔ line ++ [0] <+: r.array ∧ s.data = line ++ r.rest ∧
      r.value = if s.Fails maxlen then (-1 : Int) else line.length := by
  constructor
  · rintro ⟨r', line', hr', hline', -, hright⟩
    cases Except.ok.inj (hr.symm.trans hr')
    rwa [hline'.unique hline] at hright
  · exact fun hright => ⟨r, line, hr, hline, length_readLoop hr, hright⟩

theorem callRight_line {u rest : Text} {tail : End} (hu : NEWLINE ∉ u)
    (hlength : u.length < maxlen - 1) (ha : a.length = maxlen) :
    CallRight maxlen ⟨u ++ NEWLINE :: rest, tail⟩ a := by
  have hfails : ¬ Stream.Fails maxlen ⟨u ++ NEWLINE :: rest, tail⟩ :=
    fun hfails => hfails.2.1 (List.mem_append_right u List.mem_cons_self)
  obtain ⟨y, hr⟩ := readline_line tail rest hu hlength ha
  rw [callRight_iff_of_ok hr (longestPiece_line hu hlength), if_neg hfails]
  refine ⟨⟨y, ?_⟩, ?_, rfl⟩
  · simp
  · simp

theorem callRight_eof {u : Text} (hu : NEWLINE ∉ u) (hlength : u.length < maxlen - 1)
    (ha : a.length = maxlen) : CallRight maxlen ⟨u, .eof⟩ a := by
  have hfails : ¬ Stream.Fails maxlen ⟨u, .eof⟩ := fun hfails => nomatch hfails.1
  obtain ⟨y, hr⟩ := readline_eof hu hlength ha
  rw [callRight_iff_of_ok hr (longestPiece_end hu hlength.le), if_neg hfails]
  refine ⟨⟨y, ?_⟩, ?_, rfl⟩
  · simp
  · simp

/-- The zero behind the bytes has to be there before. -/
theorem callRight_error {u : Text} (hu : NEWLINE ∉ u) (hlength : u.length < maxlen - 1)
    (ha : a.length = maxlen) :
    CallRight maxlen ⟨u, .error⟩ a ↔ a[u.length]? = some 0 := by
  have hfails : Stream.Fails maxlen ⟨u, .error⟩ := ⟨rfl, hu, hlength⟩
  have hr := readline_error hu hlength ha
  have hzero : u ++ [0] <+: u ++ a.drop u.length ↔ a[u.length]? = some 0 := by
    rw [List.prefix_append_right_inj, ← List.head?_drop]
    cases a.drop u.length with
    | nil => simp
    | cons b y => simp [eq_comm]
  rw [callRight_iff_of_ok hr (longestPiece_end hu hlength.le), if_pos hfails]
  constructor
  · exact fun h => hzero.1 h.1
  · exact fun h => ⟨hzero.2 h, (List.append_nil u).symm, rfl⟩

theorem not_callRight_full {u rest : Text} {tail : End} (hu : NEWLINE ∉ u)
    (hlength : u.length + 1 = maxlen) (ha : a.length = maxlen) :
    ¬ CallRight maxlen ⟨u ++ rest, tail⟩ a := by
  have hroom : u.length = maxlen - 1 := Nat.eq_sub_of_add_eq hlength
  have hfails : ¬ Stream.Fails maxlen ⟨u ++ rest, tail⟩ := by
    rintro ⟨-, -, hless⟩
    simp only [List.length_append] at hless
    omega
  obtain ⟨y, hr⟩ := readline_full tail rest hu hlength ha
  rw [callRight_iff_of_ok hr (longestPiece_full hu hroom), if_neg hfails]
  rintro ⟨-, -, hvalue⟩
  simp only [hroom] at hvalue
  omega

theorem callRight_iff_callFits (hmaxlen : 2 ≤ maxlen) (ha : a.length = maxlen) :
    CallRight maxlen s a ↔ CallFits maxlen s a := by
  rcases s with ⟨data, tail⟩
  rcases cut_cases NEWLINE (maxlen - 1) data with
    ⟨u, rest, rfl, hu, hlength⟩ | ⟨hdata, hlength⟩ | ⟨u, rest, rfl, hu, hlength⟩
  · refine iff_of_true (callRight_line hu hlength ha) ⟨fun _ => sep_mem_take_of_line hlength, ?_⟩
    exact fun hfails => absurd (List.mem_append_right u List.mem_cons_self) hfails.2.1
  · have hfits : maxlen - 1 ≤ data.length → NEWLINE ∈ data.take (maxlen - 1) :=
      fun hle => absurd hlength (Nat.not_lt.2 hle)
    cases tail with
    | eof =>
        exact iff_of_true (callRight_eof hdata hlength ha) ⟨hfits, fun hfails => nomatch hfails.1⟩
    | error =>
        rw [callRight_error hdata hlength ha]
        exact ⟨fun hzero => ⟨hfits, fun _ => hzero⟩, fun h => h.zero ⟨rfl, hdata, hlength⟩⟩
  · have hfull : u.length + 1 = maxlen := by omega
    refine iff_of_false (not_callRight_full hu hfull ha) fun h => ?_
    have hmem := h.newline (by simp [hlength])
    simp only [← hlength, List.take_left] at hmem
    exact hu hmem

end Calls

/-! ## Repeated calls -/

/-- One call for each of the arrays; behind the bytes is the end of the file. -/
def readlines (maxlen : Nat) : Text → List Text → Except Fault (List Returned × Text)
  | data, [] => .ok ([], data)
  | data, a :: arrays =>
      match readline maxlen ⟨data, .eof⟩ a with
      | .error e => .error e
      | .ok r => (readlines maxlen r.rest arrays).map fun p => (r :: p.1, p.2)

/-- As much of the array as the number returned says. -/
def Returned.piece (r : Returned) : Text :=
  r.array.take r.value.toNat

/-- The pieces have the lengths returned and make up what has been read, in the end all bytes. -/
def CallsRight (maxlen : Nat) (data : Text) (arrays : List Text) : Prop :=
  ∃ rs rest, readlines maxlen data arrays = .ok (rs, rest) ∧
    (∀ r ∈ rs, (r.piece.length : Int) = r.value) ∧
    data = (rs.map Returned.piece).flatten ++ rest ∧
    (data.length ≤ arrays.length → rest = [])

theorem piece_append (w y rest : Text) : Returned.piece ⟨w ++ y, w.length, rest⟩ = w := by
  rw [Returned.piece, Int.toNat_natCast]
  exact List.take_left

section Pieces

variable {maxlen : Nat} {data a : Text} {arrays : List Text}

theorem readlines_cons {r : Returned} (hr : readline maxlen ⟨data, .eof⟩ a = .ok r)
    (arrays : List Text) : readlines maxlen data (a :: arrays) =
      (readlines maxlen r.rest arrays).map fun p => (r :: p.1, p.2) := by
  rw [readlines, hr]

/-- A right call before right calls. -/
theorem callsRight_cons {r : Returned} {line : Text}
    (hr : readline maxlen ⟨data, .eof⟩ a = .ok r) (hpiece : r.piece = line)
    (hvalue : r.value = line.length) (hdata : data = line ++ r.rest)
    (hline : data = [] ∨ line ≠ []) (h : CallsRight maxlen r.rest arrays) :
    CallsRight maxlen data (a :: arrays) := by
  rcases h with ⟨rs, rest, hrs, hvalues, hrest, hall⟩
  refine ⟨r :: rs, rest, by rw [readlines_cons hr, hrs]; rfl, ?_, ?_, ?_⟩
  · rw [List.forall_mem_cons]
    exact ⟨by rw [hpiece, hvalue], hvalues⟩
  · rw [List.map_cons, List.flatten_cons, hpiece, List.append_assoc, ← hrest]
    exact hdata
  · intro hlength
    refine hall ?_
    have hsum : data.length = line.length + r.rest.length := by rw [hdata, List.length_append]
    rw [List.length_cons] at hlength
    rcases hline with hnil | hline
    · rw [hnil, List.length_nil] at hsum
      omega
    · have hpos := List.length_pos_of_ne_nil hline
      omega

theorem callsRight_of_spaced (hmaxlen : 2 ≤ maxlen) (harrays : ∀ a ∈ arrays, a.length = maxlen)
    (hspaced : Spaced NEWLINE (maxlen - 1) data) : CallsRight maxlen data arrays := by
  induction arrays generalizing data with
  | nil =>
      refine ⟨[], data, rfl, fun _ h => absurd h List.not_mem_nil, rfl, fun hlength => ?_⟩
      exact List.eq_nil_of_length_eq_zero (Nat.le_zero.1 hlength)
  | cons a arrays ih =>
      rw [List.forall_mem_cons] at harrays
      rcases cut_cases NEWLINE (maxlen - 1) data with
        ⟨u, rest, rfl, hu, hlength⟩ | ⟨hdata, hlength⟩ | ⟨u, rest, rfl, hu, hlength⟩
      · obtain ⟨y, hr⟩ := readline_line .eof rest hu hlength harrays.1
        refine callsRight_cons hr (piece_append _ _ _) rfl (by simp) (Or.inr (by simp)) ?_
        exact ih harrays.2 ((spaced_iff_of_line hlength).1 hspaced)
      · obtain ⟨y, hr⟩ := readline_eof hdata hlength harrays.1
        have hempty : CallsRight maxlen [] arrays :=
          ih harrays.2 (spaced_of_length_lt (Nat.sub_pos_of_lt hmaxlen))
        exact callsRight_cons hr (piece_append _ _ _) rfl (List.append_nil data).symm
          (em (data = [])) hempty
      · exact absurd hspaced (not_spaced_of_full hu hlength)

/-- A call that fills the array returns one byte too many. -/
theorem spaced_of_concat (hmaxlen : 2 ≤ maxlen)
    (h : ∀ arrays : List Text, (∀ a ∈ arrays, a.length = maxlen) →
      ∃ rs rest, readlines maxlen data arrays = .ok (rs, rest) ∧
        data = (rs.map Returned.piece).flatten ++ rest) :
    Spaced NEWLINE (maxlen - 1) data := by
  have hcleared : (cleared maxlen).length = maxlen := length_cleared maxlen
  -- Each call leaves fewer bytes, and calls that come after it are calls on the rest.
  induction hn : data.length using Nat.strong_induction_on generalizing data with
  | _ n ih =>
    subst hn
    rcases cut_cases NEWLINE (maxlen - 1) data with
      ⟨u, rest, rfl, hu, hlength⟩ | ⟨_, hlength⟩ | ⟨u, rest, rfl, hu, hlength⟩
    · rw [spaced_iff_of_line hlength]
      refine ih rest.length (by simp; omega) (fun arrays harrays => ?_) rfl
      obtain ⟨y, hr⟩ := readline_line .eof rest hu hlength hcleared
      obtain ⟨rs, left, hrs, hdata⟩ := h (cleared maxlen :: arrays)
        (List.forall_mem_cons.2 ⟨hcleared, harrays⟩)
      rw [readlines_cons hr] at hrs
      cases hrun : readlines maxlen rest arrays with
      | error e => simp [hrun, Except.map] at hrs
      | ok p =>
          rw [hrun] at hrs
          cases hrs
          refine ⟨p.1, p.2, rfl, ?_⟩
          rw [List.map_cons, List.flatten_cons, piece_append] at hdata
          simpa using hdata
    · exact spaced_of_length_lt hlength
    · have hfull : u.length + 1 = maxlen := by
        rw [hlength]
        exact Nat.sub_add_cancel (Nat.le_of_succ_le hmaxlen)
      obtain ⟨y, hr⟩ := readline_full .eof rest hu hfull hcleared
      obtain ⟨rs, left, hrs, hdata⟩ := h [cleared maxlen] (by simpa using hcleared)
      rw [readlines_cons hr] at hrs
      cases hrs
      have harray := length_readLoop hr
      have hcount := congrArg List.length hdata
      simp [Returned.piece, hcleared] at hcount harray
      omega

end Pieces

/-- A call is right unless the array fills up without a newline, or there is no zero behind the
bytes before an error; repeated calls return the bytes if newlines are close to each other. -/
theorem readline_right_iff {maxlen : Nat} (hmaxlen : 2 ≤ maxlen) :
    (∀ (s : Stream) (a : Text), a.length = maxlen →
      (CallRight maxlen s a ↔ CallFits maxlen s a)) ∧
    ∀ data : Text,
      (∀ arrays : List Text, (∀ a ∈ arrays, a.length = maxlen) → CallsRight maxlen data arrays) ↔
        Spaced NEWLINE (maxlen - 1) data := by
  refine ⟨fun s a ha => callRight_iff_callFits hmaxlen ha, fun data => ⟨fun h => ?_, ?_⟩⟩
  · refine spaced_of_concat hmaxlen fun arrays harrays => ?_
    obtain ⟨rs, rest, hrs, -, hdata, -⟩ := h arrays harrays
    exact ⟨rs, rest, hrs, hdata⟩
  · exact fun hspaced arrays harrays => callsRight_of_spaced hmaxlen harrays hspaced

theorem short_lines_read :
    CallRight 2048 ⟨ascii "one\ntwo\n", .error⟩ (cleared 2048) ∧
      CallsRight 2048 (ascii "one\ntwo\n") [cleared 2048, cleared 2048] := by
  have hlength : (ascii "one\ntwo\n").length < 2048 - 1 := by decide
  have hright := readline_right_iff (show 2 ≤ 2048 by decide)
  constructor
  · refine (hright.1 _ _ (length_cleared 2048)).2 ⟨fun h => absurd hlength (Nat.not_lt.2 h), ?_⟩
    exact fun hfails => absurd hfails.2.1 (by decide)
  · refine (hright.2 _).2 (spaced_of_length_lt hlength) _ ?_
    intro a ha
    rw [List.mem_pair] at ha
    rcases ha with rfl | rfl
    · exact length_cleared 2048
    · exact length_cleared 2048

/-- There is room for one byte of two; the number returned is 2. -/
theorem full_array_counts_zero :
    ¬ ∀ (maxlen : Nat) (s : Stream) (a : Text), 2 ≤ maxlen → a.length = maxlen →
      CallRight maxlen s a := by
  intro h
  obtain ⟨r, line, hr, hline, -, -, -, hvalue⟩ := h 2 ⟨[97, 98], .eof⟩ [0, 0] le_rfl rfl
  have hreturned : readline 2 ⟨[97, 98], .eof⟩ [0, 0] = .ok ⟨[97, 0], 2, [98]⟩ := rfl
  cases Except.ok.inj (hreturned.symm.trans hr)
  have hfails : ¬ Stream.Fails 2 ⟨[97, 98], .eof⟩ := by decide
  have hlength : line.length ≤ 1 := hline.length_le
  rw [if_neg hfails] at hvalue
  have htwo : (2 : Int) = line.length := hvalue
  omega

end Socket
end LinuxLearn
