import LinuxLearn.Lib.Lines
import LinuxLearn.Lib.Text

/-!
# Download — the loop that writes the body of a response to a file

`download` of `http-client.c` opens the file without truncating it, reads chunks of up to 4096 bytes
and writes each of them as a whole.  The loop reads before it looks at the length, and it treats an
error like a chunk of the length -1.  `download_right_iff` says when all this does no harm.

A `write` of a negative count writes nothing, one to the file is complete.  The socket returns the
listed results; behind them the next `read` blocks.
-/

namespace LinuxLearn
namespace HttpClient

open Lib

/-- The size of `buf` in `download`. -/
abbrev BUF_LEN : Nat := 4096

inductive ReadResult
  | chunk (d : Text) (fits : 0 < d.length ∧ d.length ≤ BUF_LEN)
  | error
  | eof

namespace ReadResult

def len : ReadResult → Int
  | chunk d _ => d.length
  | error => -1
  | eof => 0

/-- What `write` makes of it. -/
def data : ReadResult → Text
  | chunk d _ => d
  | error => []
  | eof => []

end ReadResult

/-- `int` does not hold the sum. -/
inductive Overflow
  | overflow
  deriving DecidableEq, Repr

/-! ## The loop -/

structure DownloadState where
  file : Text
  /-- the position in the file -/
  offset : Nat
  length : Int
  /-- how often the body of the loop has run -/
  handled : Nat
  deriving DecidableEq, Repr

def DownloadState.initial (old : Text) : DownloadState :=
  ⟨old, 0, 0, 0⟩

/-- The body of the loop. -/
def writeChunk (s : DownloadState) (r : ReadResult) : Except Overflow DownloadState :=
  if -2 ^ 31 ≤ s.length + r.len ∧ s.length + r.len < 2 ^ 31 then
    .ok
      { file := overwrite s.file s.offset r.data
        offset := s.offset + r.data.length
        length := s.length + r.len
        handled := s.handled + 1 }
  else .error .overflow

/-- The state in the end, and if the loop has ended: else it waits in `read`. -/
def downloadLoop (contentLength : Int) :
    DownloadState → List ReadResult → Except Overflow (DownloadState × Bool)
  | s, [] => .ok (s, false)
  | s, r :: results =>
      if r.len ≠ 0 ∧ s.length < contentLength then
        match writeChunk s r with
        | .error e => .error e
        | .ok s => downloadLoop contentLength s results
      else .ok (s, true)

structure Outcome where
  file : Text
  handled : Nat
  /-- if the success is reported, once the loop has ended -/
  success : Option Bool
  deriving DecidableEq, Repr

def download (contentLength : Int) (old : Text) (results : List ReadResult) :
    Except Overflow Outcome :=
  (downloadLoop contentLength (.initial old) results).map fun p =>
    { file := p.1.file
      handled := p.1.handled
      success := if p.2 then some (decide (p.1.length = contentLength)) else none }

/-! ## What has been received -/

/-- The chunks up to the content length, the end of the file or an error, behind those received
before, and the results that are left. -/
def receiveFrom (contentLength : Int) : Text → List ReadResult → Text × List ReadResult
  | got, .chunk d fits :: results =>
      if got.length < contentLength then receiveFrom contentLength (got ++ d) results
      else (got, .chunk d fits :: results)
  | got, results => (got, results)

section Received

variable (contentLength : Int) (results : List ReadResult)

def received : Text :=
  (receiveFrom contentLength [] results).1

/-- The results that are left when a download has to end. -/
def left : List ReadResult :=
  (receiveFrom contentLength [] results).2

/-- The content length, the end of the file or an error has been reached. -/
def Finished : Prop :=
  contentLength ≤ (received contentLength results).length ∨ left contentLength results ≠ []

/-- The body of the loop has run for the chunks received and for nothing else; the loop has ended if
the download is finished, and then the file and the report are right. -/
def DownloadRight (old : Text) : Prop :=
  ∃ o, download contentLength old results = .ok o ∧
    o.handled + (left contentLength results).length = results.length ∧
    (o.success.isSome ↔ Finished contentLength results) ∧
    ∀ success, o.success = some success →
      o.file = (received contentLength results).take contentLength.toNat ∧
      (success = true ↔ contentLength ≤ (received contentLength results).length)

/-- No chunk goes beyond the content length, no error comes before it is reached, and something
comes behind it; `int` holds the number of bytes, and the old file is not longer than that. -/
structure Undisturbed (old : Text) : Prop where
  nonneg : 0 ≤ contentLength
  notBeyond : (received contentLength results).length ≤ contentLength
  noError : (received contentLength results).length < contentLength →
    (left contentLength results).head? ≠ some .error
  another : (received contentLength results).length = contentLength →
    left contentLength results ≠ []
  countable : (received contentLength results).length < 2 ^ 31
  notShorter : left contentLength results ≠ [] →
    old.length ≤ (received contentLength results).length

end Received

/-! ## Receiving chunks -/

/-- The state after the bytes `got` in `n` chunks. -/
def afterBytes (old got : Text) (n : Nat) : DownloadState :=
  ⟨overwrite old 0 got, got.length, got.length, n⟩

theorem overwrite_zero (old got : Text) : overwrite old 0 got = got ++ old.drop got.length := by
  simp [overwrite]

theorem overwrite_behind (old got d : Text) :
    overwrite (overwrite old 0 got) got.length d = overwrite old 0 (got ++ d) := by
  rw [overwrite_zero, overwrite_zero, overwrite_append, List.drop_drop, List.length_append]

theorem writeChunk_afterBytes (old got d : Text) (n : Nat)
    (fits : 0 < d.length ∧ d.length ≤ BUF_LEN) :
    writeChunk (afterBytes old got n) (.chunk d fits) =
      if (got ++ d).length < 2 ^ 31 then .ok (afterBytes old (got ++ d) (n + 1))
      else .error .overflow := by
  have hlength : (afterBytes old got n).length + (ReadResult.chunk d fits).len =
      ((got ++ d).length : Int) := by
    simp [afterBytes, ReadResult.len]
  have hlow : -2 ^ 31 ≤ ((got ++ d).length : Int) := by omega
  rw [writeChunk, hlength]
  by_cases hsmall : (got ++ d).length < 2 ^ 31
  · rw [if_pos hsmall, if_pos ⟨hlow, by exact_mod_cast hsmall⟩]
    simp [afterBytes, ReadResult.data, overwrite_behind]
  · rw [if_neg hsmall, if_neg fun h => hsmall (by exact_mod_cast h.2)]

section Loop

variable {contentLength : Int}

/-- What is left begins with no chunk unless enough has been received. -/
theorem receiveFrom_stops (got : Text) (results : List ReadResult) :
    contentLength ≤ (receiveFrom contentLength got results).1.length ∨
      ∀ d fits, (receiveFrom contentLength got results).2.head? ≠ some (.chunk d fits) := by
  induction results generalizing got with
  | nil => exact Or.inr fun _ _ => by simp [receiveFrom]
  | cons r results ih =>
      cases r with
      | chunk d fits =>
          rw [receiveFrom]
          by_cases hless : (got.length : Int) < contentLength
          · rw [if_pos hless]
            exact ih (got ++ d)
          · rw [if_neg hless]
            exact Or.inl (Int.not_lt.1 hless)
      | error => exact Or.inr fun _ _ => by simp [receiveFrom]
      | eof => exact Or.inr fun _ _ => by simp [receiveFrom]

theorem length_le_receiveFrom (got : Text) (results : List ReadResult) :
    got.length ≤ (receiveFrom contentLength got results).1.length := by
  induction results generalizing got with
  | nil => exact le_rfl
  | cons r results ih =>
      cases r with
      | chunk d fits =>
          rw [receiveFrom]
          split
          · exact le_trans (by simp) (ih (got ++ d))
          · exact le_rfl
      | error => exact le_rfl
      | eof => exact le_rfl

/-- Either all chunks are written one behind the other, or `int` does not hold their length. -/
theorem downloadLoop_receiveFrom (contentLength : Int) (old got : Text) (n : Nat)
    (results : List ReadResult) (hgot : got.length < 2 ^ 31) :
    let t := receiveFrom contentLength got results
    (t.1.length < 2 ^ 31 ∧ ∃ k, n + results.length = k + t.2.length ∧
        downloadLoop contentLength (afterBytes old got n) results =
          downloadLoop contentLength (afterBytes old t.1 k) t.2) ∨
      (2 ^ 31 ≤ t.1.length ∧
        downloadLoop contentLength (afterBytes old got n) results = .error .overflow) := by
  induction results generalizing got n with
  | nil => exact Or.inl ⟨hgot, n, rfl, rfl⟩
  | cons r results ih =>
      cases r with
      | chunk d fits =>
          rw [receiveFrom]
          by_cases hless : (got.length : Int) < contentLength
          · rw [if_pos hless]
            have hruns : (ReadResult.chunk d fits).len ≠ 0 ∧
                (afterBytes old got n).length < contentLength := by
              refine ⟨?_, hless⟩
              rw [ReadResult.len]
              exact_mod_cast fits.1.ne'
            rw [downloadLoop, if_pos hruns, writeChunk_afterBytes]
            by_cases hsmall : (got ++ d).length < 2 ^ 31
            · rw [if_pos hsmall]
              rcases ih (got ++ d) (n + 1) hsmall with ⟨hlength, k, hk, hloop⟩ | hover
              · exact Or.inl ⟨hlength, k, by rw [List.length_cons]; omega, hloop⟩
              · exact Or.inr hover
            · rw [if_neg hsmall]
              exact Or.inr ⟨(Nat.not_lt.1 hsmall).trans (length_le_receiveFrom _ _), rfl⟩
          · rw [if_neg hless]
            exact Or.inl ⟨hgot, n, rfl, rfl⟩
      | error => exact Or.inl ⟨hgot, n, rfl, rfl⟩
      | eof => exact Or.inl ⟨hgot, n, rfl, rfl⟩

theorem handled_writeChunk {s t : DownloadState} {r : ReadResult} (h : writeChunk s r = .ok t) :
    t.handled = s.handled + 1 := by
  rw [writeChunk] at h
  split at h
  · cases h
    rfl
  · cases h

theorem handled_le {s t : DownloadState} {ended : Bool} {results : List ReadResult}
    (h : downloadLoop contentLength s results = .ok (t, ended)) : s.handled ≤ t.handled := by
  induction results generalizing s with
  | nil =>
      cases h
      exact le_rfl
  | cons r results ih =>
      rw [downloadLoop] at h
      split at h
      · split at h
        · cases h
        · rename_i s' hwrite
          have hnext := ih h
          rw [handled_writeChunk hwrite] at hnext
          exact (Nat.le_succ _).trans hnext
      · cases h
        exact le_rfl

end Loop

/-! ## The end of the loop -/

section End

variable {contentLength : Int} {old got : Text} {n : Nat} {results : List ReadResult}

/-- With enough received, the next result ends the loop. -/
theorem downloadLoop_enough (h : contentLength ≤ got.length) :
    downloadLoop contentLength (afterBytes old got n) results =
      .ok (afterBytes old got n, !results.isEmpty) := by
  cases results with
  | nil => rfl
  | cons r results =>
      have hends : ¬ (r.len ≠ 0 ∧ (afterBytes old got n).length < contentLength) :=
        fun hruns => absurd hruns.2 (Int.not_lt.2 h)
      rw [downloadLoop, if_neg hends]
      rfl

theorem downloadLoop_eof :
    downloadLoop contentLength (afterBytes old got n) (.eof :: results) =
      .ok (afterBytes old got n, true) := by
  rw [downloadLoop, if_neg fun hruns => hruns.1 rfl]

/-- The body runs for an error as well. -/
theorem handled_lt_of_error {t : DownloadState} {ended : Bool}
    (h : (got.length : Int) < contentLength)
    (hloop : downloadLoop contentLength (afterBytes old got n) (.error :: results) =
      .ok (t, ended)) : n < t.handled := by
  have hruns : ReadResult.error.len ≠ 0 ∧ (afterBytes old got n).length < contentLength :=
    ⟨by decide, h⟩
  rw [downloadLoop, if_pos hruns] at hloop
  cases hwrite : writeChunk (afterBytes old got n) .error with
  | error e => simp [hwrite] at hloop
  | ok s =>
      simp only [hwrite] at hloop
      have hle := handled_le hloop
      rw [handled_writeChunk hwrite] at hle
      exact hle

/-- The file holds what has been received, and nothing else, unless the old one was longer. -/
theorem overwrite_eq_self_iff : overwrite old 0 got = got ↔ old.length ≤ got.length := by
  rw [overwrite_zero, List.append_right_eq_self, List.drop_eq_nil_iff]

end End

/-! ## The whole download -/

theorem initial_eq (old : Text) : DownloadState.initial old = afterBytes old [] 0 := by
  simp [DownloadState.initial, afterBytes, overwrite_zero]

section Whole

variable {contentLength : Int} {old : Text} {results : List ReadResult}

theorem downloadRight_of_loop {t : DownloadState} {ended : Bool}
    (hloop : downloadLoop contentLength (.initial old) results = .ok (t, ended)) :
    DownloadRight contentLength results old ↔
      t.handled + (left contentLength results).length = results.length ∧
      (ended = true ↔ Finished contentLength results) ∧
      (ended = true → t.file = (received contentLength results).take contentLength.toNat ∧
        (t.length = contentLength ↔ contentLength ≤ (received contentLength results).length)) := by
  have hdownload : download contentLength old results = .ok
      { file := t.file
        handled := t.handled
        success := if ended then some (decide (t.length = contentLength)) else none } := by
    rw [download, hloop]
    rfl
  constructor
  · rintro ⟨o, ho, hhandled, hended, hsuccess⟩
    cases Except.ok.inj (hdownload.symm.trans ho)
    cases ended with
    | false => exact ⟨hhandled, hended, fun h => absurd h (by decide)⟩
    | true =>
        rcases hsuccess _ rfl with ⟨hfile, hreport⟩
        rw [decide_eq_true_iff] at hreport
        exact ⟨hhandled, hended, fun _ => ⟨hfile, hreport⟩⟩
  · rintro ⟨hhandled, hended, hright⟩
    cases ended with
    | false => exact ⟨_, hdownload, hhandled, hended, fun _ h => absurd h (by simp)⟩
    | true =>
        refine ⟨_, hdownload, hhandled, hended, ?_⟩
        rintro success hsuccess
        cases Option.some.inj hsuccess
        rw [decide_eq_true_iff]
        exact hright rfl

/-- A sum that `int` does not hold spoils everything. -/
theorem not_downloadRight_of_overflow
    (hloop : downloadLoop contentLength (.initial old) results = .error .overflow) :
    ¬ DownloadRight contentLength results old := by
  rintro ⟨o, ho, _⟩
  rw [download, hloop] at ho
  cases ho

/-- Enough has been received. -/
theorem downloadRight_enough {k : Nat}
    (hk : results.length = k + (left contentLength results).length)
    (h : contentLength ≤ (received contentLength results).length)
    (hcountable : (received contentLength results).length < 2 ^ 31)
    (hloop : downloadLoop contentLength (.initial old) results = downloadLoop contentLength
      (afterBytes old (received contentLength results) k) (left contentLength results)) :
    DownloadRight contentLength results old ↔ Undisturbed contentLength results old := by
  rw [downloadLoop_enough h] at hloop
  rw [downloadRight_of_loop hloop]
  have hfinished : Finished contentLength results := Or.inl h
  have hended : (!(left contentLength results).isEmpty) = true ↔
      left contentLength results ≠ [] := by simp
  constructor
  · rintro ⟨_, hiff, hright⟩
    rcases hright (hiff.2 hfinished) with ⟨hfile, hreport⟩
    have hexact : ((received contentLength results).length : Int) = contentLength := hreport.2 h
    have htake : contentLength.toNat = (received contentLength results).length := by omega
    rw [htake, List.take_length] at hfile
    exact
      { nonneg := by omega
        notBeyond := hexact.le
        noError := fun hless => absurd hless (Int.not_lt.2 h)
        another := fun _ => hended.1 (hiff.2 hfinished)
        countable := hcountable
        notShorter := fun _ => overwrite_eq_self_iff.1 hfile }
  · intro hundisturbed
    have hexact : ((received contentLength results).length : Int) = contentLength :=
      le_antisymm hundisturbed.notBeyond h
    have hleft := hundisturbed.another hexact
    have htake : contentLength.toNat = (received contentLength results).length := by omega
    refine ⟨hk.symm, iff_of_true (hended.2 hleft) hfinished, fun _ => ⟨?_, iff_of_true hexact h⟩⟩
    rw [htake, List.take_length]
    exact overwrite_eq_self_iff.2 (hundisturbed.notShorter hleft)

/-- The results have been used up: the loop waits, and it has to. -/
theorem downloadRight_waiting {k : Nat}
    (hk : results.length = k + (left contentLength results).length)
    (h : (received contentLength results).length < contentLength)
    (hcountable : (received contentLength results).length < 2 ^ 31)
    (hloop : downloadLoop contentLength (.initial old) results = downloadLoop contentLength
      (afterBytes old (received contentLength results) k) (left contentLength results))
    (hleft : left contentLength results = []) :
    DownloadRight contentLength results old ↔ Undisturbed contentLength results old := by
  have hopen : ¬ Finished contentLength results := by
    rintro (henough | hmore)
    · exact Int.not_le.2 h henough
    · exact hmore hleft
  rw [hleft] at hloop
  rw [downloadRight_of_loop hloop]
  have hnotEnded : ¬ (false = true) := by decide
  exact iff_of_true
    ⟨hk.symm, iff_of_false hnotEnded hopen, fun hended => absurd hended hnotEnded⟩
    { nonneg := by omega
      notBeyond := h.le
      noError := fun _ => by simp [hleft]
      another := fun hexact => absurd hexact h.ne
      countable := hcountable
      notShorter := fun hmore => absurd hleft hmore }

/-- An error is handled like a chunk. -/
theorem downloadRight_error {k : Nat} {rest : List ReadResult}
    (hk : results.length = k + (left contentLength results).length)
    (h : (received contentLength results).length < contentLength)
    (hloop : downloadLoop contentLength (.initial old) results = downloadLoop contentLength
      (afterBytes old (received contentLength results) k) (left contentLength results))
    (hleft : left contentLength results = .error :: rest) :
    DownloadRight contentLength results old ↔ Undisturbed contentLength results old := by
  refine iff_of_false ?_ fun hundisturbed => ?_
  · cases hrun : downloadLoop contentLength (.initial old) results with
    | error e =>
        cases e
        exact not_downloadRight_of_overflow hrun
    | ok p =>
        rcases p with ⟨t, ended⟩
        rw [downloadRight_of_loop hrun]
        rintro ⟨hhandled, _⟩
        rw [hleft] at hloop
        have hmore := handled_lt_of_error h (hloop.symm.trans hrun)
        omega
  · exact hundisturbed.noError h (by rw [hleft]; rfl)

/-- At the end of the file all that has been received is in the file. -/
theorem downloadRight_eof {k : Nat} {rest : List ReadResult}
    (hk : results.length = k + (left contentLength results).length)
    (h : (received contentLength results).length < contentLength)
    (hcountable : (received contentLength results).length < 2 ^ 31)
    (hloop : downloadLoop contentLength (.initial old) results = downloadLoop contentLength
      (afterBytes old (received contentLength results) k) (left contentLength results))
    (hleft : left contentLength results = .eof :: rest) :
    DownloadRight contentLength results old ↔ Undisturbed contentLength results old := by
  have hmore : left contentLength results ≠ [] := by simp [hleft]
  rw [hleft, downloadLoop_eof] at hloop
  have htake : (received contentLength results).take contentLength.toNat =
      received contentLength results := List.take_of_length_le (by omega)
  rw [downloadRight_of_loop hloop, htake]
  constructor
  · rintro ⟨_, _, hright⟩
    exact
      { nonneg := by omega
        notBeyond := h.le
        noError := fun _ => by simp [hleft]
        another := fun hexact => absurd hexact h.ne
        countable := hcountable
        notShorter := fun _ => overwrite_eq_self_iff.1 (hright rfl).1 }
  · intro hundisturbed
    refine ⟨hk.symm, iff_of_true rfl (Or.inr hmore), fun _ => ⟨?_, ?_⟩⟩
    · exact overwrite_eq_self_iff.2 (hundisturbed.notShorter hmore)
    · exact iff_of_false h.ne (Int.not_le.2 h)

/-- The loop ends where it has to, with the right file and report, exactly if the download is
undisturbed. -/
theorem download_right_iff (contentLength : Int) (old : Text) (results : List ReadResult) :
    DownloadRight contentLength results old ↔ Undisturbed contentLength results old := by
  have hall := downloadLoop_receiveFrom contentLength old [] 0 results (by decide)
  rw [← initial_eq, Nat.zero_add] at hall
  rcases hall with ⟨hcountable, k, hk, hloop⟩ | ⟨hover, hloop⟩
  · by_cases henough : contentLength ≤ (received contentLength results).length
    · exact downloadRight_enough hk henough hcountable hloop
    · have hless := Int.not_le.1 henough
      have hstops := (receiveFrom_stops [] results).resolve_left henough
      cases hleft : left contentLength results with
      | nil => exact downloadRight_waiting hk hless hcountable hloop hleft
      | cons r rest =>
          cases r with
          | chunk d fits =>
              have hhead : (left contentLength results).head? = some (.chunk d fits) := by
                rw [hleft]
                rfl
              exact absurd hhead (hstops d fits)
          | error => exact downloadRight_error hk hless hloop hleft
          | eof => exact downloadRight_eof hk hless hcountable hloop hleft
  · refine iff_of_false (not_downloadRight_of_overflow hloop) fun h => ?_
    exact absurd h.countable (Nat.not_lt.2 hover)

end Whole

/-- One byte replaces the first of two; the second is still there when the success is reported. -/
theorem older_byte_kept :
    ¬ ∀ (contentLength : Int) (old : Text) (results : List ReadResult),
      DownloadRight contentLength results old := by
  intro h
  obtain ⟨o, ho, _, _, hsuccess⟩ := h 1 [97, 98] [.chunk [99] (by decide), .eof]
  have hdownload : download 1 [97, 98] [.chunk [99] (by decide), .eof] =
      .ok ⟨[99, 98], 1, some true⟩ := by
    rfl
  cases Except.ok.inj (hdownload.symm.trans ho)
  have hfile := (hsuccess true rfl).1
  exact absurd hfile (by decide)

end HttpClient
end LinuxLearn
