import LinuxLearn.HttpClient.ParseUrl

/-!
# Header — the loop that reads the header of a response

`main` of `http-client.c` reads one byte at a time, appends it to `response` and looks back from its
end for two line ends in a row.  The array is doubled when the bytes read do not fit, but the
terminating zero is not counted, so a header that fills the array is written one byte too far.

The first array holds the empty string.  What `realloc` adds to an array is arbitrary.
-/

namespace LinuxLearn
namespace HttpClient

open Lib

/-! ## The loop -/

structure HeaderState where
  /-- the allocated array; `mem_size` is its size -/
  response : Text
  length : Nat

/-- `if (length + len > mem_size) ...` with `len` 1 -/
def enlarged (fresh : Nat → UInt8) (s : HeaderState) : Text :=
  if s.length + 1 > s.response.length then
    s.response ++ (List.range s.response.length).map fresh
  else s.response

def isBreak (c : UInt8) : Bool :=
  c == 10 || c == 13

/-- The loop that counts the line breaks at the end, from `response[i - 1]` on. -/
def countBack (response : Text) : Nat → Nat → Except Fault Nat
  -- `response[-1]` is read.
  | 0, _ => .error .outOfBounds
  | i + 1, flag =>
      match response[i]? with
      | none => .error .outOfBounds
      | some c => if isBreak c then countBack response i (flag + 1) else .ok flag

/-- One byte is read into `buf`: the new response and the number of line breaks at its end. -/
def appendByte (fresh : Nat → UInt8) (s : HeaderState) (c : UInt8) : Except Fault (Text × Nat) :=
  match strcat (enlarged fresh s) (stringIn [c, 0]) with
  | none => .error .outOfBounds
  | some response => (countBack response (strlen response) 0).map fun flag => (response, flag)

/-- The response, and what has not been read from the socket. -/
def readHeader (fresh : Nat → UInt8) : HeaderState → Text → Except Fault (Text × Text)
  | s, [] => .ok (s.response, [])
  | s, c :: socket =>
      match appendByte fresh s c with
      | .error e => .error e
      | .ok (response, flag) =>
          if flag = 4 then .ok (response, socket)
          else readHeader fresh ⟨response, s.length + 1⟩ socket

/-! ## Responses -/

/-- A non-empty line without line breaks in it. -/
def HeaderLine (l : Text) : Prop :=
  l ≠ [] ∧ ∀ c ∈ l, isBreak c = false

structure Response where
  statusLine : Text
  headers : List Text
  body : Text
  statusLine_ok : HeaderLine statusLine
  headers_ok : ∀ l ∈ headers, HeaderLine l

def crlf : Text :=
  [13, 10]

/-- The lines up to the empty one. -/
def Response.header (r : Response) : Text :=
  ((r.statusLine :: r.headers).flatMap fun l => l ++ crlf) ++ crlf

/-- The number of line breaks at the end of a text. -/
def breaks (w : Text) : Nat :=
  w.foldl (fun n c => if isBreak c then n + 1 else 0) 0

theorem breaks_concat (w : Text) (c : UInt8) :
    breaks (w ++ [c]) = if isBreak c then breaks w + 1 else 0 := by
  simp [breaks]

/-- The text up to the fourth line break in a row, when `n` of them stand before it. -/
def untilBlank : Nat → Text → Text
  | _, [] => []
  | n, c :: w =>
      let n := if isBreak c then n + 1 else 0
      c :: if n = 4 then [] else untilBlank n w

theorem untilBlank_line (n : Nat) {l : Text} (hl : HeaderLine l) (w : Text) :
    untilBlank n (l ++ w) = l ++ untilBlank 0 w := by
  rcases hl with ⟨hne, hplain⟩
  induction l generalizing n with
  | nil => exact absurd rfl hne
  | cons c l ih =>
      have hc : ¬ isBreak c = true := by simp [hplain c List.mem_cons_self]
      rw [List.cons_append, untilBlank, if_neg hc, if_neg (by decide), List.cons_append]
      cases l with
      | nil => rfl
      | cons d l =>
          rw [ih 0 (List.cons_ne_nil d l) fun c hc => hplain c (List.mem_cons_of_mem _ hc)]

/-- Two line breaks behind each line, so the count is two in front of the next one. -/
theorem untilBlank_lines (n : Nat) {ls : List Text} (hne : ls ≠ []) (hls : ∀ l ∈ ls, HeaderLine l)
    (w : Text) :
    untilBlank n ((ls.flatMap fun l => l ++ crlf) ++ w) =
      (ls.flatMap fun l => l ++ crlf) ++ untilBlank 2 w := by
  induction ls generalizing n with
  | nil => exact absurd rfl hne
  | cons l ls ih =>
      have hl := hls l List.mem_cons_self
      rw [List.flatMap_cons, List.append_assoc, List.append_assoc, untilBlank_line n hl]
      have hbreaks : ∀ w, untilBlank 0 (crlf ++ w) = crlf ++ untilBlank 2 w := fun _ => rfl
      rw [hbreaks, List.append_assoc]
      cases ls with
      | nil => simp
      | cons m ms =>
          rw [ih 2 (List.cons_ne_nil m ms) fun l hl => hls l (List.mem_cons_of_mem _ hl),
            List.append_assoc]

theorem untilBlank_response (r : Response) : untilBlank 0 (r.header ++ r.body) = r.header := by
  have hls : ∀ l ∈ r.statusLine :: r.headers, HeaderLine l :=
    List.forall_mem_cons.2 ⟨r.statusLine_ok, r.headers_ok⟩
  have hend : untilBlank 2 (crlf ++ r.body) = crlf := rfl
  rw [Response.header, List.append_assoc, untilBlank_lines 0 (List.cons_ne_nil _ _) hls, hend]

/-! ## One byte -/

section Byte

variable {fresh : Nat → UInt8} {s : HeaderState} {w : Text} {c : UInt8}

theorem holds_enlarged (h : Holds s.response w) : Holds (enlarged fresh s) w := by
  rw [enlarged]
  split
  · rcases h with ⟨behind, hresponse, hw⟩
    exact ⟨behind ++ (List.range s.response.length).map fresh, by
      rw [hresponse, List.append_assoc, List.cons_append], hw⟩
  · exact h

/-- While no byte has been dropped, the zero in the array shows that the next one fits. -/
theorem enlarged_eq (h : Holds s.response w) (hlength : s.length = w.length) :
    enlarged fresh s = s.response := by
  have hroom := h.length_lt
  rw [enlarged, if_neg (by omega)]

/-- `buf` as a string: a zero byte adds nothing. -/
theorem stringIn_buf (c : UInt8) : stringIn [c, 0] = [c].filter (· ≠ 0) := by
  by_cases hc : c = 0
  · rw [hc]
    rfl
  · have hholds : Holds [c, 0] [c] := ⟨[], rfl, by simpa using Ne.symm hc⟩
    rw [hholds.stringIn_eq]
    simp [hc]

/-- The loop backwards stops at the latest at the first character of the response. -/
theorem countBack_eq {u : Text} (behind : Text)
    (hhead : ∃ d tail, u = d :: tail ∧ isBreak d = false) (flag : Nat) :
    countBack (u ++ behind) u.length flag = .ok (flag + breaks u) := by
  induction u using List.reverseRecOn generalizing behind flag with
  | nil =>
      rcases hhead with ⟨d, tail, hnil, _⟩
      cases hnil
  | append_singleton u c ih =>
      have hentry : (u ++ [c] ++ behind)[u.length]? = some c := by simp
      rw [List.length_append, List.length_singleton, countBack, hentry, breaks_concat]
      by_cases hc : isBreak c = true
      · have hhead' : ∃ d tail, u = d :: tail ∧ isBreak d = false := by
          rcases hhead with ⟨d, tail, heq, hd⟩
          cases u with
          | nil =>
              cases heq
              rw [hc] at hd
              cases hd
          | cons e u =>
              cases heq
              exact ⟨_, u, rfl, hd⟩
        have hrest := ih ([c] ++ behind) hhead' (flag + 1)
        rw [← List.append_assoc] at hrest
        simp only [if_pos hc, hrest]
        congr 1
        omega
      · simp only [if_neg hc, Nat.add_zero]

theorem zero_notMem_filter (w : Text) : (0 : UInt8) ∉ w.filter (· ≠ 0) := by
  simp

/-- Whatever is read, the response holds the bytes that are not zero. -/
theorem appendByte_holds {response : Text} {flag : Nat} (h : Holds s.response w)
    (hok : appendByte fresh s c = .ok (response, flag)) :
    Holds response (w ++ [c].filter (· ≠ 0)) ∧ response.length = (enlarged fresh s).length := by
  have hbuf := zero_notMem_filter [c]
  have harray : Holds (enlarged fresh s) w := holds_enlarged h
  rw [appendByte, stringIn_buf] at hok
  by_cases hfits : w.length + ([c].filter (· ≠ 0)).length < (enlarged fresh s).length
  · rcases strcat_eq_some harray hbuf hfits with ⟨b, hb, hlength, hholds⟩
    rw [hb] at hok
    cases hcount : countBack b (strlen b) 0 with
    | error e => simp [hcount, Except.map] at hok
    | ok n =>
        simp only [hcount, Except.map, Except.ok.injEq, Prod.mk.injEq] at hok
        rw [← hok.1]
        exact ⟨hholds, hlength⟩
  · rw [strcat_eq_none harray (Nat.not_lt.1 hfits)] at hok
    cases hok

theorem appendByte_eq (fresh : Nat → UInt8) (h : Holds s.response w)
    (hlength : s.length = w.length) (hc : c ≠ 0) (hfits : w.length + 1 < s.response.length)
    (hhead : ∃ d tail, w ++ [c] = d :: tail ∧ isBreak d = false) :
    ∃ response, appendByte fresh s c = .ok (response, breaks (w ++ [c])) ∧
      response.length = s.response.length ∧ Holds response (w ++ [c]) := by
  have hbuf : stringIn [c, 0] = [c] := by simp [stringIn_buf, hc]
  rcases strcat_eq_some h (w := [c]) (by simpa using Ne.symm hc) hfits with
    ⟨b, hb, hsize, hholds⟩
  refine ⟨b, ?_, hsize, hholds⟩
  have hcount : countBack b (strlen b) 0 = .ok (breaks (w ++ [c])) := by
    rw [hholds.strlen_eq]
    rcases hholds with ⟨behind, rfl, _⟩
    rw [countBack_eq _ hhead, Nat.zero_add]
  rw [appendByte, enlarged_eq h hlength, hbuf, hb]
  simp only [hcount]
  rfl

end Byte

/-! ## The whole loop -/

/-- Without zeros, the response grows by what is read, up to the fourth line break in a row. -/
theorem readHeader_eq (fresh : Nat → UInt8) {s : HeaderState} {w socket : Text}
    (h : Holds s.response w) (hlength : s.length = w.length)
    (hhead : ∃ d tail, w ++ socket = d :: tail ∧ isBreak d = false)
    (hzero : (0 : UInt8) ∉ untilBlank (breaks w) socket)
    (hfits : w.length + (untilBlank (breaks w) socket).length < s.response.length) :
    ∃ response, readHeader fresh s socket =
        .ok (response, socket.drop (untilBlank (breaks w) socket).length) ∧
      Holds response (w ++ untilBlank (breaks w) socket) := by
  induction socket generalizing s w with
  | nil => exact ⟨s.response, rfl, by simpa [untilBlank] using h⟩
  | cons c socket ih =>
      have hcons : untilBlank (breaks w) (c :: socket) =
          c :: if breaks (w ++ [c]) = 4 then [] else untilBlank (breaks (w ++ [c])) socket := by
        rw [untilBlank, breaks_concat]
      rw [hcons] at hzero hfits ⊢
      have hc : c ≠ 0 := fun hc => hzero (hc ▸ List.mem_cons_self)
      have hroom : w.length + 1 < s.response.length := by
        rw [List.length_cons] at hfits
        omega
      have hhead' : ∃ d tail, w ++ [c] = d :: tail ∧ isBreak d = false := by
        rcases hhead with ⟨d, tail, heq, hd⟩
        cases w with
        | nil => exact ⟨d, [], by rw [(List.cons.inj heq).1]; rfl, hd⟩
        | cons e w => exact ⟨d, w ++ [c], by rw [(List.cons.inj heq).1]; rfl, hd⟩
      rcases appendByte_eq fresh h hlength hc hroom hhead' with
        ⟨response, happend, hsize, hholds⟩
      rw [readHeader, happend]
      by_cases hstop : breaks (w ++ [c]) = 4
      · simp only [if_pos hstop]
        exact ⟨response, rfl, hholds⟩
      · simp only [if_neg hstop] at hzero hfits ⊢
        have hnext : s.length + 1 = (w ++ [c]).length := by simp [hlength]
        rcases ih (s := ⟨response, s.length + 1⟩) (w := w ++ [c]) hholds hnext
          (by simpa using hhead) (fun hmem => hzero (List.mem_cons_of_mem _ hmem))
          (by simp only [hsize, List.length_append, List.length_cons, List.length_nil] at hfits ⊢
              omega) with ⟨response', hrun, hholds'⟩
        refine ⟨response', ?_, by simpa using hholds'⟩
        rw [hrun, List.length_cons, List.drop_succ_cons]

/-- What a loop that ends has read; without zeros the array keeps its size. -/
theorem readHeader_ok {fresh : Nat → UInt8} {s : HeaderState} {w socket response rest : Text}
    (h : Holds s.response w) (hok : readHeader fresh s socket = .ok (response, rest)) :
    ∃ consumed, socket = consumed ++ rest ∧ Holds response (w ++ consumed.filter (· ≠ 0)) ∧
      ((0 : UInt8) ∉ consumed → s.length = w.length →
        response.length = s.response.length) := by
  induction socket generalizing s w with
  | nil =>
      cases hok
      exact ⟨[], rfl, by simpa using h, fun _ _ => rfl⟩
  | cons c socket ih =>
      rw [readHeader] at hok
      cases happend : appendByte fresh s c with
      | error e => simp [happend] at hok
      | ok p =>
          rcases p with ⟨response', flag⟩
          rcases appendByte_holds h happend with ⟨hholds, hsize⟩
          simp only [happend] at hok
          by_cases hstop : flag = 4
          · rw [if_pos hstop] at hok
            cases hok
            refine ⟨[c], rfl, hholds, fun _ hlength => ?_⟩
            rw [hsize, enlarged_eq h hlength]
          · rw [if_neg hstop] at hok
            rcases ih hholds hok with ⟨consumed, hsocket, hholds', hkept⟩
            refine ⟨c :: consumed, by rw [hsocket, List.cons_append], ?_, ?_⟩
            · rwa [List.append_assoc, ← List.filter_append] at hholds'
            · intro hzero hlength
              rw [List.mem_cons, not_or] at hzero
              have hnext : s.length + 1 = (w ++ [c].filter (· ≠ 0)).length := by
                simp [hlength, Ne.symm hzero.1]
              rw [hkept hzero.2 hnext, hsize, enlarged_eq h hlength]

/-- The loop stops behind the empty line, and `response` holds what stands up to there. -/
def HeaderRead (fresh : Nat → UInt8) (r : Response) (array : Text) : Prop :=
  ∃ response, readHeader fresh ⟨array, 0⟩ (r.header ++ r.body) = .ok (response, r.body) ∧
    Holds response r.header

section Whole

variable {fresh : Nat → UInt8} {r : Response} {array : Text}

theorem headerRead_of_fits (harray : Holds array []) (hzero : (0 : UInt8) ∉ r.header)
    (hfits : r.header.length < array.length) : HeaderRead fresh r array := by
  have hhead : ∃ d tail, [] ++ (r.header ++ r.body) = d :: tail ∧ isBreak d = false := by
    rcases r.statusLine_ok with ⟨hne, hplain⟩
    cases hline : r.statusLine with
    | nil => exact absurd hline hne
    | cons d line =>
        have hd : isBreak d = false := hplain d (hline ▸ List.mem_cons_self)
        rw [Response.header, hline]
        exact ⟨d, _, rfl, hd⟩
  have huntil : untilBlank (breaks []) (r.header ++ r.body) = r.header := untilBlank_response r
  rcases readHeader_eq fresh (s := ⟨array, 0⟩) harray rfl hhead (by rwa [huntil])
    (by rw [huntil]; simpa using hfits) with ⟨response, hrun, hholds⟩
  rw [huntil, List.drop_left] at hrun
  rw [huntil, List.nil_append] at hholds
  exact ⟨response, hrun, hholds⟩

theorem fits_of_headerRead (harray : Holds array []) (h : HeaderRead fresh r array) :
    (0 : UInt8) ∉ r.header ∧ r.header.length < array.length := by
  rcases h with ⟨response, hrun, hholds⟩
  rcases readHeader_ok (s := ⟨array, 0⟩) harray hrun with ⟨consumed, hsocket, hread, hkept⟩
  -- The loop has consumed the header, and the response holds it without its zeros.
  have hconsumed : consumed = r.header := List.append_cancel_right hsocket.symm
  have hzero : (0 : UInt8) ∉ r.header := by
    rcases hholds with ⟨_, _, hzero⟩
    exact hzero
  refine ⟨hzero, ?_⟩
  rw [← hkept (hconsumed ▸ hzero) rfl]
  exact hholds.length_lt

end Whole

abbrev MEM_SIZE : Nat := 4096

/-- The header is read right exactly if it holds no zero and leaves room for one in the first
array. -/
theorem headerRead_iff (fresh : Nat → UInt8) (r : Response) {array : Text}
    (hsize : array.length = MEM_SIZE) (harray : Holds array []) :
    HeaderRead fresh r array ↔ (0 : UInt8) ∉ r.header ∧ r.header.length < MEM_SIZE := by
  rw [← hsize]
  exact ⟨fits_of_headerRead harray, fun h => headerRead_of_fits harray h.1 h.2⟩

theorem okLine_ok : HeaderLine (ascii "HTTP/1.1 200 OK") :=
  ⟨by decide, List.all_iff_forall_prop.1 (by decide)⟩

theorem typeLine_ok : HeaderLine (ascii "Content-Type: text/plain") :=
  ⟨by decide, List.all_iff_forall_prop.1 (by decide)⟩

theorem lengthLine_ok : HeaderLine (ascii "Content-Length: 4") :=
  ⟨by decide, List.all_iff_forall_prop.1 (by decide)⟩

/-- A status line and two header lines. -/
def shortResponse : Response where
  statusLine := ascii "HTTP/1.1 200 OK"
  headers := [ascii "Content-Type: text/plain", ascii "Content-Length: 4"]
  body := ascii "body"
  statusLine_ok := okLine_ok
  headers_ok := by
    rw [List.forall_mem_cons, List.forall_mem_singleton]
    exact ⟨typeLine_ok, lengthLine_ok⟩

theorem short_response_read : HeaderRead (fun _ => 7) shortResponse (cleared 4096) :=
  (headerRead_iff _ shortResponse (length_cleared 4096) (holds_cleared (by decide))).2
    (by decide)

/-- A header line of `n + 1` letters. -/
def longResponse (n : Nat) : Response where
  statusLine := ascii "HTTP/1.1 200 OK"
  headers := [List.replicate (n + 1) 97]
  body := []
  statusLine_ok := okLine_ok
  headers_ok := by
    rw [List.forall_mem_singleton]
    exact ⟨List.cons_ne_nil _ _, fun c hc => by rw [List.eq_of_mem_replicate hc]; rfl⟩

theorem length_longResponse (n : Nat) : (longResponse n).header.length = n + 22 := by
  have hstatus : (ascii "HTTP/1.1 200 OK").length = 15 := rfl
  simp only [Response.header, longResponse, crlf, List.flatMap_cons, List.flatMap_nil,
    List.length_append, List.length_replicate, List.length_cons, List.length_nil, hstatus]
  omega

/-- With a line of 4075 letters the header has 4096 bytes and fills the first array. -/
theorem full_array_overrun :
    ¬ ∀ (fresh : Nat → UInt8) (r : Response) (array : Text), array.length = MEM_SIZE →
      Holds array [] → HeaderRead fresh r array := by
  intro h
  have harray : Holds (cleared 4096) [] := holds_cleared (by decide)
  have hread := h (fun _ => 0) (longResponse 4074) (cleared 4096) (length_cleared 4096) harray
  have hfits := (fits_of_headerRead harray hread).2
  rw [length_longResponse, length_cleared] at hfits
  exact absurd hfits (Nat.lt_irrefl _)

end HttpClient
end LinuxLearn
