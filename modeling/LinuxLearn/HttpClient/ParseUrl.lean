import LinuxLearn.Lib.CArray
import Mathlib.Data.Bool.AllAny

/-!
# ParseUrl — the host and the port of a URL

`parse_url` of `http-client.c` skips the scheme, copies everything up to the first slash into
`domain`, reads the port from there and then cuts it off.  A URL that is written from a host, a port
and a path gives back its host and its port.

The array `url` may hold anything behind its string.  The name of the file is not parsed.
-/

namespace LinuxLearn
namespace HttpClient

open Lib

inductive Fault
  | outOfBounds
  deriving DecidableEq, Repr

/-! ## The function -/

def patterns : List Text :=
  [ascii "http://", ascii "https://"]

/-- The length of the last pattern that `url` starts with. -/
def schemeLength (url : Text) : Nat :=
  patterns.foldl (fun start pattern => if pattern.isPrefixOf url then pattern.length else start) 0

/-- Slash, and the end of the string. -/
def endsDomain (c : UInt8) : Bool :=
  c == 47 || c == 0

/-- The loop that copies to `domain` from index `j` on, and the zero behind it. -/
def copyDomain (domain : Text) (j : Nat) : Text → Except Fault Text
  | [] => .error .outOfBounds
  | c :: url =>
      if domain.length ≤ j then .error .outOfBounds
      else if endsDomain c then .ok (domain.set j 0)
      else copyDomain (domain.set j c) (j + 1) url

/-- `%d`, for numbers in the range of `int` -/
def scanInt (w : Text) : Option Int :=
  let digits :=
    match w.dropWhile isSpace with
    | 45 :: w => w.takeWhile isDigit
    | 43 :: w => w.takeWhile isDigit
    | w => w.takeWhile isDigit
  if digits = [] then none else some (atoi w)

/-- `sscanf(pos, ":%d", port)` with `pos` the first colon. -/
def scanPort (domain : Text) : Option Int :=
  ((stringIn domain).idxOf? 58).bind fun pos => scanInt ((stringIn domain).drop (pos + 1))

def deletePort (domain : Text) : Text :=
  match (stringIn domain).idxOf? 58 with
  | none => domain
  | some i => domain.set i 0

def parseUrl (url domain : Text) : Except Fault (Text × Int) :=
  (copyDomain domain 0 (url.drop (schemeLength url))).map fun domain =>
    (deletePort domain, (scanPort domain).getD 80)

/-! ## Written URLs -/

inductive Scheme
  | absent
  | http
  | https
  deriving DecidableEq, Repr

def Scheme.text : Scheme → Text
  | absent => []
  | http => ascii "http://"
  | https => ascii "https://"

def portText : Option (Fin 65536) → Text
  | none => []
  | some port => 58 :: decimalNat port

/-- The size of `domain` in `main`. -/
abbrev DOMAIN_SIZE : Nat := 64

/-- A character that ends neither the host nor the whole domain. -/
abbrev Plain (c : UInt8) : Prop :=
  c ≠ 47 ∧ c ≠ 58 ∧ c ≠ 0

/-- The parts of a URL; host and port fit into `domain`. -/
structure Url where
  scheme : Scheme
  host : Text
  port : Option (Fin 65536)
  path : Text
  host_plain : ∀ c ∈ host, Plain c
  path_slash : path = [] ∨ path.head? = some 47
  fits : (host ++ portText port).length < DOMAIN_SIZE

def Url.text (u : Url) : Text :=
  u.scheme.text ++ (u.host ++ portText u.port) ++ u.path

/-! ## The scheme -/

/-- Host and port, as `parse_url` copies them. -/
def Url.domain (u : Url) : Text :=
  u.host ++ portText u.port

/-- What comes behind the host: a port, the path or the end of the string. -/
theorem head_behind_host (port : Option (Fin 65536)) {path : Text} (rest : Text)
    (hpath : path = [] ∨ path.head? = some 47) :
    ∃ c tail, portText port ++ path ++ 0 :: rest = c :: tail ∧ ¬ Plain c ∧
      (c = 58 → ∃ d tail', tail = d :: tail' ∧ d ≠ 47) := by
  cases port with
  | none =>
      rcases hpath with rfl | hslash
      · exact ⟨0, rest, rfl, by decide, fun h => absurd h (by decide)⟩
      · cases path with
        | nil => cases hslash
        | cons c path =>
            cases hslash
            exact ⟨47, _, rfl, by decide, fun h => absurd h (by decide)⟩
  | some port =>
      refine ⟨58, decimalNat port ++ path ++ 0 :: rest, by simp [portText], by decide, fun _ => ?_⟩
      cases hdigits : decimalNat port with
      | nil => exact absurd hdigits (decimalNat_ne_nil port)
      | cons d digits =>
          have hd : isDigit d = true :=
            isDigit_of_mem_decimalNat (hdigits ▸ List.mem_cons_self)
          refine ⟨d, _, rfl, ?_⟩
          rintro rfl
          exact absurd hd (by decide)

theorem takeWhile_plain {w behind : Text} {c : UInt8} (hw : ∀ c ∈ w, Plain c) (hc : ¬ Plain c) :
    (w ++ c :: behind).takeWhile (fun c => Plain c) = w := by
  rw [List.takeWhile_append_of_pos fun c hc => decide_eq_true (hw c hc),
    List.takeWhile_cons_of_neg (by simpa using hc), List.append_nil]

/-- Without a scheme, the text does not start with one. -/
theorem not_isPrefix_host (name : Text) (hname : ∀ c ∈ name, Plain c) (u : Url) (rest : Text) :
    ¬ (name ++ [58, 47, 47]) <+: u.domain ++ u.path ++ 0 :: rest := by
  rcases head_behind_host u.port rest u.path_slash with ⟨c, tail, hbehind, hc, hcolon⟩
  have htext : u.domain ++ u.path ++ 0 :: rest = u.host ++ c :: tail := by
    rw [← hbehind, Url.domain]
    simp only [List.append_assoc]
  rw [htext]
  rintro ⟨tail', h⟩
  rw [List.append_assoc, List.cons_append] at h
  -- Both sides have the same characters before the first colon or slash.
  have hhost : name = u.host := by
    have hsame := congrArg (List.takeWhile fun c => Plain c) h
    rwa [takeWhile_plain hname (by decide), takeWhile_plain u.host_plain hc] at hsame
  rw [hhost] at h
  rcases List.cons.inj (List.append_cancel_left h) with ⟨rfl, htail⟩
  rcases hcolon rfl with ⟨d, tail'', rfl, hd⟩
  exact hd (List.cons.inj htail).1.symm

theorem schemeLength_http (w : Text) : schemeLength (ascii "http://" ++ w) = 7 := rfl

theorem schemeLength_https (w : Text) : schemeLength (ascii "https://" ++ w) = 8 := rfl

theorem schemeLength_absent (u : Url) (rest : Text) :
    schemeLength (u.domain ++ u.path ++ 0 :: rest) = 0 := by
  have hhttp := not_isPrefix_host (ascii "http") (List.all_iff_forall_prop.1 (by decide)) u rest
  have hhttps := not_isPrefix_host (ascii "https") (List.all_iff_forall_prop.1 (by decide)) u rest
  rw [← List.isPrefixOf_iff_prefix] at hhttp hhttps
  have hpatterns : patterns = [ascii "http" ++ [58, 47, 47], ascii "https" ++ [58, 47, 47]] := rfl
  rw [schemeLength, hpatterns, List.foldl_cons, List.foldl_cons, List.foldl_nil, if_neg hhttp,
    if_neg hhttps]

theorem drop_schemeLength (u : Url) (rest : Text) :
    (u.text ++ 0 :: rest).drop (schemeLength (u.text ++ 0 :: rest)) =
      u.domain ++ u.path ++ 0 :: rest := by
  have htext : u.text ++ 0 :: rest = u.scheme.text ++ (u.domain ++ u.path ++ 0 :: rest) := by
    simp only [Url.text, Url.domain, List.append_assoc]
  rw [htext]
  cases u.scheme with
  | absent => rw [Scheme.text, List.nil_append, schemeLength_absent, List.drop_zero]
  | http =>
      rw [Scheme.text, schemeLength_http]
      rfl
  | https =>
      rw [Scheme.text, schemeLength_https]
      rfl

/-! ## The domain -/

/-- Up to a character that ends the domain, everything is copied behind what is there. -/
theorem copyDomain_eq {c : UInt8} (hc : endsDomain c = true) (behind : Text) {w : Text}
    (hw : ∀ c ∈ w, endsDomain c = false) (front array : Text) (hfits : w.length < array.length) :
    copyDomain (front ++ array) front.length (w ++ c :: behind) =
      .ok (front ++ w ++ 0 :: array.drop (w.length + 1)) := by
  induction w generalizing front array with
  | nil =>
      cases array with
      | nil => exact absurd hfits (Nat.lt_irrefl 0)
      | cons a array =>
          have hroom : ¬ (front ++ a :: array).length ≤ front.length := by simp
          rw [List.nil_append, copyDomain, if_neg hroom, if_pos hc]
          simp
  | cons d w ih =>
      cases array with
      | nil => exact absurd hfits (Nat.not_lt_zero _)
      | cons a array =>
          have hroom : ¬ (front ++ a :: array).length ≤ front.length := by simp
          have hd : ¬ endsDomain d = true := by simp [hw d List.mem_cons_self]
          have hnext := ih (fun c hc => hw c (List.mem_cons_of_mem _ hc)) (front ++ [d]) array
            (Nat.lt_of_succ_lt_succ hfits)
          rw [List.cons_append, copyDomain, if_neg hroom, if_neg hd]
          simpa using hnext

theorem not_endsDomain_of_mem {u : Url} {c : UInt8} (hc : c ∈ u.domain) :
    endsDomain c = false := by
  have hordinary : ∀ c : UInt8, c ≠ 47 → c ≠ 0 → endsDomain c = false := by
    intro c hslash hzero
    simp [endsDomain, hslash, hzero]
  rcases List.mem_append.1 hc with hhost | hport
  · exact hordinary c (u.host_plain c hhost).1 (u.host_plain c hhost).2.2
  · cases hu : u.port with
    | none => simp [hu, portText] at hport
    | some port =>
        rw [hu, portText] at hport
        rcases List.mem_cons.1 hport with rfl | hdigit
        · decide
        · have hd := isDigit_of_mem_decimalNat hdigit
          refine hordinary c ?_ ?_
          · rintro rfl
            exact absurd hd (by decide)
          · rintro rfl
            exact absurd hd (by decide)

theorem domain_copied (u : Url) (rest : Text) {domain : Text}
    (hsize : domain.length = DOMAIN_SIZE) :
    ∃ behind, copyDomain domain 0 (u.domain ++ u.path ++ 0 :: rest) =
      .ok (u.domain ++ 0 :: behind) := by
  have hend : ∃ c tail, u.path ++ 0 :: rest = c :: tail ∧ endsDomain c = true := by
    rcases u.path_slash with hpath | hpath
    · exact ⟨0, rest, by rw [hpath, List.nil_append], by decide⟩
    · cases hu : u.path with
      | nil => simp [hu] at hpath
      | cons c path =>
          have hslash : c = 47 := by simpa [hu] using hpath
          exact ⟨c, path ++ 0 :: rest, rfl, by rw [hslash]; decide⟩
  rcases hend with ⟨c, tail, htail, hc⟩
  have hcopy := copyDomain_eq hc tail (fun c => not_endsDomain_of_mem) [] domain
    (hsize ▸ u.fits)
  rw [List.nil_append, List.nil_append] at hcopy
  rw [List.append_assoc, htail]
  exact ⟨_, hcopy⟩

/-! ## The port -/

theorem idxOf?_colon (u : Url) :
    u.domain.idxOf? 58 = u.port.map fun _ => u.host.length := by
  have hhost : u.host.findIdx? (· == 58) = none := by
    rw [List.findIdx?_eq_none_iff]
    intro c hc
    simpa using (u.host_plain c hc).2.1
  rw [Url.domain, List.idxOf?, List.findIdx?_append, hhost, Option.none_or]
  cases u.port with
  | none => rfl
  | some port => simp [portText, List.findIdx?_cons]

theorem scanInt_decimalNat (n : Nat) : scanInt (decimalNat n) = some (n : Int) := by
  have hvalue : atoi (decimalNat n) = n := by
    have h : atoi (decimalNat n ++ []) = n := atoi_decimal (n : Int) rfl
    rwa [List.append_nil] at h
  cases hdigits : decimalNat n with
  | nil => exact absurd hdigits (decimalNat_ne_nil n)
  | cons d digits =>
      have hd : isDigit d = true := isDigit_of_mem_decimalNat (hdigits ▸ List.mem_cons_self)
      have hskip : (d :: digits).dropWhile isSpace = d :: digits :=
        List.dropWhile_cons_of_neg (by simp [not_isSpace_of_isDigit hd])
      rw [scanInt, hskip, ← hdigits, hvalue, hdigits]
      -- The first character is no sign.
      split
      · rename_i heq
        cases heq
        exact absurd hd (by decide)
      · rename_i heq
        cases heq
        exact absurd hd (by decide)
      · simp [hd]

theorem scanPort_eq {u : Url} {domain : Text} (h : stringIn domain = u.domain) :
    scanPort domain = u.port.map fun port => (port : Int) := by
  rw [scanPort, h, idxOf?_colon, Url.domain]
  cases u.port with
  | none => rfl
  | some port =>
      have hdrop : (u.host ++ portText (some port)).drop (u.host.length + 1) = decimalNat port := by
        rw [List.drop_append]
        simp [portText]
      change scanInt _ = _
      rw [hdrop, scanInt_decimalNat]
      rfl

theorem deletePort_holds {u : Url} (behind : Text) (hhost : (0 : UInt8) ∉ u.host)
    (h : stringIn (u.domain ++ 0 :: behind) = u.domain) :
    Holds (deletePort (u.domain ++ 0 :: behind)) u.host := by
  rw [deletePort, h, idxOf?_colon, Url.domain]
  cases u.port with
  | none => exact ⟨behind, by simp [portText], hhost⟩
  | some port => exact ⟨decimalNat port ++ 0 :: behind, by simp [portText], hhost⟩

/-- For every URL written from its parts, `parse_url` returns the host and the port. -/
theorem parseUrl_text (u : Url) (rest domain : Text) (hsize : domain.length = DOMAIN_SIZE) :
    ∃ domain', parseUrl (u.text ++ 0 :: rest) domain =
        .ok (domain', (u.port.map fun port => (port : Int)).getD 80) ∧
      Holds domain' u.host := by
  rcases domain_copied u rest hsize with ⟨behind, hcopy⟩
  have hzero : (0 : UInt8) ∉ u.domain := fun h => absurd (not_endsDomain_of_mem h) (by decide)
  have hhost : (0 : UInt8) ∉ u.host := fun h => hzero (List.mem_append_left _ h)
  have hstring : stringIn (u.domain ++ 0 :: behind) = u.domain :=
    Holds.stringIn_eq ⟨behind, rfl, hzero⟩
  refine ⟨deletePort (u.domain ++ 0 :: behind), ?_, deletePort_holds behind hhost hstring⟩
  rw [parseUrl, drop_schemeLength, hcopy, ← scanPort_eq hstring]
  rfl

/-- A URL with all its parts; the path looks like another scheme and port. -/
def fullUrl : Url where
  scheme := .https
  host := ascii "h"
  port := some 8080
  path := ascii "/a://b:1"
  host_plain := List.all_iff_forall_prop.1 (by decide)
  path_slash := by decide
  fits := by decide

theorem full_url_parsed :
    ∃ domain', parseUrl (fullUrl.text ++ [0]) (cleared 64) = .ok (domain', 8080) ∧
      Holds domain' (ascii "h") :=
  parseUrl_text fullUrl [] (cleared 64) (length_cleared 64)

end HttpClient
end LinuxLearn
