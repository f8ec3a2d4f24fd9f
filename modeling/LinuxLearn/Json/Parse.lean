import LinuxLearn.Json.Item

/-!
# Parse — the parser of `cJSON.c`

The functions take the text from a pointer on to the terminating zero, and return the value and the
text from the new pointer on.  A null pointer is `Stop.malformed` with the text that `ep` points to.

`parse_string` goes over a string twice, and the two loops do not always agree on where it ends: the
first one counts the bytes for `malloc`, the second one writes them, and both can step over the
terminating zero.  These are the other two ways to stop.

`parse_value` calls itself through `parse_array` and `parse_object`; the first argument of the model
bounds the number of calls, and `2 * length + 1` of them are always enough (`parseValue_fuel`).

`malloc` is taken as successful, and the `int len` of `parse_string` as a number without overflow.
-/

namespace LinuxLearn
namespace Json

open Lib

variable {δ : Type}

inductive Stop
  /-- null is returned and `ep` is set -/
  | malformed (ep : Text)
  /-- a byte behind the terminating zero is read -/
  | behindText
  /-- a byte behind the allocated block is written -/
  | behindBlock
  | fuel
  deriving DecidableEq, Repr

/-! ## Numbers -/

/-- The digits that a loop reads, and the text behind them. -/
def spanDigits (num : Text) : Text × Text :=
  (num.takeWhile isDigit, num.dropWhile isDigit)

/-- `if (*num=='0') num++; if (*num>='1' && *num<='9') do ... while (...)` -/
def integerPart (num : Text) : Text × Text :=
  let num := if num.head? = some 48 then num.tail else num
  if num.head? = some 48 then ([], num) else spanDigits num

/-- `if (*num=='.' && num[1]>='0' && num[1]<='9')` -/
def fractionPart : Text → Text × Text
  | 46 :: c :: num => if isDigit c then spanDigits (c :: num) else ([], 46 :: c :: num)
  | num => ([], num)

/-- `if (*num=='+') num++; else if (*num=='-') ...`; the digits may be missing. -/
def signedDigits : Text → Int × Text
  | 43 :: num => (numeral 10 (spanDigits num).1, (spanDigits num).2)
  | 45 :: num => (-(numeral 10 (spanDigits num).1 : Int), (spanDigits num).2)
  | num => (numeral 10 (spanDigits num).1, (spanDigits num).2)

/-- `if (*num=='e' || *num=='E')` -/
def exponentPart : Text → Int × Text
  | [] => (0, [])
  | e :: num => if e = 101 ∨ e = 69 then signedDigits num else (0, e :: num)

def parseNumber (D : Doubles δ) (num : Text) : Item δ × Text :=
  let sign := num.head? = some 45
  let integer := integerPart (if sign then num.tail else num)
  let fraction := fractionPart integer.2
  let exponent := exponentPart fraction.2
  let n := D.number sign integer.1 fraction.1 exponent.1
  (.number (D.toInt n) n, exponent.2)

/-! ## Strings -/

/-- The loop that counts `len`, with `n` bytes to be passed over. -/
def countString : Nat → Text → Except Stop Nat
  | 0, [] => .ok 0
  | _ + 1, [] => .error .behindText
  | n + 1, _ :: ptr => countString n ptr
  | 0, c :: ptr =>
      if c = quote then .ok 0
      else (countString (if c = backslash then 1 else 0) ptr).map (· + 1)

def hexVal (c : UInt8) : Option Nat :=
  if isDigit c then some (c.toNat - 48)
  else if 65 ≤ c.toNat ∧ c.toNat ≤ 70 then some (c.toNat - 55)
  else if 97 ≤ c.toNat ∧ c.toNat ≤ 102 then some (c.toNat - 87)
  else none

/-- `parse_hex4`; zero if one of the four is no hexadecimal digit. -/
def parseHex4 : Text → Nat
  | a :: b :: c :: d :: _ =>
      match hexVal a, hexVal b, hexVal c, hexVal d with
      | some a, some b, some c, some d => ((a * 16 + b) * 16 + c) * 16 + d
      | _, _, _, _ => 0
  | _ => 0

/-- `(uc | 0x80) & 0xBF`, in a byte -/
def continuation (uc : Nat) : UInt8 :=
  UInt8.ofNat ((uc ||| 0x80) &&& 0xBF)

/-- The bytes of a character, written from the last to the first. -/
def utf8 (uc : Nat) : Text :=
  if uc < 0x80 then [UInt8.ofNat uc]
  else if uc < 0x800 then [UInt8.ofNat ((uc >>> 6) ||| 0xC0), continuation uc]
  else if uc < 0x10000 then
    [UInt8.ofNat ((uc >>> 12) ||| 0xE0), continuation (uc >>> 6), continuation uc]
  else
    [UInt8.ofNat ((uc >>> 18) ||| 0xF0), continuation (uc >>> 12), continuation (uc >>> 6),
      continuation uc]

def isHighSurrogate (uc : Nat) : Bool :=
  decide (0xD800 ≤ uc ∧ uc ≤ 0xDBFF)

def isLowSurrogate (uc : Nat) : Bool :=
  decide (0xDC00 ≤ uc ∧ uc ≤ 0xDFFF)

/-- What is written for the text behind `\u`, and the number of its bytes that are passed over. -/
def transcode (ptr : Text) : Text × Nat :=
  let uc := parseHex4 ptr
  if isLowSurrogate uc || uc == 0 then ([], 4)
  else if isHighSurrogate uc then
    match ptr.drop 4 with
    | 92 :: 117 :: rest =>
        let uc2 := parseHex4 rest
        if isLowSurrogate uc2 then
          (utf8 (0x10000 + (((uc &&& 0x3FF) <<< 10) ||| (uc2 &&& 0x3FF))), 10)
        else ([], 10)
    | _ => ([], 4)
  else (utf8 uc, 4)

/-- The character of an escape other than `\u`. -/
def unescape (c : UInt8) : UInt8 :=
  if c = 98 then 8
  else if c = 102 then 12
  else if c = 110 then 10
  else if c = 114 then 13
  else if c = 116 then 9
  else c

/-- The loop that writes the string, with `n` bytes to be passed over: what it writes, and the text
from where it ends. -/
def decodeString : Nat → Text → Except Stop (Text × Text)
  | 0, [] => .ok ([], [])
  | _ + 1, [] => .error .behindText
  | n + 1, _ :: ptr => decodeString n ptr
  | 0, c :: ptr =>
      if c = quote then .ok ([], c :: ptr)
      else if c = backslash then
        match ptr.head? with
        | none => .error .behindText
        | some 117 =>
            (decodeString ((transcode ptr.tail).2 + 1) ptr).map
              (Prod.map ((transcode ptr.tail).1 ++ ·) id)
        | some e => (decodeString 1 ptr).map (Prod.map (unescape e :: ·) id)
      else (decodeString 0 ptr).map (Prod.map (c :: ·) id)

/-- The string, and the text behind its closing quote if there is one. -/
def parseString (str : Text) : Except Stop (Text × Text) :=
  if str.head? ≠ some quote then .error (.malformed str)
  else do
    let len ← countString 0 str.tail
    let (out, ptr) ← decodeString 0 str.tail
    if out.length ≤ len then .ok (out, if ptr.head? = some quote then ptr.tail else ptr)
    else .error .behindBlock

/-! ## Values -/

/-- `skip` -/
def skip (text : Text) : Text :=
  text.dropWhile fun c => decide (c.toNat ≤ 32)

/-- `if (*value==...) return value+1;` at the end of an array or an object -/
def closing {α : Type} (bracket : UInt8) (result : α) (value : Text) : Except Stop (α × Text) :=
  if value.head? = some bracket then .ok (result, value.tail) else .error (.malformed value)

mutual

def parseValue (D : Doubles δ) : Nat → Text → Except Stop (Item δ × Text)
  | 0, _ => .error .fuel
  | n + 1, value =>
      if ascii "null" <+: value then .ok (.null, value.drop 4)
      else if ascii "false" <+: value then .ok (.false, value.drop 5)
      else if ascii "true" <+: value then .ok (.true, value.drop 4)
      else
        match value.head? with
        | none => .error (.malformed value)
        | some c =>
            if c = quote then (parseString value).map (Prod.map .string id)
            else if c = 45 ∨ isDigit c then .ok (parseNumber D value)
            else if c = openBracket then
              if (skip value.tail).head? = some closeBracket then
                .ok (.array [], (skip value.tail).tail)
              else (parseItems D n (skip value.tail)).map (Prod.map .array id)
            else if c = openBrace then
              if (skip value.tail).head? = some closeBrace then
                .ok (.object [], (skip value.tail).tail)
              else (parseMembers D n (skip value.tail)).map (Prod.map .object id)
            else .error (.malformed value)

/-- The entries of an array from here on, of which there is at least one. -/
def parseItems (D : Doubles δ) : Nat → Text → Except Stop (List (Item δ) × Text)
  | 0, _ => .error .fuel
  | n + 1, value => do
      let (child, value) ← parseValue D n (skip value)
      let value := skip value
      if value.head? = some comma then
        (parseItems D n value.tail).map (Prod.map (child :: ·) id)
      else closing closeBracket [child] value

/-- The members of an object from here on. -/
def parseMembers (D : Doubles δ) : Nat → Text → Except Stop (List (Text × Item δ) × Text)
  | 0, _ => .error .fuel
  | n + 1, value => do
      let (string, value) ← parseString (skip value)
      let value := skip value
      if value.head? ≠ some colon then .error (.malformed value)
      else
        let (child, value) ← parseValue D n (skip value.tail)
        let value := skip value
        if value.head? = some comma then
          (parseMembers D n value.tail).map (Prod.map ((string, child) :: ·) id)
        else closing closeBrace [(string, child)] value

end

/-- The calls that a text can need. -/
def fuelFor (value : Text) : Nat :=
  2 * value.length + 1

/-- `cJSON_ParseWithOpts`: the item, and the text from `*return_parse_end` on. -/
def parseWithOpts (D : Doubles δ) (value : Text) (requireNullTerminated : Bool) :
    Except Stop (Item δ × Text) := do
  let (c, ending) ← parseValue D (fuelFor value) (skip value)
  if requireNullTerminated then
    if skip ending = [] then .ok (c, skip ending) else .error (.malformed (skip ending))
  else .ok (c, ending)

/-- `cJSON_Parse` -/
def parse (D : Doubles δ) (value : Text) : Except Stop (Item δ × Text) :=
  parseWithOpts D value false

end Json
end LinuxLearn
