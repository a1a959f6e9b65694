import AudioMeet.Lib.Bytes

/-! The JSON values of the responses and their compact text (`third_party/include/nlohmann/json.hpp`). -/

namespace AudioMeet
open Lib

/-- The kinds of values that the handlers build; the members of an object stand in the order of their keys. -/
inductive Json
  | null
  | number (n : Int)
  | string (s : Bytes)
  | array (xs : List Json)
  | object (members : List (Bytes × Json))

/-- How `dump` ends without a text: `type_error` 316. -/
inductive TypeError
  | invalidByte (index : Nat) (byte : UInt8)
  | incomplete (last : UInt8)
deriving DecidableEq

namespace Json

/-- `object[key] = value`, in a map with the keys in order -/
def insert (key : Bytes) (value : Json) : List (Bytes × Json) → List (Bytes × Json)
  | [] => [(key, value)]
  | (k, v) :: rest =>
    if key < k then (key, value) :: (k, v) :: rest
    else if key = k then (key, value) :: rest
    else (k, v) :: insert key value rest

def ofMembers (members : List (String × Json)) : Json :=
  .object (members.foldl (fun acc m => insert (ascii m.1) m.2 acc) [])

/-! ### `decode` -/

def UTF8_ACCEPT : Nat := 0
def UTF8_REJECT : Nat := 1

/-- The first 256 entries of `utf8d`, by ranges. -/
def byteType (byte : UInt8) : Nat :=
  if byte ≤ 0x7F then 0
  else if byte ≤ 0x8F then 1
  else if byte ≤ 0x9F then 9
  else if byte ≤ 0xBF then 7
  else if byte ≤ 0xC1 then 8
  else if byte ≤ 0xDF then 2
  else if byte = 0xE0 then 0xA
  else if byte ≤ 0xEC then 3
  else if byte = 0xED then 4
  else if byte ≤ 0xEF then 3
  else if byte = 0xF0 then 0xB
  else if byte ≤ 0xF3 then 6
  else if byte = 0xF4 then 5
  else 8

/-- The other entries of `utf8d`, 16 for each state. -/
def utf8d : List (List Nat) :=
  [[0x0, 0x1, 0x2, 0x3, 0x5, 0x8, 0x7, 0x1, 0x1, 0x1, 0x4, 0x6, 0x1, 0x1, 0x1, 0x1],
   [1, 1, 1, 1, 1, 1, 1, 1, 1, 1, 1, 1, 1, 1, 1, 1],
   [1, 0, 1, 1, 1, 1, 1, 0, 1, 0, 1, 1, 1, 1, 1, 1],
   [1, 2, 1, 1, 1, 1, 1, 2, 1, 2, 1, 1, 1, 1, 1, 1],
   [1, 1, 1, 1, 1, 1, 1, 2, 1, 1, 1, 1, 1, 1, 1, 1],
   [1, 2, 1, 1, 1, 1, 1, 1, 1, 2, 1, 1, 1, 1, 1, 1],
   [1, 1, 1, 1, 1, 1, 1, 3, 1, 3, 1, 1, 1, 1, 1, 1],
   [1, 3, 1, 1, 1, 1, 1, 3, 1, 3, 1, 1, 1, 1, 1, 1],
   [1, 3, 1, 1, 1, 1, 1, 1, 1, 1, 1, 1, 1, 1, 1, 1]]

def nextState (state : Nat) (byte : UInt8) : Nat := (utf8d.getD state []).getD (byteType byte) UTF8_REJECT

def nextCodep (state : Nat) (codep : UInt32) (byte : UInt8) : UInt32 :=
  if state ≠ UTF8_ACCEPT then (byte.toUInt32 &&& (0x3F : UInt32)) ||| (codep <<< (6 : UInt32))
  else ((0xFF : UInt32) >>> UInt32.ofNat (byteType byte)) &&& byte.toUInt32

/-! ### `dump` -/

def hexDigit (n : Nat) : UInt8 := UInt8.ofNat (if n < 10 then 0x30 + n else 0x57 + n)

/-- What is written at the last byte of a code point, with `ensure_ascii` off. -/
def escape (codep : UInt32) (byte : UInt8) : Bytes :=
  if codep = 0x08 then ascii "\\b"
  else if codep = 0x09 then ascii "\\t"
  else if codep = 0x0A then ascii "\\n"
  else if codep = 0x0C then ascii "\\f"
  else if codep = 0x0D then ascii "\\r"
  else if codep = 0x22 then ascii "\\\""
  else if codep = 0x5C then ascii "\\\\"
  else if codep ≤ 0x1F then ascii "\\u00" ++ [hexDigit (codep.toNat / 16), hexDigit (codep.toNat % 16)]
  else [byte]

/-- The loop of `dump_escaped` at byte `i` of the string, with the strict error handler; `last` is the byte
    before it. -/
def dumpEscapedFrom (state : Nat) (codep : UInt32) (i : Nat) (last : UInt8) : Bytes → Except TypeError Bytes
  | [] => if state = UTF8_ACCEPT then .ok [] else .error (.incomplete last)
  | byte :: rest =>
    let state' := nextState state byte
    let codep' := nextCodep state codep byte
    if state' = UTF8_REJECT then .error (.invalidByte i byte)
    else do
      let text ← dumpEscapedFrom state' codep' (i + 1) byte rest
      .ok ((if state' = UTF8_ACCEPT then escape codep' byte else [byte]) ++ text)

def dumpEscaped (s : Bytes) : Except TypeError Bytes := dumpEscapedFrom UTF8_ACCEPT 0 0 0 s

mutual

/-- `dump` without an indent. -/
def dump : Json → Except TypeError Bytes
  | .null => .ok (ascii "null")
  | .number n => .ok (ascii (toString n))
  | .string s => do
    let text ← dumpEscaped s
    .ok (ascii "\"" ++ text ++ ascii "\"")
  | .array xs => do
    let text ← dumpElements xs
    .ok (ascii "[" ++ text ++ ascii "]")
  | .object members => do
    let text ← dumpMembers members
    .ok (ascii "\x7b" ++ text ++ ascii "\x7d")

def dumpElements : List Json → Except TypeError Bytes
  | [] => .ok []
  | [x] => dump x
  | x :: y :: rest => do
    let first ← dump x
    let text ← dumpElements (y :: rest)
    .ok (first ++ ascii "," ++ text)

def dumpMembers : List (Bytes × Json) → Except TypeError Bytes
  | [] => .ok []
  | [(key, value)] => do
    let name ← dumpEscaped key
    let first ← dump value
    .ok (ascii "\"" ++ name ++ ascii "\":" ++ first)
  | (key, value) :: y :: rest => do
    let name ← dumpEscaped key
    let first ← dump value
    let text ← dumpMembers (y :: rest)
    .ok (ascii "\"" ++ name ++ ascii "\":" ++ first ++ ascii "," ++ text)

end

end Json
end AudioMeet
