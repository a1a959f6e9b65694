import AudioMeet.Lib.Utf8

/-! A reader of JSON texts that takes one byte at a time: where it stands is a position in the innermost value, and the
    arrays and objects around it. -/

namespace AudioMeet.Lib.JsonReader

inductive Value
  | null
  | bool (b : Bool)
  /-- `mantissa * 10 ^ exponent` -/
  | number (mantissa exponent : Int)
  | string (s : Bytes)
  | array (xs : List Value)
  | object (members : List (Bytes × Value))

/-- An open array or object, with what was read of it. -/
inductive Frame
  | array (before : List Value)
  | object (before : List (Bytes × Value))
  /-- in the value of the member called `name` -/
  | member (before : List (Bytes × Value)) (name : Bytes)

/-! ### Strings -/

/-- Where the reader stands in a string. -/
inductive Chars
  /-- between characters, or within one when some ranges are due -/
  | plain (due : List Utf8.Range)
  | escape
  /-- `left` digits are due after `\u`; `high` is the first half of a pair of surrogates -/
  | hex (high : Option Nat) (left unit : Nat)
  /-- the second half of a pair is due -/
  | backslash (high : Nat)
  | letter (high : Nat)
deriving DecidableEq

def hexValue (b : UInt8) : Option Nat :=
  if 0x30 ≤ b ∧ b ≤ 0x39 then some (b.toNat - 0x30)
  else if 0x41 ≤ b ∧ b ≤ 0x46 then some (b.toNat - 0x37)
  else if 0x61 ≤ b ∧ b ≤ 0x66 then some (b.toNat - 0x57)
  else none

/-- The character that `\` and a letter stand for. -/
def escaped (b : UInt8) : Option UInt8 :=
  if b = 0x22 ∨ b = 0x5C ∨ b = 0x2F then some b
  else if b = 0x62 then some 0x08
  else if b = 0x66 then some 0x0C
  else if b = 0x6E then some 0x0A
  else if b = 0x72 then some 0x0D
  else if b = 0x74 then some 0x09
  else none

/-- A code point in UTF-8. -/
def encode (c : Nat) : Bytes :=
  if c < 0x80 then [UInt8.ofNat c]
  else if c < 0x800 then [UInt8.ofNat (0xC0 + c / 0x40), UInt8.ofNat (0x80 + c % 0x40)]
  else if c < 0x10000 then
    [UInt8.ofNat (0xE0 + c / 0x1000), UInt8.ofNat (0x80 + c / 0x40 % 0x40), UInt8.ofNat (0x80 + c % 0x40)]
  else
    [UInt8.ofNat (0xF0 + c / 0x40000), UInt8.ofNat (0x80 + c / 0x1000 % 0x40), UInt8.ofNat (0x80 + c / 0x40 % 0x40),
      UInt8.ofNat (0x80 + c % 0x40)]

/-- The four digits after `\u` are read. -/
def codeUnit (unit : Nat) : Option Nat → Option (Bytes × Chars)
  | none =>
    if 0xD800 ≤ unit ∧ unit < 0xDC00 then some ([], .backslash unit)
    else if 0xDC00 ≤ unit ∧ unit < 0xE000 then none
    else some (encode unit, .plain [])
  | some high =>
    if 0xDC00 ≤ unit ∧ unit < 0xE000 then
      some (encode (0x10000 + (high - 0xD800) * 0x400 + (unit - 0xDC00)), .plain [])
    else none

/-- Reads a byte of a string that does not close it: what it adds to the string. -/
def readChar : Chars → UInt8 → Option (Bytes × Chars)
  | .plain due, b =>
    if due = [] ∧ b = 0x5C then some ([], .escape)
    else if due = [] ∧ (b = 0x22 ∨ b < 0x20) then none
    else (Utf8.advance due b).map fun due => ([b], .plain due)
  | .escape, b =>
    if b = 0x75 then some ([], .hex none 4 0) else (escaped b).map fun c => ([c], .plain [])
  | .hex high left unit, b => do
    let unit := 16 * unit + (← hexValue b)
    if 1 < left then some ([], .hex high (left - 1) unit) else codeUnit unit high
  | .backslash high, b => if b = 0x5C then some ([], .letter high) else none
  | .letter high, b => if b = 0x75 then some ([], .hex (some high) 4 0) else none

/-! ### Numbers -/

/-- Where the reader stands in a number. -/
inductive Digits
  | sign
  | zero
  | int
  | point
  | fraction
  | e
  | eSign
  | exponent
deriving DecidableEq

/-- What was read of a number: its digits, how many of them stand behind the point, and the digits of its exponent. -/
structure Number where
  at_ : Digits
  negative : Bool := false
  mantissa : Nat := 0
  scale : Nat := 0
  eNegative : Bool := false
  exponent : Nat := 0
deriving DecidableEq

namespace Number

def complete (n : Number) : Bool :=
  match n.at_ with
  | .zero | .int | .fraction | .exponent => true
  | .sign | .point | .e | .eSign => false

def value (n : Number) : Value :=
  let exponent : Int := if n.eNegative then -(n.exponent : Int) else n.exponent
  .number (if n.negative then -(n.mantissa : Int) else n.mantissa) (exponent - n.scale)

def isDigit (b : UInt8) : Bool := 0x30 ≤ b && b ≤ 0x39

def digit (n : Number) (b : UInt8) : Number := { n with mantissa := 10 * n.mantissa + (b.toNat - 0x30) }

/-- What may stand behind the whole digits of a number. -/
def afterInt (n : Number) (b : UInt8) : Option Number :=
  if b = 0x2E then some { n with at_ := .point } else if b = 0x65 ∨ b = 0x45 then some { n with at_ := .e } else none

def read (n : Number) (b : UInt8) : Option Number :=
  match n.at_ with
  | .sign =>
    if b = 0x30 then some { n with at_ := .zero }
    else if isDigit b then some { n.digit b with at_ := .int }
    else none
  | .zero => n.afterInt b
  | .int => if isDigit b then some (n.digit b) else n.afterInt b
  | .point | .fraction =>
    if isDigit b then some { n.digit b with at_ := .fraction, scale := n.scale + 1 }
    else if n.at_ = .fraction ∧ (b = 0x65 ∨ b = 0x45) then some { n with at_ := .e }
    else none
  | .e | .eSign | .exponent =>
    if isDigit b then some { n with at_ := .exponent, exponent := 10 * n.exponent + (b.toNat - 0x30) }
    else if n.at_ = .e ∧ (b = 0x2B ∨ b = 0x2D) then some { n with at_ := .eSign, eNegative := b == 0x2D }
    else none

end Number

/-! ### Texts -/

inductive Pos
  /-- a value is due -/
  | value
  /-- behind `[` -/
  | first
  /-- the rest of `null`, `true` or `false` is due -/
  | literal (rest : Bytes) (v : Value)
  | string (isName : Bool) (text : Bytes) (at_ : Chars)
  | number (n : Number)
  /-- behind a value -/
  | after (v : Value)
  /-- behind an opening brace -/
  | firstName
  | name
  | colon (name : Bytes)

abbrev State := Pos × List Frame

def isSpace (b : UInt8) : Bool := b == 0x20 || b == 0x09 || b == 0x0A || b == 0x0D

/-- The first byte of a value. -/
def begin (frames : List Frame) (b : UInt8) : Option State :=
  if b = 0x22 then some (.string false [] (.plain []), frames)
  else if b = 0x5B then some (.first, frames)
  else if b = 0x7B then some (.firstName, frames)
  else if b = 0x6E then some (.literal (ascii "ull") .null, frames)
  else if b = 0x74 then some (.literal (ascii "rue") (.bool true), frames)
  else if b = 0x66 then some (.literal (ascii "alse") (.bool false), frames)
  else if b = 0x2D then some (.number { at_ := .sign, negative := true }, frames)
  else (Number.read { at_ := .sign } b).map fun n => (.number n, frames)

/-- The byte behind a value: a comma or a closing bracket. -/
def follow (v : Value) (frames : List Frame) (b : UInt8) : Option State :=
  if isSpace b then some (.after v, frames)
  else
    match frames with
    | .array before :: rest =>
      if b = 0x2C then some (.value, .array (before ++ [v]) :: rest)
      else if b = 0x5D then some (.after (.array (before ++ [v])), rest)
      else none
    | .member before name :: rest =>
      if b = 0x2C then some (.name, .object (before ++ [(name, v)]) :: rest)
      else if b = 0x7D then some (.after (.object (before ++ [(name, v)])), rest)
      else none
    | _ => none

def step : State → UInt8 → Option State
  | (.value, frames), b => if isSpace b then some (.value, frames) else begin frames b
  | (.first, frames), b =>
    if isSpace b then some (.first, frames)
    else if b = 0x5D then some (.after (.array []), frames)
    else begin (.array [] :: frames) b
  | (.literal rest v, frames), b =>
    match rest with
    | [] => none
    | c :: rest => if b = c then some (if rest = [] then .after v else .literal rest v, frames) else none
  | (.string isName text at_, frames), b =>
    if at_ = .plain [] ∧ b = 0x22 then some (if isName then .colon text else .after (.string text), frames)
    else (readChar at_ b).map fun (bs, at_) => (.string isName (text ++ bs) at_, frames)
  | (.number n, frames), b =>
    match n.read b with
    | some n => some (.number n, frames)
    | none => if n.complete then follow n.value frames b else none
  | (.after v, frames), b => follow v frames b
  | (.firstName, frames), b =>
    if isSpace b then some (.firstName, frames)
    else if b = 0x7D then some (.after (.object []), frames)
    else if b = 0x22 then some (.string true [] (.plain []), .object [] :: frames)
    else none
  | (.name, frames), b =>
    if isSpace b then some (.name, frames)
    else if b = 0x22 then some (.string true [] (.plain []), frames)
    else none
  | (.colon name, frames), b =>
    if isSpace b then some (.colon name, frames)
    else if b = 0x3A then
      match frames with
      | .object before :: rest => some (.value, .member before name :: rest)
      | _ => none
    else none

def run (s : State) (text : Bytes) : Option State := text.foldlM step s

/-- The value that a text denotes. -/
def read (text : Bytes) : Option Value :=
  match run (.value, []) text with
  | some (.after v, []) => some v
  | some (.number n, []) => if n.complete then some n.value else none
  | _ => none

example : read (ascii "[true, -0.5e1 , \"\\u00e9\"]") =
    some (.array [.bool true, .number (-5) 0, .string [0xC3, 0xA9]]) := by rfl

/-! ### Texts in a row -/

section Runs
variable {s t u : State} {b : UInt8} {text text' bs : Bytes} {frames : List Frame} {v : Value}

theorem run_cons (hstep : step s b = some t) (hrest : run t text = some u) : run s (b :: text) = some u := by
  rw [run, List.foldlM_cons, hstep]
  exact hrest

theorem run_append (hfirst : run s text = some t) (hrest : run t text' = some u) : run s (text ++ text') = some u := by
  rw [run, List.foldlM_append]
  exact Option.bind_eq_some_iff.mpr ⟨t, hfirst, hrest⟩

/-! ### Within a string -/

/-- Reads bytes of a string that do not close it. -/
def readChars : Chars → Bytes → Option (Bytes × Chars)
  | at_, [] => some ([], at_)
  | at_, b :: text => do
    let (bs, at_) ← readChar at_ b
    let (cs, at_) ← readChars at_ text
    return (bs ++ cs, at_)

theorem readChar_quote : readChar (.plain []) 0x22 = none := rfl

theorem step_char {isName : Bool} {at_ at' : Chars} (h : readChar at_ b = some (bs, at')) :
    step (.string isName text at_, frames) b = some (.string isName (text ++ bs) at', frames) := by
  have hopen : ¬ (at_ = .plain [] ∧ b = 0x22) := by
    rintro ⟨rfl, rfl⟩
    cases readChar_quote.symm.trans h
  rw [step, if_neg hopen, h]
  rfl

theorem run_chars {isName : Bool} : ∀ {text' : Bytes} {text bs : Bytes} {at_ at' : Chars},
    readChars at_ text' = some (bs, at') →
      run (.string isName text at_, frames) text' = some (.string isName (text ++ bs) at', frames)
  | [], text, bs, at_, at', h => by
    obtain ⟨rfl, rfl⟩ := Prod.mk.inj (Option.some.inj h)
    rw [List.append_nil]
    rfl
  | b :: rest, text, bs, at_, at', h => by
    simp only [readChars, Option.bind_eq_bind, Option.bind_eq_some_iff, Prod.exists] at h
    obtain ⟨bs₁, at₁, hchar, bs₂, at₂, hrest, heq⟩ := h
    obtain ⟨rfl, rfl⟩ := Prod.mk.inj (Option.some.inj heq)
    rw [← List.append_assoc]
    exact run_cons (step_char hchar) (run_chars hrest)

/-! ### Behind a value -/

/-- A value is read whole; a number may still go on. -/
def Ends (pos : Pos) (v : Value) : Prop := pos = .after v ∨ ∃ n, pos = .number n ∧ n.complete = true ∧ n.value = v

/-- A comma and a closing bracket end a value. -/
theorem Ends.step {pos : Pos} (h : Ends pos v) (hb : b = 0x2C ∨ b = 0x5D ∨ b = 0x7D) :
    step (pos, frames) b = follow v frames b := by
  obtain rfl | ⟨n, rfl, hcomplete, rfl⟩ := h
  · rfl
  · have hread : n.read b = none := by
      obtain ⟨at_, _, _, _, _, _⟩ := n
      rcases hb with rfl | rfl | rfl <;> cases at_ <;> rfl
    simp only [JsonReader.step, hread, hcomplete, if_true]

/-- A text that ends with its value. -/
theorem Ends.read {pos : Pos} (h : Ends pos v) (hrun : run (.value, []) text = some (pos, [])) : read text = some v := by
  obtain rfl | ⟨n, rfl, hcomplete, rfl⟩ := h
  · rw [JsonReader.read, hrun]
  · simp only [JsonReader.read, hrun, hcomplete, if_true]

/-- A byte that may open a value, as spaces and a closing bracket do not. -/
def Opens (b : UInt8) : Prop := isSpace b = false ∧ b ≠ 0x5D

/-- The first value of an array is read as any other. -/
theorem step_first (hb : Opens b) : step (.first, frames) b = step (.value, .array [] :: frames) b := by
  simp only [step, hb.1, Bool.false_eq_true, if_false, if_neg hb.2]

end Runs
end AudioMeet.Lib.JsonReader
