import AudioMeet.Lib.JsonReader
import AudioMeet.Theorems.Json

/-! The text that `dump` ends with is read back as the value: whatever the strings hold, no text can be taken for
    another value. -/

namespace AudioMeet.Json
open Lib JsonReader

/-! ### What is known of a code point before its last byte -/

/-- The least code point that the bytes due can complete `c` to. -/
def least (c : Nat) (due : List Utf8.Range) : Nat := due.foldl (fun c r => 64 * c + r.1.toNat % 64) c

/-- The greatest one. -/
def greatest (c : Nat) (due : List Utf8.Range) : Nat := due.foldl (fun c r => 64 * c + r.2.toNat % 64) c

section Folds
variable {f : Utf8.Range → Nat}

theorem foldl_le (due : List Utf8.Range) {c d : Nat} (h : c ≤ d) :
    due.foldl (fun c r => 64 * c + f r) c ≤ due.foldl (fun c r => 64 * c + f r) d := by
  induction due generalizing c d with
  | nil => exact h
  | cons r due ih => exact ih (Nat.add_le_add_right (Nat.mul_le_mul_left 64 h) _)

theorem le_foldl (due : List Utf8.Range) (c : Nat) : c ≤ due.foldl (fun c r => 64 * c + f r) c := by
  induction due generalizing c with
  | nil => exact Nat.le_refl c
  | cons r due ih =>
    have hfirst : c ≤ 64 * c + f r := by omega
    exact hfirst.trans (ih _)

end Folds

/-- The bytes due continue a code point of several bytes, which no escape is written for. -/
structure Continues (c : Nat) (due : List Utf8.Range) : Prop where
  tails : ∀ r ∈ due, 0x80 ≤ r.1 ∧ r.2 ≤ 0xBF
  least : due ≠ [] → 0x80 ≤ least c due
  greatest : greatest c due ≤ 0x10FFFF

theorem continues_iff {c : Nat} {due : List Utf8.Range} : Continues c due ↔
    (due.all fun r => decide (0x80 ≤ r.1) && decide (r.2 ≤ 0xBF)) = true ∧ (due ≠ [] → 0x80 ≤ least c due) ∧
      greatest c due ≤ 0x10FFFF := by
  simp only [List.all_eq_true, Bool.and_eq_true, decide_eq_true_eq]
  exact ⟨fun h => ⟨h.tails, h.least, h.greatest⟩, fun h => ⟨h.1, h.2.1, h.2.2⟩⟩

instance (c : Nat) (due : List Utf8.Range) : Decidable (Continues c due) := decidable_of_iff' _ continues_iff

/-- The bits of a first byte, as `decode` takes them. -/
def leadBits (byte : UInt8) : Nat := (nextCodep UTF8_ACCEPT 0 byte).toNat

theorem continues_lead_all : ∀ a < 16, ∀ b < 16, ∀ due, Utf8.follow (UInt8.ofNat (16 * a + b)) = some due →
    Continues (leadBits (UInt8.ofNat (16 * a + b))) due := by
  have h : ∀ a < 16, ∀ b < 16, (Utf8.follow (UInt8.ofNat (16 * a + b))).all fun due =>
      Continues (leadBits (UInt8.ofNat (16 * a + b))) due := by
    decide +kernel
  intro a ha b hb due hdue
  have hall := h a ha b hb
  rw [hdue] at hall
  exact of_decide_eq_true hall

theorem continues_lead {byte : UInt8} {due : List Utf8.Range} (h : Utf8.follow byte = some due) :
    Continues (leadBits byte) due := by
  have hlt : byte.toNat / 16 < 16 := Nat.div_lt_of_lt_mul byte.toNat_lt
  have hall := continues_lead_all (byte.toNat / 16) hlt (byte.toNat % 16) (Nat.mod_lt _ (Nat.zero_lt_succ _)) due
  rw [Nat.div_add_mod, UInt8.ofNat_toNat] at hall
  exact hall h

theorem leadBits_ascii {byte : UInt8} (h : byte ≤ 0x7F) : nextCodep UTF8_ACCEPT 0 byte = byte.toUInt32 := by
  have hall : ∀ n < 128, nextCodep UTF8_ACCEPT 0 (UInt8.ofNat n) = (UInt8.ofNat n).toUInt32 := by decide +kernel
  have := hall byte.toNat (Nat.lt_succ_of_le h)
  rwa [UInt8.ofNat_toNat] at this

/-- The bits of a byte that continues a code point stand behind those before it. -/
theorem nextCodep_continue {state : Nat} {codep : UInt32} {byte : UInt8} (hs : state ≠ UTF8_ACCEPT)
    (hc : codep.toNat ≤ 0x10FFFF) : (nextCodep state codep byte).toNat = 64 * codep.toNat + byte.toNat % 64 := by
  have hbyte : (byte.toUInt32 &&& (0x3F : UInt32)).toNat = byte.toNat % 64 := by
    rw [UInt32.toNat_and]
    exact Nat.and_two_pow_sub_one_eq_mod byte.toNat 6
  have hshift : (codep <<< (6 : UInt32)).toNat = codep.toNat <<< 6 := by
    rw [UInt32.toNat_shiftLeft]
    refine Nat.mod_eq_of_lt ?_
    rw [Nat.shiftLeft_eq]
    have : codep.toNat * 2 ^ ((6 : UInt32).toNat % 32) = codep.toNat * 64 := rfl
    omega
  rw [nextCodep, if_pos hs, UInt32.toNat_or, hbyte, hshift, Nat.or_comm,
    ← Nat.shiftLeft_add_eq_or_of_lt (Nat.mod_lt _ (by decide : 0 < 2 ^ 6)), Nat.shiftLeft_eq]
  omega

theorem Continues.next {c : Nat} {r : Utf8.Range} {due : List Utf8.Range} {byte : UInt8} (h : Continues c (r :: due))
    (hr : r.Holds byte) :
    Continues (64 * c + byte.toNat % 64) due ∧ 0x80 ≤ Json.least (64 * c + byte.toNat % 64) due := by
  obtain ⟨hlow, hhigh⟩ := h.tails r List.mem_cons_self
  have h₁ : 0x80 ≤ r.1.toNat := hlow
  have h₂ : r.2.toNat ≤ 0xBF := hhigh
  have h₃ : r.1.toNat ≤ byte.toNat := hr.1
  have h₄ : byte.toNat ≤ r.2.toNat := hr.2
  have hbelow : 64 * c + r.1.toNat % 64 ≤ 64 * c + byte.toNat % 64 := by omega
  have habove : 64 * c + byte.toNat % 64 ≤ 64 * c + r.2.toNat % 64 := by omega
  have hleast : 0x80 ≤ Json.least (64 * c + byte.toNat % 64) due :=
    (h.least (List.cons_ne_nil _ _)).trans (foldl_le due hbelow)
  have hgreatest : Json.greatest (64 * c + byte.toNat % 64) due ≤ 0x10FFFF := (foldl_le due habove).trans h.greatest
  exact ⟨⟨fun r' hr' => h.tails r' (List.mem_cons_of_mem _ hr'), fun _ => hleast, hgreatest⟩, hleast⟩

/-! ### Strings -/

section Strings
variable {state i : Nat} {codep : UInt32} {byte last : UInt8} {due due' : List Utf8.Range} {s text : Bytes}

theorem readChars_escape {byte : UInt8} (h : byte ≤ 0x7F) :
    readChars (.plain []) (escape byte.toUInt32 byte) = some ([byte], .plain []) := by
  have hall : ∀ n < 128, readChars (.plain []) (escape (UInt8.ofNat n).toUInt32 (UInt8.ofNat n)) =
      some ([UInt8.ofNat n], .plain []) := by decide +kernel
  have := hall byte.toNat (Nat.lt_succ_of_le h)
  rwa [UInt8.ofNat_toNat] at this

theorem escape_wide (h : 0x80 ≤ codep.toNat) : escape codep byte = [byte] := by
  have hne : ∀ c : UInt32, c.toNat < 0x80 → codep ≠ c := by
    rintro c hc rfl
    exact absurd h (Nat.not_le.mpr hc)
  have hle : ¬ codep ≤ 0x1F := fun hle => absurd (h.trans hle) (by decide)
  rw [escape, if_neg (hne 0x08 (by decide)), if_neg (hne 0x09 (by decide)), if_neg (hne 0x0A (by decide)),
    if_neg (hne 0x0C (by decide)), if_neg (hne 0x0D (by decide)), if_neg (hne 0x22 (by decide)),
    if_neg (hne 0x5C (by decide)), if_neg hle]

/-- A byte that is written as it is. -/
theorem readChars_raw (hadv : Utf8.advance due byte = some due') (hwide : due = [] → 0x7F < byte) :
    readChars (.plain due) [byte] = some ([byte], .plain due') := by
  have hbackslash : ¬ (due = [] ∧ byte = 0x5C) := by
    rintro ⟨rfl, rfl⟩
    exact absurd (hwide rfl) (by decide)
  have hplain : ¬ (due = [] ∧ (byte = 0x22 ∨ byte < 0x20)) := by
    rintro ⟨rfl, rfl | hlt⟩
    · exact absurd (hwide rfl) (by decide)
    · exact absurd (UInt8.lt_trans (hwide rfl) hlt) (by decide)
  simp only [readChars, readChar, if_neg hbackslash, if_neg hplain, hadv, Option.map_some, Option.bind_eq_bind,
    Option.bind_some]
  rfl

theorem le_of_follow_nil (h : Utf8.follow byte = some []) : byte ≤ 0x7F := by
  by_contra hgt
  simp only [Utf8.follow, if_neg hgt] at h
  repeat' split at h
  all_goals cases h

theorem lt_of_follow_cons {r : Utf8.Range} (h : Utf8.follow byte = some (r :: due)) : 0x7F < byte := by
  by_contra hle
  rw [Utf8.follow, if_pos (UInt8.not_lt.mp hle)] at h
  cases h

/-- What is written for one byte is read as the byte. -/
theorem readChars_piece (h : (state, due) ∈ dueIn) (hc : due ≠ [] → Continues codep.toNat due)
    (hadv : Utf8.advance due byte = some due') (hnext : (nextState state byte, due') ∈ dueIn) :
    readChars (.plain due) (if nextState state byte = UTF8_ACCEPT then escape (nextCodep state codep byte) byte else [byte]) =
      some ([byte], .plain due') ∧ (due' ≠ [] → Continues (nextCodep state codep byte).toNat due') := by
  have hacc := accept_iff hnext
  cases due with
  | nil =>
    obtain rfl := (accept_iff h).mpr rfl
    refine ⟨?_, fun _ => continues_lead hadv⟩
    cases due' with
    | nil =>
      have hle := le_of_follow_nil hadv
      have hcodep : nextCodep UTF8_ACCEPT codep byte = byte.toUInt32 := leadBits_ascii hle
      rw [if_pos (hacc.mpr rfl), hcodep]
      exact readChars_escape hle
    | cons r due' =>
      rw [if_neg fun ha => List.cons_ne_nil _ _ (hacc.mp ha)]
      exact readChars_raw hadv fun _ => lt_of_follow_cons hadv
  | cons r due =>
    have hstate : state ≠ UTF8_ACCEPT := fun hs => List.cons_ne_nil _ _ ((accept_iff h).mp hs)
    have hcont := hc (List.cons_ne_nil _ _)
    have hbound : codep.toNat ≤ 0x10FFFF := (le_foldl (r :: due) _).trans hcont.greatest
    have hraw : readChars (.plain (r :: due)) [byte] = some ([byte], .plain due') :=
      readChars_raw hadv fun hnil => absurd hnil (List.cons_ne_nil _ _)
    simp only [Utf8.advance] at hadv
    split at hadv
    · rename_i hr
      obtain rfl := Option.some.inj hadv
      obtain ⟨hcont', hleast⟩ := hcont.next hr
      rw [nextCodep_continue hstate hbound]
      refine ⟨?_, fun _ => hcont'⟩
      split
      · rename_i ha
        obtain rfl := hacc.mp ha
        rw [escape_wide (by rw [nextCodep_continue hstate hbound]; exact hleast)]
        exact hraw
      · exact hraw
    · cases hadv

/-- The loop of `dump_escaped` writes a text that is read as the rest of the string. -/
theorem run_dumpEscapedFrom {isName : Bool} {frames : List Frame} : ∀ {s text before : Bytes} {state i : Nat} {codep : UInt32}
    {last : UInt8} {due : List Utf8.Range}, (state, due) ∈ dueIn → (due ≠ [] → Continues codep.toNat due) →
    dumpEscapedFrom state codep i last s = .ok text →
      run (.string isName before (.plain due), frames) text = some (.string isName (before ++ s) (.plain []), frames)
  | [], text, before, state, i, codep, last, due, h, _, hdump => by
    rw [dumpEscapedFrom] at hdump
    split at hdump
    · rename_i hs
      obtain rfl := (accept_iff h).mp hs
      obtain rfl := Except.ok.inj hdump
      rw [List.append_nil]
      rfl
    · cases hdump
  | byte :: s, text, before, state, i, codep, last, due, h, hc, hdump => by
    have hf := follows h byte
    unfold Follows at hf
    cases hadv : Utf8.advance due byte with
    | none =>
      simp only [hadv, beq_iff_eq] at hf
      simp only [dumpEscapedFrom, if_pos hf] at hdump
      cases hdump
    | some due' =>
      simp only [hadv, List.contains_iff_mem] at hf
      simp only [dumpEscapedFrom, if_neg (ne_reject hf)] at hdump
      cases hrest : dumpEscapedFrom (nextState state byte) (nextCodep state codep byte) (i + 1) byte s with
      | error e =>
        rw [hrest] at hdump
        cases hdump
      | ok rest =>
        rw [hrest] at hdump
        obtain rfl := Except.ok.inj hdump
        obtain ⟨hpiece, hc'⟩ := readChars_piece h hc hadv hf
        rw [List.append_cons]
        exact run_append (run_chars hpiece) (run_dumpEscapedFrom hf hc' hrest)

/-- A string between quotes. -/
theorem run_dumpEscaped {isName : Bool} {frames : List Frame} (h : dumpEscaped s = .ok text) :
    run (.string isName [] (.plain []), frames) (text ++ [0x22]) =
      some (if isName then .colon s else .after (.string s), frames) := by
  have hin : (UTF8_ACCEPT, []) ∈ dueIn := List.mem_cons_self
  refine run_append (run_dumpEscapedFrom hin (fun hne => absurd rfl hne) h) ?_
  rw [List.nil_append]
  rfl

end Strings

/-! ### Numbers -/

section Numbers
variable {frames : List Frame} {b : UInt8} {text : Bytes} {n n' : Number}

theorem run_number : ∀ {text : Bytes} {n : Number}, text.foldlM Number.read n = some n' →
    run (.number n, frames) text = some (.number n', frames)
  | [], n, h => by
    obtain rfl := Option.some.inj h
    rfl
  | b :: text, n, h => by
    rw [List.foldlM_cons, Option.bind_eq_bind, Option.bind_eq_some_iff] at h
    obtain ⟨m, hread, hrest⟩ := h
    refine run_cons ?_ (run_number hrest)
    simp only [step, hread]

/-- The digits of `k`, as the reader takes them. -/
theorem read_digits (negative : Bool) (k : Nat) (hk : 0 < k) :
    ((Nat.toDigits 10 k).map fun c => UInt8.ofNat c.toNat).foldlM Number.read { at_ := .sign, negative } =
      some { at_ := .int, negative, mantissa := k } := by
  induction k using Nat.strong_induction_on with
  | _ k ih =>
    by_cases hlt : k < 10
    · have hone : ∀ k < 10, 0 < k → ∀ negative : Bool,
          [UInt8.ofNat (Nat.digitChar k).toNat].foldlM Number.read { at_ := .sign, negative } =
            some { at_ := .int, negative, mantissa := k } := by decide
      rw [Nat.toDigits_of_lt_base hlt]
      exact hone k hlt hk negative
    · have hge : 10 ≤ k := Nat.not_lt.mp hlt
      have hlast : ∀ d < 10, Number.isDigit (UInt8.ofNat (Nat.digitChar d).toNat) = true ∧
          (UInt8.ofNat (Nat.digitChar d).toNat).toNat - 0x30 = d := by decide
      obtain ⟨hdigit, hvalue⟩ := hlast (k % 10) (Nat.mod_lt _ (by decide))
      have hsum : 10 * (k / 10) + k % 10 = k := Nat.div_add_mod k 10
      rw [Nat.toDigits_of_base_le (by decide) hge, List.map_append, List.foldlM_append,
        ih (k / 10) (Nat.div_lt_self hk (by decide)) (Nat.div_pos hge (by decide)), Option.bind_eq_bind, Option.bind_some,
        List.map_singleton, List.foldlM_cons]
      simp only [Number.read, hdigit, if_true, Number.digit, hvalue, hsum]
      rfl

/-- A natural number, behind its sign. -/
theorem read_nat (negative : Bool) (k : Nat) : ∃ n : Number,
    (ascii (toString (k : Int))).foldlM Number.read { at_ := .sign, negative } = some n ∧ n.complete = true ∧
      n.value = .number (if negative then -(k : Int) else k) 0 := by
  rw [ascii_repr]
  rcases Nat.eq_zero_or_pos k with rfl | hk
  · refine ⟨{ at_ := .zero, negative }, rfl, rfl, ?_⟩
    cases negative <;> rfl
  · refine ⟨_, read_digits negative k hk, rfl, ?_⟩
    cases negative <;> rfl

end Numbers

/-! ### Values -/

mutual

/-- The value that the text of `dump` denotes. -/
def value : Json → Value
  | .null => .null
  | .number n => .number n 0
  | .string s => .string s
  | .array xs => .array (values xs)
  | .object members => .object (memberValues members)

def values : List Json → List Value
  | [] => []
  | x :: xs => value x :: values xs

def memberValues : List (Bytes × Json) → List (Bytes × Value)
  | [] => []
  | (key, x) :: members => (key, value x) :: memberValues members

end

theorem values_eq (xs : List Json) : values xs = xs.map value := by
  induction xs with
  | nil => rfl
  | cons x xs ih => rw [values, ih, List.map_cons]

/-- The text opens a value and is read as `v`, whatever stands around it. -/
def ReadsAs (text : Bytes) (v : Value) : Prop :=
  (∃ b rest, text = b :: rest ∧ Opens b) ∧
    ∀ frames, ∃ pos, run (.value, frames) text = some (pos, frames) ∧ Ends pos v

section Values
variable {text : Bytes} {frames : List Frame}

/-- A digit opens a number. -/
theorem step_digit (frames : List Frame) {b : UInt8} (h : Number.isDigit b = true) : Opens b ∧
    step (.value, frames) b = (Number.read { at_ := .sign } b).map fun n => (.number n, frames) := by
  have hne : ∀ c : UInt8, Number.isDigit c = false → b ≠ c := by
    rintro c hc rfl
    rw [h] at hc
    cases hc
  have hspace : isSpace b = false := by
    simp only [isSpace, Bool.or_eq_false_iff, beq_eq_false_iff_ne]
    exact ⟨⟨⟨hne _ rfl, hne _ rfl⟩, hne _ rfl⟩, hne _ rfl⟩
  refine ⟨⟨hspace, hne _ rfl⟩, ?_⟩
  simp only [step, hspace, Bool.false_eq_true, if_false, begin, if_neg (hne _ rfl : b ≠ 0x22),
    if_neg (hne _ rfl : b ≠ 0x5B), if_neg (hne _ rfl : b ≠ 0x7B), if_neg (hne _ rfl : b ≠ 0x6E),
    if_neg (hne _ rfl : b ≠ 0x74), if_neg (hne _ rfl : b ≠ 0x66), if_neg (hne _ rfl : b ≠ 0x2D)]

theorem readsAs_number (k : Int) : ReadsAs (ascii (toString k)) (.number k 0) := by
  cases k with
  | ofNat k =>
    obtain ⟨n, hread, hcomplete, hvalue⟩ := read_nat false k
    have hdigits := digits_repr k
    change (ascii (toString (Int.ofNat k))).foldlM _ _ = _ at hread
    change ∀ b ∈ ascii (toString (Int.ofNat k)), Number.isDigit b = true at hdigits
    cases htext : ascii (toString (Int.ofNat k)) with
    | nil =>
      rw [htext] at hread
      obtain rfl := Option.some.inj hread
      cases hcomplete
    | cons b rest =>
      rw [htext] at hread hdigits
      refine ⟨⟨b, rest, rfl, (step_digit [] (hdigits b List.mem_cons_self)).1⟩, fun frames => ?_⟩
      obtain ⟨-, hstep⟩ := step_digit frames (hdigits b List.mem_cons_self)
      rw [List.foldlM_cons, Option.bind_eq_bind, Option.bind_eq_some_iff] at hread
      obtain ⟨m, hfirst, hrest⟩ := hread
      rw [hfirst] at hstep
      exact ⟨.number n, run_cons hstep (run_number hrest), Or.inr ⟨n, rfl, hcomplete, hvalue⟩⟩
  | negSucc k =>
    obtain ⟨n, hread, hcomplete, hvalue⟩ := read_nat true (k + 1)
    have htext : ascii (toString (Int.negSucc k)) = 0x2D :: ascii (toString ((k + 1 : Nat) : Int)) := by
      have happend : toString (Int.negSucc k) = "-" ++ toString ((k + 1 : Nat) : Int) := rfl
      rw [ascii, happend, String.toList_append, List.map_append]
      rfl
    rw [htext]
    refine ⟨⟨_, _, rfl, rfl, by decide⟩, fun frames => ?_⟩
    exact ⟨.number n, run_cons rfl (run_number hread), Or.inr ⟨n, rfl, hcomplete, hvalue⟩⟩

theorem exists_of_bind_ok {α β : Type} {x : Except TypeError α} {f : α → Except TypeError β} {b : β}
    (h : (x >>= f) = .ok b) : ∃ a, x = .ok a ∧ f a = .ok b := by
  cases x with
  | error e => cases h
  | ok a => exact ⟨a, rfl, h⟩

/-- The elements of an array that is not empty, up to its last one. -/
def ReadsElements (text : Bytes) (vs : List Value) : Prop :=
  (∃ b rest, text = b :: rest ∧ Opens b) ∧ ∀ before frames, ∃ pos ini v, vs = ini ++ [v] ∧ Ends pos v ∧
    run (.value, .array before :: frames) text = some (pos, .array (before ++ ini) :: frames)

/-- The members of an object that is not empty, up to its last one. -/
def ReadsMembers (text : Bytes) (members : List (Bytes × Value)) : Prop :=
  (∃ rest, text = 0x22 :: rest) ∧ ∀ before frames, ∃ pos ini name v, members = ini ++ [(name, v)] ∧ Ends pos v ∧
    run (.name, .object before :: frames) text = some (pos, .member (before ++ ini) name :: frames)

theorem ReadsAs.element {v : Value} (h : ReadsAs text v) : ReadsElements text [v] := by
  refine ⟨h.1, fun before frames => ?_⟩
  obtain ⟨pos, hrun, hends⟩ := h.2 (.array before :: frames)
  exact ⟨pos, [], v, rfl, hends, by rwa [List.append_nil]⟩

theorem ReadsAs.elements {v : Value} {vs : List Value} {text' : Bytes} (h : ReadsAs text v) (hrest : ReadsElements text' vs) :
    ReadsElements (text ++ ascii "," ++ text') (v :: vs) := by
  obtain ⟨⟨b, rest, rfl, hopens⟩, hfirst⟩ := h
  refine ⟨⟨b, rest ++ ascii "," ++ text', rfl, hopens⟩, fun before frames => ?_⟩
  obtain ⟨pos, hrun, hends⟩ := hfirst (.array before :: frames)
  obtain ⟨pos', ini, v', rfl, hends', hrun'⟩ := hrest.2 (before ++ [v]) frames
  refine ⟨pos', v :: ini, v', rfl, hends', ?_⟩
  rw [List.append_cons before v ini, List.append_assoc]
  exact run_append hrun (run_cons (hends.step (Or.inl rfl)) hrun')

theorem readsAs_array {vs : List Value} (h : ReadsElements text vs) : ReadsAs (ascii "[" ++ text ++ ascii "]") (.array vs) := by
  obtain ⟨⟨b, rest, rfl, hopens⟩, hread⟩ := h
  refine ⟨⟨0x5B, b :: rest ++ ascii "]", rfl, rfl, by decide⟩, fun frames => ?_⟩
  obtain ⟨pos, ini, v, rfl, hends, hrun⟩ := hread [] frames
  refine ⟨.after (.array (ini ++ [v])), ?_, Or.inl rfl⟩
  have hfirst : run (.first, frames) (b :: rest) = some (pos, .array ini :: frames) := by
    rw [run, List.foldlM_cons, step_first hopens]
    exact hrun
  have htext : ascii "[" ++ (b :: rest) ++ ascii "]" = 0x5B :: ((b :: rest) ++ [0x5D]) := rfl
  rw [htext]
  exact run_cons rfl (run_append hfirst (run_cons (hends.step (Or.inr (Or.inl rfl))) rfl))

theorem readsAs_object {members : List (Bytes × Value)} (h : ReadsMembers text members) :
    ReadsAs (ascii "\x7b" ++ text ++ ascii "\x7d") (.object members) := by
  obtain ⟨⟨rest, rfl⟩, hread⟩ := h
  refine ⟨⟨0x7B, 0x22 :: rest ++ ascii "\x7d", rfl, rfl, by decide⟩, fun frames => ?_⟩
  obtain ⟨pos, ini, name, v, rfl, hends, hrun⟩ := hread [] frames
  refine ⟨.after (.object (ini ++ [(name, v)])), ?_, Or.inl rfl⟩
  have hfirst : run (.firstName, frames) (0x22 :: rest) = some (pos, .member ini name :: frames) := hrun
  have htext : ascii "\x7b" ++ (0x22 :: rest) ++ ascii "\x7d" = 0x7B :: ((0x22 :: rest) ++ [0x7D]) := rfl
  rw [htext]
  exact run_cons rfl (run_append hfirst (run_cons (hends.step (Or.inr (Or.inr rfl))) rfl))

theorem readsAs_string {s : Bytes} (h : dumpEscaped s = .ok text) : ReadsAs (ascii "\"" ++ text ++ ascii "\"") (.string s) := by
  refine ⟨⟨0x22, text ++ ascii "\"", rfl, rfl, by decide⟩, fun frames => ?_⟩
  rw [List.append_assoc]
  exact ⟨.after (.string s), run_cons rfl (run_dumpEscaped h), Or.inl rfl⟩

/-- A name, its value, and what reads the rest of the object. -/
theorem ReadsAs.member {name key : Bytes} {v : Value} (hname : dumpEscaped key = .ok name) (h : ReadsAs text v)
    (before : List (Bytes × Value)) (frames : List Frame) :
    ∃ pos, Ends pos v ∧ run (.name, .object before :: frames) (ascii "\"" ++ name ++ ascii "\":" ++ text) =
      some (pos, .member before key :: frames) := by
  obtain ⟨pos, hrun, hends⟩ := h.2 (.member before key :: frames)
  refine ⟨pos, hends, ?_⟩
  have htext : ascii "\"" ++ name ++ ascii "\":" ++ text = 0x22 :: ((name ++ [0x22]) ++ 0x3A :: text) := by
    simp only [List.append_assoc]
    rfl
  rw [htext]
  exact run_cons rfl (run_append (run_dumpEscaped hname) (run_cons rfl hrun))

mutual

theorem readsAs_dump : ∀ (x : Json) {text : Bytes}, dump x = .ok text → ReadsAs text (value x)
  | .null, text, h => by
    obtain rfl := Except.ok.inj h
    exact ⟨⟨0x6E, ascii "ull", rfl, rfl, by decide⟩, fun frames => ⟨.after .null, rfl, Or.inl rfl⟩⟩
  | .number n, text, h => by
    obtain rfl := Except.ok.inj h
    exact readsAs_number n
  | .string s, text, h => by
    obtain ⟨name, hname, htext⟩ := exists_of_bind_ok h
    obtain rfl := Except.ok.inj htext
    exact readsAs_string hname
  | .array xs, text, h => by
    obtain ⟨elements, helements, htext⟩ := exists_of_bind_ok h
    obtain rfl := Except.ok.inj htext
    by_cases hxs : xs = []
    · subst hxs
      obtain rfl := Except.ok.inj helements
      exact ⟨⟨0x5B, ascii "]", rfl, rfl, by decide⟩, fun frames => ⟨.after (.array []), rfl, Or.inl rfl⟩⟩
    · exact readsAs_array (readsElements_dump xs hxs helements)
  | .object members, text, h => by
    obtain ⟨rest, hrest, htext⟩ := exists_of_bind_ok h
    obtain rfl := Except.ok.inj htext
    by_cases hmembers : members = []
    · subst hmembers
      obtain rfl := Except.ok.inj hrest
      exact ⟨⟨0x7B, ascii "\x7d", rfl, rfl, by decide⟩, fun frames => ⟨.after (.object []), rfl, Or.inl rfl⟩⟩
    · exact readsAs_object (readsMembers_dump members hmembers hrest)

theorem readsElements_dump : ∀ (xs : List Json) {text : Bytes}, xs ≠ [] → dumpElements xs = .ok text →
    ReadsElements text (values xs)
  | [], _, hne, _ => absurd rfl hne
  | [x], text, _, h => (readsAs_dump x h).element
  | x :: y :: xs, text, _, h => by
    obtain ⟨first, hfirst, h⟩ := exists_of_bind_ok h
    obtain ⟨rest, hrest, htext⟩ := exists_of_bind_ok h
    obtain rfl := Except.ok.inj htext
    exact (readsAs_dump x hfirst).elements (readsElements_dump (y :: xs) (List.cons_ne_nil _ _) hrest)

theorem readsMembers_dump : ∀ (members : List (Bytes × Json)) {text : Bytes}, members ≠ [] →
    dumpMembers members = .ok text → ReadsMembers text (memberValues members)
  | [], _, hne, _ => absurd rfl hne
  | [(key, x)], text, _, h => by
    obtain ⟨name, hname, h⟩ := exists_of_bind_ok h
    obtain ⟨first, hfirst, htext⟩ := exists_of_bind_ok h
    obtain rfl := Except.ok.inj htext
    refine ⟨⟨_, rfl⟩, fun before frames => ?_⟩
    obtain ⟨pos, hends, hrun⟩ := (readsAs_dump x hfirst).member hname before frames
    exact ⟨pos, [], key, value x, rfl, hends, by rwa [List.append_nil]⟩
  | (key, x) :: m :: members, text, _, h => by
    obtain ⟨name, hname, h⟩ := exists_of_bind_ok h
    obtain ⟨first, hfirst, h⟩ := exists_of_bind_ok h
    obtain ⟨rest, hrest, htext⟩ := exists_of_bind_ok h
    obtain rfl := Except.ok.inj htext
    refine ⟨⟨_, rfl⟩, fun before frames => ?_⟩
    obtain ⟨pos, hends, hrun⟩ := (readsAs_dump x hfirst).member hname before frames
    obtain ⟨pos', ini, key', v, heq, hends', hrun'⟩ :=
      (readsMembers_dump (m :: members) (List.cons_ne_nil _ _) hrest).2 (before ++ [(key, value x)]) frames
    refine ⟨pos', (key, value x) :: ini, key', v, by rw [memberValues, heq]; rfl, hends', ?_⟩
    rw [List.append_cons before _ ini, List.append_assoc]
    exact run_append hrun (run_cons (hends.step (Or.inl rfl)) hrun')

end

theorem ReadsAs.read {v : Value} (h : ReadsAs text v) : read text = some v := by
  obtain ⟨pos, hrun, hends⟩ := h.2 []
  exact hends.read hrun

/-- Every text that `dump` ends with is read back as the value. -/
theorem read_dump {x : Json} (h : dump x = .ok text) : read text = some (value x) := (readsAs_dump x h).read

/-- A name with a quote and a control character, a negative number, and a character of two bytes. -/
def quoted : Json :=
  .object [(ascii "a\"\n" ++ [0x01], .array [.number (-120), .null]), (ascii "b", .string [0xC3, 0xA9])]

theorem read_dump_quoted : ∃ text, dump quoted = .ok text ∧ read text = some (value quoted) := by
  have hok : (dump quoted).isOk = true := by decide +kernel
  cases hdump : dump quoted with
  | error e =>
    rw [hdump] at hok
    cases hok
  | ok text => exact ⟨text, rfl, read_dump hdump⟩

end Values

end AudioMeet.Json
