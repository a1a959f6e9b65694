import Mathlib.Data.List.Basic
import Mathlib.Data.Nat.Bitwise

/-! Byte strings: ASCII texts, big-endian words, and decimal numbers. -/

namespace AudioMeet.Lib

abbrev Bytes := List UInt8

def ascii (s : String) : Bytes := s.toList.map fun c => UInt8.ofNat c.toNat

def be16 (x : UInt16) : Bytes := [(x >>> 8).toUInt8, (x &&& 0xFF).toUInt8]

def be32 (x : UInt32) : Bytes :=
  [(x >>> 24).toUInt8, ((x >>> 16) &&& 0xFF).toUInt8, ((x >>> 8) &&& 0xFF).toUInt8, (x &&& 0xFF).toUInt8]

def ofBe16 (b₀ b₁ : UInt8) : UInt16 := (b₀.toUInt16 <<< 8) ||| b₁.toUInt16

def ofBe32 (b₀ b₁ b₂ b₃ : UInt8) : UInt32 :=
  (b₀.toUInt32 <<< 24) ||| (b₁.toUInt32 <<< 16) ||| (b₂.toUInt32 <<< 8) ||| b₃.toUInt32

@[simp] theorem length_be16 (x : UInt16) : (be16 x).length = 2 := rfl
@[simp] theorem length_be32 (x : UInt32) : (be32 x).length = 4 := rfl

theorem be16_ne_nil (x : UInt16) : be16 x ≠ [] := List.cons_ne_nil _ _

/-! ### Bits of a byte -/

theorem toNat_and_mask (b : UInt8) {m : UInt8} {k : Nat} (hm : m.toNat = 2 ^ k - 1) :
    (b &&& m).toNat = b.toNat % 2 ^ k := by
  rw [UInt8.toNat_and, hm, Nat.and_two_pow_sub_one_eq_mod]

theorem and_bit_ne_zero (b : UInt8) {m : UInt8} {k : Nat} (hm : m.toNat = 2 ^ k) :
    b &&& m ≠ 0 ↔ b.toNat / 2 ^ k % 2 = 1 := by
  have hpos : 0 < 2 ^ k := Nat.two_pow_pos k
  rw [ne_eq, ← UInt8.toNat_inj, UInt8.toNat_and, hm, Nat.and_two_pow, Nat.testBit_eq_decide_div_mod_eq]
  rcases Nat.mod_two_eq_zero_or_one (b.toNat / 2 ^ k) with h | h <;> simp [h]

theorem toNat_bit (b : UInt8) {m : UInt8} {k : Nat} (hm : m.toNat = 2 ^ k) :
    (decide (b &&& m ≠ 0)).toNat = b.toNat / 2 ^ k % 2 := by
  have hbit := and_bit_ne_zero b hm
  by_cases h : b.toNat / 2 ^ k % 2 = 1
  · rw [decide_eq_true (hbit.mpr h), h, Bool.toNat_true]
  · rw [decide_eq_false (mt hbit.mp h), Bool.toNat_false]
    omega

theorem bit_inj {x y : Bool} (h : x.toNat = y.toNat) : x = y := by
  cases x <;> cases y <;> first | rfl | exact absurd h (by decide)

/-! ### The bytes of a word are its digits to the base 256 -/

theorem toNat_and_FF16 (x : UInt16) : (x &&& 0xFF).toUInt8.toNat = x.toNat % 256 := by
  rw [UInt16.toNat_toUInt8, UInt16.toNat_and]
  change (x.toNat &&& 2 ^ 8 - 1) % 256 = _
  rw [Nat.and_two_pow_sub_one_eq_mod]
  omega

theorem toNat_shift16 (x : UInt16) : (x >>> 8).toUInt8.toNat = x.toNat / 256 := by
  have := x.toNat_lt
  rw [UInt16.toNat_toUInt8, UInt16.toNat_shiftRight]
  change x.toNat >>> 8 % 256 = _
  rw [Nat.shiftRight_eq_div_pow]
  omega

theorem toNat_and_FF32 (x : UInt32) : (x &&& 0xFF).toUInt8.toNat = x.toNat % 256 := by
  rw [UInt32.toNat_toUInt8, UInt32.toNat_and]
  change (x.toNat &&& 2 ^ 8 - 1) % 256 = _
  rw [Nat.and_two_pow_sub_one_eq_mod]
  omega

theorem toNat_ofBe16 (b₀ b₁ : UInt8) : (ofBe16 b₀ b₁).toNat = b₀.toNat * 256 + b₁.toNat := by
  have h₀ := b₀.toNat_lt
  have h₁ := b₁.toNat_lt
  rw [ofBe16, UInt16.toNat_or, UInt16.toNat_shiftLeft, UInt8.toNat_toUInt16, UInt8.toNat_toUInt16]
  change b₀.toNat <<< 8 % 2 ^ 16 ||| b₁.toNat = _
  rw [Nat.mod_eq_of_lt (by rw [Nat.shiftLeft_eq]; omega), ← Nat.shiftLeft_add_eq_or_of_lt h₁,
    Nat.shiftLeft_eq]

theorem toNat_ofBe32 (b₀ b₁ b₂ b₃ : UInt8) : (ofBe32 b₀ b₁ b₂ b₃).toNat =
    ((b₀.toNat * 256 + b₁.toNat) * 256 + b₂.toNat) * 256 + b₃.toNat := by
  have h₀ := b₀.toNat_lt
  have h₁ := b₁.toNat_lt
  have h₂ := b₂.toNat_lt
  have h₃ := b₃.toNat_lt
  have e₀ : b₀.toNat <<< 24 % 2 ^ 32 = b₀.toNat <<< 24 := Nat.mod_eq_of_lt (by rw [Nat.shiftLeft_eq]; omega)
  have e₁ : b₁.toNat <<< 16 % 2 ^ 32 = b₁.toNat <<< 16 := Nat.mod_eq_of_lt (by rw [Nat.shiftLeft_eq]; omega)
  have e₂ : b₂.toNat <<< 8 % 2 ^ 32 = b₂.toNat <<< 8 := Nat.mod_eq_of_lt (by rw [Nat.shiftLeft_eq]; omega)
  simp only [ofBe32, UInt32.toNat_or, UInt32.toNat_shiftLeft, UInt8.toNat_toUInt32]
  change b₀.toNat <<< 24 % 2 ^ 32 ||| b₁.toNat <<< 16 % 2 ^ 32 ||| b₂.toNat <<< 8 % 2 ^ 32 ||| b₃.toNat = _
  -- From the last byte up: each shifted byte ends where the bytes after it begin.
  rw [e₀, e₁, e₂, Nat.or_assoc, Nat.or_assoc, ← Nat.shiftLeft_add_eq_or_of_lt (i := 8) h₃,
    ← Nat.shiftLeft_add_eq_or_of_lt (i := 16) (by rw [Nat.shiftLeft_eq]; omega),
    ← Nat.shiftLeft_add_eq_or_of_lt (i := 24) (by simp only [Nat.shiftLeft_eq]; omega)]
  simp only [Nat.shiftLeft_eq]
  omega

/-! ### Round trips -/

theorem ofBe16_be16 (x : UInt16) : ofBe16 (x >>> 8).toUInt8 (x &&& 0xFF).toUInt8 = x := by
  rw [← UInt16.toNat_inj, toNat_ofBe16, toNat_shift16, toNat_and_FF16]
  omega

theorem be16_inj {x y : UInt16} (h : be16 x = be16 y) : x = y := by
  simp only [be16, List.cons.injEq, and_true] at h
  rw [← ofBe16_be16 x, ← ofBe16_be16 y, h.1, h.2]

theorem be16_ofBe16 (b₀ b₁ : UInt8) : be16 (ofBe16 b₀ b₁) = [b₀, b₁] := by
  have h₁ := b₁.toNat_lt
  simp only [be16, List.cons.injEq, and_true, ← UInt8.toNat_inj, toNat_shift16, toNat_and_FF16, toNat_ofBe16]
  omega

theorem toNat_shiftRight32 (x : UInt32) (k : UInt32) (hk : k.toNat < 32) :
    (x >>> k).toNat = x.toNat / 2 ^ k.toNat := by
  rw [UInt32.toNat_shiftRight, Nat.mod_eq_of_lt hk, Nat.shiftRight_eq_div_pow]

/-- The digits of a word of 32 bits, from the first. -/
theorem toNat_digits32 (x : UInt32) : (x >>> 24).toUInt8.toNat = x.toNat / 16777216 ∧
    ((x >>> 16) &&& 0xFF).toUInt8.toNat = x.toNat / 65536 % 256 ∧
    ((x >>> 8) &&& 0xFF).toUInt8.toNat = x.toNat / 256 % 256 ∧ (x &&& 0xFF).toUInt8.toNat = x.toNat % 256 := by
  have hx := x.toNat_lt
  refine ⟨?_, ?_, ?_, toNat_and_FF32 x⟩
  · rw [UInt32.toNat_toUInt8, toNat_shiftRight32 x 24 (by decide)]
    change x.toNat / 2 ^ 24 % 256 = _
    omega
  · rw [toNat_and_FF32, toNat_shiftRight32 x 16 (by decide)]
    rfl
  · rw [toNat_and_FF32, toNat_shiftRight32 x 8 (by decide)]
    rfl

theorem ofBe32_be32 (x : UInt32) :
    ofBe32 (x >>> 24).toUInt8 ((x >>> 16) &&& 0xFF).toUInt8 ((x >>> 8) &&& 0xFF).toUInt8 (x &&& 0xFF).toUInt8 =
      x := by
  have hx := x.toNat_lt
  obtain ⟨h₀, h₁, h₂, h₃⟩ := toNat_digits32 x
  rw [← UInt32.toNat_inj, toNat_ofBe32, h₀, h₁, h₂, h₃]
  omega

theorem be32_ofBe32 (b₀ b₁ b₂ b₃ : UInt8) : be32 (ofBe32 b₀ b₁ b₂ b₃) = [b₀, b₁, b₂, b₃] := by
  have h₀ := b₀.toNat_lt
  have h₁ := b₁.toNat_lt
  have h₂ := b₂.toNat_lt
  have h₃ := b₃.toNat_lt
  have hx := toNat_ofBe32 b₀ b₁ b₂ b₃
  obtain ⟨d₀, d₁, d₂, d₃⟩ := toNat_digits32 (ofBe32 b₀ b₁ b₂ b₃)
  simp only [be32, List.cons.injEq, and_true, ← UInt8.toNat_inj, d₀, d₁, d₂, d₃, hx]
  omega

/-! ### Words in a row -/

@[simp] theorem length_flatMap_be32 (ws : List UInt32) : (ws.flatMap be32).length = ws.length * 4 := by
  induction ws with
  | nil => rfl
  | cons w ws ih =>
    rw [List.flatMap_cons, List.length_append, ih, length_be32, List.length_cons]
    omega

theorem exists_four {bs : Bytes} (h : 4 ≤ bs.length) : ∃ b₀ b₁ b₂ b₃ rest, bs = b₀ :: b₁ :: b₂ :: b₃ :: rest := by
  rcases bs with _ | ⟨b₀, _ | ⟨b₁, _ | ⟨b₂, _ | ⟨b₃, rest⟩⟩⟩⟩
  case cons.cons.cons.cons => exact ⟨b₀, b₁, b₂, b₃, rest, rfl⟩
  all_goals simp at h

/-- Bytes whose number is a multiple of four are words. -/
theorem exists_words (n : Nat) {bs : Bytes} (h : bs.length = n * 4) :
    ∃ ws : List UInt32, ws.length = n ∧ bs = ws.flatMap be32 := by
  induction n generalizing bs with
  | zero => exact ⟨[], rfl, List.length_eq_zero_iff.mp (by omega)⟩
  | succ n ih =>
    obtain ⟨b₀, b₁, b₂, b₃, rest, rfl⟩ := exists_four (show 4 ≤ bs.length by omega)
    simp only [List.length_cons] at h
    obtain ⟨ws, hlen, rfl⟩ := ih (show rest.length = n * 4 by omega)
    exact ⟨ofBe32 b₀ b₁ b₂ b₃ :: ws, by simp [hlen], by simp [be32_ofBe32]⟩

/-! ### Decimal numbers -/

theorem ascii_repr (n : Nat) : ascii (toString (n : Int)) = (Nat.toDigits 10 n).map fun c => UInt8.ofNat c.toNat := by
  have h : (toString (n : Int)).toList = Nat.toDigits 10 n := Nat.toList_repr
  rw [ascii, h]

theorem isDigit_byte {c : Char} (h : c.isDigit = true) :
    (0x30 ≤ UInt8.ofNat c.toNat && UInt8.ofNat c.toNat ≤ 0x39) = true ∧ (UInt8.ofNat c.toNat).toNat = c.toNat := by
  simp only [Char.isDigit, Bool.and_eq_true, decide_eq_true_eq] at h
  have h1 : 48 ≤ c.toNat := h.1
  have h2 : c.toNat ≤ 57 := h.2
  have h3 : (UInt8.ofNat c.toNat).toNat = c.toNat := UInt8.toNat_ofNat_of_lt' (show c.toNat < 256 by omega)
  simp only [Bool.and_eq_true, decide_eq_true_eq, UInt8.le_iff_toNat_le, h3]
  exact ⟨⟨h1, h2⟩, trivial⟩

theorem digits_repr (n : Nat) : ∀ b ∈ ascii (toString (n : Int)), (0x30 ≤ b && b ≤ 0x39) = true := by
  intro b hb
  rw [ascii_repr, List.mem_map] at hb
  obtain ⟨c, hc, rfl⟩ := hb
  exact (isDigit_byte (Nat.isDigit_of_mem_toDigits (by decide) (by decide) hc)).1

theorem read_repr (n : Nat) :
    (ascii (toString (n : Int))).foldl (fun n b => 10 * n + (b.toNat - 0x30)) 0 = n := by
  have hall : ∀ (cs : List Char) (k : Nat), (∀ c ∈ cs, c.isDigit = true) →
      (cs.map fun c => UInt8.ofNat c.toNat).foldl (fun n b => 10 * n + (b.toNat - 0x30)) k = Nat.ofDigitChars 10 cs k := by
    intro cs
    induction cs with
    | nil => exact fun k _ => rfl
    | cons c cs ih =>
      intro k hcs
      obtain ⟨hc, hcs⟩ := List.forall_mem_cons.mp hcs
      rw [List.map_cons, List.foldl_cons, (isDigit_byte hc).2, ih _ hcs, Nat.ofDigitChars_cons]
      rfl
  rw [ascii_repr, hall _ _ fun c hc => Nat.isDigit_of_mem_toDigits (by decide) (by decide) hc]
  exact Nat.ofDigitChars_ten_toDigits

end AudioMeet.Lib
