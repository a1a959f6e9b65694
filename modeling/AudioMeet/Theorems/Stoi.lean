import AudioMeet.Lib.Lists
import AudioMeet.Server
import Mathlib.Data.List.TakeWhile
import Mathlib.Data.Nat.Digits.Defs

/-! Decimal numerals, and the strings that `std::stoi` reads one from. -/

namespace AudioMeet
open Lib

def isSpace (b : UInt8) : Bool := (0x09 ≤ b && b ≤ 0x0D) || b == 0x20

def isDigit (b : UInt8) : Bool := 0x30 ≤ b && b ≤ 0x39

/-- The number that a row of digits denotes. -/
def decimal (s : Bytes) : Nat := Nat.ofDigits 10 (s.reverse.map fun b => b.toNat - 0x30)

/-- Digits and nothing else, which denote `n`. -/
structure Numeral (s : Bytes) (n : Nat) : Prop where
  ne_nil : s ≠ []
  digits : ∀ b ∈ s, isDigit b = true
  value : decimal s = n

/-- White space, a plus sign or none, and as many digits as follow. -/
structure Reads (s ws sign digits rest : Bytes) : Prop where
  eq : s = ws ++ (sign ++ (digits ++ rest))
  space : ∀ b ∈ ws, isSpace b = true
  plus : sign = [] ∨ sign = [0x2B]
  ne_nil : digits ≠ []
  digit : ∀ b ∈ digits, isDigit b = true
  stop : ∀ b ∈ rest.head?, isDigit b = false

theorem foldl_decimal (s : Bytes) : s.foldl (fun n b => 10 * n + (b.toNat - 0x30)) 0 = decimal s := by
  rw [decimal, Nat.ofDigits_eq_foldr, List.foldr_map, List.foldr_reverse]
  refine congrArg (fun f => s.foldl f 0) (funext fun n => funext fun b => ?_)
  simp [Nat.add_comm]

theorem Numeral.reads {s : Bytes} {n : Nat} (h : Numeral s n) : Reads s [] [] s [] :=
  ⟨by simp, nofun, Or.inl rfl, h.ne_nil, h.digits, nofun⟩

theorem not_space_of_digit {b : UInt8} (h : isDigit b = true) : isSpace b = false := by
  simp only [isDigit, Bool.and_eq_true, decide_eq_true_eq, UInt8.le_iff_toNat_le] at h
  have h1 : ¬ b.toNat ≤ 13 := fun hle => absurd (Nat.le_trans h.1 hle) (by decide)
  have h2 : b ≠ 0x20 := by rintro rfl; exact absurd h.1 (by decide)
  simp [isSpace, UInt8.le_iff_toNat_le, h1, h2]

/-- A string of digits is read whole. -/
theorem Reads.whole {s ws sign digits rest : Bytes} (h : Reads s ws sign digits rest) (hall : ∀ b ∈ s, isDigit b = true) :
    digits = s := by
  obtain ⟨rfl, hspace, hplus, -, -, hstop⟩ := h
  have hws : ws = [] := List.eq_nil_iff_forall_not_mem.mpr fun b hb => by
    have hdigit := not_space_of_digit (hall b (List.mem_append_left _ hb))
    rw [hspace b hb] at hdigit
    cases hdigit
  have hrest : rest = [] := by
    cases rest with
    | nil => rfl
    | cons b rest =>
      have hdigit := hall b (by simp)
      rw [hstop b rfl] at hdigit
      cases hdigit
  rcases hplus with rfl | rfl
  · simp [hws, hrest]
  · exact absurd (hall 0x2B (by simp)) (by decide)

/-- What `stoi` does behind the white space. -/
def signed (s : Bytes) : Option Int :=
  let negative := s.head? == some 0x2D
  let s := if negative || s.head? == some 0x2B then s.tail else s
  let digits := s.takeWhile isDigit
  let value : Int := if negative then -(decimal digits : Int) else decimal digits
  if digits.isEmpty then none
  else if -2147483648 ≤ value ∧ value ≤ 2147483647 then some value
  else none

theorem stoi_eq (s : Bytes) : stoi s = signed (s.dropWhile isSpace) := by
  simp only [stoi, signed, foldl_decimal]
  rfl

/-- `std::stoi` on a number without a minus sign. -/
theorem Reads.stoi {s ws sign digits rest : Bytes} (h : Reads s ws sign digits rest) :
    stoi s = if (decimal digits : Int) ≤ 2147483647 then some (decimal digits : Int) else none := by
  obtain ⟨rfl, hws, hsign, hne, hdigits, hstop⟩ := h
  have htake : (digits ++ rest).takeWhile isDigit = digits := by
    rw [List.takeWhile_append_of_pos hdigits]
    cases rest with
    | nil => simp
    | cons b rest => rw [List.takeWhile_cons_of_neg (by simp [hstop b rfl]), List.append_nil]
  have hvalue : ((-2147483648 : Int) ≤ decimal digits ∧ (decimal digits : Int) ≤ 2147483647) ↔
      (decimal digits : Int) ≤ 2147483647 := and_iff_right (by omega)
  have hread : ∀ s : Bytes, s.head? ≠ some 0x2D →
      (if s.head? == some 0x2B then s.tail else s) = digits ++ rest →
      signed s = if (decimal digits : Int) ≤ 2147483647 then some (decimal digits : Int) else none := by
    intro s hminus hs
    have hneg : (s.head? == some 0x2D) = false := by simpa using hminus
    simp only [signed, hneg, Bool.false_or, hs, htake, List.isEmpty_iff, hne, if_false, Bool.false_eq_true, hvalue]
  rw [stoi_eq, List.dropWhile_append_of_pos hws]
  obtain ⟨d, digits, rfl⟩ := List.exists_cons_of_ne_nil hne
  have hd := hdigits d List.mem_cons_self
  rcases hsign with rfl | rfl
  · rw [List.nil_append, List.cons_append, List.dropWhile_cons_of_neg (by simp [not_space_of_digit hd])]
    refine hread _ ?_ (if_neg ?_)
    · rintro ⟨⟩
      exact absurd hd (by decide)
    · simp only [List.head?_cons, beq_iff_eq, Option.some.injEq]
      rintro rfl
      exact absurd hd (by decide)
  · rw [List.singleton_append, List.dropWhile_cons_of_neg (by decide)]
    exact hread _ (by simp) rfl

/-- A positive number has no minus sign. -/
theorem signed_positive {s : Bytes} {v : Int} (h : signed s = some v) (hv : 1 ≤ v) : ∃ sign t, s = sign ++ t ∧
    (sign = [] ∨ sign = [0x2B]) ∧ t.takeWhile isDigit ≠ [] ∧ v = decimal (t.takeWhile isDigit) := by
  cases hneg : s.head? == some 0x2D with
  | true =>
    simp only [signed, hneg, Bool.true_or, if_true] at h
    split at h
    · cases h
    · split at h
      · obtain rfl := Option.some.inj h
        omega
      · cases h
  | false =>
    simp only [signed, hneg, Bool.false_or, Bool.false_eq_true, if_false] at h
    generalize ht : (if s.head? == some 0x2B then s.tail else s) = t at h
    have hread : t.takeWhile isDigit ≠ [] ∧ v = decimal (t.takeWhile isDigit) := by
      split at h
      · cases h
      · rename_i hne
        split at h
        · exact ⟨by simpa using hne, (Option.some.inj h).symm⟩
        · cases h
    split at ht
    · rename_i hplus
      refine ⟨[0x2B], t, ?_, Or.inr rfl, hread⟩
      rw [← ht, List.singleton_append, ← List.eq_cons_of_mem_head? (beq_iff_eq.mp hplus)]
    · exact ⟨[], t, ht, Or.inl rfl, hread⟩

/-- A positive number was read so. -/
theorem exists_reads {s : Bytes} {v : Int} (h : stoi s = some v) (hv : 1 ≤ v) :
    ∃ ws sign digits rest, Reads s ws sign digits rest ∧ v = decimal digits := by
  rw [stoi_eq] at h
  obtain ⟨sign, t, hs, hsign, hne, hvalue⟩ := signed_positive h hv
  refine ⟨s.takeWhile isSpace, sign, t.takeWhile isDigit, t.dropWhile isDigit, ⟨?_, ?_, hsign, hne, ?_, ?_⟩, hvalue⟩
  · rw [List.takeWhile_append_dropWhile, ← hs, List.takeWhile_append_dropWhile]
  · exact fun b => List.mem_takeWhile_imp
  · exact fun b => List.mem_takeWhile_imp
  · intro b hb
    have hstop := List.head?_dropWhile_not isDigit t
    rw [hb] at hstop
    simpa using hstop

end AudioMeet
