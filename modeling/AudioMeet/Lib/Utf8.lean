import AudioMeet.Lib.Bytes
import Mathlib.Data.List.Forall2

/-! Well-formed UTF-8. The first byte of a code point fixes the ranges of the bytes after it, so a reader
    only has to know which ranges are still due. -/

namespace AudioMeet.Lib.Utf8

/-- The least and the greatest byte that may stand in a place. -/
abbrev Range := UInt8 × UInt8

def Range.Holds (r : Range) (b : UInt8) : Prop := r.1 ≤ b ∧ b ≤ r.2

instance (r : Range) (b : UInt8) : Decidable (r.Holds b) := inferInstanceAs (Decidable (_ ∧ _))

/-- Any byte that continues a code point. -/
def tail : Range := (0x80, 0xBF)

/-- The ranges of the bytes after a first byte; nothing when no code point begins with it. -/
def follow (b : UInt8) : Option (List Range) :=
  if b ≤ 0x7F then some []
  else if b ≤ 0xC1 then none
  else if b ≤ 0xDF then some [tail]
  else if b = 0xE0 then some [(0xA0, 0xBF), tail]
  else if b = 0xED then some [(0x80, 0x9F), tail]
  else if b ≤ 0xEF then some [tail, tail]
  else if b = 0xF0 then some [(0x90, 0xBF), tail, tail]
  else if b ≤ 0xF3 then some [tail, tail, tail]
  else if b = 0xF4 then some [(0x80, 0x8F), tail, tail]
  else none

/-- A sequence of code points. -/
inductive Valid : Bytes → Prop
  | nil : Valid []
  | cons {b : UInt8} {due : List Range} {bs rest : Bytes} :
      follow b = some due → List.Forall₂ Range.Holds due bs → Valid rest → Valid (b :: bs ++ rest)

/-- The ranges due after one more byte. -/
def advance : List Range → UInt8 → Option (List Range)
  | [], b => follow b
  | r :: due, b => if r.Holds b then some due else none

/-- Reads bytes while the ranges `due` stand open; true when it ends between two code points. -/
def accepts (due : List Range) : Bytes → Bool
  | [] => due.isEmpty
  | b :: bs =>
    match advance due b with
    | some due => accepts due bs
    | none => false

/-- What a reader accepts completes the ranges that are due and goes on with whole code points. -/
theorem accepts_iff : ∀ {s : Bytes} {due : List Range},
    accepts due s = true ↔ ∃ bs rest, List.Forall₂ Range.Holds due bs ∧ s = bs ++ rest ∧ Valid rest
  | [], due => by
    constructor
    · intro h
      obtain rfl : due = [] := by simpa [accepts] using h
      exact ⟨[], [], .nil, rfl, .nil⟩
    · rintro ⟨bs, rest, hf, hs, -⟩
      obtain ⟨rfl, rfl⟩ := List.append_eq_nil_iff.mp hs.symm
      cases hf
      rfl
  | b :: s, [] => by
    constructor
    · intro h
      simp only [accepts, advance] at h
      split at h
      · rename_i due hdue
        obtain ⟨bs, rest, hf, rfl, hv⟩ := accepts_iff.mp h
        exact ⟨[], b :: bs ++ rest, .nil, rfl, .cons hdue hf hv⟩
      · cases h
    · rintro ⟨bs, rest, hf, hs, hv⟩
      cases hf
      rw [List.nil_append] at hs
      subst hs
      cases hv with
      | @cons _ due bs rest hdue hf hv =>
        simp only [accepts, advance, hdue]
        exact accepts_iff.mpr ⟨bs, rest, hf, rfl, hv⟩
  | b :: s, r :: due => by
    constructor
    · intro h
      simp only [accepts, advance] at h
      by_cases hb : r.Holds b
      · rw [if_pos hb] at h
        obtain ⟨bs, rest, hf, rfl, hv⟩ := accepts_iff.mp h
        exact ⟨b :: bs, rest, .cons hb hf, rfl, hv⟩
      · rw [if_neg hb] at h
        cases h
    · rintro ⟨bs, rest, hf, hs, hv⟩
      cases hf with
      | @cons _ c _ bs hb hf =>
        obtain ⟨rfl, rfl⟩ := List.cons_eq_cons.mp hs
        simp only [accepts, advance, if_pos hb]
        exact accepts_iff.mpr ⟨bs, rest, hf, rfl, hv⟩

/-- A reader that starts between two code points accepts the sequences of code points. -/
theorem valid_iff (s : Bytes) : Valid s ↔ accepts [] s = true := by
  rw [accepts_iff]
  constructor
  · exact fun h => ⟨[], s, .nil, rfl, h⟩
  · rintro ⟨bs, rest, hf, rfl, hv⟩
    cases hf
    exact hv

instance : DecidablePred Valid := fun s => decidable_of_iff _ (valid_iff s).symm

/-- ASCII is UTF-8. -/
theorem valid_of_ascii {s : Bytes} (h : ∀ b ∈ s, b ≤ 0x7F) : Valid s := by
  induction s with
  | nil => exact .nil
  | cons b s ih =>
    have hb : follow b = some [] := if_pos (h b List.mem_cons_self)
    exact .cons hb .nil (ih fun c hc => h c (List.mem_cons_of_mem _ hc))

end AudioMeet.Lib.Utf8
