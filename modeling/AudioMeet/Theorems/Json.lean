import AudioMeet.Json
import AudioMeet.Lib.Utf8

/-! `dump` ends with a text exactly when every string of the value is UTF-8. -/

namespace AudioMeet.Json
open Lib

/-! ### The decoder knows the ranges that are due -/

/-- The states of the decoder between the bytes of a text, and what is due in each. -/
def dueIn : List (Nat × List Utf8.Range) :=
  [(0, []), (2, [Utf8.tail]), (3, [Utf8.tail, Utf8.tail]), (4, [(0xA0, 0xBF), Utf8.tail]),
   (5, [(0x80, 0x9F), Utf8.tail]), (6, [(0x90, 0xBF), Utf8.tail, Utf8.tail]),
   (7, [Utf8.tail, Utf8.tail, Utf8.tail]), (8, [(0x80, 0x8F), Utf8.tail, Utf8.tail])]

/-- One byte takes the decoder to the state of what is then due, or makes it reject. -/
def Follows (state : Nat) (due : List Utf8.Range) (byte : UInt8) : Bool :=
  match Utf8.advance due byte with
  | some due' => dueIn.contains (nextState state byte, due')
  | none => nextState state byte == UTF8_REJECT

theorem follows_all : ∀ e ∈ dueIn, ∀ n < 256, Follows e.1 e.2 (UInt8.ofNat n) = true := by decide +kernel

theorem follows {state : Nat} {due : List Utf8.Range} (h : (state, due) ∈ dueIn) (byte : UInt8) :
    Follows state due byte = true := by
  have := follows_all _ h byte.toNat byte.toNat_lt
  rwa [UInt8.ofNat_toNat] at this

theorem ne_reject {state : Nat} {due : List Utf8.Range} (h : (state, due) ∈ dueIn) : state ≠ UTF8_REJECT := by
  revert h
  simp only [dueIn, List.mem_cons, Prod.mk.injEq, List.not_mem_nil, or_false]
  rintro (⟨rfl, -⟩ | ⟨rfl, -⟩ | ⟨rfl, -⟩ | ⟨rfl, -⟩ | ⟨rfl, -⟩ | ⟨rfl, -⟩ | ⟨rfl, -⟩ | ⟨rfl, -⟩) <;> decide

theorem accept_iff {state : Nat} {due : List Utf8.Range} (h : (state, due) ∈ dueIn) :
    state = UTF8_ACCEPT ↔ due = [] := by
  revert h
  simp only [dueIn, List.mem_cons, Prod.mk.injEq, List.not_mem_nil, or_false]
  rintro (⟨rfl, rfl⟩ | ⟨rfl, rfl⟩ | ⟨rfl, rfl⟩ | ⟨rfl, rfl⟩ | ⟨rfl, rfl⟩ | ⟨rfl, rfl⟩ | ⟨rfl, rfl⟩ | ⟨rfl, rfl⟩) <;>
    simp [UTF8_ACCEPT]

/-! ### Texts -/

theorem isOk_bind_ok {α β : Type} (x : Except TypeError α) (f : α → β) :
    (x >>= fun a => Except.ok (f a)).isOk = x.isOk := by
  cases x <;> rfl

/-- The loop of `dump_escaped` ends with a text exactly when the rest of the string completes what is due. -/
theorem isOk_dumpEscapedFrom : ∀ (s : Bytes) (codep : UInt32) (i : Nat) (last : UInt8) {state : Nat}
    {due : List Utf8.Range}, (state, due) ∈ dueIn → (dumpEscapedFrom state codep i last s).isOk = Utf8.accepts due s
  | [], codep, i, last, state, due, h => by
    have hacc := accept_iff h
    by_cases hs : state = UTF8_ACCEPT
    · rw [dumpEscapedFrom, if_pos hs, hacc.mp hs]
      rfl
    · have hdue : due ≠ [] := fun hd => hs (hacc.mpr hd)
      rw [dumpEscapedFrom, if_neg hs]
      cases due with
      | nil => exact absurd rfl hdue
      | cons r due => rfl
  | byte :: rest, codep, i, last, state, due, h => by
    have hf := follows h byte
    unfold Follows at hf
    cases hadv : Utf8.advance due byte with
    | none =>
      simp only [hadv, beq_iff_eq] at hf
      simp only [dumpEscapedFrom, Utf8.accepts, hadv, if_pos hf]
      rfl
    | some due' =>
      simp only [hadv, List.contains_iff_mem] at hf
      simp only [dumpEscapedFrom, Utf8.accepts, hadv, if_neg (ne_reject hf), isOk_bind_ok]
      exact isOk_dumpEscapedFrom rest _ _ _ hf

theorem isOk_dumpEscaped (s : Bytes) : (dumpEscaped s).isOk = true ↔ Utf8.Valid s := by
  have h : (UTF8_ACCEPT, []) ∈ dueIn := List.mem_cons_self
  rw [Utf8.valid_iff, dumpEscaped, isOk_dumpEscapedFrom s 0 0 0 h]

mutual

/-- Every string of the value, the keys among them, is UTF-8. -/
def Printable : Json → Prop
  | .null | .number _ => True
  | .string s => Utf8.Valid s
  | .array xs => PrintableElements xs
  | .object members => PrintableMembers members

def PrintableElements : List Json → Prop
  | [] => True
  | x :: rest => Printable x ∧ PrintableElements rest

def PrintableMembers : List (Bytes × Json) → Prop
  | [] => True
  | (key, value) :: rest => Utf8.Valid key ∧ Printable value ∧ PrintableMembers rest

end

theorem isOk_bind_iff {α β : Type} {x : Except TypeError α} {f : α → Except TypeError β} {p : Prop}
    (h : ∀ a, (f a).isOk = true ↔ p) : (x >>= f).isOk = true ↔ x.isOk = true ∧ p := by
  cases x with
  | error e => simp [bind, Except.bind, Except.isOk, Except.toBool]
  | ok a => simpa [bind, Except.bind, Except.isOk, Except.toBool] using h a

mutual

theorem isOk_dump : ∀ j : Json, (dump j).isOk = true ↔ Printable j
  | .null => by simp [dump, Printable, Except.isOk, Except.toBool]
  | .number n => by simp [dump, Printable, Except.isOk, Except.toBool]
  | .string s => by
    rw [dump, isOk_bind_ok, isOk_dumpEscaped, Printable]
  | .array xs => by
    rw [dump, isOk_bind_ok, isOk_dumpElements xs, Printable]
  | .object members => by
    rw [dump, isOk_bind_ok, isOk_dumpMembers members, Printable]

theorem isOk_dumpElements : ∀ xs : List Json, (dumpElements xs).isOk = true ↔ PrintableElements xs
  | [] => by simp [dumpElements, PrintableElements, Except.isOk, Except.toBool]
  | [x] => by rw [dumpElements, isOk_dump x, PrintableElements, PrintableElements, and_true]
  | x :: y :: rest => by
    rw [dumpElements, PrintableElements, ← isOk_dump x, ← isOk_dumpElements (y :: rest)]
    exact isOk_bind_iff fun first => by rw [isOk_bind_ok]

theorem isOk_dumpMembers : ∀ members : List (Bytes × Json), (dumpMembers members).isOk = true ↔ PrintableMembers members
  | [] => by simp [dumpMembers, PrintableMembers, Except.isOk, Except.toBool]
  | [(key, value)] => by
    rw [dumpMembers, PrintableMembers, PrintableMembers, and_true, ← isOk_dumpEscaped key, ← isOk_dump value]
    exact isOk_bind_iff fun name => by rw [isOk_bind_ok]
  | (key, value) :: y :: rest => by
    rw [dumpMembers, PrintableMembers, ← isOk_dumpEscaped key, ← isOk_dump value, ← isOk_dumpMembers (y :: rest)]
    exact isOk_bind_iff fun name => isOk_bind_iff fun first => by rw [isOk_bind_ok]

end

/-! ### Values by their parts -/

theorem printableElements_iff {xs : List Json} : PrintableElements xs ↔ ∀ x ∈ xs, Printable x := by
  induction xs with
  | nil => simp [PrintableElements]
  | cons x xs ih => rw [PrintableElements, ih, List.forall_mem_cons]

theorem printableMembers_iff {members : List (Bytes × Json)} :
    PrintableMembers members ↔ ∀ m ∈ members, Utf8.Valid m.1 ∧ Printable m.2 := by
  induction members with
  | nil => simp [PrintableMembers]
  | cons m members ih => rw [PrintableMembers, ih, List.forall_mem_cons, and_assoc]

theorem mem_insert {key : Bytes} {value : Json} {members : List (Bytes × Json)} (hnew : ∀ m ∈ members, m.1 ≠ key)
    {x : Bytes × Json} : x ∈ insert key value members ↔ x = (key, value) ∨ x ∈ members := by
  induction members with
  | nil => simp [insert]
  | cons m members ih =>
    obtain ⟨hm, hrest⟩ := List.forall_mem_cons.mp hnew
    simp only [insert]
    split
    · simp
    · rw [if_neg hm.symm, List.mem_cons, ih hrest, List.mem_cons, or_left_comm]

/-- An object with distinct names has the members that it is made of. -/
theorem mem_ofMembers {members : List (String × Json)} (hnames : (members.map fun m => ascii m.1).Nodup) :
    ∃ fields, ofMembers members = .object fields ∧
      ∀ x, x ∈ fields ↔ ∃ m ∈ members, x = (ascii m.1, m.2) := by
  suffices h : ∀ acc : List (Bytes × Json), (∀ x ∈ acc, ∀ m ∈ members, x.1 ≠ ascii m.1) → ∀ x,
      x ∈ members.foldl (fun acc m => insert (ascii m.1) m.2 acc) acc ↔
        x ∈ acc ∨ ∃ m ∈ members, x = (ascii m.1, m.2) by
    exact ⟨_, rfl, fun x => (h [] nofun x).trans (or_iff_right List.not_mem_nil)⟩
  induction members with
  | nil => simp
  | cons m members ih =>
    intro acc hacc x
    rw [List.map_cons, List.nodup_cons] at hnames
    have hnew : ∀ y ∈ acc, y.1 ≠ ascii m.1 := fun y hy => hacc y hy m List.mem_cons_self
    rw [List.foldl_cons, ih hnames.2, mem_insert hnew, List.exists_mem_cons_iff, or_assoc, or_left_comm]
    intro y hy m' hm'
    rcases (mem_insert hnew).mp hy with rfl | hy
    · exact fun heq => hnames.1 (List.mem_map.mpr ⟨m', hm', heq.symm⟩)
    · exact hacc y hy m' (List.mem_cons_of_mem _ hm')

theorem printable_ofMembers {members : List (String × Json)} (names : List String) (hnames : members.map Prod.fst = names)
    (h : (names.map ascii).Nodup ∧ ∀ name ∈ names, Utf8.Valid (ascii name)) :
    Printable (ofMembers members) ↔ ∀ m ∈ members, Printable m.2 := by
  subst hnames
  rw [List.map_map] at h
  obtain ⟨fields, hfields, hmem⟩ := mem_ofMembers h.1
  rw [hfields, Printable, printableMembers_iff]
  constructor
  · exact fun h m hm => (h _ ((hmem _).mpr ⟨m, hm, rfl⟩)).2
  · intro hvalues x hx
    obtain ⟨m, hm, rfl⟩ := (hmem x).mp hx
    exact ⟨h.2 m.1 (List.mem_map_of_mem hm), hvalues m hm⟩

end AudioMeet.Json
