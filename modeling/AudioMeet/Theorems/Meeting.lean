import AudioMeet.Meeting

/-! What a section of a meeting does to its participants. -/

namespace AudioMeet.Meeting
open Lib

variable {m m' : Meeting} {p : Participant} {ans : AddAnswer} {calls : List AddCall}

/-- An add that succeeds found no participant of its id, and a pool and a bridge to use. -/
structure Joins (m : Meeting) (p : Participant) (m' : Meeting) (slot : Nat) : Prop where
  absent : m.participants_[p.part_id_]? = none
  pool_ : m.pool_ = true
  conf_ : m.conf_ = true
  eq : m' = { m with participants_ := m.participants_.insert p.part_id_ (p, slot) }

theorem add_joins (h : m.add p ans = (.added m', calls)) :
    ∃ slot, ans.slot = some slot ∧ m.Joins p m' slot ∧
      calls = [.start, .createMediaPort true, .confAddPort true] := by
  unfold add at h
  split at h
  · cases h
  · rename_i hc
    split at h
    · cases h
    · split at h
      · cases h
      · rename_i hpool
        split at h
        · cases h
        · split at h
          · cases h
          · rename_i hconf
            split at h
            · cases h
            · rename_i slot hslot
              obtain ⟨hm, rfl⟩ := Prod.mk.inj h
              simp only [Bool.not_eq_true, Bool.not_eq_false'] at hpool hconf hc
              refine ⟨slot, hslot, ⟨?_, hpool, hconf, (AddResult.added.inj hm).symm⟩, by rw [hpool, hconf]⟩
              rw [Std.ExtTreeMap.contains_eq_isSome_getElem?, Option.isSome_eq_false_iff] at hc
              exact Option.isNone_iff_eq_none.mp hc

/-- A null pointer is followed only when the meeting has no pool or no bridge. -/
theorem add_crashed (h : m.add p ans = (.crashed, calls)) :
    m.participants_.contains p.part_id_ = false ∧ ans.started = true ∧ (m.pool_ = false ∨ m.conf_ = false) := by
  unfold add at h
  split at h
  · cases h
  · rename_i hc
    split at h
    · cases h
    · rename_i hstarted
      refine ⟨Bool.eq_false_iff.mpr hc, by simpa using hstarted, ?_⟩
      split at h
      · rename_i hpool
        exact Or.inl (by simpa using hpool)
      · split at h
        · cases h
        · split at h
          · rename_i hconf
            exact Or.inr (by simpa using hconf)
          · split at h <;> cases h

/-- An add that answers a null pointer found the participant, or one of its calls failed. -/
theorem add_nullptr (h : m.add p ans = (.nullptr, calls)) :
    m.participants_.contains p.part_id_ = true ∨
      (m.participants_.contains p.part_id_ = false ∧ (ans.started = true → m.pool_ = true) ∧
        ¬ (ans.started = true ∧ ans.media_port = true ∧ ans.slot.isSome = true)) := by
  unfold add at h
  split at h
  · rename_i hc
    exact Or.inl hc
  · rename_i hc
    refine Or.inr ⟨Bool.eq_false_iff.mpr hc, ?_⟩
    split at h
    · rename_i hstarted
      rw [Bool.not_eq_true'] at hstarted
      simp [hstarted]
    · split at h
      · cases h
      · rename_i hpool
        refine ⟨fun _ => by simpa using hpool, ?_⟩
        split at h
        · rename_i hport
          rw [Bool.not_eq_true'] at hport
          simp [hport]
        · split at h
          · cases h
          · split at h
            · rename_i hslot
              simp [hslot]
            · cases h

/-- An add passes the pool and the bridge of its meeting. -/
theorem mem_add_calls {call : AddCall} (h : call ∈ (m.add p ans).2) :
    call = .start ∨ call = .createMediaPort m.pool_ ∨ call = .confAddPort m.conf_ := by
  unfold add at h
  split at h
  · cases h
  · split at h
    · exact Or.inl (List.mem_singleton.mp h)
    · split at h
      · simp only [List.mem_cons, List.not_mem_nil, or_false] at h
        exact h.imp_right Or.inl
      · split at h
        · simp only [List.mem_cons, List.not_mem_nil, or_false] at h
          exact h.imp_right Or.inl
        · split at h
          · simpa using h
          · split at h <;> simpa using h

/-- The section of an add of this id inserts its participant. -/
def admits (m : Meeting) (part_id : Bytes) (ans : AddAnswer) : Bool :=
  !m.participants_.contains part_id && ans.started && m.pool_ && ans.media_port && m.conf_ && ans.slot.isSome

theorem admits_of_add (h : m.add p ans = (.added m', calls)) : m.admits p.part_id_ ans = true := by
  cases hc : m.participants_.contains p.part_id_ <;> cases h1 : ans.started <;> cases h2 : m.pool_ <;>
    cases h3 : ans.media_port <;> cases h4 : m.conf_ <;> cases h5 : ans.slot <;>
    simp only [add, hc, h1, h2, h3, h4, h5, Bool.not_true, Bool.not_false, Bool.false_eq_true, if_true, if_false,
      Prod.mk.injEq, reduceCtorEq, false_and] at h
  simp only [admits, hc, h1, h2, h3, h4, h5]
  rfl

theorem Joins.getElem? {slot : Nat} (h : m.Joins p m' slot) (part_id : Bytes) {x : Participant × Nat} :
    m'.participants_[part_id]? = some x ↔
      (part_id = p.part_id_ ∧ x = (p, slot)) ∨ (part_id ≠ p.part_id_ ∧ m.participants_[part_id]? = some x) := by
  rw [h.eq]
  simp only [Std.ExtTreeMap.getElem?_insert, Std.LawfulEqCmp.compare_eq_iff_eq]
  split
  · rename_i heq
    simp [heq, eq_comm]
  · rename_i hne
    simp [Ne.symm hne]

theorem remove_participant_eq_some {part_id : Bytes} {port : UInt16} (h : m.remove_participant part_id = some (m', port)) :
    ∃ p slot, m.participants_[part_id]? = some (p, slot) ∧
      m' = { m with participants_ := m.participants_.erase part_id } ∧ port = p.port_ := by
  unfold remove_participant at h
  split at h
  · cases h
  · rename_i p slot hp
    obtain ⟨rfl, rfl⟩ := Prod.mk.inj (Option.some.inj h)
    exact ⟨p, slot, hp, rfl, rfl⟩

theorem remove_participant_eq_none {part_id : Bytes} :
    m.remove_participant part_id = none ↔ m.participants_[part_id]? = none := by
  unfold remove_participant
  split
  · rename_i hp
    simp [hp]
  · rename_i hp
    simp [hp]

theorem mem_participants {q : Participant} :
    q ∈ m.participants ↔ ∃ (part_id : Bytes) (slot : Nat), m.participants_[part_id]? = some (q, slot) := by
  simp only [participants, List.mem_map, Prod.exists, Std.ExtTreeMap.mem_toList_iff_getElem?_eq_some]
  constructor
  · rintro ⟨part_id, _, slot, h, rfl⟩
    exact ⟨part_id, slot, h⟩
  · rintro ⟨part_id, slot, h⟩
    exact ⟨part_id, q, slot, h, rfl⟩

theorem mem_participant_ports {port : UInt16} :
    port ∈ m.participant_ports ↔
      ∃ (part_id : Bytes) (q : Participant) (slot : Nat),
        m.participants_[part_id]? = some (q, slot) ∧ q.port_ = port ∧ port ≠ 0 := by
  simp only [participant_ports, List.mem_map, List.mem_filter, decide_eq_true_eq, mem_participants]
  constructor
  · rintro ⟨q, ⟨⟨part_id, slot, h⟩, hne⟩, rfl⟩
    exact ⟨part_id, q, slot, h, rfl, hne⟩
  · rintro ⟨part_id, q, slot, h, rfl, hne⟩
    exact ⟨q, ⟨⟨part_id, slot, h⟩, hne⟩, rfl⟩

end AudioMeet.Meeting
