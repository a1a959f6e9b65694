import AudioMeet.Directory
import AudioMeet.Theorems.Process.Listing
import AudioMeet.Theorems.Process.PortNumbers

/-! The directory that a state between two requests stands for: each registered meeting with the members that its
    object holds, and the ports that are marked used. -/

namespace AudioMeet
open Lib Std

def Participant.member (p : Participant) : Member where
  port := p.port_
  remote := if p.remote_ip_ = [] then none else some (p.remote_ip_, p.remote_port_)

def Meeting.members (meeting : Meeting) : Members := meeting.participants_.map fun _ x => x.1.member

theorem Meeting.getElem?_members {meeting : Meeting} {part_id : Bytes} :
    meeting.members[part_id]? = meeting.participants_[part_id]?.map fun x => x.1.member := ExtTreeMap.getElem?_map

namespace Server
open Machine

/-- The registered meetings. -/
def registered (s : Server) : Meetings := s.meetings_.filterMap fun _ m => s.objects[m]?.map Meeting.members

/-- The state stands for the directory. -/
structure Shows (s : Server) (d : Directory) : Prop where
  meetings : d.meetings = s.registered
  held : ∀ port, port ∈ d.held ↔ s.port_allocator_.isUsed port = true

section Registered
variable {s t : Server} {d : Directory} {meet_id part_id : Bytes} {m : Nat} {meeting meeting' : Meeting}

theorem getElem?_registered :
    s.registered[meet_id]? = (s.meetings_[meet_id]?.bind fun m => s.objects[m]?).map Meeting.members := by
  rw [registered, ExtTreeMap.getElem?_filterMap']
  cases s.meetings_[meet_id]? <;> rfl

theorem registered_of (hm : s.meetings_[meet_id]? = some m) (hobj : s.objects[m]? = some meeting) :
    s.registered[meet_id]? = some meeting.members := by
  rw [getElem?_registered, hm, Option.bind_some, hobj]
  rfl

theorem registered_none (hm : s.meetings_[meet_id]? = none) : s.registered[meet_id]? = none := by
  rw [getElem?_registered, hm]
  rfl

/-- A new meeting has no members. -/
theorem members_new (pool conf clock : Bool) : (Meeting.new meet_id pool conf clock).members = ∅ :=
  ExtTreeMap.map_eq_empty_iff.mpr rfl

/-- The new meeting comes last, and the others keep their places. -/
theorem registered_create (hreg : RegistryInv s) {pool conf clock : Bool}
    (hmap : t.meetings_ = s.meetings_.insert meet_id s.objects.length)
    (hobj : t.objects = s.objects ++ [Meeting.new meet_id pool conf clock]) :
    t.registered = s.registered.insert meet_id ∅ := by
  refine ExtTreeMap.ext_getElem? fun k => ?_
  rw [getElem?_registered, hmap, hobj]
  simp only [ExtTreeMap.getElem?_insert, LawfulEqCmp.compare_eq_iff_eq]
  by_cases hk : meet_id = k
  · rw [if_pos hk, if_pos hk, Option.bind_some, List.getElem?_concat_length, Option.map_some, members_new]
  · rw [if_neg hk, if_neg hk, getElem?_registered]
    cases hm : s.meetings_[k]? with
    | none => rfl
    | some m =>
      obtain ⟨meeting, hobj, -⟩ := hreg.keyed k m hm
      rw [Option.bind_some, Option.bind_some, List.getElem?_append_left (List.getElem?_eq_some_iff.mp hobj).1]

/-- Only one id is registered for a place. -/
theorem registered_set (hreg : RegistryInv s) (hm : s.meetings_[meet_id]? = some m) (hobj : s.objects[m]? = some meeting)
    {f : Members → Members} (hf : meeting'.members = f meeting.members) (hmap : t.meetings_ = s.meetings_)
    (ht : t.objects = s.objects.set m meeting') : t.registered = s.registered.modify meet_id f := by
  refine ExtTreeMap.ext_getElem? fun k => ?_
  rw [getElem?_registered, hmap, ht]
  simp only [ExtTreeMap.getElem?_modify, LawfulEqCmp.compare_eq_iff_eq]
  by_cases hk : meet_id = k
  · subst hk
    rw [if_pos rfl, hm, Option.bind_some, List.getElem?_set_self (List.getElem?_eq_some_iff.mp hobj).1,
      registered_of hm hobj, Option.map_some, Option.map_some, hf]
  · rw [if_neg hk, getElem?_registered]
    cases hm' : s.meetings_[k]? with
    | none => rfl
    | some n =>
      obtain ⟨x, hx, hid, -⟩ := hreg.keyed k n hm'
      have hne : m ≠ n := by
        rintro rfl
        obtain ⟨x', hx', hid', -⟩ := hreg.keyed meet_id m hm
        obtain rfl := Option.some.inj (hx.symm.trans hx')
        exact hk (hid'.symm.trans hid)
      rw [Option.bind_some, Option.bind_some, List.getElem?_set_ne hne]

/-- An object that is not registered can change. -/
theorem registered_unregistered (hfree : ∀ meet_id : Bytes, t.meetings_[meet_id]? ≠ some m)
    (ht : ∀ n, n ≠ m → t.objects[n]? = s.objects[n]?) (hmap : ∀ meet_id : Bytes, t.meetings_[meet_id]? = s.meetings_[meet_id]?) :
    t.registered = s.registered := by
  refine ExtTreeMap.ext_getElem? fun k => ?_
  rw [getElem?_registered, getElem?_registered, hmap]
  cases hm : s.meetings_[k]? with
  | none => rfl
  | some n => rw [Option.bind_some, Option.bind_some, ht n fun heq => hfree k ((hmap k).trans (heq ▸ hm))]

theorem registered_erase (hreg : RegistryInv s) (hm : s.meetings_[meet_id]? = some m)
    (hmap : t.meetings_ = s.meetings_.erase meet_id) (ht : ∀ n, n ≠ m → t.objects[n]? = s.objects[n]?) :
    t.registered = s.registered.erase meet_id := by
  refine ExtTreeMap.ext_getElem? fun k => ?_
  rw [getElem?_registered, hmap]
  simp only [ExtTreeMap.getElem?_erase, LawfulEqCmp.compare_eq_iff_eq]
  by_cases hk : meet_id = k
  · rw [if_pos hk, if_pos hk]
    rfl
  · rw [if_neg hk, if_neg hk, getElem?_registered]
    cases hm' : s.meetings_[k]? with
    | none => rfl
    | some n =>
      obtain ⟨x, hx, hid, -⟩ := hreg.keyed k n hm'
      rw [Option.bind_some, Option.bind_some, ht n]
      rintro rfl
      obtain ⟨x', hx', hid', -⟩ := hreg.keyed meet_id n hm
      obtain rfl := Option.some.inj (hx.symm.trans hx')
      exact hk (hid'.symm.trans hid)

theorem members_insert {p : Participant} {slot : Nat} : (Meeting.members { meeting with
    participants_ := meeting.participants_.insert part_id (p, slot) }) = meeting.members.insert part_id p.member := by
  refine ExtTreeMap.ext_getElem? fun k => ?_
  simp only [Meeting.getElem?_members, ExtTreeMap.getElem?_insert]
  split <;> rfl

theorem members_erase : (Meeting.members { meeting with participants_ := meeting.participants_.erase part_id }) =
    meeting.members.erase part_id := by
  refine ExtTreeMap.ext_getElem? fun k => ?_
  simp only [Meeting.getElem?_members, ExtTreeMap.getElem?_erase]
  split <;> rfl

end Registered

/-! ### The listing -/

section Listing
variable {s : Server} {d : Directory} {meeting : Meeting}

theorem memberJson_member {p : Participant} (hport : p.port_ ≠ 0) :
    Directory.memberJson p.part_id_ p.member = participantJson p := by
  rw [participantJson_eq]
  unfold Directory.memberJson partEntry modeMembers Participant.mode Participant.member
  by_cases hip : p.remote_ip_ = []
  · rw [if_pos hip, if_pos hip]
  · rw [if_neg hip, if_neg hip, if_neg hport]

theorem meetingJson_members (hparts : ∀ (part_id : Bytes) (q : Participant) (slot : Nat),
    meeting.participants_[part_id]? = some (q, slot) → q.part_id_ = part_id ∧ q.port_ ≠ 0) :
    Directory.meetingJson meeting.meet_id_ meeting.members = meetingJson meeting := by
  have hentries : (meeting.members.toList.map fun x => Directory.memberJson x.1 x.2) =
      meeting.participants.map participantJson := by
    rw [Meeting.members, ExtTreeMap.toList_map, Meeting.participants, List.map_map, List.map_map]
    refine List.map_congr_left ?_
    rintro ⟨part_id, q, slot⟩ hq
    obtain ⟨rfl, hport⟩ := hparts part_id q slot (ExtTreeMap.mem_toList_iff_getElem?_eq_some.mp hq)
    exact memberJson_member hport
  rw [Directory.meetingJson, hentries, meetingJson]

/-- A participant of a registered meeting has a port that is handed out. -/
theorem Shows.port_ne_zero (h : s.Shows d) (hrange : s.port_allocator_.InRange) {meet_id part_id : Bytes} {m slot : Nat}
    {q : Participant} (hm : s.meetings_[meet_id]? = some m) (hobj : s.objects[m]? = some meeting)
    (hq : meeting.participants_[part_id]? = some (q, slot)) :
    d.meetings.Has meet_id part_id q.member ∧ q.port_ ≠ 0 := by
  have hhas : d.meetings.Has meet_id part_id q.member :=
    ⟨meeting.members, h.meetings ▸ registered_of hm hobj, by rw [Meeting.getElem?_members, hq]; rfl⟩
  exact ⟨hhas, PortAllocator.ne_zero_of_isUsed hrange ((h.held _).mp (d.holds hhas))⟩

theorem Shows.listing (h : s.Shows d) (hrange : s.port_allocator_.InRange) (hreg : RegistryInv s) (hids : IdsInv s) :
    d.listing = .array (s.list_meetings.map s.objectJson) := by
  rw [Directory.listing, h.meetings, registered, ExtTreeMap.toList_filterMap, list_meetings, List.map_filterMap,
    List.map_map, ← List.filterMap_eq_map]
  refine congrArg Json.array (List.filterMap_congr ?_)
  rintro ⟨meet_id, m⟩ hm
  have hm := ExtTreeMap.mem_toList_iff_getElem?_eq_some.mp hm
  obtain ⟨meeting, hobj, rfl, -⟩ := hreg.keyed meet_id m hm
  simp only [Function.comp_apply, hobj, Option.map_some, objectJson, Option.getD_some]
  rw [meetingJson_members]
  exact fun part_id q slot hq => ⟨hids.part m part_id q slot ⟨meeting, hobj, hq⟩, (h.port_ne_zero hrange hm hobj hq).2⟩

end Listing
end Server
end AudioMeet
