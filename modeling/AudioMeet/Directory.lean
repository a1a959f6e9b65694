import AudioMeet.Server
import Mathlib.Data.Set.Insert

/-! What the server is for, without its objects, locks and sections: a directory of meetings, the members of each, and
    the ports that are handed out to them. -/

namespace AudioMeet
open Lib Std

/-- A member listens on `port`, and connects to `remote` when it has one. -/
@[ext]
structure Member where
  port : UInt16
  remote : Option (Bytes × UInt16)
deriving DecidableEq

abbrev Members := ExtTreeMap Bytes Member compare

abbrev Meetings := ExtTreeMap Bytes Members compare

namespace Meetings

/-- The member `part_id` of the meeting `meet_id`. -/
def Has (meetings : Meetings) (meet_id part_id : Bytes) (member : Member) : Prop :=
  ∃ members, meetings[meet_id]? = some members ∧ members[part_id]? = some member

variable {meetings : Meetings} {meet_id meet_id' part_id part_id' : Bytes} {member new : Member} {members : Members}

theorem has_of_insert_empty (h : Has (meetings.insert meet_id ∅) meet_id' part_id member) :
    Has meetings meet_id' part_id member := by
  obtain ⟨members, hmeet, hpart⟩ := h
  rw [ExtTreeMap.getElem?_insert] at hmeet
  split at hmeet
  · obtain rfl := Option.some.inj hmeet
    simp at hpart
  · exact ⟨members, hmeet, hpart⟩

theorem has_of_erase (h : Has (meetings.erase meet_id) meet_id' part_id member) :
    meet_id' ≠ meet_id ∧ Has meetings meet_id' part_id member := by
  obtain ⟨members, hmeet, hpart⟩ := h
  rw [ExtTreeMap.getElem?_erase] at hmeet
  split at hmeet
  · cases hmeet
  · rename_i hne
    exact ⟨fun heq => hne (LawfulEqCmp.compare_eq_iff_eq.mpr heq.symm), members, hmeet, hpart⟩

/-- What `f` makes of one meeting; the others stay. -/
theorem has_modify {f : Members → Members} : Has (meetings.modify meet_id f) meet_id' part_id member ↔
    (meet_id' = meet_id ∧ ∃ members, meetings[meet_id]? = some members ∧ (f members)[part_id]? = some member) ∨
      (meet_id' ≠ meet_id ∧ Has meetings meet_id' part_id member) := by
  simp only [Has, ExtTreeMap.getElem?_modify, LawfulEqCmp.compare_eq_iff_eq]
  by_cases heq : meet_id = meet_id'
  · subst heq
    simp
  · simp [heq, Ne.symm heq]

theorem has_of_modify_insert (h : Has (meetings.modify meet_id (·.insert part_id new)) meet_id' part_id' member) :
    (meet_id' = meet_id ∧ part_id' = part_id ∧ member = new) ∨ Has meetings meet_id' part_id' member := by
  rcases has_modify.mp h with ⟨rfl, members, hmeet, hpart⟩ | ⟨-, hold⟩
  · rw [ExtTreeMap.getElem?_insert] at hpart
    split at hpart
    · rename_i heq
      exact Or.inl ⟨rfl, (LawfulEqCmp.compare_eq_iff_eq.mp heq).symm, (Option.some.inj hpart).symm⟩
    · exact Or.inr ⟨members, hmeet, hpart⟩
  · exact Or.inr hold

theorem has_of_modify_erase (h : Has (meetings.modify meet_id (·.erase part_id)) meet_id' part_id' member) :
    (meet_id', part_id') ≠ (meet_id, part_id) ∧ Has meetings meet_id' part_id' member := by
  rcases has_modify.mp h with ⟨rfl, members, hmeet, hpart⟩ | ⟨hne, hold⟩
  · rw [ExtTreeMap.getElem?_erase] at hpart
    split at hpart
    · cases hpart
    · rename_i hne
      refine ⟨fun heq => hne (LawfulEqCmp.compare_eq_iff_eq.mpr ?_), members, hmeet, hpart⟩
      exact (Prod.mk.inj heq).2.symm
  · exact ⟨fun heq => hne (Prod.mk.inj heq).1, hold⟩

end Meetings

/-- Each member has a port of its own, which is handed out. -/
structure Directory where
  meetings : Meetings
  held : Set UInt16
  holds : ∀ {meet_id part_id member}, meetings.Has meet_id part_id member → member.port ∈ held
  own : ∀ {meet_id part_id member meet_id' part_id' member'}, meetings.Has meet_id part_id member →
    meetings.Has meet_id' part_id' member' → member.port = member'.port → (meet_id, part_id) = (meet_id', part_id')

namespace Directory

variable (d : Directory) (meet_id part_id : Bytes)

/-! ### The operations -/

def empty : Directory where
  meetings := ∅
  held := ∅
  holds := fun ⟨_, hmeet, _⟩ => by simp at hmeet
  own := fun ⟨_, hmeet, _⟩ => by simp at hmeet

/-- A new meeting, instead of one of the same id, whose ports stay handed out. -/
def create : Directory where
  meetings := d.meetings.insert meet_id ∅
  held := d.held
  holds h := d.holds (Meetings.has_of_insert_empty h)
  own h h' := d.own (Meetings.has_of_insert_empty h) (Meetings.has_of_insert_empty h')

def add (member : Member) (hfree : member.port ∉ d.held) : Directory where
  meetings := d.meetings.modify meet_id (·.insert part_id member)
  held := insert member.port d.held
  holds h := by
    rcases Meetings.has_of_modify_insert h with ⟨-, -, rfl⟩ | h
    · exact Set.mem_insert _ _
    · exact Set.mem_insert_of_mem _ (d.holds h)
  own h h' hport := by
    rcases Meetings.has_of_modify_insert h with ⟨rfl, rfl, rfl⟩ | hold
    · rcases Meetings.has_of_modify_insert h' with ⟨rfl, rfl, -⟩ | hold'
      · rfl
      · exact absurd (hport ▸ d.holds hold') hfree
    · rcases Meetings.has_of_modify_insert h' with ⟨-, -, rfl⟩ | hold'
      · exact absurd (hport ▸ d.holds hold) hfree
      · exact d.own hold hold' hport

/-- The port of the member is given back. -/
def delete {member : Member} (hhas : d.meetings.Has meet_id part_id member) : Directory where
  meetings := d.meetings.modify meet_id (·.erase part_id)
  held := d.held \ {member.port}
  holds h := by
    obtain ⟨hne, h⟩ := Meetings.has_of_modify_erase h
    exact ⟨d.holds h, fun heq => hne (d.own h hhas heq)⟩
  own h h' := d.own (Meetings.has_of_modify_erase h).2 (Meetings.has_of_modify_erase h').2

/-- The ports of its members are given back. -/
def destroy : Directory where
  meetings := d.meetings.erase meet_id
  held := d.held \ {port | ∃ part_id member, d.meetings.Has meet_id part_id member ∧ member.port = port}
  holds h := by
    obtain ⟨hne, h⟩ := Meetings.has_of_erase h
    exact ⟨d.holds h, fun ⟨_, _, hgone, heq⟩ => hne (Prod.mk.inj (d.own h hgone heq.symm)).1⟩
  own h h' := d.own (Meetings.has_of_erase h).2 (Meetings.has_of_erase h').2

/-! ### What they are answered -/

def memberJson (part_id : Bytes) (member : Member) : Json :=
  .ofMembers <| ("partId", .string part_id) ::
    (match member.remote with
    | none => [("mode", .string (ascii "active")), ("localPort", .number member.port.toNat)]
    | some (ip, remote_port) =>
      [("mode", .string (ascii "split")), ("localPort", .number member.port.toNat), ("remoteIp", .string ip),
        ("remotePort", .number remote_port.toNat)])

def meetingJson (meet_id : Bytes) (members : Members) : Json :=
  .ofMembers [("meetId", .string meet_id),
    ("participants", .array (members.toList.map fun x => memberJson x.1 x.2))]

def listing : Json := .array (d.meetings.toList.map fun x => meetingJson x.1 x.2)

/-- What a request with valid parameters asks for. -/
inductive Op
  | create
  | add (meet_id : Bytes) (part : NewPart)
  | destroy (meet_id : Bytes)
  | delete (meet_id part_id : Bytes)
  | mute (meet_id part_id : Bytes) (mute : Bool)
  | list

namespace Op

/-- The first section of the handler. -/
def entry : Op → ReqPc
  | create => .create
  | add meet_id part => .addLookup meet_id part
  | destroy meet_id => .destroyLookup meet_id
  | delete meet_id part_id => .deleteLookup meet_id part_id
  | mute meet_id part_id value => .muteLookup meet_id part_id value
  | list => .listLookup

/-- The meeting that it names. -/
def meeting : Op → Option Bytes
  | add meet_id _ | destroy meet_id | delete meet_id _ | mute meet_id _ _ => some meet_id
  | create | list => none

/-- The member that it expects to be there. -/
def member : Op → Option (Bytes × Bytes)
  | delete meet_id part_id | mute meet_id part_id _ => some (meet_id, part_id)
  | _ => none

end Op

def success (data : Json) : Json := Server.body 0 "success" data

/-- The participant starts, and gets its media port and its slot. -/
def Starts (ans : Answer) : Prop := ans.add.started = true ∧ ans.add.media_port = true ∧ ans.add.slot.isSome = true

/-- What is answered to the parameters, and the directory afterwards. The ports of the pool are `range`; which of
    those that are free an add gets is not said. -/
inductive Does (range : Set UInt16) (listen_ip : Bytes) (d : Directory) (ans : Answer) : Op → Json → Directory → Prop
  | create : Does range listen_ip d ans .create
      (success (.ofMembers [("meetId", .string (Server.hexId ans.random))])) (d.create (Server.hexId ans.random))
  | list : Does range listen_ip d ans .list (success d.listing) d
  | unknown {op : Op} {meet_id : Bytes} : op.meeting = some meet_id → d.meetings[meet_id]? = none →
      Does range listen_ip d ans op (Server.body 1 "meetId not found" .null) d
  | absent {op : Op} {meet_id part_id : Bytes} {members : Members} : op.member = some (meet_id, part_id) →
      d.meetings[meet_id]? = some members → members[part_id]? = none →
      Does range listen_ip d ans op (Server.body 2 "partId not found" .null) d
  | destroy {meet_id : Bytes} {members : Members} : d.meetings[meet_id]? = some members →
      Does range listen_ip d ans (.destroy meet_id) (success .null) (d.destroy meet_id)
  | delete {meet_id part_id : Bytes} {member : Member} (hhas : d.meetings.Has meet_id part_id member) :
      Does range listen_ip d ans (.delete meet_id part_id) (success .null) (d.delete meet_id part_id hhas)
  | mute {meet_id part_id : Bytes} {mute : Bool} {member : Member} : d.meetings.Has meet_id part_id member →
      Does range listen_ip d ans (.mute meet_id part_id mute) (success .null) d
  | noPort {meet_id : Bytes} {part : NewPart} {members : Members} : d.meetings[meet_id]? = some members →
      (∀ port ∈ range, port ∉ d.held → ans.is_port_available port = false) →
      Does range listen_ip d ans (.add meet_id part) (Server.body 3 "no ports available" .null) d
  | taken {meet_id : Bytes} {part : NewPart} {member : Member} : d.meetings.Has meet_id part.part_id member →
      Does range listen_ip d ans (.add meet_id part) (Server.body 2 "partId already exists" .null) d
  | failed {meet_id : Bytes} {part : NewPart} {members : Members} : d.meetings[meet_id]? = some members →
      members[part.part_id]? = none → ¬ Starts ans →
      Does range listen_ip d ans (.add meet_id part)
        (if part.remote = none then Server.body 2 "partId already exists" .null
          else Server.body 5 "startSplit failed" .null) d
  | add {meet_id : Bytes} {part : NewPart} {members : Members} {port : UInt16} : d.meetings[meet_id]? = some members →
      members[part.part_id]? = none → Starts ans → port ∈ range → ans.is_port_available port = true →
      (hfree : port ∉ d.held) →
      Does range listen_ip d ans (.add meet_id part)
        (success (.ofMembers [("ip", .string listen_ip), ("port", .number port.toNat)]))
        (d.add meet_id part.part_id ⟨port, part.remote⟩ hfree)

/-- A request, what its handler asked from outside, and the response. -/
structure Exchange where
  req : Request
  ans : Answer
  response : Response

/-- The directory after the exchanges, one after the other. -/
inductive Session (range : Set UInt16) (listen_ip : Bytes) : List Exchange → Directory → Prop
  | start : Session range listen_ip [] empty
  | refused {exchanges : List Exchange} {d : Directory} {req : Request} {json : Json} (ans : Answer) :
      Session range listen_ip exchanges d → Server.validate req = .inr json →
      Session range listen_ip (exchanges ++ [⟨req, ans, Server.respond json⟩]) d
  | served {exchanges : List Exchange} {d d' : Directory} {req : Request} {op : Op} {ans : Answer} {json : Json} :
      Session range listen_ip exchanges d → Server.validate req = .inl op.entry →
      Does range listen_ip d ans op json d' →
      Session range listen_ip (exchanges ++ [⟨req, ans, Server.respond json⟩]) d'

end Directory
end AudioMeet
