import AudioMeet.Theorems.Process.Refinement
import AudioMeet.Theorems.Process.Schema

/-! What a client learns. The responses leave nothing out: whoever sees the requests and what they are answered knows
    the meetings, their members and the ports, while the requests come one after the other. -/

namespace AudioMeet
open Lib JsonReader

def Response.text : Response → Option Bytes
  | .content text => some text
  | .internalServerError => none

namespace Directory

/-- The member of an object. -/
def field (name : String) : Value → Option Value
  | .object members => (members.find? fun m => m.1 == ascii name).map Prod.snd
  | _ => none

section Fields
variable {name other : String} {value : Value} {members : List (String × Value)}

theorem field_first : field name (objectOf ((name, value) :: members)) = some value := by
  simp [field, objectOf]

theorem field_next (hne : ascii other ≠ ascii name) :
    field name (objectOf ((other, value) :: members)) = field name (objectOf members) := by
  simp [field, objectOf, hne]

end Fields

def Op.ofEntry : ReqPc → Option Op
  | .create => some .create
  | .addLookup meet_id part => some (.add meet_id part)
  | .destroyLookup meet_id => some (.destroy meet_id)
  | .deleteLookup meet_id part_id => some (.delete meet_id part_id)
  | .muteLookup meet_id part_id value => some (.mute meet_id part_id value)
  | .listLookup => some .list
  | _ => none

/-- What a request asks for, if its parameters are valid. -/
def Op.ofRequest (req : Request) : Option Op :=
  match Server.validate req with
  | .inl pc => Op.ofEntry pc
  | .inr _ => none

/-- What the operation did, by the `data` of its response. -/
def Op.observed (meetings : Meetings) (data : Value) : Op → Option Meetings
  | create => do
    let .string meet_id ← field "meetId" data | none
    some (meetings.insert meet_id ∅)
  | add meet_id part => do
    let .number port 0 ← field "port" data | none
    some (meetings.modify meet_id (·.insert part.part_id ⟨UInt16.ofNat port.toNat, part.remote⟩))
  | destroy meet_id => some (meetings.erase meet_id)
  | delete meet_id part_id => some (meetings.modify meet_id (·.erase part_id))
  | mute _ _ _ | list => none

/-- The meetings as a client knows them after one more response. -/
def observe (meetings : Meetings) (x : Request × Response) : Meetings :=
  (do
    let op ← Op.ofRequest x.1
    let value ← read (← x.2.text)
    let .number 0 0 ← field "code" value | none
    op.observed meetings (← field "data" value)).getD meetings

section Observing
variable {range : Set UInt16} {listen_ip : Bytes} {exchanges : List Exchange} {d d' : Directory} {meetings : Meetings}
  {req : Request} {op : Op} {ans : Answer} {json data : Json} {code : Int} {msg : String}

theorem printable_null : Json.Printable .null := trivial

theorem ofRequest_entry (hv : Server.validate req = .inl op.entry) : Op.ofRequest req = some op := by
  unfold Op.ofRequest
  rw [hv]
  cases op <;> rfl

/-- An error changes nothing for the client. -/
theorem observe_error (hcode : code ≠ 0) (hmsg : Utf8.Valid (ascii msg)) :
    observe meetings (req, Server.respond (Server.body code msg .null)) = meetings := by
  unfold observe
  cases Op.ofRequest req with
  | none => rfl
  | some op =>
    rcases Server.respond_cases code .null hmsg with ⟨-, hprint⟩ | ⟨text, htext, hread⟩
    · exact absurd trivial hprint
    · rw [htext]
      simp only [Response.text, Option.bind_eq_bind, Option.bind_some, hread]
      rw [field_first, Option.bind_some]
      split
      · rename_i heq
        exact absurd (Value.number.inj heq).1 hcode
      · rfl

/-- A success tells its data, if it can be written. -/
theorem observe_success (hop : Op.ofRequest req = some op)
    (hprint : Json.Printable data ∨ op.observed meetings data.value = none) :
    observe meetings (req, Server.respond (success data)) = (op.observed meetings data.value).getD meetings := by
  unfold observe
  rw [hop]
  rcases Server.respond_cases 0 data (by decide : Utf8.Valid (ascii "success")) with ⟨herr, hnot⟩ | ⟨text, htext, hread⟩
  · rw [success, herr, hprint.resolve_left hnot]
    rfl
  · rw [success, htext]
    simp only [Response.text, Option.bind_eq_bind, Option.bind_some, hread]
    rw [field_first, field_next (by decide), field_first]
    rfl

/-- A client keeps up with the directory. -/
theorem Does.observed (hip : Utf8.Valid listen_ip) (hv : Server.validate req = .inl op.entry)
    (h : Does range listen_ip d ans op json d') : d'.meetings = observe d.meetings (req, Server.respond json) := by
  have hop := ofRequest_entry hv
  cases h with
  | create =>
    have hfield : field "meetId" (objectOf [("meetId", .string (Server.hexId ans.random))]) = some _ := field_first
    rw [observe_success hop (Or.inl (Server.printable_created _))]
    show _ = (Op.observed d.meetings (objectOf [("meetId", .string (Server.hexId ans.random))]) .create).getD d.meetings
    simp only [Op.observed, hfield]
    rfl
  | list => rw [observe_success hop (Or.inr rfl)]; rfl
  | unknown _ _ => rw [observe_error (by decide) (by decide)]
  | absent _ _ _ => rw [observe_error (by decide) (by decide)]
  | destroy _ => rw [observe_success hop (Or.inl printable_null)]; rfl
  | delete _ => rw [observe_success hop (Or.inl printable_null)]; rfl
  | mute _ => rw [observe_success hop (Or.inl printable_null)]; rfl
  | noPort _ _ => rw [observe_error (by decide) (by decide)]
  | taken _ => rw [observe_error (by decide) (by decide)]
  | failed _ _ _ =>
    split
    · rw [observe_error (by decide) (by decide)]
    · rw [observe_error (by decide) (by decide)]
  | @add meet_id part members port _ _ _ _ _ hfree =>
    have hport : UInt16.ofNat (port.toNat : Int).toNat = port := by rw [Int.toNat_natCast, UInt16.ofNat_toNat]
    rw [observe_success hop (Or.inl (Server.printable_address _ hip)), Server.value_address]
    have hfield : field "port" (objectOf [("ip", .string listen_ip), ("port", .number port.toNat 0)]) =
        some (.number port.toNat 0) := (field_next (by decide)).trans field_first
    simp only [Op.observed, hfield, Option.bind_eq_bind, Option.bind_some, hport, Option.getD_some]
    rfl

theorem Session.observed (hip : Utf8.Valid listen_ip) (h : Session range listen_ip exchanges d) :
    d.meetings = (exchanges.map fun x => (x.req, x.response)).foldl observe ∅ := by
  induction h with
  | start => rfl
  | @refused exchanges d req json ans _ hv ih =>
    have hnone : Op.ofRequest req = none := by rw [Op.ofRequest, hv]
    rw [List.map_append, List.foldl_append, ← ih]
    show _ = observe d.meetings (req, Server.respond json)
    rw [observe, hnone]
    rfl
  | @served exchanges d d' req op ans json _ hv hdoes ih =>
    rw [List.map_append, List.foldl_append, ← ih]
    exact hdoes.observed hip hv

end Observing
end Directory

namespace Server
variable {base count : UInt16} {listen_ip : Bytes} {exchanges : List Exchange} {s : Server}

open Directory in
/-- While the requests come one after the other, the requests and their responses tell the registered meetings with all
    their members, ports and addresses. -/
theorem registered_observed (hbase : 1 ≤ base.toNat) (hcount : base.toNat + count.toNat ≤ 65536)
    (hip : Utf8.Valid listen_ip) (h : Session base count listen_ip exchanges s) :
    s.registered = (exchanges.map fun x => (x.req, x.response)).foldl observe ∅ := by
  obtain ⟨d, hd⟩ := run_servedAs hbase hcount h
  exact hd.shows.meetings.symm.trans (hd.session.observed hip)

open Directory in
theorem registered_observed_in_turn : ∃ exchanges s, Session 20000 2 [] exchanges s ∧ exchanges.length = 6 ∧
    HasPort s 20000 ∧ s.registered = (exchanges.map fun x => (x.req, x.response)).foldl observe ∅ := by
  obtain ⟨exchanges, s, hsession, hlen, hport⟩ := session_joinedInTurn
  exact ⟨exchanges, s, hsession, hlen, hport, registered_observed (by decide) (by decide) .nil hsession⟩

end Server
end AudioMeet
