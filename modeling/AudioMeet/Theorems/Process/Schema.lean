import AudioMeet.Theorems.JsonText
import AudioMeet.Theorems.Process.Answers
import AudioMeet.Theorems.Process.Listing

/-! What a client reads in the responses. However the requests interleave, each endpoint answers with an object of
    `code`, `data` and `msg`, with the codes, texts and data that its handler in `src/server.cpp` has for it. -/

namespace AudioMeet
open Lib Machine JsonReader

/-! ### The endpoints -/

inductive Endpoint
  | createAudioMeet
  | addAudioMeetPart
  | addPassiveAudioMeetPart
  | destroyAudioMeet
  | delAudioMeetPart
  | muteAudioMeetPart
  | listAudioMeets
deriving DecidableEq

def Request.endpoint : Request → Endpoint
  | .createAudioMeet => .createAudioMeet
  | .addAudioMeetPart _ => .addAudioMeetPart
  | .addPassiveAudioMeetPart _ => .addPassiveAudioMeetPart
  | .destroyAudioMeet _ => .destroyAudioMeet
  | .delAudioMeetPart _ => .delAudioMeetPart
  | .muteAudioMeetPart _ => .muteAudioMeetPart
  | .listAudioMeets => .listAudioMeets

/-- What the request gives a meeting to store is UTF-8. -/
def Request.StoresUtf8 : Request → Prop
  | .addAudioMeetPart params => ∀ part_id ∈ params.partId, Utf8.Valid part_id
  | .addPassiveAudioMeetPart params =>
    (∀ part_id ∈ params.partId, Utf8.Valid part_id) ∧ ∀ ip ∈ params.ip, Utf8.Valid ip
  | _ => True

namespace Endpoint

/-- The codes other than 0 that the handler of an endpoint answers with, and the texts it gives them. -/
def errors : Endpoint → List (Int × String)
  | .createAudioMeet | .listAudioMeets => []
  | .addAudioMeetPart =>
    [(1, "meetId not found"), (2, "partId already exists"), (3, "no ports available"),
      (4, "missing meetId or partId")]
  | .addPassiveAudioMeetPart =>
    [(1, "meetId not found"), (2, "partId already exists"), (3, "no ports available"),
      (4, "missing meetId, partId, ip or port"), (4, "port must be 1-65535"), (5, "startSplit failed")]
  | .destroyAudioMeet => [(1, "meetId not found"), (4, "missing meetId")]
  | .delAudioMeetPart => [(1, "meetId not found"), (2, "partId not found"), (4, "missing meetId or partId")]
  | .muteAudioMeetPart =>
    [(1, "meetId not found"), (2, "partId not found"), (4, "missing meetId, partId or mute"),
      (4, "mute must be true or false")]

end Endpoint

/-- An object with its members in the order of their names. -/
def objectOf (members : List (String × Value)) : Value := .object (members.map fun m => (ascii m.1, m.2))

/-- An entry of `participants`. -/
inductive IsParticipant : Value → Prop
  | active (part_id : Bytes) (port : UInt16) :
      IsParticipant (objectOf [("localPort", .number port.toNat 0), ("mode", .string (ascii "active")),
        ("partId", .string part_id)])
  | passive (part_id ip : Bytes) (port : UInt16) :
      IsParticipant (objectOf [("mode", .string (ascii "passive")), ("partId", .string part_id),
        ("remoteIp", .string ip), ("remotePort", .number port.toNat 0)])
  | split (part_id ip : Bytes) (port remote_port : UInt16) :
      IsParticipant (objectOf [("localPort", .number port.toNat 0), ("mode", .string (ascii "split")),
        ("partId", .string part_id), ("remoteIp", .string ip), ("remotePort", .number remote_port.toNat 0)])

/-- An entry of the list of meetings. -/
inductive IsMeeting : Value → Prop
  | mk (meet_id : Bytes) (participants : List Value) : (∀ p ∈ participants, IsParticipant p) →
      IsMeeting (objectOf [("meetId", .string meet_id), ("participants", .array participants)])

/-- The `data` of a response with code 0; `listen_ip` is the address that the server was started with. -/
inductive IsData (listen_ip : Bytes) : Endpoint → Value → Prop
  | create (random : UInt64) :
      IsData listen_ip .createAudioMeet (objectOf [("meetId", .string (Server.hexId random))])
  | add (port : Nat) :
      IsData listen_ip .addAudioMeetPart (objectOf [("ip", .string listen_ip), ("port", .number port 0)])
  | addPassive (port : UInt16) :
      IsData listen_ip .addPassiveAudioMeetPart (objectOf [("ip", .string listen_ip), ("port", .number port.toNat 0)])
  | destroy : IsData listen_ip .destroyAudioMeet .null
  | delete : IsData listen_ip .delAudioMeetPart .null
  | mute : IsData listen_ip .muteAudioMeetPart .null
  | list (meetings : List Value) : (∀ m ∈ meetings, IsMeeting m) → IsData listen_ip .listAudioMeets (.array meetings)

/-- A participant was added whose id or address is not UTF-8. -/
def Unlistable (tr : List Account) : Prop :=
  ∃ i req m calls, .received i req ∈ tr ∧ .event (.add i m calls true) ∈ tr ∧ ¬ req.StoresUtf8

/-- A response of the endpoint after the history `tr`: an object that its handler has, or status 500 where a string
    that was stored, or the address of the server, cannot be written. -/
inductive Conforms (tr : List Account) (listen_ip : Bytes) (endpoint : Endpoint) : Response → Prop
  | success {text : Bytes} {data : Value} :
      read text = some (objectOf [("code", .number 0 0), ("data", data), ("msg", .string (ascii "success"))]) →
      IsData listen_ip endpoint data → Conforms tr listen_ip endpoint (.content text)
  | error {text : Bytes} {code : Int} {msg : String} :
      read text = some (objectOf [("code", .number code 0), ("data", .null), ("msg", .string (ascii msg))]) →
      (code, msg) ∈ endpoint.errors → Conforms tr listen_ip endpoint (.content text)
  | unlisted : endpoint = .listAudioMeets → Unlistable tr → Conforms tr listen_ip endpoint .internalServerError
  | unwritten : endpoint = .addAudioMeetPart ∨ endpoint = .addPassiveAudioMeetPart → ¬ Utf8.Valid listen_ip →
      Conforms tr listen_ip endpoint .internalServerError

theorem Unlistable.mono {tr : List Account} (h : Unlistable tr) (es : List Account) : Unlistable (tr ++ es) := by
  obtain ⟨i, req, m, calls, hreq, hadd, hutf8⟩ := h
  exact ⟨i, req, m, calls, List.mem_append_left _ hreq, List.mem_append_left _ hadd, hutf8⟩

theorem Conforms.mono {tr : List Account} {listen_ip : Bytes} {endpoint : Endpoint} {response : Response}
    (h : Conforms tr listen_ip endpoint response) (es : List Account) : Conforms (tr ++ es) listen_ip endpoint response := by
  cases h with
  | success hread hdata => exact .success hread hdata
  | error hread herror => exact .error hread herror
  | unlisted hlist hutf8 => exact .unlisted hlist (hutf8.mono es)
  | unwritten hadd hip => exact .unwritten hadd hip

namespace Server

/-! ### Bodies -/

section Bodies
variable {tr : List Account} {listen_ip : Bytes} {endpoint : Endpoint} {code : Int} {msg : String} {data : Json}

theorem value_body : (body code msg data).value =
    objectOf [("code", .number code 0), ("data", data.value), ("msg", .string (ascii msg))] := by
  rw [body_eq]
  rfl

/-- A body that can be written is read back. -/
theorem respond_cases (code : Int) (data : Json) (hmsg : Utf8.Valid (ascii msg)) :
    (respond (body code msg data) = .internalServerError ∧ ¬ Json.Printable data) ∨
    ∃ text, respond (body code msg data) = .content text ∧
      read text = some (objectOf [("code", .number code 0), ("data", data.value), ("msg", .string (ascii msg))]) := by
  unfold respond
  cases hdump : (body code msg data).dump with
  | error e =>
    refine Or.inl ⟨rfl, fun hprint => ?_⟩
    obtain ⟨text, htext⟩ := exists_dump hmsg hprint
    cases hdump.symm.trans htext
  | ok text => exact Or.inr ⟨text, rfl, (Json.readsAs_dump _ hdump).read.trans (congrArg some value_body)⟩

theorem conforms_error (hmsg : Utf8.Valid (ascii msg)) (herror : (code, msg) ∈ endpoint.errors) :
    Conforms tr listen_ip endpoint (respond (body code msg .null)) := by
  rcases respond_cases code .null hmsg with ⟨-, hprint⟩ | ⟨text, htext, hread⟩
  · exact absurd trivial hprint
  · exact htext ▸ .error hread herror

theorem conforms_success (hdata : IsData listen_ip endpoint data.value) (hprint : Json.Printable data) :
    Conforms tr listen_ip endpoint (respond (body 0 "success" data)) := by
  rcases respond_cases 0 data (by decide : Utf8.Valid (ascii "success")) with ⟨-, hnot⟩ | ⟨text, htext, hread⟩
  · exact absurd hprint hnot
  · exact htext ▸ .success hread hdata

/-- A listing that cannot be written has a string of an earlier add. -/
theorem conforms_listing (hdata : IsData listen_ip .listAudioMeets data.value)
    (hprint : ¬ Unlistable tr → Json.Printable data) :
    Conforms tr listen_ip .listAudioMeets (respond (body 0 "success" data)) := by
  rcases respond_cases 0 data (by decide : Utf8.Valid (ascii "success")) with ⟨herr, hnot⟩ | ⟨text, htext, hread⟩
  · exact herr ▸ .unlisted rfl (by_contra fun hutf8 => hnot (hprint hutf8))
  · exact htext ▸ .success hread hdata

/-- An address that cannot be written is the one that the server was started with. -/
theorem conforms_address (hadd : endpoint = .addAudioMeetPart ∨ endpoint = .addPassiveAudioMeetPart)
    (hdata : IsData listen_ip endpoint data.value) (hprint : Utf8.Valid listen_ip → Json.Printable data) :
    Conforms tr listen_ip endpoint (respond (body 0 "success" data)) := by
  rcases respond_cases 0 data (by decide : Utf8.Valid (ascii "success")) with ⟨herr, hnot⟩ | ⟨text, htext, hread⟩
  · exact herr ▸ .unwritten hadd fun hvalid => hnot (hprint hvalid)
  · exact htext ▸ .success hread hdata

/-! ### The entries of a listing -/

theorem isParticipant_value (p : Participant) : IsParticipant (participantJson p).value := by
  unfold participantJson
  split
  · have h := IsParticipant.split p.part_id_ p.remote_ip_ p.port_ p.remote_port_
    simp +decide only [Json.ofMembers, List.foldl_cons, List.foldl_nil, Json.insert, if_true, if_false]
    exact h
  · split
    · have h := IsParticipant.passive p.part_id_ p.remote_ip_ p.remote_port_
      simp +decide only [Json.ofMembers, List.foldl_cons, List.foldl_nil, Json.insert, if_true, if_false]
      exact h
    · have h := IsParticipant.active p.part_id_ p.port_
      simp +decide only [Json.ofMembers, List.foldl_cons, List.foldl_nil, Json.insert, if_true, if_false]
      exact h

theorem isMeeting_value (meeting : Meeting) : IsMeeting (meetingJson meeting).value := by
  have h := IsMeeting.mk meeting.meet_id_ (meeting.participants.map fun p => (participantJson p).value) fun v hv => by
    obtain ⟨p, -, rfl⟩ := List.mem_map.mp hv
    exact isParticipant_value p
  unfold meetingJson
  simp +decide only [Json.ofMembers, List.foldl_cons, List.foldl_nil, Json.insert, if_false]
  rw [Json.value, Json.memberValues, Json.memberValues, Json.value, Json.value, Json.values_eq, List.map_map]
  exact h

/-! ### The data of a success -/

theorem isData_create (random : UInt64) :
    IsData listen_ip .createAudioMeet (Json.ofMembers [("meetId", .string (hexId random))]).value := .create random

theorem value_address (port : Int) : (Json.ofMembers [("ip", .string listen_ip), ("port", .number port)]).value =
    objectOf [("ip", .string listen_ip), ("port", .number port 0)] := by
  simp +decide only [Json.ofMembers, List.foldl_cons, List.foldl_nil, Json.insert, if_false]
  rfl

theorem printable_address (port : Int) (h : Utf8.Valid listen_ip) :
    Json.Printable (.ofMembers [("ip", .string listen_ip), ("port", .number port)]) := by
  rw [Json.printable_ofMembers ["ip", "port"] rfl (by decide)]
  simp [Json.Printable, h]

end Bodies

/-! ### A section keeps to its endpoint -/

/-- What `part` gives a meeting to store is UTF-8. -/
def PartUtf8 (part : NewPart) : Prop := Utf8.Valid part.part_id ∧ ∀ remote ∈ part.remote, Utf8.Valid remote.1

/-- The request stands in the handler of its endpoint. -/
def At (tr : List Account) (req : Request) : ReqPc → Prop
  | .create => req.endpoint = .createAudioMeet
  | .addLookup _ part | .addAllocate _ part | .addSection _ part _ | .addRelease _ part _ =>
    req.endpoint = (if part.remote = none then .addAudioMeetPart else .addPassiveAudioMeetPart) ∧
      (req.StoresUtf8 → PartUtf8 part)
  | .addExisting _ _ => req.endpoint = .addPassiveAudioMeetPart
  | .destroyLookup _ | .destroyPorts _ | .destroyClock _ _ | .destroySection _ _ | .destroyRelease _ =>
    req.endpoint = .destroyAudioMeet
  | .deleteLookup _ _ | .deleteGet _ _ _ | .deleteAgain _ _ | .deleteSection _ _ | .deleteRelease _ =>
    req.endpoint = .delAudioMeetPart
  | .muteLookup _ _ _ | .muteSection _ _ _ => req.endpoint = .muteAudioMeetPart
  | .listLookup => req.endpoint = .listAudioMeets
  | .listParticipants listed _ =>
    req.endpoint = .listAudioMeets ∧ ∀ x ∈ listed, IsMeeting x.value ∧ (¬ Unlistable tr → Json.Printable x)
  | .done => True

/-- Unless an add of the history gave something else, what the meetings store is UTF-8. -/
def Stored (tr : List Account) (s : Server) : Prop :=
  ∀ m part_id q slot, PartAt s m part_id q slot → ¬ Unlistable tr → Utf8.Valid part_id ∧ Utf8.Valid q.remote_ip_

section Sections
variable {s t u : Server} {tr : List Account} {i : Nat} {pc : ReqPc} {ans : Answer} {es seen : List ServerEvent} {turn : Turn}
  {req : Request}

theorem At.mono (h : At tr req pc) (es : List Account) : At (tr ++ es) req pc := by
  cases pc with
  | listParticipants listed rest =>
    refine ⟨h.1, fun x hx => ⟨(h.2 x hx).1, fun hno => (h.2 x hx).2 fun hutf8 => hno (hutf8.mono es)⟩⟩
  | _ => exact h

/-- Every section keeps to its endpoint. -/
theorem Section.keeps (h : s.Section i ans pc u seen turn) (hat : At tr req pc) (hids : IdsInv s) (hstored : Stored tr s) :
    turn.All (At tr req) fun json => Conforms tr s.listen_ip_ req.endpoint (respond json) := by
  have error : ∀ {code : Int} {msg : String}, Utf8.Valid (ascii msg) → ∀ {endpoint : Endpoint}, req.endpoint = endpoint →
      (code, msg) ∈ endpoint.errors → Conforms tr s.listen_ip_ req.endpoint (respond (body code msg .null)) :=
    fun hmsg _ hendpoint herror => conforms_error hmsg (hendpoint ▸ herror)
  cases h with
  | created =>
    rw [Turn.All, show req.endpoint = _ from hat]
    exact conforms_success (isData_create _) (printable_created _)
  -- the adds, whose endpoint is told by their participant
  | addUnknown _ | exhausted _ =>
    refine error (by decide) hat.1 ?_
    split <;> decide
  | @added _ part port _ _ _ _ _ =>
    refine conforms_address ?_ ?_ (printable_address _)
    · rw [hat.1]
      split
      · exact Or.inl rfl
      · exact Or.inr rfl
    · rw [value_address, hat.1]
      obtain ⟨part_id, remote⟩ := part
      cases remote with
      | none => exact .add port
      | some _ => exact .addPassive (UInt16.ofNat port)
  | addFailed hremote =>
    have hactive : req.endpoint = .addAudioMeetPart := by rw [hat.1, if_pos hremote]
    exact error (by decide) hactive (by decide)
  | splitFailed hremote => exact hat.1.trans (if_neg (by rw [hremote]; exact Option.some_ne_none _))
  | crashed _ _ => trivial
  | existing _ _ | notExisting _ _ => exact error (by decide) hat (by decide)
  | destroyUnknown _ | deleteUnknown _ | deleteAbsent _ _ | muteUnknown _ | muteAbsent _ _ =>
    exact error (by decide) hat (by decide)
  | destroyed =>
    rw [Turn.All, show req.endpoint = _ from hat]
    exact conforms_success .destroy trivial
  | deleteAgainUnknown _ | removedPortless _ _ _ | notRemoved _ _ | deleteReleased =>
    rw [Turn.All, show req.endpoint = _ from hat]
    exact conforms_success .delete trivial
  | muted _ _ =>
    rw [Turn.All, show req.endpoint = _ from hat]
    exact conforms_success .mute trivial
  -- the listing, which collects the meetings one by one
  | listLooked => exact ⟨hat, fun x hx => absurd hx List.not_mem_nil⟩
  | listed hm =>
    obtain ⟨hlist, hlisted⟩ := hat
    refine ⟨hlist, fun x hx => ?_⟩
    rcases List.mem_append.mp hx with hx | hx
    · exact hlisted x hx
    · obtain rfl := List.mem_singleton.mp hx
      refine ⟨isMeeting_value _, fun hno => (printable_meetingJson hids hm).mpr fun part_id q slot hq => ?_⟩
      exact hstored _ part_id q slot hq hno
  | listEnded =>
    obtain ⟨hlist, hlisted⟩ := hat
    rw [Turn.All, hlist]
    refine conforms_listing ?_ fun hno => Json.printableElements_iff.mpr fun x hx => (hlisted x hx).2 hno
    rw [Json.value, Json.values_eq]
    refine .list _ fun v hv => ?_
    obtain ⟨x, hx, rfl⟩ := List.mem_map.mp hv
    exact (hlisted x hx).1
  | _ => exact hat

theorem Enters.at (h : Enters req pc) : At tr req pc := by
  cases h with
  | add _ hp =>
    refine ⟨rfl, fun hutf8 => ⟨hutf8 _ (given_eq_some.mp hp).1, fun remote hr => by cases hr⟩⟩
  | addPassive _ hp hi _ =>
    refine ⟨rfl, fun hutf8 => ⟨hutf8.1 _ (given_eq_some.mp hp).1, fun remote hr => ?_⟩⟩
    obtain rfl := Option.some.inj hr
    exact hutf8.2 _ (given_eq_some.mp hi).1
  | _ => exact rfl

/-- The endpoint has the texts that its requests are refused with. -/
theorem mem_errors_of_refusal {msg : String} (h : msg ∈ req.refusals) : (4, msg) ∈ req.endpoint.errors := by
  have hall : ∀ msg ∈ req.refusals, ((4 : Int), msg) ∈ req.endpoint.errors := by
    cases req <;> simp only [Request.refusals, Request.endpoint] <;> decide
  exact hall msg h

end Sections

/-! ### Runs -/

section Runs
variable {base count : UInt16} {ok : Server → ProcessAct → Prop} {s t : Server} {tr es : List Account} {i : Nat}
  {req : Request} {response : Response} {a : ProcessAct}

/-- Every request stands in the handler of its endpoint, and was answered as the handler answers. -/
structure SchemaInv (tr : List Account) (s : Server) : Prop where
  place : ∀ (i : Nat) (pc : ReqPc), s.requests[i]? = some pc → ∃ req, .received i req ∈ tr ∧ At tr req pc
  answers : ∀ before i response after, tr = before ++ .event (.responded i response) :: after →
    ∃ req, .received i req ∈ before ∧ Conforms before s.listen_ip_ req.endpoint response
  stored : Stored tr s

theorem SchemaInv.init {listen_ip : Bytes} {alloc : PortAllocator} :
    SchemaInv [] { listen_ip_ := listen_ip, port_allocator_ := alloc } := by
  refine ⟨fun i pc hpc => by simp at hpc, fun before i response after hsplit => absurd hsplit (by simp), ?_⟩
  rintro m part_id q slot ⟨meeting, hm, -⟩
  cases hm

/-- The responses of the events of an account. -/
theorem mem_responses_of_split {a : ServerAct} {es : List ServerEvent} {mid after : List Account}
    (h : s.account t a es = mid ++ .event (.responded i response) :: after) : (i, response) ∈ responses es :=
  responded_account (h ▸ List.mem_append_right mid List.mem_cons_self)

/-- What is stored is what an add of the history gave. -/
theorem SchemaInv.stores (h : SchemaInv tr s) {a : ServerAct} {es : List ServerEvent} (hd : Does s a t es) :
    Stored (tr ++ s.account t a es) t := by
  intro m part_id q slot hq hno
  rcases hd.partAt hq with hq | ⟨part, rfl, i, ans, port, meeting, calls, rfl, hpc, hm, hadd, -, rfl⟩
  · exact h.stored m part_id q slot hq fun hutf8 => hno (hutf8.mono _)
  · obtain ⟨req, hreq, -, hutf8⟩ := h.place i _ hpc
    have hevent : .event (.add i m calls true) ∈ s.account t (.go i ans) es :=
      List.mem_append_right _ (List.mem_map_of_mem hadd)
    have hstores : req.StoresUtf8 := by_contra fun hnot =>
      hno ⟨i, req, m, calls, List.mem_append_left _ hreq, List.mem_append_right _ hevent, hnot⟩
    obtain ⟨hid, hip⟩ := hutf8 hstores
    refine ⟨hid, ?_⟩
    simp only [NewPart.participant]
    cases hremote : part.remote with
    | none => exact .nil
    | some remote => exact hip remote hremote

/-- The requests, each with its place and its responses, once request `i` is at `pc'` and was answered with `rs`. -/
theorem SchemaInv.goes (h : SchemaInv tr s) {pc' : ReqPc} (hgoes : Goes s t i pc') (hip : t.listen_ip_ = s.listen_ip_)
    (hreq : .received i req ∈ tr ++ es) (hat : At (tr ++ es) req pc')
    (hrs : ∀ mid j response after, es = mid ++ .event (.responded j response) :: after →
      j = i ∧ .received i req ∈ tr ++ mid ∧ Conforms (tr ++ mid) s.listen_ip_ req.endpoint response)
    (hstored : Stored (tr ++ es) t) : SchemaInv (tr ++ es) t := by
  refine ⟨fun j pc hpc => ?_, fun before j response after hsplit => ?_, hstored⟩
  · rcases (hgoes j pc).mp hpc with ⟨rfl, rfl⟩ | ⟨-, hpc⟩
    · exact ⟨req, hreq, hat⟩
    · obtain ⟨req', hreq', hat'⟩ := h.place j pc hpc
      exact ⟨req', List.mem_append_left es hreq', hat'.mono es⟩
  · rw [hip]
    rcases append_eq_append_cons hsplit with ⟨after', hold⟩ | ⟨mid, rfl, hnew⟩
    · exact h.answers before j response after' hold
    · obtain ⟨rfl, hasked, hconforms⟩ := hrs mid j response after hnew
      exact ⟨req, hasked, hconforms⟩

theorem SchemaInv.step (h : SchemaInv tr s) (hids : IdsInv s) (hs : (process base count).step s a = some (t, es)) :
    SchemaInv (tr ++ es) t := by
  cases process_does hs with
  | @request a t es hstep =>
    have hstored := h.stores (step_does hstep).2
    obtain ⟨-, ⟨req, rfl, hreceive⟩ | ⟨i, ans, pc, rfl, hpc, hgo⟩⟩ := receives_or_goes hstep
    · have hreq : .received s.requests.length req ∈ tr ++ s.account t (.receive req) es :=
        List.mem_append_right tr List.mem_cons_self
      obtain ⟨pc, henters, rfl, rfl⟩ | ⟨msg, hmsg, rfl, rfl⟩ := receive_cases hreceive
      · refine h.goes (goes_snoc rfl) rfl hreq henters.at (fun mid j response after hsplit => ?_) hstored
        cases mem_responses_of_split hsplit
      · have hgoes : Goes s { s with requests := s.requests ++ [.done] } s.requests.length .done := goes_snoc rfl
        refine h.goes hgoes rfl hreq trivial (fun mid j response after hsplit => ?_) hstored
        obtain ⟨rfl, rfl⟩ := Prod.mk.inj (List.mem_singleton.mp (mem_responses_of_split hsplit))
        refine ⟨rfl, List.mem_append_right tr ?_, conforms_error (valid_refusals hmsg) (mem_errors_of_refusal hmsg)⟩
        -- The request comes before its refusal.
        cases mid with
        | nil => cases (List.cons.inj hsplit).1
        | cons e mid =>
          obtain ⟨rfl, -⟩ := List.cons.inj hsplit
          exact List.mem_cons_self
    · obtain ⟨req, hreq, hat⟩ := h.place i pc hpc
      obtain ⟨u, seen, turn, hsection, rfl, rfl⟩ := goOn_took hgo
      have hturn := hsection.keeps hat hids h.stored
      have hip : (turn.leave u i).1.listen_ip_ = s.listen_ip_ := by cases turn <;> exact hsection.listen_ip
      refine h.goes (hsection.goes hpc) hip (List.mem_append_left _ hreq) ?_ (fun mid j response after hsplit => ?_) hstored
      · cases turn with
        | goes pc' => exact hturn.mono _
        | ends json => trivial
        | crashes => exact hat.mono _
      · have hrs := mem_responses_of_split hsplit
        rw [responses_append, hsection.unanswered, List.nil_append] at hrs
        cases turn with
        | ends json =>
          obtain ⟨rfl, rfl⟩ := Prod.mk.inj (List.mem_singleton.mp hrs)
          exact ⟨rfl, List.mem_append_left mid hreq, Conforms.mono hturn mid⟩
        | _ => cases hrs
  | destruct hm _ _ _ =>
    refine ⟨fun i pc hpc => ?_, fun before i response after hsplit => ?_, fun m part_id q slot hq hno => ?_⟩
    · obtain ⟨req, hreq, hat⟩ := h.place i pc hpc
      exact ⟨req, List.mem_append_left _ hreq, hat.mono _⟩
    · rcases append_eq_append_cons hsplit with ⟨after', hold⟩ | ⟨mid, -, hnew⟩
      · exact h.answers before i response after' hold
      · have hmem : .event (.responded i response) ∈ mid ++ .event (.responded i response) :: after :=
          List.mem_append_right mid List.mem_cons_self
        rw [← hnew] at hmem
        cases List.mem_singleton.mp hmem
    · exact h.stored m part_id q slot (partAt_of_destructed hm hq) fun hutf8 => hno (hutf8.mono _)

theorem run_schemaInv (h : (process base count).Run ok tr s) : SchemaInv tr s := by
  induction h with
  | init hs =>
    obtain ⟨listen_ip, rfl⟩ := hs
    exact .init
  | step hrun _ hs ih => exact ih.step (run_idsInv hrun) hs

/-- In every run, whatever the requests and however they interleave, each response answers a request that was received
    before it, as the endpoint of the request answers after the history up to then. -/
theorem responses_conform (h : (process base count).Run ok tr s) {before after : List Account}
    (hsplit : tr = before ++ .event (.responded i response) :: after) (hreq : .received i req ∈ tr) :
    .received i req ∈ before ∧ Conforms before s.listen_ip_ req.endpoint response := by
  obtain ⟨req', hreq', hconforms⟩ := (run_schemaInv h).answers before i response after hsplit
  have hist : HistoryInv False tr s := run_historyInv (fun _ _ _ _ _ hf => hf.elim) h
  have hsame := hist.one i req req' hreq (hsplit ▸ List.mem_append_left _ hreq')
  rw [hsame]
  exact ⟨hreq', hconforms⟩

/-- A meeting with one participant, whose name has to be escaped, is created and listed. -/
def listsQuoted : List ProcessAct :=
  [.request (.receive .createAudioMeet), .request (.go 0 {}),
    .request (.receive (.addAudioMeetPart { meetId := some (hexId 0), partId := some (ascii "\"\n") })),
    .request (.go 1 {}), .request (.go 1 {}), .request (.go 1 {}), .request (.receive .listAudioMeets),
    .request (.go 2 {}), .request (.go 2 {}), .request (.go 2 {})]

theorem responses_conform_quoted : ∃ before after s req response,
    (process 20000 2).Run Any (before ++ .event (.responded 2 response) :: after) s ∧ .received 2 req ∈ before ∧
    Conforms before s.listen_ip_ req.endpoint response := by
  obtain ⟨tr, s, hrun, hp⟩ := exists_run (process 20000 2) { listen_ip_ := [], port_allocator_ := .new 20000 2 }
    listsQuoted ⟨[], rfl⟩ (meets_any _ _ _)
    (fun r => asked r.2 (fun _ => true) 2 && decide (2 ∈ answered r.2)) (by decide +kernel)
  simp only [Bool.and_eq_true, decide_eq_true_eq] at hp
  obtain ⟨req, hreq, -⟩ := asked_iff.mp hp.1
  obtain ⟨response, hr⟩ := mem_answered.mp hp.2
  obtain ⟨before, after, rfl⟩ := List.append_of_mem hr
  exact ⟨before, after, s, req, response, hrun, responses_conform hrun rfl hreq⟩

end Runs

end Server
end AudioMeet
