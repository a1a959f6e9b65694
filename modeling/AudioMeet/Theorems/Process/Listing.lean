import AudioMeet.Theorems.Process.Step
import AudioMeet.Theorems.Server.PortUse
import AudioMeet.Theorems.Server.Responses

/-! What `listAudioMeets` answers. The adders store ids and addresses as they come, and the answer is a text
    only when all that are stored are UTF-8. -/

namespace AudioMeet

/-! ### What a listing is -/

inductive Mode
  | active
  | passive
  | split
deriving DecidableEq

/-- A participant is split when it listens and connects, and passive when it only connects. -/
def Participant.mode (p : Participant) : Mode :=
  if p.remote_ip_ = [] then .active else if p.port_ = 0 then .passive else .split

namespace Server
open Lib Machine

def modeMembers (p : Participant) : List (String × Json) :=
  match p.mode with
  | .active => [("mode", .string (ascii "active")), ("localPort", .number p.port_.toNat)]
  | .passive => [("mode", .string (ascii "passive")), ("remoteIp", .string p.remote_ip_),
      ("remotePort", .number p.remote_port_.toNat)]
  | .split => [("mode", .string (ascii "split")), ("localPort", .number p.port_.toNat),
      ("remoteIp", .string p.remote_ip_), ("remotePort", .number p.remote_port_.toNat)]

def partEntry (part_id : Bytes) (p : Participant) : Json := .ofMembers (("partId", .string part_id) :: modeMembers p)

def meetingEntry (meet_id : Bytes) (parts : List (Bytes × Participant × Nat)) : Json :=
  .ofMembers [("meetId", .string meet_id), ("participants", .array (parts.map fun x => partEntry x.1 x.2.1))]

/-- The participants of the meeting at `m`, by their ids. -/
def partsAt (s : Server) (m : Nat) : List (Bytes × Participant × Nat) :=
  (s.objects[m]?.map (·.participants_.toList)).getD []

/-- The registered meetings with their participants. -/
def listing (s : Server) : Json := .array (s.meetings_.toList.map fun x => meetingEntry x.1 (s.partsAt x.2))

/-- A list request that runs alone is answered with code 0 and the listing. -/
def ListsAll (base count : UInt16) (s : Server) : Prop :=
  ∃ text t, (body 0 "success" s.listing).dump = .ok text ∧
    (process base count).exec s
        ((request s.requests.length .listAudioMeets (s.list_meetings.length + 2)).map .request) =
      some (t, [.received s.requests.length .listAudioMeets, .event (.responded s.requests.length (.content text))])

/-- What is stored of the registered meetings is UTF-8. -/
def StoredUtf8 (s : Server) : Prop :=
  ∀ (meet_id : Bytes) (m : Nat) (part_id : Bytes) (q : Participant) (slot : Nat), s.meetings_[meet_id]? = some m →
    PartAt s m part_id q slot → Utf8.Valid part_id ∧ Utf8.Valid q.remote_ip_

section Answers
variable {s : Server} {base count : UInt16}

/-! ### What the handler answers -/

/-- The entry of the meeting at `m`. -/
def objectJson (s : Server) (m : Nat) : Json := (s.objects[m]?.map meetingJson).getD .null

theorem exec_go {i n : Nat} {ans : Answer} {pc : ReqPc} {t : Server} {es : List ServerEvent} (hc : s.crashed = false)
    (hpc : s.requests[i]? = some pc) (hgo : s.goOn i ans pc = some (t, es)) (herases : s.erases t i pc = []) :
    (process base count).exec s (List.replicate (n + 1) (.request (.go i ans))) =
      ((process base count).exec t (List.replicate n (.request (.go i ans)))).map fun r => (r.1, es.map .event ++ r.2) := by
  have hstep : s.step (.go i ans) = some (t, es) := by
    simp only [Server.step, hc, Bool.false_eq_true, if_false, hpc, Option.bind_eq_bind, Option.bind_some, hgo]
  have hacc : s.account t (.go i ans) es = es.map .event := by
    simp only [account, hpc, Option.map_some, Option.getD_some, herases, List.nil_append]
  rw [List.replicate_succ, Machine.exec, process_request hstep, hacc]
  simp only [Option.bind_eq_bind, Option.bind_some, pure]
  cases (process base count).exec t (List.replicate n (.request (.go i ans))) <;> rfl

/-- The loop over the meetings, and the response after it. -/
theorem exec_listParticipants {i : Nat} {ans : Answer} {rest : List Nat} (hobj : ∀ m ∈ rest, m < s.objects.length)
    (listed : List Json) (requests : List ReqPc) (hc : s.crashed = false)
    (hpc : requests[i]? = some (.listParticipants listed rest)) :
    ∃ t, (process base count).exec { s with requests := requests }
        (List.replicate (rest.length + 1) (.request (.go i ans))) =
      some (t, [.event (.responded i (respond (body 0 "success" (.array (listed ++ rest.map s.objectJson)))))]) := by
  induction rest generalizing listed requests with
  | nil =>
    refine ⟨{ s with requests := requests.set i .done }, ?_⟩
    rw [List.map_nil, List.append_nil]
    exact exec_go (s := { s with requests := requests }) hc hpc rfl rfl
  | cons m rest ih =>
    obtain ⟨hm, hrest⟩ := List.forall_mem_cons.mp hobj
    have hget : s.objects[m]? = some s.objects[m] := List.getElem?_eq_getElem hm
    have hpc' : (requests.set i (.listParticipants (listed ++ [s.objectJson m]) rest))[i]? =
        some (.listParticipants (listed ++ [s.objectJson m]) rest) := by
      rw [List.getElem?_set_self (List.getElem?_eq_some_iff.mp hpc).1]
    have hgo : goOn { s with requests := requests } i ans (.listParticipants listed (m :: rest)) =
        some ({ s with requests := requests.set i (.listParticipants (listed ++ [s.objectJson m]) rest) }, []) := by
      simp only [goOn, hget, Option.bind_eq_bind, Option.bind_some, goto, objectJson, Option.map_some, Option.getD_some]
    obtain ⟨t, ht⟩ := ih hrest _ _ hpc'
    refine ⟨t, (exec_go (s := { s with requests := requests }) hc hpc hgo rfl).trans ?_⟩
    rw [List.length_cons, ht]
    simp

theorem exec_list (base count : UInt16) (hc : s.crashed = false) (hobj : ∀ m ∈ s.list_meetings, m < s.objects.length) :
    ∃ t, (process base count).exec s
        ((request s.requests.length .listAudioMeets (s.list_meetings.length + 2)).map .request) =
      some (t, [.received s.requests.length .listAudioMeets, .event (.responded s.requests.length
        (respond (body 0 "success" (.array (s.list_meetings.map s.objectJson)))))]) := by
  have hreceive : s.step (.receive .listAudioMeets) = some ({ s with requests := s.requests ++ [.listLookup] }, []) := by
    simp only [Server.step, hc, Bool.false_eq_true, if_false, receive, validate]
  have hlast : ∀ pc : ReqPc, (s.requests ++ [pc])[s.requests.length]? = some pc := by simp
  obtain ⟨t, ht⟩ := exec_listParticipants hobj [] (s.requests ++ [.listParticipants [] s.list_meetings]) hc (hlast _)
  refine ⟨t, ?_⟩
  rw [request, List.map_cons, List.map_replicate, Machine.exec, process_request hreceive]
  simp only [Option.bind_eq_bind, Option.bind_some]
  have hgo : goOn { s with requests := s.requests ++ [.listLookup] } s.requests.length {} .listLookup =
      some ({ s with requests := s.requests ++ [.listParticipants [] s.list_meetings] }, []) := by
    simp only [goOn, goto, list_meetings]
    simp
  rw [exec_go (s := { s with requests := s.requests ++ [.listLookup] }) hc (hlast _) hgo rfl, ht]
  rfl

end Answers

/-! ### What the meetings hold -/

section Stored
variable {s t : Server} {a : ServerAct} {es : List ServerEvent}

/-- The ids of meetings are made by `create_meeting`, and each participant is stored under its own id. -/
structure IdsInv (s : Server) : Prop where
  meeting : ∀ (m : Nat) (meeting : Meeting), s.objects[m]? = some meeting → ∃ random, meeting.meet_id_ = hexId random
  part : ∀ m part_id q slot, PartAt s m part_id q slot → q.part_id_ = part_id

/-- What an add that inserts its participant has at hand, and what is seen of it. -/
def Inserts (s : Server) (a : ServerAct) (es : List ServerEvent) (m : Nat) (part : NewPart) (q : Participant) : Prop :=
  ∃ i ans port meeting calls, a = .go i ans ∧ s.requests[i]? = some (.addSection m part port) ∧
    s.objects[m]? = some meeting ∧ .add i m calls true ∈ es ∧ meeting.admits part.part_id ans.add = true ∧
    q = part.participant meeting.meet_id_ (UInt16.ofNat port)

/-- A participant is there since before the step, or an add has just inserted it. -/
theorem Does.partAt (hd : Does s a t es) {m slot : Nat} {part_id : Bytes} {q : Participant}
    (hq : PartAt t m part_id q slot) :
    PartAt s m part_id q slot ∨ ∃ part, part_id = part.part_id ∧ Inserts s a es m part q := by
  cases hd with
  | created _ _ => exact Or.inl (partsLeave_new rfl m part_id q slot hq)
  | @added i ans k meeting meeting' part port calls es hpc hm hadd _ =>
    rw [addTo_eq] at hadd
    obtain ⟨slot', -, hjoin, -⟩ := Meeting.add_joins hadd
    rcases (partAt_set hm rfl).mp hq with ⟨rfl, hnew⟩ | ⟨-, hold⟩
    · rcases (hjoin.getElem? part_id).mp hnew with ⟨hid, heq⟩ | ⟨-, hold⟩
      · exact Or.inr ⟨part, hid, i, ans, port, meeting, calls, rfl, hpc, hm, List.mem_cons_self,
          Meeting.admits_of_add hadd, (Prod.mk.inj heq).1⟩
      · exact Or.inl ⟨meeting, hm, hold⟩
    · exact Or.inl hold
  | @clockStopped i ans k meeting ports _ hm =>
    rcases (partAt_set hm rfl).mp hq with ⟨rfl, hold⟩ | ⟨-, hold⟩
    · exact Or.inl ⟨meeting, hm, hold⟩
    · exact Or.inl hold
  | stopped _ hm =>
    rcases (partAt_set hm rfl).mp hq with ⟨-, hnone⟩ | ⟨-, hold⟩
    · simp [Meeting.stopSection] at hnone
    · exact Or.inl hold
  | @removed i ans k meeting part_id' q' slot' pc es _ hm _ _ _ =>
    rcases (partAt_set hm rfl).mp hq with ⟨rfl, hleft⟩ | ⟨-, hold⟩
    · exact Or.inl ⟨meeting, hm, (getElem?_erase_some.mp hleft).2⟩
    · exact Or.inl hold
  | _ => exact Or.inl (partsLeave_of_objects rfl m part_id q slot hq)

theorem Does.meet_id (hd : Does s a t es) {m : Nat} {meeting : Meeting} (hm : t.objects[m]? = some meeting) :
    (∃ random, meeting.meet_id_ = hexId random) ∨ ∃ old, s.objects[m]? = some old ∧ meeting.meet_id_ = old.meet_id_ := by
  have hset : ∀ {k : Nat} {x x' : Meeting}, s.objects[k]? = some x → x'.meet_id_ = x.meet_id_ →
      (s.objects.set k x')[m]? = some meeting → ∃ old, s.objects[m]? = some old ∧ meeting.meet_id_ = old.meet_id_ := by
    intro k x x' hx hid hm
    rcases (getElem?_set_some hx).mp hm with ⟨rfl, rfl⟩ | ⟨-, hm⟩
    · exact ⟨x, hx, hid⟩
    · exact ⟨meeting, hm, rfl⟩
  cases hd with
  | created _ _ =>
    rcases getElem?_snoc_some.mp hm with ⟨-, rfl⟩ | hm
    · exact Or.inl ⟨_, rfl⟩
    · exact Or.inr ⟨meeting, hm, rfl⟩
  | added _ hx hadd _ =>
    rw [addTo_eq] at hadd
    obtain ⟨slot', -, hjoin, -⟩ := Meeting.add_joins hadd
    exact Or.inr (hset hx (by rw [hjoin.eq]) hm)
  | clockStopped _ hx => exact Or.inr (hset hx (by rfl) hm)
  | stopped _ hx => exact Or.inr (hset hx (by rfl) hm)
  | removed _ hx _ _ _ => exact Or.inr (hset hx (by rfl) hm)
  | _ => exact Or.inr ⟨meeting, hm, rfl⟩

/-- The destructor of a meeting leaves no participant but those of the others. -/
theorem partAt_of_destructed {m k slot : Nat} {x : Meeting} {part_id : Bytes} {q : Participant}
    (hm : s.objects[m]? = some x)
    (hq : PartAt { s with objects := s.objects.set m x.stopClock.stopSection } k part_id q slot) :
    PartAt s k part_id q slot := by
  rcases (partAt_set hm rfl).mp hq with ⟨-, hnone⟩ | ⟨-, hq⟩
  · simp [Meeting.stopSection] at hnone
  · exact hq

theorem IdsInv.step (h : IdsInv s) (hd : Does s a t es) : IdsInv t where
  meeting := by
    intro m meeting hm
    rcases hd.meet_id hm with hid | ⟨old, hold, hid⟩
    · exact hid
    · obtain ⟨random, hr⟩ := h.meeting m old hold
      exact ⟨random, hid.trans hr⟩
  part := by
    intro m part_id q slot hq
    rcases hd.partAt hq with hq | ⟨part, rfl, i, ans, port, meeting, calls, -, -, -, -, -, rfl⟩
    · exact h.part m part_id q slot hq
    · rfl

theorem run_idsInv {base count : UInt16} {ok : Server → ProcessAct → Prop} {tr : List Account}
    (h : (process base count).Run ok tr s) : IdsInv s := by
  refine h.invariant (I := fun _ s => IdsInv s) (fun s hs => ?_) fun tr s a t es hinv _ hs => ?_
  · obtain ⟨listen_ip, rfl⟩ := hs
    refine ⟨nofun, ?_⟩
    rintro m part_id q slot ⟨meeting, hm, -⟩
    cases hm
  · cases process_does hs with
    | request hstep => exact hinv.step (step_does hstep).2
    | @destruct m old hm _ _ _ =>
      refine ⟨fun k meeting hk => ?_, fun k part_id q slot hq => ?_⟩
      · rcases (getElem?_set_some hm).mp hk with ⟨rfl, rfl⟩ | ⟨-, hk⟩
        · exact hinv.meeting k old hm
        · exact hinv.meeting k meeting hk
      · exact hinv.part k part_id q slot (partAt_of_destructed hm hq)

/-- An add that inserts its participant was asked for a UTF-8 id and address. -/
def Utf8Adds (s : Server) : ServerAct → Prop
  | .receive _ => True
  | .go i ans =>
    match s.requests[i]? with
    | some (.addSection m part _) => ∀ meeting ∈ s.objects[m]?, meeting.admits part.part_id ans.add = true →
        Utf8.Valid part.part_id ∧ ∀ remote ∈ part.remote, Utf8.Valid remote.1
    | _ => True

instance (s : Server) : DecidablePred (Utf8Adds s)
  | .receive _ => .isTrue trivial
  | .go i ans => by
    unfold Utf8Adds
    dsimp only
    generalize s.requests[i]? = req
    rcases req with _ | pc
    · infer_instance
    · rcases pc <;> infer_instance

theorem run_utf8 {base count : UInt16} {tr : List Account} (h : (process base count).Run (OfRequests Utf8Adds) tr s) :
    ∀ m part_id q slot, PartAt s m part_id q slot → Utf8.Valid part_id ∧ Utf8.Valid q.remote_ip_ := by
  refine h.invariant (I := fun _ s => ∀ m part_id q slot, PartAt s m part_id q slot →
    Utf8.Valid part_id ∧ Utf8.Valid q.remote_ip_) (fun s hs => ?_) ?_
  · obtain ⟨listen_ip, rfl⟩ := hs
    rintro m part_id q slot ⟨meeting, hm, -⟩
    cases hm
  · intro _ s a t es hinv hok hs m part_id q slot hq
    cases process_does hs with
    | request hstep =>
      rcases (step_does hstep).2.partAt hq with hq | ⟨part, rfl, i, ans, port, meeting, _, rfl, hpc, hm, -, hadm, rfl⟩
      · exact hinv m part_id q slot hq
      · simp only [OfRequests, Utf8Adds, hpc] at hok
        obtain ⟨hid, hip⟩ := hok meeting hm hadm
        refine ⟨hid, ?_⟩
        simp only [NewPart.participant]
        cases hremote : part.remote with
        | none => exact .nil
        | some remote => exact hip remote hremote
    | destruct hm _ _ _ => exact hinv m part_id q slot (partAt_of_destructed hm hq)

end Stored

/-! ### When the listing is a text -/

theorem participantJson_eq (p : Participant) : participantJson p = partEntry p.part_id_ p := by
  unfold participantJson partEntry modeMembers Participant.mode Participant.is_split Participant.is_passive
  by_cases hip : p.remote_ip_ = []
  · simp [hip]
  · by_cases hport : p.port_ = 0
    · simp [hip, hport]
    · simp [hip, hport]

theorem printable_partEntry {part_id : Bytes} {p : Participant} :
    Json.Printable (partEntry part_id p) ↔ Utf8.Valid part_id ∧ Utf8.Valid p.remote_ip_ := by
  unfold partEntry modeMembers Participant.mode
  by_cases hip : p.remote_ip_ = []
  · have hmode : Utf8.Valid (ascii "active") := by decide
    rw [if_pos hip, hip, Json.printable_ofMembers ["partId", "mode", "localPort"] rfl (by decide)]
    simp [Json.Printable, Utf8.Valid.nil, hmode]
  · rw [if_neg hip]
    by_cases hport : p.port_ = 0
    · have hmode : Utf8.Valid (ascii "passive") := by decide
      rw [if_pos hport, Json.printable_ofMembers ["partId", "mode", "remoteIp", "remotePort"] rfl (by decide)]
      simp [Json.Printable, hmode]
    · have hmode : Utf8.Valid (ascii "split") := by decide
      rw [if_neg hport, Json.printable_ofMembers ["partId", "mode", "localPort", "remoteIp", "remotePort"] rfl (by decide)]
      simp [Json.Printable, hmode]

theorem printable_meetingEntry {meet_id : Bytes} {parts : List (Bytes × Participant × Nat)} :
    Json.Printable (meetingEntry meet_id parts) ↔
      Utf8.Valid meet_id ∧ ∀ x ∈ parts, Utf8.Valid x.1 ∧ Utf8.Valid x.2.1.remote_ip_ := by
  rw [meetingEntry, Json.printable_ofMembers ["meetId", "participants"] rfl (by decide)]
  simp only [List.forall_mem_cons, Json.Printable, Json.printableElements_iff, List.forall_mem_map, printable_partEntry]
  simp

section Text
variable {s : Server}

theorem mem_partsAt {m slot : Nat} {part_id : Bytes} {q : Participant} :
    (part_id, q, slot) ∈ s.partsAt m ↔ PartAt s m part_id q slot := by
  unfold partsAt PartAt
  cases s.objects[m]? with
  | none => simp
  | some meeting => simp [Std.ExtTreeMap.mem_toList_iff_getElem?_eq_some]

/-- The handler reads the ids from the participants, under which they are stored. -/
theorem meetingJson_eq (hids : IdsInv s) {m : Nat} {meeting : Meeting} (hm : s.objects[m]? = some meeting) :
    meetingJson meeting = meetingEntry meeting.meet_id_ (s.partsAt m) := by
  have hparts : meeting.participants.map participantJson =
      meeting.participants_.toList.map fun x => partEntry x.1 x.2.1 := by
    rw [Meeting.participants, List.map_map]
    refine List.map_congr_left ?_
    rintro ⟨part_id, q, slot⟩ hq
    have hid := hids.part m part_id q slot ⟨meeting, hm, Std.ExtTreeMap.mem_toList_iff_getElem?_eq_some.mp hq⟩
    rw [Function.comp_apply, participantJson_eq, hid]
  simp only [partsAt, hm, Option.map_some, Option.getD_some, meetingJson, hparts, meetingEntry]

theorem printable_meetingJson (hids : IdsInv s) {m : Nat} {meeting : Meeting} (hm : s.objects[m]? = some meeting) :
    Json.Printable (meetingJson meeting) ↔
      ∀ part_id q slot, PartAt s m part_id q slot → Utf8.Valid part_id ∧ Utf8.Valid q.remote_ip_ := by
  obtain ⟨random, hr⟩ := hids.meeting m meeting hm
  rw [meetingJson_eq hids hm, printable_meetingEntry, and_iff_right (hr ▸ valid_hexId random)]
  exact ⟨fun h part_id q slot hq => h _ (mem_partsAt.mpr hq), fun h x hx => h x.1 x.2.1 x.2.2 (mem_partsAt.mp hx)⟩

/-- The answer holds the entries that the meetings and the participants are stored under. -/
theorem listing_eq (hreg : RegistryInv s) (hids : IdsInv s) :
    s.listing = .array (s.list_meetings.map s.objectJson) := by
  rw [listing, list_meetings, List.map_map]
  refine congrArg Json.array (List.map_congr_left ?_)
  rintro ⟨meet_id, m⟩ hm
  obtain ⟨meeting, hobj, rfl, -⟩ := hreg.keyed meet_id m (Std.ExtTreeMap.mem_toList_iff_getElem?_eq_some.mp hm)
  simp only [Function.comp_apply, objectJson, hobj, Option.map_some, Option.getD_some, meetingJson_eq hids hobj]

/-- A registered meeting has an id of `create_meeting`, so that only its participants matter. -/
theorem printable_listing (hreg : RegistryInv s) (hids : IdsInv s) : Json.Printable s.listing ↔ StoredUtf8 s := by
  rw [listing_eq hreg hids, Json.Printable, Json.printableElements_iff, List.forall_mem_map]
  have hobject : ∀ (meet_id : Bytes) (m : Nat), s.meetings_[meet_id]? = some m →
      (Json.Printable (s.objectJson m) ↔
        ∀ part_id q slot, PartAt s m part_id q slot → Utf8.Valid part_id ∧ Utf8.Valid q.remote_ip_) := by
    intro meet_id m hm
    obtain ⟨meeting, hobj, -⟩ := hreg.keyed meet_id m hm
    rw [objectJson, hobj]
    exact printable_meetingJson hids hobj
  constructor
  · intro h meet_id m part_id q slot hm
    exact (hobject meet_id m hm).mp (h m (mem_list_meetings.mpr ⟨meet_id, hm⟩)) part_id q slot
  · intro h m hm
    obtain ⟨meet_id, hm⟩ := mem_list_meetings.mp hm
    exact (hobject meet_id m hm).mpr fun part_id q slot => h meet_id m part_id q slot hm

end Text

/-! ### The result -/

section Result
variable {s : Server} {tr : List Account} {base count : UInt16}

/-- In every state of a process that runs, the listing is answered exactly when what it has to name is UTF-8. -/
theorem listsAll_iff {ok : Server → ProcessAct → Prop} (h : (process base count).Run ok tr s) (hc : s.crashed = false) :
    ListsAll base count s ↔ StoredUtf8 s := by
  have hreg := run_registryInv h
  have hids := run_idsInv h
  have hobj : ∀ m ∈ s.list_meetings, m < s.objects.length := by
    intro m hm
    obtain ⟨meet_id, hm⟩ := mem_list_meetings.mp hm
    obtain ⟨meeting, hm, -⟩ := hreg.keyed meet_id m hm
    exact (List.getElem?_eq_some_iff.mp hm).1
  obtain ⟨t, ht⟩ := exec_list base count hc hobj
  have hmsg : Utf8.Valid (ascii "success") := by decide
  rw [← printable_listing hreg hids, ← printable_body hmsg, ← Json.isOk_dump]
  rw [← listing_eq hreg hids] at ht
  constructor
  · rintro ⟨text, -, htext, -⟩
    rw [htext]
    rfl
  · intro hok
    cases htext : (body 0 "success" s.listing).dump with
    | error e =>
      rw [htext] at hok
      cases hok
    | ok text =>
      rw [respond, htext] at ht
      exact ⟨text, t, htext, ht⟩

/-- As long as each participant that is added has a UTF-8 id and address, every listing is total and complete. -/
theorem listing_is_complete (h : (process base count).Run (OfRequests Utf8Adds) tr s) (hc : s.crashed = false) :
    ListsAll base count s := by
  refine (listsAll_iff h hc).mpr fun meet_id m part_id q slot _ hq => ?_
  exact run_utf8 h m part_id q slot hq

/-- A meeting, and a split participant of it. -/
def joinedSplit (part_id : Bytes) : List ProcessAct :=
  (request 0 .createAudioMeet 1 { random := 1 } ++
  request 1 (.addPassiveAudioMeetPart
    { meetId := some (hexId 1), partId := some part_id, ip := some (ascii "10.0.0.1"), port := some (ascii "80") }) 3).map
    .request

/-- The generator draws the id of the meeting again, the meeting is destructed, and the other one has a participant. -/
def joinedAgain : List ProcessAct :=
  joinedSplit (ascii "a") ++ (request 2 .createAudioMeet 1 { random := 1 }).map .request ++ [.destruct 0] ++
  (request 3 (.addAudioMeetPart { meetId := some (hexId 1), partId := some (ascii "b") }) 3).map .request

theorem listing_is_complete_again : ∃ tr s, (process 10000 4).Run (OfRequests Utf8Adds) tr s ∧
    HasPort s 10001 ∧ ListsAll 10000 4 s := by
  have hmeets : (process 10000 4).Meets (OfRequests Utf8Adds) { listen_ip_ := [], port_allocator_ := .new 10000 4 }
      joinedAgain := meets_of_checks (by decide +kernel)
  obtain ⟨tr, s, hrun, hs⟩ := exists_run (process 10000 4) _ joinedAgain ⟨[], rfl⟩ hmeets
    (fun r => hasPort r.1 (hexId 1) (ascii "b") 10001 && !r.1.crashed) (by decide +kernel)
  simp only [Bool.and_eq_true, Bool.not_eq_true'] at hs
  exact ⟨tr, s, hrun, hasPort_of_test (by decide) hs.1, listing_is_complete hrun hs.2⟩

/-- The id is one byte that no UTF-8 text has. -/
theorem listing_throws : ¬ ∀ (base count : UInt16) (tr : List Account) (s : Server),
    1 ≤ base.toNat → base.toNat + count.toNat ≤ 65536 → (process base count).Run Any tr s → s.crashed = false →
    ListsAll base count s := by
  intro hall
  obtain ⟨tr, s, hrun, hs⟩ := exists_run (process 10000 1) { listen_ip_ := [], port_allocator_ := .new 10000 1 }
    (joinedSplit [0xFF]) ⟨[], rfl⟩ (meets_any _ _ _)
    (fun r => !(body 0 "success" r.1.listing).dump.isOk && !r.1.crashed) (by decide +kernel)
  simp only [Bool.and_eq_true, Bool.not_eq_true'] at hs
  obtain ⟨text, -, htext, -⟩ := hall 10000 1 tr s (by decide) (by decide) hrun hs.2
  rw [htext] at hs
  cases hs.1

end Result

end Server
end AudioMeet
