import AudioMeet.Theorems.Process.Sequential
import AudioMeet.Theorems.Server.Responses

/-! What the code of the response to an add tells. Both handlers get nothing but a null pointer from an add that
    failed; the passive one looks for the participant to tell the cases apart, and the active one does not. -/

namespace AudioMeet
open Lib Machine

/-- The parameters of an add are valid: the ids and the address are given, and the port is one. -/
inductive ValidAdd : Request → Bytes → NewPart → Prop
  | active {params : Params} {meet_id part_id : Bytes} :
      params.meetId = some meet_id → meet_id ≠ [] → params.partId = some part_id → part_id ≠ [] →
      ValidAdd (.addAudioMeetPart params) meet_id { part_id }
  | passive {params : Params} {meet_id part_id ip port : Bytes} {n : Int} :
      params.meetId = some meet_id → meet_id ≠ [] → params.partId = some part_id → part_id ≠ [] →
      params.ip = some ip → ip ≠ [] → params.port = some port → stoi port = some n → 1 ≤ n → n ≤ 65535 →
      ValidAdd (.addPassiveAudioMeetPart params) meet_id { part_id, remote := some (ip, UInt16.ofNat n.toNat) }

def Request.isAdd : Request → Bool
  | .addAudioMeetPart _ | .addPassiveAudioMeetPart _ => true
  | _ => false

theorem ValidAdd.unique {req : Request} {meet_id meet_id' : Bytes} {part part' : NewPart} (h : ValidAdd req meet_id part)
    (h' : ValidAdd req meet_id' part') : meet_id' = meet_id ∧ part' = part := by
  cases h with
  | active hm _ hp _ =>
    cases h' with
    | active hm' _ hp' _ =>
      obtain rfl := Option.some.inj (hm.symm.trans hm')
      obtain rfl := Option.some.inj (hp.symm.trans hp')
      exact ⟨rfl, rfl⟩
  | passive hm _ hp _ hi _ hport hn _ _ =>
    cases h' with
    | passive hm' _ hp' _ hi' _ hport' hn' _ _ =>
      obtain rfl := Option.some.inj (hm.symm.trans hm')
      obtain rfl := Option.some.inj (hp.symm.trans hp')
      obtain rfl := Option.some.inj (hi.symm.trans hi')
      obtain rfl := Option.some.inj (hport.symm.trans hport')
      obtain rfl := Option.some.inj (hn.symm.trans hn')
      exact ⟨rfl, rfl⟩

namespace Server

/-- `validate` lets an add pass exactly with valid parameters. -/
theorem validate_add {req : Request} (hadd : req.isAdd = true) :
    (∃ meet_id part, ValidAdd req meet_id part ∧ validate req = .inl (.addLookup meet_id part)) ∨
      ((∀ meet_id part, ¬ ValidAdd req meet_id part) ∧ ∃ msg, Utf8.Valid (ascii msg) ∧ validate req = .inr (body 4 msg .null)) := by
  cases req with
  | addAudioMeetPart params =>
    simp only [validate]
    split
    · rename_i meet_id part_id hm hp
      obtain ⟨hm, hm'⟩ := given_eq_some.mp hm
      obtain ⟨hp, hp'⟩ := given_eq_some.mp hp
      exact Or.inl ⟨_, _, .active hm hm' hp hp', rfl⟩
    · rename_i hnone
      refine Or.inr ⟨fun meet_id part hv => ?_, _, (by decide), rfl⟩
      obtain @⟨_, _, part_id, hm, hm', hp, hp'⟩ := hv
      exact hnone meet_id part_id (given_eq_some.mpr ⟨hm, hm'⟩) (given_eq_some.mpr ⟨hp, hp'⟩)
  | addPassiveAudioMeetPart params =>
    simp only [validate]
    split
    · rename_i meet_id part_id ip port hm hp hi hport
      obtain ⟨hm, hm'⟩ := given_eq_some.mp hm
      obtain ⟨hp, hp'⟩ := given_eq_some.mp hp
      obtain ⟨hi, hi'⟩ := given_eq_some.mp hi
      obtain ⟨hport, hport'⟩ := given_eq_some.mp hport
      split
      · rename_i hrange
        refine Or.inr ⟨fun meet_id' part hv => ?_, _, (by decide), rfl⟩
        cases hv with
        | passive _ _ _ _ _ _ hport₂ hn h1 h2 =>
          obtain rfl := Option.some.inj (hport.symm.trans hport₂)
          rw [hn, Option.getD_some] at hrange
          omega
      · rename_i hrange
        cases hn : stoi port with
        | none => simp [hn] at hrange
        | some n =>
          rw [hn, Option.getD_some] at hrange
          refine Or.inl ⟨_, _, .passive hm hm' hp hp' hi hi' hport hn (by omega) (by omega), ?_⟩
          rw [Option.getD_some]
    · rename_i hnone
      refine Or.inr ⟨fun meet_id part hv => ?_, _, (by decide), rfl⟩
      cases hv with
      | passive hm hm' hp hp' hi hi' hport hn h1 h2 =>
        refine hnone _ _ _ _ (given_eq_some.mpr ⟨hm, hm'⟩) (given_eq_some.mpr ⟨hp, hp'⟩) (given_eq_some.mpr ⟨hi, hi'⟩)
          (given_eq_some.mpr ⟨hport, ?_⟩)
        rintro rfl
        exact absurd (show stoi [] = none from rfl) (by simp [hn])
  | _ => cases hadd

/-! ### What a response tells -/

/-- The code of the one response among the events. -/
def codeOf (es : List ServerEvent) : Option Nat :=
  es.findSome? fun
    | .responded _ response => response.code
    | _ => none

/-- The parameters are valid, the meeting exists, a port is obtained, and the participant is there already. -/
def Duplicate (s : Server) (req : Request) (ans : Answer) : Prop :=
  ∃ meet_id part m, ValidAdd req meet_id part ∧ s.meetings_[meet_id]? = some m ∧
    (s.port_allocator_.allocate ans.is_port_available).2.isSome = true ∧ Present s m part.part_id

/-- The participant was absent before, and is present after. -/
def Added (s : Server) (req : Request) (t : Server) : Prop :=
  ∃ meet_id part m, ValidAdd req meet_id part ∧ s.meetings_[meet_id]? = some m ∧ ¬ Present s m part.part_id ∧
    Present t m part.part_id

structure Truthful (s : Server) (req : Request) (ans : Answer) (t : Server) (es : List ServerEvent) : Prop where
  duplicate : codeOf es = some 2 ↔ Duplicate s req ans
  failure : ¬ Added s req t → ¬ Duplicate s req ans → ∃ code, codeOf es = some code ∧ code ≠ 0 ∧ code ≠ 2
  success : codeOf es = some 0 ↔ Added s req t

/-- When the participant is absent: no call of an active add fails, no null pointer of a meeting that was made
    without a pool is followed, and the address in the response to an add that succeeds is UTF-8. -/
def NothingHidden (s : Server) (req : Request) (ans : Answer) : Prop :=
  ∀ (meet_id : Bytes) (part : NewPart) (m : Nat) (meeting : Meeting), ValidAdd req meet_id part →
    s.meetings_[meet_id]? = some m → s.objects[m]? = some meeting →
    (s.port_allocator_.allocate ans.is_port_available).2.isSome = true → ¬ Present s m part.part_id →
    (part.remote = none → ans.add.started = true ∧ ans.add.media_port = true ∧ ans.add.slot.isSome = true) ∧
      (ans.add.started = true → meeting.pool_ = true) ∧
      (ans.add.started = true → ans.add.media_port = true → ans.add.slot.isSome = true → Utf8.Valid s.listen_ip_)

section Ends
variable {s t : Server} {es : List ServerEvent} {req : Request} {ans : Answer} {meet_id : Bytes} {part : NewPart} {m : Nat}
  {meeting : Meeting}

theorem present_iff (hm : s.objects[m]? = some meeting) {part_id : Bytes} :
    Present s m part_id ↔ meeting.participants_.contains part_id = true := by
  rw [Std.ExtTreeMap.contains_eq_isSome_getElem?, Option.isSome_iff_exists]
  constructor
  · rintro ⟨q, slot, meeting', hm', hq⟩
    obtain rfl := Option.some.inj (hm.symm.trans hm')
    exact ⟨_, hq⟩
  · rintro ⟨⟨q, slot⟩, hq⟩
    exact ⟨q, slot, meeting, hm, hq⟩

theorem duplicate_iff (hv : ValidAdd req meet_id part) : Duplicate s req ans ↔
    ∃ m, s.meetings_[meet_id]? = some m ∧ (s.port_allocator_.allocate ans.is_port_available).2.isSome = true ∧
      Present s m part.part_id := by
  constructor
  · rintro ⟨meet_id', part', m, hv', h⟩
    obtain ⟨rfl, rfl⟩ := hv.unique hv'
    exact ⟨m, h⟩
  · exact fun ⟨m, h⟩ => ⟨meet_id, part, m, hv, h⟩

theorem added_iff (hv : ValidAdd req meet_id part) : Added s req t ↔
    ∃ m, s.meetings_[meet_id]? = some m ∧ ¬ Present s m part.part_id ∧ Present t m part.part_id := by
  constructor
  · rintro ⟨meet_id', part', m, hv', h⟩
    obtain ⟨rfl, rfl⟩ := hv.unique hv'
    exact ⟨m, h⟩
  · exact fun ⟨m, h⟩ => ⟨meet_id, part, m, hv, h⟩

theorem not_added_of_objects (h : t.objects = s.objects) : ¬ Added s req t := by
  rintro ⟨meet_id, part, m, -, -, habsent, hpresent⟩
  exact habsent ((present_of_objects h).mp hpresent)

/-- A failure with a code of its own. -/
theorem truthful_of_failure {code : Nat} (hcode : codeOf es = some code) (h0 : code ≠ 0) (h2 : code ≠ 2)
    (hdup : ¬ Duplicate s req ans) (hadd : ¬ Added s req t) : Truthful s req ans t es where
  duplicate := by
    rw [hcode, Option.some.injEq]
    exact iff_of_false h2 hdup
  failure := fun _ _ => ⟨code, hcode, h0, h2⟩
  success := by
    rw [hcode, Option.some.injEq]
    exact iff_of_false h0 hadd

theorem truthful_of_duplicate (hcode : codeOf es = some 2) (hdup : Duplicate s req ans) (hadd : ¬ Added s req t) :
    Truthful s req ans t es where
  duplicate := iff_of_true hcode hdup
  failure := fun _ h => absurd hdup h
  success := by
    rw [hcode]
    exact iff_of_false (by decide) hadd

theorem truthful_of_success (hcode : codeOf es = some 0) (hdup : ¬ Duplicate s req ans) (hadd : Added s req t) :
    Truthful s req ans t es where
  duplicate := by
    rw [hcode]
    exact iff_of_false (by decide) hdup
  failure := fun h => absurd hadd h
  success := iff_of_true hcode hadd

theorem absent_of_section (hobj : s.objects[m]? = some meeting) {part_id : Bytes}
    (hout : meeting.participants_.contains part_id = false) : ¬ Present s m part_id := by
  rw [present_iff hobj, hout]
  exact Bool.false_ne_true

theorem not_duplicate (hv : ValidAdd req meet_id part) (hm : s.meetings_[meet_id]? = some m)
    (habsent : ¬ Present s m part.part_id) : ¬ Duplicate s req ans := by
  rw [duplicate_iff hv]
  rintro ⟨m', hm', -, hpresent⟩
  obtain rfl := Option.some.inj (hm.symm.trans hm')
  exact habsent hpresent

theorem code_null (code : Nat) (msg : String) (hcode : code < 10) (hmsg : Utf8.Valid (ascii msg)) :
    (respond (body code msg .null)).code = some code := (code_respond_null hcode hmsg).mpr rfl

theorem codeOf_responded (i : Nat) (response : Response) : codeOf [.responded i response] = response.code := by
  simp [codeOf]

theorem code_success {port : Nat} : (respond (s.success part port)).code = some 0 ↔ Utf8.Valid s.listen_ip_ := by
  have hdata : Json.Printable (.ofMembers [("ip", .string s.listen_ip_), ("port", .number (reportedPort part port))]) ↔
      Utf8.Valid s.listen_ip_ := by
    rw [Json.printable_ofMembers ["ip", "port"] rfl (by decide)]
    simp [Json.Printable]
  have hcode : (respond (body (0 : Nat) "success" (.ofMembers [("ip", .string s.listen_ip_),
      ("port", .number (reportedPort part port))]))).code = some 0 ↔ 0 = 0 ∧ Json.Printable _ :=
    code_respond (by decide) (by decide)
  rw [hdata, eq_self, true_and] at hcode
  exact hcode

/-- The section added nothing: the participant was there, or a call failed. -/
theorem refused_truthful {alloc : PortAllocator} {port : Nat} {calls : List AddCall} (hv : ValidAdd req meet_id part)
    (hm : s.meetings_[meet_id]? = some m) (halloc : s.port_allocator_.allocate ans.is_port_available = (alloc, some port))
    (hobj : s.objects[m]? = some meeting) (hadd : addTo meeting part port ans.add = (.nullptr, calls))
    (ht : t.objects = s.objects) (hes : codeOf es = (respond (refusal meeting part)).code) :
    Truthful s req ans t es ↔ NothingHidden s req ans := by
  have hport : (s.port_allocator_.allocate ans.is_port_available).2.isSome = true := by rw [halloc]; rfl
  rw [addTo_eq] at hadd
  have hadded : ¬ Added s req t := not_added_of_objects ht
  rcases Meeting.add_nullptr hadd with hin | ⟨hout, hpool, hfail⟩
  · have hpresent : Present s m part.part_id := (present_iff hobj).mpr hin
    have hcode : codeOf es = some 2 := by
      rw [hes]
      unfold refusal Meeting.get_participant
      split
      · exact code_null 2 _ (by decide) (by decide)
      · rw [Std.ExtTreeMap.contains_eq_isSome_getElem?, Option.isSome_iff_exists] at hin
        obtain ⟨x, hx⟩ := hin
        have hx' : meeting.participants_[part.part_id]? = some x := hx
        rw [hx']
        exact code_null 2 _ (by decide) (by decide)
    refine iff_of_true (truthful_of_duplicate hcode ((duplicate_iff hv).mpr ⟨m, hm, hport, hpresent⟩) hadded) ?_
    intro meet_id' part' m' meeting' hv' hm' _ _ habsent
    obtain ⟨rfl, rfl⟩ := hv.unique hv'
    obtain rfl := Option.some.inj (hm.symm.trans hm')
    exact absurd hpresent habsent
  · have habsent := absent_of_section hobj hout
    have hdup : ¬ Duplicate s req ans := not_duplicate hv hm habsent
    cases hremote : part.remote with
    | none =>
      have hcode : codeOf es = some 2 := by
        rw [hes, refusal, hremote]
        exact code_null 2 _ (by decide) (by decide)
      refine iff_of_false (fun h => hdup (h.duplicate.mp hcode)) fun h => ?_
      exact hfail ((h meet_id part m meeting hv hm hobj hport habsent).1 hremote)
    | some remote =>
      have hcode : codeOf es = some 5 := by
        rw [hes, refusal, hremote, Meeting.get_participant]
        rw [Std.ExtTreeMap.contains_eq_isSome_getElem?, Option.isSome_eq_false_iff, Option.isNone_iff_eq_none] at hout
        have hnone : meeting.participants_[part.part_id]? = none := hout
        rw [hnone]
        exact code_null 5 _ (by decide) (by decide)
      refine iff_of_true (truthful_of_failure hcode (by decide) (by decide) hdup hadded) ?_
      intro meet_id' part' m' meeting' hv' hm' hobj' _ _
      obtain ⟨rfl, rfl⟩ := hv.unique hv'
      obtain rfl := Option.some.inj (hm.symm.trans hm')
      obtain rfl := Option.some.inj (hobj.symm.trans hobj')
      refine ⟨fun h => ?_, hpool, fun h1 h2 h3 => absurd ⟨h1, h2, h3⟩ hfail⟩
      rw [hremote] at h
      cases h

/-- The section added the participant; the response tells so when it is a text. -/
theorem added_truthful {alloc : PortAllocator} {port : Nat} {calls : List AddCall} {meeting' : Meeting}
    (hv : ValidAdd req meet_id part) (hm : s.meetings_[meet_id]? = some m)
    (halloc : s.port_allocator_.allocate ans.is_port_available = (alloc, some port)) (hobj : s.objects[m]? = some meeting)
    (hadd : addTo meeting part port ans.add = (.added meeting', calls)) (ht : t.objects = s.objects.set m meeting')
    (hes : codeOf es = (respond (s.success part port)).code) :
    Truthful s req ans t es ↔ NothingHidden s req ans := by
  have hport : (s.port_allocator_.allocate ans.is_port_available).2.isSome = true := by rw [halloc]; rfl
  have hadmits := Meeting.admits_of_add ((addTo_eq meeting part port ans.add).symm.trans hadd)
  simp only [Meeting.admits, Bool.and_eq_true, Bool.not_eq_true'] at hadmits
  obtain ⟨⟨⟨⟨⟨hout, hstarted⟩, hpool⟩, hmedia⟩, -⟩, hslot⟩ := hadmits
  rw [addTo_eq] at hadd
  obtain ⟨slot, -, hjoin, -⟩ := Meeting.add_joins hadd
  have habsent := absent_of_section hobj hout
  have hobj' : t.objects[m]? = some meeting' := ht ▸ (getElem?_set_some hobj).mpr (Or.inl ⟨rfl, rfl⟩)
  have hpresent : Present t m part.part_id := ⟨_, slot, meeting', hobj', (hjoin.getElem? _).mpr (Or.inl ⟨rfl, rfl⟩)⟩
  have hadded : Added s req t := (added_iff hv).mpr ⟨m, hm, habsent, hpresent⟩
  have hdup : ¬ Duplicate s req ans := not_duplicate hv hm habsent
  constructor
  · intro h meet_id' part' m' meeting₁ hv' hm' hobj₁ _ _
    obtain rfl := Option.some.inj (hm.symm.trans ((hv.unique hv').1 ▸ hm'))
    obtain rfl := Option.some.inj (hobj.symm.trans hobj₁)
    refine ⟨fun _ => ⟨hstarted, hmedia, hslot⟩, fun _ => hpool, fun _ _ _ => ?_⟩
    exact code_success.mp (hes ▸ h.success.mpr hadded)
  · intro h
    have hvalid := (h meet_id part m meeting hv hm hobj hport habsent).2.2 hstarted hmedia hslot
    exact truthful_of_success (hes.trans (code_success.mpr hvalid)) hdup hadded

/-- The process crashed on a meeting without a pool. -/
theorem crashed_truthful {alloc : PortAllocator} {port : Nat} {calls : List AddCall} (hv : ValidAdd req meet_id part)
    (hm : s.meetings_[meet_id]? = some m) (halloc : s.port_allocator_.allocate ans.is_port_available = (alloc, some port))
    (hobj : s.objects[m]? = some meeting) (hwhole : meeting.Whole)
    (hadd : addTo meeting part port ans.add = (.crashed, calls)) (ht : t.objects = s.objects) (hes : codeOf es = none) :
    Truthful s req ans t es ↔ NothingHidden s req ans := by
  have hport : (s.port_allocator_.allocate ans.is_port_available).2.isSome = true := by rw [halloc]; rfl
  rw [addTo_eq] at hadd
  obtain ⟨hout, hstarted, hnull⟩ := Meeting.add_crashed hadd
  have hpool : meeting.pool_ = false := hnull.elim id fun h => hwhole.conf.symm.trans h
  have habsent := absent_of_section hobj hout
  have hdup : ¬ Duplicate s req ans := not_duplicate hv hm habsent
  refine iff_of_false (fun h => ?_) fun h => ?_
  · obtain ⟨code, hcode, -⟩ := h.failure (not_added_of_objects ht) hdup
    rw [hes] at hcode
    cases hcode
  · have := (h meet_id part m meeting hv hm hobj hport habsent).2.1 hstarted
    rw [hpool] at this
    cases this

/-- However the add ends, its code tells the truth exactly when nothing is hidden. -/
theorem AddEnds.truthful (h : AddEnds s meet_id part ans t es) (hreg : RegistryInv s) (hv : ValidAdd req meet_id part) :
    Truthful s req ans t es ↔ NothingHidden s req ans := by
  cases h with
  | unknown hm =>
    have hdup : ¬ Duplicate s req ans := by
      rw [duplicate_iff hv]
      rintro ⟨m, hm', -⟩
      rw [hm] at hm'
      cases hm'
    have hcode : codeOf [.responded s.requests.length (respond (body 1 "meetId not found" .null))] = some 1 :=
      (codeOf_responded _ _).trans (code_null 1 _ (by decide) (by decide))
    refine iff_of_true (truthful_of_failure hcode (by decide) (by decide) hdup (not_added_of_objects rfl)) ?_
    intro meet_id' part' m meeting hv' hm'
    obtain ⟨rfl, rfl⟩ := hv.unique hv'
    rw [hm] at hm'
    cases hm'
  | @noPort m hm halloc =>
    have hport : (s.port_allocator_.allocate ans.is_port_available).2.isSome = false := by rw [halloc]; rfl
    have hdup : ¬ Duplicate s req ans := by
      rw [duplicate_iff hv]
      rintro ⟨m', -, hsome, -⟩
      rw [hport] at hsome
      cases hsome
    have hcode : codeOf [.responded s.requests.length (respond (body 3 "no ports available" .null))] = some 3 :=
      (codeOf_responded _ _).trans (code_null 3 _ (by decide) (by decide))
    refine iff_of_true (truthful_of_failure hcode (by decide) (by decide) hdup (not_added_of_objects rfl)) ?_
    intro meet_id' part' m meeting _ _ _ hsome
    rw [hport] at hsome
    cases hsome
  | crashed hm halloc hobj hadd =>
    obtain ⟨meeting', hobj', -, hwhole⟩ := hreg.keyed meet_id _ hm
    obtain rfl := Option.some.inj (hobj.symm.trans hobj')
    exact crashed_truthful hv hm halloc hobj hwhole hadd rfl rfl
  | refused hm halloc hobj hadd =>
    exact refused_truthful hv hm halloc hobj hadd rfl (by simp [codeOf])
  | added hm halloc hobj hadd =>
    exact added_truthful hv hm halloc hobj hadd rfl (by simp [codeOf])

end Ends

/-! ### The result -/

section Result
variable {s : Server} {tr : List Account} {base count : UInt16} {ok : Server → ProcessAct → Prop}

/-- In every reachable state an add that runs alone comes to its end, and the code of its response tells the truth
    exactly when nothing is hidden from the handler. -/
theorem add_tells_truth (h : (process base count).Run ok tr s) (hc : s.crashed = false) (req : Request) (ans : Answer)
    (hadd : req.isAdd = true) :
    (∃ t es, Serves s req ans t es) ∧
      ∀ t es, Serves s req ans t es → (Truthful s req ans t es ↔ NothingHidden s req ans) := by
  have hreg := run_registryInv h
  rcases validate_add hadd with ⟨meet_id, part, hv, hvalid⟩ | ⟨hinvalid, msg, hmsg, hvalid⟩
  · obtain ⟨t, es, hserves, hends⟩ := serves_add ans hc
      (fun m hm => (hreg.keyed meet_id m hm).imp fun _ => And.left) hvalid
    refine ⟨⟨t, es, hserves⟩, fun t' es' hserves' => ?_⟩
    obtain ⟨rfl, rfl⟩ := hserves.unique hserves'
    exact hends.truthful hreg hv
  · have hserves : Serves s req ans (s.withRequest .done) _ := receive_refuses hc hvalid
    refine ⟨⟨_, _, hserves⟩, fun t' es' hserves' => ?_⟩
    obtain ⟨rfl, rfl⟩ := hserves.unique hserves'
    have hcode : codeOf [.responded s.requests.length (respond (body 4 msg .null))] = some 4 :=
      (codeOf_responded _ _).trans (code_null 4 msg (by decide) hmsg)
    refine iff_of_true (truthful_of_failure hcode (by decide) (by decide) ?_ (not_added_of_objects rfl)) ?_
    · rintro ⟨meet_id, part, m, hv, -⟩
      exact hinvalid meet_id part hv
    · intro meet_id part m meeting hv
      exact absurd hv (hinvalid meet_id part)

end Result

/-- A meeting without participants. -/
def oneMeeting : List ProcessAct := (request 0 .createAudioMeet 1 { random := 1 }).map .request

theorem exists_oneMeeting : ∃ tr s meeting, (process 10000 4).Run Any tr s ∧ s.crashed = false ∧ s.listen_ip_ = [] ∧
    s.meetings_[hexId 1]? = some 0 ∧ s.objects[0]? = some meeting ∧
    meeting.participants_.contains (ascii "a") = false ∧ meeting.pool_ = true ∧
    (s.port_allocator_.allocate fun _ => true).2.isSome = true := by
  obtain ⟨tr, s, hrun, hs⟩ := exists_run (process 10000 4) { listen_ip_ := [], port_allocator_ := .new 10000 4 }
    oneMeeting ⟨[], rfl⟩ (meets_any _ _ _)
    (fun r => !r.1.crashed && (r.1.listen_ip_ == [] && (r.1.meetings_[hexId 1]? == some 0 &&
      (r.1.objects[0]?.any (fun meeting => !meeting.participants_.contains (ascii "a") && meeting.pool_) &&
        (r.1.port_allocator_.allocate fun _ => true).2.isSome)))) (by decide +kernel)
  simp only [Bool.and_eq_true, Bool.not_eq_true', beq_iff_eq] at hs
  obtain ⟨hc, hip, hm, hmeeting, hport⟩ := hs
  obtain ⟨meeting, hobj, htest⟩ := (Option.any_eq_true _ _).mp hmeeting
  simp only [Bool.and_eq_true, Bool.not_eq_true'] at htest
  exact ⟨tr, s, meeting, hrun, hc, hip, hm, hobj, htest.1, htest.2, hport⟩

def addA : Request := .addAudioMeetPart { meetId := some (hexId 1), partId := some (ascii "a") }

theorem validAdd_addA : ValidAdd addA (hexId 1) { part_id := ascii "a" } :=
  .active rfl (by decide) rfl (by decide)

/-- An add in which everything succeeds. -/
theorem add_tells_truth_first : ∃ tr s t es, (process 10000 4).Run Any tr s ∧ Serves s addA {} t es ∧
    Truthful s addA {} t es := by
  obtain ⟨tr, s, meeting, hrun, hc, hip, hm, hobj, -, hpool, -⟩ := exists_oneMeeting
  obtain ⟨⟨t, es, hserves⟩, hiff⟩ := add_tells_truth hrun hc addA {} rfl
  refine ⟨tr, s, t, es, hrun, hserves, (hiff t es hserves).mpr ?_⟩
  intro meet_id part m meeting' hv hm' hobj' _ _
  obtain ⟨rfl, rfl⟩ := validAdd_addA.unique hv
  obtain rfl := Option.some.inj (hm.symm.trans hm')
  obtain rfl := Option.some.inj (hobj.symm.trans hobj')
  exact ⟨fun _ => ⟨rfl, rfl, rfl⟩, fun _ => hpool, fun _ _ _ => hip ▸ (by decide)⟩

/-- The port that the probe found free is taken when the active participant binds it. -/
theorem add_hides_failure : ¬ ∀ (base count : UInt16) (tr : List Account) (s : Server) (req : Request) (ans : Answer)
    (t : Server) (es : List ServerEvent), (process base count).Run Any tr s → s.crashed = false → req.isAdd = true →
    Serves s req ans t es → Truthful s req ans t es := by
  intro hall
  obtain ⟨tr, s, meeting, hrun, hc, -, hm, hobj, hout, -, hport⟩ := exists_oneMeeting
  have hreg := run_registryInv hrun
  have hvalid : validate addA = .inl (.addLookup (hexId 1) { part_id := ascii "a" }) := rfl
  obtain ⟨t, es, hserves, hends⟩ := serves_add { add := ⟨false, true, some 1⟩ } hc
    (fun m hm => (hreg.keyed _ m hm).imp fun _ => And.left) hvalid
  have htrue := hall 10000 4 tr s addA _ t es hrun hc rfl hserves
  have hhidden := (hends.truthful hreg validAdd_addA).mp htrue
  have hstarted := ((hhidden _ _ 0 meeting validAdd_addA hm hobj hport (absent_of_section hobj hout)).1 rfl).1
  cases hstarted

end Server
end AudioMeet
