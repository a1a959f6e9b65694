import AudioMeet.Theorems.Process.Step
import AudioMeet.Theorems.Server.PortUse
import AudioMeet.Theorems.Server.Responses
import Mathlib.Data.List.Perm.Subperm

/-! What a history tells of the deletes and destroys that are answered with code 0. A destroy has always taken its
    meeting from the registry; a delete has erased its participant if what its handler checked still held then. -/

namespace AudioMeet
open Lib Machine

/-- The participant that the request asks to remove, with its meeting. -/
def Request.deletes : Request → Option (Bytes × Bytes)
  | .delAudioMeetPart params => do return (← Server.given params.meetId, ← Server.given params.partId)
  | _ => none

/-- The meeting that the request asks to destroy. -/
def Request.destroys : Request → Option Bytes
  | .destroyAudioMeet params => Server.given params.meetId
  | _ => none

namespace Server

/-! ### What a history tells -/

/-- Request `i` was received, and is one that `asks` holds of. -/
def asked (tr : List Account) (asks : Request → Bool) (i : Nat) : Bool :=
  tr.any fun
    | .received j req => j == i && asks req
    | _ => false

/-- The requests that `asks` holds of and that were answered with code 0, one for each response. -/
def succeeded (tr : List Account) (asks : Request → Bool) : List Nat :=
  tr.filterMap fun
    | .event (.responded i response) => if response.code = some 0 ∧ asked tr asks i then some i else none
    | _ => none

/-- The requests whose `remove_participant` erased the participant, one for each time. -/
def erasures (tr : List Account) (meet_id part_id : Bytes) : List Nat :=
  tr.filterMap fun
    | .erased i _ meet_id' part_id' => if meet_id' = meet_id ∧ part_id' = part_id then some i else none
    | _ => none

/-- The requests whose `destroy_meeting` erased the meeting, one for each time. -/
def unregistrations (tr : List Account) (meet_id : Bytes) : List Nat :=
  tr.filterMap fun
    | .unregistered i meet_id' => if meet_id' = meet_id then some i else none
    | _ => none

def codeZeroDeletes (tr : List Account) (meet_id part_id : Bytes) : List Nat :=
  succeeded tr fun req => req.deletes == some (meet_id, part_id)

def codeZeroDestroys (tr : List Account) (meet_id : Bytes) : List Nat := succeeded tr fun req => req.destroys == some meet_id

structure ExactlyOnce (tr : List Account) : Prop where
  deletes : ∀ meet_id part_id, (codeZeroDeletes tr meet_id part_id).length ≤ (erasures tr meet_id part_id).length
  destroys : ∀ meet_id, (codeZeroDestroys tr meet_id).length ≤ (unregistrations tr meet_id).length
  /-- Each delete has an erasure of its own. -/
  erasure : ∀ meet_id part_id, (codeZeroDeletes tr meet_id part_id).Subperm (erasures tr meet_id part_id)
  unregistration : ∀ meet_id, (codeZeroDestroys tr meet_id).Subperm (unregistrations tr meet_id)

/-- What `handle_del_participant` checked still holds when `delete_participant` looks the meeting up again, and
    when `remove_participant` looks for the participant. -/
def StillThere (s : Server) : ServerAct → Prop
  | .receive _ => True
  | .go i _ =>
    match s.requests[i]? with
    | some (.deleteAgain meet_id _) => s.meetings_.contains meet_id = true
    | some (.deleteSection m part_id) => ∀ meeting ∈ s.objects[m]?, meeting.participants_.contains part_id = true
    | _ => True

section Histories
variable {s t : Server} {tr es : List Account} {i j : Nat} {req : Request} {base count : UInt16}

theorem mem_erasures {meet_id part_id : Bytes} :
    i ∈ erasures tr meet_id part_id ↔ ∃ m, .erased i m meet_id part_id ∈ tr := by
  simp only [erasures, List.mem_filterMap]
  constructor
  · rintro ⟨e, he, hi⟩
    cases e <;> simp only [reduceCtorEq, Option.ite_none_right_eq_some, Option.some.injEq] at hi
    obtain ⟨⟨rfl, rfl⟩, rfl⟩ := hi
    exact ⟨_, he⟩
  · rintro ⟨m, he⟩
    exact ⟨_, he, by simp⟩

theorem mem_unregistrations {meet_id : Bytes} :
    i ∈ unregistrations tr meet_id ↔ .unregistered i meet_id ∈ tr := by
  simp only [unregistrations, List.mem_filterMap]
  constructor
  · rintro ⟨e, he, hi⟩
    cases e <;> simp only [reduceCtorEq, Option.ite_none_right_eq_some, Option.some.injEq] at hi
    obtain ⟨rfl, rfl⟩ := hi
    exact he
  · exact fun he => ⟨_, he, by simp⟩

theorem asked_iff {asks : Request → Bool} : asked tr asks i = true ↔ ∃ req, .received i req ∈ tr ∧ asks req = true := by
  simp only [asked, List.any_eq_true]
  constructor
  · rintro ⟨e, he, hi⟩
    cases e <;> simp only [Bool.and_eq_true, beq_iff_eq, Bool.false_eq_true] at hi
    obtain ⟨rfl, hasks⟩ := hi
    exact ⟨_, he, hasks⟩
  · rintro ⟨req, he, hasks⟩
    exact ⟨_, he, by simp [hasks]⟩

theorem mem_succeeded {asks : Request → Bool} : i ∈ succeeded tr asks ↔
    ∃ response req, .event (.responded i response) ∈ tr ∧ response.code = some 0 ∧ .received i req ∈ tr ∧ asks req = true := by
  simp only [succeeded, List.mem_filterMap]
  constructor
  · rintro ⟨e, he, hi⟩
    cases e with
    | event e =>
      cases e <;> simp only [reduceCtorEq, Option.ite_none_right_eq_some, Option.some.injEq] at hi
      obtain ⟨⟨hcode, hasked⟩, rfl⟩ := hi
      obtain ⟨req, hreq, hasks⟩ := asked_iff.mp hasked
      exact ⟨_, req, he, hcode, hreq, hasks⟩
    | _ => cases hi
  · rintro ⟨response, req, he, hcode, hreq, hasks⟩
    exact ⟨_, he, by simp [hcode, asked_iff.mpr ⟨req, hreq, hasks⟩]⟩

/-! ### The responses of a history -/

/-- The requests that were answered, one for each response. -/
def answered (tr : List Account) : List Nat :=
  tr.filterMap fun
    | .event (.responded i _) => some i
    | _ => none

theorem answered_append : answered (tr ++ es) = answered tr ++ answered es := List.filterMap_append

theorem mem_answered : i ∈ answered tr ↔ ∃ response, .event (.responded i response) ∈ tr := by
  simp only [answered, List.mem_filterMap]
  constructor
  · rintro ⟨e, he, hi⟩
    cases e with
    | event e =>
      cases e <;> simp only [reduceCtorEq, Option.some.injEq] at hi
      subst hi
      exact ⟨_, he⟩
    | _ => cases hi
  · rintro ⟨response, he⟩
    exact ⟨_, he, rfl⟩

theorem succeeded_sublist (asks : Request → Bool) : (succeeded tr asks).Sublist (answered tr) := by
  have hgen : ∀ tr' : List Account, (tr'.filterMap fun
      | .event (.responded i response) => if response.code = some 0 ∧ asked tr asks i then some i else none
      | _ => none).Sublist (answered tr') := by
    intro tr'
    induction tr' with
    | nil => exact .slnil
    | cons e tr' ih =>
      cases e with
      | event e =>
        cases e with
        | responded k response =>
          by_cases hk : response.code = some 0 ∧ asked tr asks k
          · simpa [answered, List.filterMap_cons, hk] using ih.cons_cons k
          · simpa [answered, List.filterMap_cons, hk] using ih.cons k
        | add _ _ _ _ => simpa [answered] using ih
        | stopped _ => simpa [answered] using ih
      | _ => simpa [answered] using ih
  exact hgen tr

/-! ### Where a request stands, and what it asked for -/

/-- What the place of request `i` tells of what it asked for, and of what it has done. -/
def Tells (tr : List Account) (s : Server) (i : Nat) (req : Request) : ReqPc → Prop
  | .deleteLookup meet_id part_id | .deleteGet _ meet_id part_id | .deleteAgain meet_id part_id =>
    req.deletes = some (meet_id, part_id)
  | .deleteSection m part_id => ∃ meeting, s.objects[m]? = some meeting ∧ req.deletes = some (meeting.meet_id_, part_id)
  | .deleteRelease _ => ∃ m meet_id part_id, req.deletes = some (meet_id, part_id) ∧ .erased i m meet_id part_id ∈ tr
  | .destroyLookup meet_id => req.destroys = some meet_id
  | .destroyPorts _ | .destroyClock _ _ | .destroySection _ _ | .destroyRelease _ =>
    ∃ meet_id, req.destroys = some meet_id ∧ .unregistered i meet_id ∈ tr
  | .done => True
  | _ => req.deletes = none ∧ req.destroys = none

/-- A response with code 0 tells of what the request did; of a delete only when `still` holds. -/
structure Honest (tr : List Account) (i : Nat) (req : Request) (still : Prop) : Prop where
  delete : still → ∀ meet_id part_id, req.deletes = some (meet_id, part_id) → ∃ m, .erased i m meet_id part_id ∈ tr
  destroy : ∀ meet_id, req.destroys = some meet_id → .unregistered i meet_id ∈ tr

/-- The request goes on with no response, or its response is honest. -/
def Proceeds (tr : List Account) (s t : Server) (i : Nat) (req : Request) (still : Prop) (es : List ServerEvent) : Prop :=
  ∃ pc', Goes s t i pc' ∧ Tells tr t i req pc' ∧
    (responses es = [] ∨
      ∃ response, responses es = [(i, response)] ∧ pc' = .done ∧ (response.code = some 0 → Honest tr i req still))

theorem destroys_of_deletes {x : Bytes × Bytes} (h : req.deletes = some x) : req.destroys = none := by
  cases req with
  | delAudioMeetPart params => rfl
  | _ => cases h

theorem deletes_of_destroys {meet_id : Bytes} (h : req.destroys = some meet_id) : req.deletes = none := by
  cases req with
  | destroyAudioMeet params => rfl
  | _ => cases h

theorem honest_of_none {still : Prop} (h : req.deletes = none ∧ req.destroys = none) : Honest tr i req still := by
  constructor
  · rw [h.1]
    simp
  · rw [h.2]
    simp

theorem honest_of_delete {still : Prop} {meet_id part_id : Bytes} (h : req.deletes = some (meet_id, part_id))
    (herased : still → ∃ m, .erased i m meet_id part_id ∈ tr) : Honest tr i req still := by
  constructor
  · intro hstill meet_id' part_id' h'
    obtain ⟨rfl, rfl⟩ := Prod.mk.inj (Option.some.inj (h.symm.trans h'))
    exact herased hstill
  · rw [destroys_of_deletes h]
    simp

theorem honest_of_destroy {still : Prop} {meet_id : Bytes} (h : req.destroys = some meet_id)
    (hmem : .unregistered i meet_id ∈ tr) : Honest tr i req still := by
  constructor
  · rw [deletes_of_destroys h]
    simp
  · intro meet_id' h'
    obtain rfl := Option.some.inj (h.symm.trans h')
    exact hmem

theorem Tells.mono {pc : ReqPc} {tr' : List Account} (h : Tells tr s i req pc) (hsub : ∀ e ∈ tr, e ∈ tr')
    (hids : ∀ (m : Nat) (meeting : Meeting), s.objects[m]? = some meeting →
      ∃ meeting', t.objects[m]? = some meeting' ∧ meeting'.meet_id_ = meeting.meet_id_) : Tells tr' t i req pc := by
  cases pc with
  | deleteSection m part_id =>
    obtain ⟨meeting, hm, hreq⟩ := h
    obtain ⟨meeting', hm', hid⟩ := hids m meeting hm
    exact ⟨meeting', hm', hid ▸ hreq⟩
  | deleteRelease port =>
    obtain ⟨m, meet_id, part_id, hreq, hmem⟩ := h
    exact ⟨m, meet_id, part_id, hreq, hsub _ hmem⟩
  | destroyPorts m =>
    obtain ⟨meet_id, hreq, hmem⟩ := h
    exact ⟨meet_id, hreq, hsub _ hmem⟩
  | destroyClock m ports =>
    obtain ⟨meet_id, hreq, hmem⟩ := h
    exact ⟨meet_id, hreq, hsub _ hmem⟩
  | destroySection m ports =>
    obtain ⟨meet_id, hreq, hmem⟩ := h
    exact ⟨meet_id, hreq, hsub _ hmem⟩
  | destroyRelease ports =>
    obtain ⟨meet_id, hreq, hmem⟩ := h
    exact ⟨meet_id, hreq, hsub _ hmem⟩
  | _ => exact h

section Proceeding
variable {pc pc' : ReqPc} {still : Prop} {es seen : List ServerEvent} {u : Server} {turn : Turn} {ans : Answer}
  {tr' : List Account}

/-- What is erased does not depend on where the request is left. -/
theorem erases_leave : s.erases (turn.leave u i).1 i pc = s.erases u i pc := by
  cases turn <;> cases pc <;> rfl

theorem Tells.leave (h : Tells tr u i req pc) : Tells tr (turn.leave u i).1 i req pc := by
  cases turn <;> cases pc <;> exact h

/-- A refusal is not a success. -/
theorem code_refused {code : Nat} {msg : String} {honest : Prop} (hcode : 0 < code ∧ code < 10)
    (hmsg : Utf8.Valid (ascii msg)) (h : (respond (body code msg .null)).code = some 0) : honest :=
  absurd ((code_respond_null hcode.2 hmsg).mp h) hcode.1.ne

theorem erases_removed {m : Nat} {part_id : Bytes} {meeting meeting' : Meeting} {port : UInt16}
    (hm : s.objects[m]? = some meeting) (hp : meeting.remove_participant part_id = some (meeting', port))
    (hu : u.objects = s.objects.set m meeting') :
    .erased i m meeting.meet_id_ part_id ∈ s.erases u i (.deleteSection m part_id) := by
  obtain ⟨p, slot, hfound, rfl, rfl⟩ := Meeting.remove_participant_eq_some hp
  have hu' : u.objects[m]? = some { meeting with participants_ := meeting.participants_.erase part_id } := by
    rw [hu, List.getElem?_set_self (List.getElem?_eq_some_iff.mp hm).1]
  simp [erases, hm, hu', Std.ExtTreeMap.contains_eq_isSome_getElem?, hfound]

theorem erases_unregistered {meet_id : Bytes} {m : Nat} (hm : s.meetings_[meet_id]? = some m)
    (hu : u.meetings_ = s.meetings_.erase meet_id) : .unregistered i meet_id ∈ s.erases u i (.destroyLookup meet_id) := by
  simp [erases, hu, Std.ExtTreeMap.contains_eq_isSome_getElem?, hm]

/-- Every section keeps what its request's place tells, and answers honestly. -/
theorem Section.tells (hs : s.Section i ans pc u seen turn) (hpc : s.requests[i]? = some pc) (h : Tells tr s i req pc)
    (hreg : RegistryInv s) (hsub : ∀ e ∈ tr, e ∈ tr') (herases : ∀ e ∈ s.erases u i pc, e ∈ tr') :
    turn.All (Tells tr' u i req) fun json =>
      (respond json).code = some 0 → Honest tr' i req (StillThere s (.go i ans)) := by
  cases hs with
  | addFound _ | allocated _ | refused _ _ | splitFailed _ | muteFound _ | listLooked | listed _ => exact h
  | created | added _ _ | muted _ _ | listEnded => exact fun _ => honest_of_none h
  | crashed _ _ => trivial
  | addUnknown _ | destroyUnknown _ | deleteUnknown _ | muteUnknown _ => exact code_refused (by decide) (by decide)
  | exhausted _ => exact code_refused (by decide) (by decide)
  | addFailed _ | existing _ _ => exact code_refused (by decide) (by decide)
  | notExisting _ _ => exact code_refused (by decide) (by decide)
  | deleteAbsent _ _ | muteAbsent _ _ => exact code_refused (by decide) (by decide)
  -- a destroy: from the section that takes the meeting from the registry on, the account says so
  | unregistered hm => exact ⟨_, h, herases _ (erases_unregistered hm rfl)⟩
  | collected _ | clockStopped _ | stopped _ | portReleased =>
    obtain ⟨meet_id, hreq, hmem⟩ := h
    exact ⟨meet_id, hreq, hsub _ hmem⟩
  | destroyed =>
    obtain ⟨meet_id, hreq, hmem⟩ := h
    exact fun _ => honest_of_destroy hreq (hsub _ hmem)
  -- a delete: the account says so from the section that removes the participant on
  | deleteFound _ | deleteChecked _ _ => exact h
  | deleteAgainFound hm =>
    obtain ⟨meeting, hobj, rfl, -⟩ := hreg.keyed _ _ hm
    exact ⟨meeting, hobj, h⟩
  | removed hm hp _ =>
    obtain ⟨meeting, hm', hreq⟩ := h
    obtain rfl := Option.some.inj (hm.symm.trans hm')
    exact ⟨_, _, _, hreq, herases _ (erases_removed hm hp rfl)⟩
  | removedPortless hm hp _ =>
    obtain ⟨meeting, hm', hreq⟩ := h
    obtain rfl := Option.some.inj (hm.symm.trans hm')
    exact fun _ => honest_of_delete hreq fun _ => ⟨_, herases _ (erases_removed hm hp rfl)⟩
  | deleteReleased =>
    obtain ⟨m, meet_id, part_id, hreq, hmem⟩ := h
    exact fun _ => honest_of_delete hreq fun _ => ⟨m, hsub _ hmem⟩
  -- These two answer with code 0 and have erased nothing.
  | deleteAgainUnknown hm =>
    refine fun _ => honest_of_delete h fun hstill => ?_
    simp only [StillThere, hpc, Std.ExtTreeMap.contains_eq_isSome_getElem?, hm] at hstill
    cases hstill
  | notRemoved hm hp =>
    obtain ⟨meeting, hm', hreq⟩ := h
    refine fun _ => honest_of_delete hreq fun hstill => ?_
    simp only [StillThere, hpc] at hstill
    have hin := hstill _ hm
    rw [Std.ExtTreeMap.contains_eq_isSome_getElem?, Meeting.remove_participant_eq_none.mp hp] at hin
    cases hin

/-- Every section takes its request on. -/
theorem goOn_proceeds (tr' : List Account) (hpc : s.requests[i]? = some pc) (h : Tells tr s i req pc)
    (hreg : RegistryInv s) (hids : ∀ (m : Nat) (meeting : Meeting), s.objects[m]? = some meeting →
      ∃ meeting', t.objects[m]? = some meeting' ∧ meeting'.meet_id_ = meeting.meet_id_) (hsub : ∀ e ∈ tr, e ∈ tr')
    (herases : ∀ e ∈ s.erases t i pc, e ∈ tr') (hgo : s.goOn i ans pc = some (t, es)) :
    Proceeds tr' s t i req (StillThere s (.go i ans)) es := by
  obtain ⟨u, seen, turn, hsection, rfl, rfl⟩ := goOn_took hgo
  rw [erases_leave] at herases
  have hturn := hsection.tells hpc h hreg hsub herases
  have hrs : responses (seen ++ (turn.leave u i).2) = responses (turn.leave u i).2 := by
    rw [responses_append, hsection.unanswered, List.nil_append]
  rw [Proceeds, hrs]
  refine ⟨turn.next pc, hsection.goes hpc, ?_⟩
  cases turn with
  | goes pc' => exact ⟨hturn.leave, Or.inl rfl⟩
  | ends json => exact ⟨trivial, Or.inr ⟨_, rfl, rfl, hturn⟩⟩
  | crashes => exact ⟨h.mono hsub hids, Or.inl rfl⟩

/-- Where a request starts tells what it asks for. -/
theorem Enters.tells (tr : List Account) (s : Server) (i : Nat) (h : Enters req pc) : Tells tr s i req pc := by
  cases h with
  | destroy hm => exact hm
  | delete hm hp => simp [Tells, Request.deletes, hm, hp]
  | _ => exact ⟨rfl, rfl⟩

end Proceeding

/-! ### The invariant along a run -/

/-- The history knows what every request asks for; a request is answered once and at its end, and a response with
    code 0 tells of what it did; of a delete, when `still` holds. -/
structure HistoryInv (still : Prop) (tr : List Account) (s : Server) : Prop where
  registry : RegistryInv s
  tells : ∀ (i : Nat) (pc : ReqPc), s.requests[i]? = some pc → ∃ req, .received i req ∈ tr ∧ Tells tr s i req pc
  known : ∀ i req, .received i req ∈ tr → i < s.requests.length
  one : ∀ i req req', .received i req ∈ tr → .received i req' ∈ tr → req = req'
  ended : ∀ i response, .event (.responded i response) ∈ tr → s.requests[i]? = some .done
  once : (answered tr).Nodup
  honest : ∀ i response req, .event (.responded i response) ∈ tr → response.code = some 0 → .received i req ∈ tr →
    Honest tr i req still

theorem Honest.mono {still still' : Prop} {tr' : List Account} (h : Honest tr i req still) (hstill : still' → still)
    (hsub : ∀ e ∈ tr, e ∈ tr') : Honest tr' i req still' where
  delete := fun hs meet_id part_id hreq => (h.delete (hstill hs) meet_id part_id hreq).imp fun _ => hsub _
  destroy := fun meet_id hreq => hsub _ (h.destroy meet_id hreq)

theorem mem_responses {es : List ServerEvent} {response : Response} :
    (i, response) ∈ responses es ↔ .responded i response ∈ es := by
  simp only [responses, List.mem_filterMap]
  constructor
  · rintro ⟨e, he, hi⟩
    cases e <;> simp only [reduceCtorEq, Option.some.injEq, Prod.mk.injEq] at hi
    obtain ⟨rfl, rfl⟩ := hi
    exact he
  · exact fun he => ⟨_, he, rfl⟩

/-- The events of a history tell which requests were answered. -/
theorem answered_eq (tr : List Account) : answered tr = (responses (tr.flatMap eventsOf)).map Prod.fst := by
  induction tr with
  | nil => rfl
  | cons e tr ih =>
    cases e with
    | event e =>
      cases e with
      | responded k response => exact congrArg (k :: ·) ih
      | _ => exact ih
    | _ => exact ih

/-! ### What the account of a step adds -/

section Accounts
variable {a : ServerAct} {es : List ServerEvent} {response : Response}

theorem received_account (h : .received j req ∈ s.account t a es) : a = .receive req ∧ j = s.requests.length := by
  have hevents : .received j req ∉ es.map Account.event := by simp
  cases a with
  | receive req' =>
    obtain ⟨rfl, rfl⟩ := Account.received.inj ((List.mem_cons.mp h).resolve_right hevents)
    exact ⟨rfl, rfl⟩
  | go i ans =>
    have herases := (List.mem_append.mp h).resolve_right hevents
    cases hpc : s.requests[i]? with
    | none => simp [hpc] at herases
    | some pc =>
      rw [hpc] at herases
      rcases mem_erases herases with ⟨_, heq⟩ | ⟨_, _, _, heq⟩ <;> cases heq

theorem responded_account (h : .event (.responded i response) ∈ s.account t a es) : (i, response) ∈ responses es := by
  rw [mem_responses, ← flatMap_eventsOf_account (s := s) (t := t) a es, List.mem_flatMap]
  exact ⟨_, h, List.mem_singleton_self _⟩

theorem answered_account : answered (s.account t a es) = (responses es).map Prod.fst := by
  rw [answered_eq, flatMap_eventsOf_account]

end Accounts

/-- A request that goes on, or that was just received, has its place after the step. -/
theorem HistoryInv.goes {still : Prop} (h : HistoryInv still tr s) {a : ServerAct} {es : List ServerEvent}
    (hreg : RegistryInv t) (hids : ∀ (m : Nat) (meeting : Meeting), s.objects[m]? = some meeting →
      ∃ meeting', t.objects[m]? = some meeting' ∧ meeting'.meet_id_ = meeting.meet_id_)
    (hreq : .received i req ∈ tr ++ s.account t a es) (hask : ∀ req', a = .receive req' → i = s.requests.length)
    (hnot : s.requests[i]? ≠ some .done) (hp : Proceeds (tr ++ s.account t a es) s t i req still es) :
    HistoryInv still (tr ++ s.account t a es) t := by
  obtain ⟨pc', hgoes, htells, hes⟩ := hp
  have hsub : ∀ e ∈ tr, e ∈ tr ++ s.account t a es := fun e he => List.mem_append_left _ he
  have hplace : t.requests[i]? = some pc' := (hgoes i pc').mpr (Or.inl ⟨rfl, rfl⟩)
  have hone : ∀ j req₁ req₂, .received j req₁ ∈ tr ++ s.account t a es → .received j req₂ ∈ tr ++ s.account t a es →
      req₁ = req₂ := by
    intro j req₁ req₂ h₁ h₂
    rcases List.mem_append.mp h₁ with h₁ | h₁ <;> rcases List.mem_append.mp h₂ with h₂ | h₂
    · exact h.one j req₁ req₂ h₁ h₂
    · exact absurd (received_account h₂).2 (h.known j req₁ h₁).ne
    · exact absurd (received_account h₁).2 (h.known j req₂ h₂).ne
    · exact ServerAct.receive.inj ((received_account h₁).1.symm.trans (received_account h₂).1)
  -- A new response is the one of the request that goes on.
  have hresp : ∀ j response, .event (.responded j response) ∈ tr ++ s.account t a es →
      .event (.responded j response) ∈ tr ∨
        (j = i ∧ pc' = .done ∧ (response.code = some 0 → Honest (tr ++ s.account t a es) i req still)) := by
    intro j response hmem
    refine (List.mem_append.mp hmem).imp_right fun hmem => ?_
    have hmem := responded_account hmem
    rcases hes with hnil | ⟨r, hr, hdone, hhonest⟩
    · rw [hnil] at hmem
      cases hmem
    · rw [hr, List.mem_singleton] at hmem
      obtain ⟨rfl, rfl⟩ := Prod.mk.inj hmem
      exact ⟨rfl, hdone, hhonest⟩
  refine ⟨hreg, fun j pc hpc => ?_, fun j req' hmem => ?_, hone, fun j response hmem => ?_, ?_,
    fun j response req' hmem hcode hreq' => ?_⟩
  · rcases (hgoes j pc).mp hpc with ⟨rfl, rfl⟩ | ⟨-, hpc⟩
    · exact ⟨req, hreq, htells⟩
    · obtain ⟨req', hmem, ht⟩ := h.tells j pc hpc
      exact ⟨req', hsub _ hmem, ht.mono hsub hids⟩
  · by_cases hj : j = i
    · exact hj ▸ (List.getElem?_eq_some_iff.mp hplace).1
    · rcases List.mem_append.mp hmem with hmem | hmem
      · have hx := List.getElem?_eq_getElem (h.known j req' hmem)
        exact (List.getElem?_eq_some_iff.mp ((hgoes j _).mpr (Or.inr ⟨hj, hx⟩))).1
      · obtain ⟨ha, hlast⟩ := received_account hmem
        exact absurd (hlast.trans (hask req' ha).symm) hj
  · rcases hresp j response hmem with hmem | ⟨rfl, rfl, -⟩
    · refine (hgoes j .done).mpr (Or.inr ⟨?_, h.ended j response hmem⟩)
      rintro rfl
      exact hnot (h.ended j response hmem)
    · exact hplace
  · rw [answered_append, answered_account]
    rcases hes with hnil | ⟨r, hr, -, -⟩
    · simpa [hnil] using h.once
    · rw [hr]
      refine List.nodup_append.mpr ⟨h.once, List.pairwise_singleton _ _, fun x hx y hy => ?_⟩
      rw [List.mem_singleton.mp hy]
      rintro rfl
      obtain ⟨response, hmem⟩ := mem_answered.mp hx
      exact hnot (h.ended _ response hmem)
  · rcases hresp j response hmem with hmem | ⟨rfl, -, hhonest⟩
    · rcases List.mem_append.mp hreq' with hreq' | hreq'
      · exact (h.honest j response req' hmem hcode hreq').mono id hsub
      · have hlast := h.ended j response hmem
        rw [(received_account hreq').2] at hlast
        simp at hlast
    · exact hone j req req' hreq hreq' ▸ hhonest hcode

theorem HistoryInv.step {still : Prop} (h : HistoryInv still tr s) {a : ServerAct} {es : List ServerEvent}
    (hs : s.step a = some (t, es)) (hstill : still → StillThere s a) : HistoryInv still (tr ++ s.account t a es) t := by
  have hd := (step_does hs).2
  have hreg := h.registry.step hd
  have hids : ∀ (m : Nat) (meeting : Meeting), s.objects[m]? = some meeting →
      ∃ meeting', t.objects[m]? = some meeting' ∧ meeting'.meet_id_ = meeting.meet_id_ := fun m meeting hm => hd.ids hm
  obtain ⟨-, ⟨req, rfl, hreceive⟩ | ⟨i, ans, pc, rfl, hpc, hgo⟩⟩ := receives_or_goes hs
  · refine h.goes hreg hids (List.mem_append_right tr List.mem_cons_self) (fun _ _ => rfl) (by simp) ?_
    obtain ⟨pc, henters, rfl, rfl⟩ | ⟨msg, hmsg, rfl, rfl⟩ := receive_cases hreceive
    · exact ⟨pc, goes_snoc rfl, henters.tells _ _ _, Or.inl rfl⟩
    · refine ⟨.done, goes_snoc rfl, trivial, Or.inr ⟨_, rfl, rfl, fun hcode => ?_⟩⟩
      exact code_refused (by decide) (valid_refusals hmsg) hcode
  · obtain ⟨req, hreq, ht⟩ := h.tells i pc hpc
    have hacc : s.account t (.go i ans) es = s.erases t i pc ++ es.map .event := by simp [account, hpc]
    refine h.goes hreg hids (List.mem_append_left _ hreq) (fun _ ha => by cases ha) (fun hdone => ?_) ?_
    · -- A request that has ended takes no step.
      obtain rfl := Option.some.inj (hpc.symm.trans hdone)
      cases hgo
    obtain ⟨pc', hgoes, htells, hes⟩ := goOn_proceeds (tr ++ s.account t (.go i ans) es) hpc ht h.registry hids
      (fun e he => List.mem_append_left _ he)
      (fun e he => List.mem_append_right _ (hacc ▸ List.mem_append_left _ he)) hgo
    refine ⟨pc', hgoes, htells, hes.imp_right ?_⟩
    rintro ⟨response, hone, hdone, hhonest⟩
    exact ⟨response, hone, hdone, fun hcode => (hhonest hcode).mono hstill fun _ => id⟩

/-- The destructor of a meeting tells nothing. -/
theorem HistoryInv.destructs {still : Prop} (h : HistoryInv still tr s) {m : Nat} (hreg : RegistryInv t)
    (hreqs : t.requests = s.requests)
    (hids : ∀ (m : Nat) (meeting : Meeting), s.objects[m]? = some meeting →
      ∃ meeting', t.objects[m]? = some meeting' ∧ meeting'.meet_id_ = meeting.meet_id_) :
    HistoryInv still (tr ++ [.event (.stopped m)]) t := by
  have hmem : ∀ e : Account, e ≠ .event (.stopped m) → (e ∈ tr ++ [.event (.stopped m)] ↔ e ∈ tr) := by
    intro e hne
    simp [hne]
  have hsub : ∀ e ∈ tr, e ∈ tr ++ [.event (.stopped m)] := fun e he => List.mem_append_left _ he
  refine ⟨hreg, ?_, ?_, ?_, ?_, ?_, ?_⟩
  · intro i pc hpc
    obtain ⟨req, hreq, ht⟩ := h.tells i pc (hreqs ▸ hpc)
    exact ⟨req, hsub _ hreq, ht.mono hsub hids⟩
  · intro i req hreq
    rw [hreqs]
    exact h.known i req ((hmem _ (by simp)).mp hreq)
  · exact fun i req req' h₁ h₂ => h.one i req req' ((hmem _ (by simp)).mp h₁) ((hmem _ (by simp)).mp h₂)
  · intro i response hresp
    rw [hreqs]
    exact h.ended i response ((hmem _ (by simp)).mp hresp)
  · rw [answered_append]
    exact (List.append_nil _).symm ▸ h.once
  · intro i response req hresp hcode hreq
    exact (h.honest i response req ((hmem _ (by simp)).mp hresp) hcode ((hmem _ (by simp)).mp hreq)).mono id hsub

/-- The invariant of a run, if what `still` promises holds before each of its steps. -/
theorem run_historyInv {still : Prop} {ok : Server → ProcessAct → Prop}
    (hok : ∀ tr s a, (process base count).Run ok tr s → ok s (.request a) → still → StillThere s a)
    (h : (process base count).Run ok tr s) : HistoryInv still tr s := by
  induction h with
  | @init s hs =>
    have hreg : RegistryInv s := run_registryInv (show (process base count).Run ok [] s from .init hs)
    obtain ⟨listen_ip, rfl⟩ := hs
    exact ⟨hreg, by simp, by simp, by simp, by simp, List.nodup_nil, by simp⟩
  | step hrun hstep hs hinv =>
    cases process_does hs with
    | request hreq => exact hinv.step hreq (hok _ _ _ hrun hstep)
    | @destruct m meeting hm _ _ _ =>
      refine hinv.destructs (run_registryInv (hrun.step hstep hs)) rfl fun k x hx => ?_
      by_cases hk : k = m
      · subst hk
        obtain rfl := Option.some.inj (hm.symm.trans hx)
        exact ⟨_, (getElem?_set_some hm).mpr (Or.inl ⟨rfl, rfl⟩), rfl⟩
      · exact ⟨x, (getElem?_set_some hm).mpr (Or.inr ⟨hk, hx⟩), rfl⟩

/-! ### The results -/

/-- The requests with a code-0 response are among those that `done` holds. -/
theorem HistoryInv.subperm {still : Prop} (h : HistoryInv still tr s) {asks : Request → Bool} {done : List Nat}
    (hdone : ∀ i req, asks req = true → Honest tr i req still → i ∈ done) : (succeeded tr asks).Subperm done := by
  refine List.subperm_of_subset ((succeeded_sublist asks).nodup h.once) fun i hi => ?_
  obtain ⟨response, req, hresp, hcode, hreq, hasks⟩ := mem_succeeded.mp hi
  exact hdone i req hasks (h.honest i response req hresp hcode hreq)

/-- However the requests interleave, each code-0 destroy took its own meeting from the registry. -/
theorem destroys_subperm {ok : Server → ProcessAct → Prop} (h : (process base count).Run ok tr s) (meet_id : Bytes) :
    (codeZeroDestroys tr meet_id).Subperm (unregistrations tr meet_id) := by
  have hinv : HistoryInv False tr s := run_historyInv (fun _ _ _ _ _ => False.elim) h
  refine hinv.subperm fun i req hasks hhonest => ?_
  exact mem_unregistrations.mpr (hhonest.destroy meet_id (beq_iff_eq.mp hasks))

/-- Where every delete finds what its handler checked, each code-0 delete erased its own participant. -/
theorem deletes_subperm {ok : Server → ProcessAct → Prop}
    (hok : ∀ tr s a, (process base count).Run ok tr s → ok s (.request a) → StillThere s a)
    (h : (process base count).Run ok tr s) (meet_id part_id : Bytes) :
    (codeZeroDeletes tr meet_id part_id).Subperm (erasures tr meet_id part_id) := by
  have hinv : HistoryInv True tr s := run_historyInv (fun tr s a hrun hstep _ => hok tr s a hrun hstep) h
  refine hinv.subperm fun i req hasks hhonest => ?_
  exact mem_erasures.mpr (hhonest.delete trivial meet_id part_id (beq_iff_eq.mp hasks))

end Histories

end Server
end AudioMeet
