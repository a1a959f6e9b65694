import AudioMeet.Theorems.Process.Step
import AudioMeet.Theorems.Server.PortUse
import AudioMeet.Theorems.Server.Responses

/-! What a new meeting does to the others. `create_meeting` assigns to `meetings_[meet_id]`, so that a meeting that
    is registered under an equal id is lost; under an id that is not registered, nothing is. -/

namespace AudioMeet.Server
open Lib Machine

/-- Request `i` has made a meeting and is answered with its id, under which it is registered; everything else is as it
    was. -/
structure Undisturbed (s t : Server) (i : Nat) (es : List Account) (meet_id : Bytes) : Prop where
  answer : ∃ text, (body 0 "success" (.ofMembers [("meetId", .string meet_id)])).dump = .ok text ∧
    es = [.event (.responded i (.content text))]
  size : t.meetings_.size = s.meetings_.size + 1
  fresh : s.meetings_[meet_id]? = none
  entry : t.meetings_[meet_id]? = some s.objects.length
  made : ∃ meeting, t.objects = s.objects ++ [meeting] ∧ meeting.meet_id_ = meet_id ∧ meeting.participants_ = ∅
  reachable : ∀ (meet_id' : Bytes) (m : Nat), s.meetings_[meet_id']? = some m → t.meetings_[meet_id']? = some m
  unchanged : ∀ (m : Nat), m < s.objects.length → t.objects[m]? = s.objects[m]?
  ports : t.port_allocator_ = s.port_allocator_

/-- The id that is drawn for a new meeting is not registered. -/
def UnusedIds (s : Server) : ServerAct → Prop
  | .receive _ => True
  | .go i ans =>
    match s.requests[i]? with
    | some .create => s.meetings_[hexId ans.random]? = none
    | _ => True

instance (s : Server) : DecidablePred (UnusedIds s)
  | .receive _ => .isTrue trivial
  | .go i ans => by
    unfold UnusedIds
    dsimp only
    generalize s.requests[i]? = req
    rcases req with _ | pc
    · infer_instance
    · rcases pc <;> infer_instance

section Steps
variable {s t u : Server} {tr es : List Account} {i : Nat} {ans : Answer} {base count : UInt16}

/-- The section of `create_meeting` is the only step of its request. -/
theorem create_step (hc : s.crashed = false) (hpc : s.requests[i]? = some .create) :
    (process base count).step s (.request (.go i ans)) =
      some ((s.create_meeting i ans).1, (s.create_meeting i ans).2.map .event) := by
  have hstep : s.step (.go i ans) = some ((s.create_meeting i ans).1, (s.create_meeting i ans).2) := by
    simp only [Server.step, hc, Bool.false_eq_true, if_false, hpc, Option.bind_eq_bind, Option.bind_some, goOn]
  have hacc : s.account (s.create_meeting i ans).1 (.go i ans) (s.create_meeting i ans).2 =
      (s.create_meeting i ans).2.map .event := by
    simp only [account, hpc, Option.map_some, Option.getD_some, erases, List.nil_append]
  rw [process_request hstep, hacc]

theorem create_undisturbed (hnone : s.meetings_[hexId ans.random]? = none) :
    Undisturbed s (s.create_meeting i ans).1 i ((s.create_meeting i ans).2.map .event) (hexId ans.random) where
  answer := by
    have hsuccess : Utf8.Valid (ascii "success") := by decide
    obtain ⟨text, htext⟩ := exists_dump hsuccess (printable_created ans.random)
    exact ⟨text, htext, by simp only [create_meeting, finish, respond, htext, List.map_cons, List.map_nil]⟩
  size := by
    have hnot : s.meetings_.contains (hexId ans.random) = false := by
      rw [Std.ExtTreeMap.contains_eq_isSome_getElem?, hnone]
      rfl
    simp [create_meeting, finish, Std.ExtTreeMap.size_insert, hnot]
  fresh := hnone
  entry := getElem?_insert_some.mpr (Or.inl ⟨rfl, rfl⟩)
  made := ⟨_, rfl, rfl, rfl⟩
  reachable := by
    intro meet_id' m hm
    refine getElem?_insert_some.mpr (Or.inr ⟨?_, hm⟩)
    rintro rfl
    rw [hnone] at hm
    cases hm
  unchanged := fun m hm => List.getElem?_append_left hm
  ports := rfl

/-- The meeting that was registered under an equal id is under no id any more, and the registry has not grown. -/
theorem create_replaces (h : RegistryInv s) {m : Nat} (hm : s.meetings_[hexId ans.random]? = some m) :
    (s.create_meeting i ans).1.meetings_.size = s.meetings_.size ∧
      ∀ meet_id : Bytes, (s.create_meeting i ans).1.meetings_[meet_id]? ≠ some m := by
  have hin : s.meetings_.contains (hexId ans.random) = true := by
    rw [Std.ExtTreeMap.contains_eq_isSome_getElem?, hm]
    rfl
  refine ⟨by simp [create_meeting, finish, Std.ExtTreeMap.size_insert, hin], fun meet_id hk => ?_⟩
  obtain ⟨meeting, hobj, hid, -⟩ := h.keyed _ m hm
  rcases getElem?_insert_some.mp hk with ⟨-, rfl⟩ | ⟨hne, hk⟩
  · simp at hobj
  · obtain ⟨meeting', hobj', hid', -⟩ := h.keyed meet_id m hk
    obtain rfl := Option.some.inj (hobj.symm.trans hobj')
    exact hne (hid'.symm.trans hid)

/-! ### Later steps -/

/-- A step leaves a meeting registered, or is the section of a destroy of its id. -/
theorem Does.registered {a : ServerAct} {es : List ServerEvent} (hd : Does s a t es) (hok : UnusedIds s a) {meet_id : Bytes}
    {m : Nat} (hm : s.meetings_[meet_id]? = some m) :
    t.meetings_[meet_id]? = some m ∨ ∃ i, .unregistered i meet_id ∈ s.account t a es := by
  cases hd with
  | created hpc _ =>
    simp only [UnusedIds, hpc] at hok
    refine Or.inl (getElem?_insert_some.mpr (Or.inr ⟨?_, hm⟩))
    rintro rfl
    rw [hok] at hm
    cases hm
  | @unregistered i ans meet_id' m' hpc hm' =>
    by_cases heq : meet_id = meet_id'
    · subst heq
      refine Or.inr ⟨i, ?_⟩
      simp [account, hpc, erases, Std.ExtTreeMap.contains_eq_isSome_getElem?, hm]
    · exact Or.inl (getElem?_eraseId_some.mpr ⟨heq, hm⟩)
  | _ => exact Or.inl hm

/-- A registered meeting stays registered until it is destroyed. -/
theorem steps_registered (h : (process base count).Steps (OfRequests UnusedIds) t es u) {meet_id : Bytes} {m : Nat}
    (hm : t.meetings_[meet_id]? = some m) :
    u.meetings_[meet_id]? = some m ∨ ∃ i, .unregistered i meet_id ∈ es := by
  induction h with
  | refl => exact Or.inl hm
  | @tail tr es u v a _ hok hs ih =>
    rcases ih with hu | ⟨i, hmem⟩
    · cases process_does hs with
      | request hstep =>
        rcases (step_does hstep).2.registered hok hu with hv | ⟨i, hmem⟩
        · exact Or.inl hv
        · exact Or.inr ⟨i, List.mem_append_right _ hmem⟩
      | destruct _ _ _ _ => exact Or.inl hu
    · exact Or.inr ⟨i, List.mem_append_left _ hmem⟩

/-- `create_meeting` answers with a new id and leaves everything else as it was exactly when the drawn id is not
    registered; and as long as no later one draws a registered id, every meeting stays registered under its id until it
    is destroyed. -/
theorem create_disturbs_nothing {ok : Server → ProcessAct → Prop} (h : (process base count).Run ok tr s)
    (hpc : s.requests[i]? = some .create) (hs : (process base count).step s (.request (.go i ans)) = some (t, es)) :
    (Undisturbed s t i es (hexId ans.random) ↔ s.meetings_[hexId ans.random]? = none) ∧
      ∀ es' u, (process base count).Steps (OfRequests UnusedIds) t es' u →
        ∀ (meet_id : Bytes) (m : Nat), t.meetings_[meet_id]? = some m →
          (u.meetings_[meet_id]? = some m ∧ ∃ meeting, u.objects[m]? = some meeting ∧ meeting.meet_id_ = meet_id ∧
            meeting.stopped = false) ∨ ∃ j, .unregistered j meet_id ∈ es' := by
  have hc : s.crashed = false := by
    obtain ⟨r, hstep, -⟩ := Option.map_eq_some_iff.mp hs
    exact (step_does hstep).1
  obtain ⟨rfl, rfl⟩ := Prod.mk.inj (Option.some.inj ((create_step hc hpc).symm.trans hs))
  refine ⟨⟨fun hu => hu.fresh, create_undisturbed⟩, fun es' u hsteps meet_id m hm => ?_⟩
  refine (steps_registered hsteps hm).imp_left fun hu => ⟨hu, ?_⟩
  have hrun : (process base count).Run Any _ u :=
    ((h.mono fun _ _ _ => trivial).step trivial hs).steps (hsteps.mono fun _ _ _ => trivial)
  obtain ⟨meeting, hobj, hid, hwhole⟩ := (run_registryInv hrun).keyed meet_id m hu
  exact ⟨meeting, hobj, hid, hwhole.live⟩

end Steps

def isCreate : ReqPc → Bool
  | .create => true
  | _ => false

theorem eq_create {pc : ReqPc} (h : isCreate pc = true) : pc = .create := by
  cases pc <;> first | rfl | cases h

/-- A meeting with one participant, and a request for another meeting. -/
def oneJoined : List ProcessAct :=
  (request 0 .createAudioMeet 1 { random := 1 } ++
  request 1 (.addAudioMeetPart { meetId := some (hexId 1), partId := some (ascii "a") }) 3 ++
  [ServerAct.receive .createAudioMeet]).map .request

theorem exists_oneJoined : ∃ tr s, (process 10000 4).Run Any tr s ∧ s.crashed = false ∧
    s.requests[2]? = some .create ∧ (s.meetings_[hexId 1]?).isSome = true ∧ s.meetings_[hexId 2]? = none := by
  obtain ⟨tr, s, hrun, hs⟩ := exists_run (process 10000 4) { listen_ip_ := [], port_allocator_ := .new 10000 4 }
    oneJoined ⟨[], rfl⟩ (meets_any _ _ _)
    (fun r => r.1.requests[2]?.any isCreate && (!r.1.crashed && ((r.1.meetings_[hexId 1]?).isSome &&
      (r.1.meetings_[hexId 2]?).isNone))) (by decide +kernel)
  simp only [Bool.and_eq_true, Option.isNone_iff_eq_none, Bool.not_eq_true'] at hs
  obtain ⟨pc, hpc, hcreate⟩ := (Option.any_eq_true _ _).mp hs.1
  exact ⟨tr, s, hrun, hs.2.1, eq_create hcreate ▸ hpc, hs.2.2⟩

/-- A second meeting, under an id of its own. -/
theorem create_disturbs_nothing_second : ∃ tr s t es, (process 10000 4).Run Any tr s ∧
    (process 10000 4).step s (.request (.go 2 { random := 2 })) = some (t, es) ∧ Undisturbed s t 2 es (hexId 2) := by
  obtain ⟨tr, s, hrun, hc, hpc, -, hnone⟩ := exists_oneJoined
  have hs : (process 10000 4).step s (.request (.go 2 { random := 2 })) = some _ := create_step hc hpc
  exact ⟨tr, s, _, _, hrun, hs, (create_disturbs_nothing hrun hpc hs).1.mpr hnone⟩

/-- The generator draws the id of the first meeting again. -/
theorem create_disturbs : ¬ ∀ (base count : UInt16) (tr : List Account) (s t : Server) (es : List Account) (i : Nat)
    (ans : Answer), (process base count).Run Any tr s → s.requests[i]? = some .create →
    (process base count).step s (.request (.go i ans)) = some (t, es) → Undisturbed s t i es (hexId ans.random) := by
  intro hall
  obtain ⟨tr, s, hrun, hc, hpc, hsome, -⟩ := exists_oneJoined
  have hu := hall 10000 4 tr s _ _ 2 { random := 1 } hrun hpc (create_step hc hpc)
  rw [hu.fresh] at hsome
  cases hsome

end AudioMeet.Server
