import AudioMeet.Theorems.Process.Deletes

/-! Deletes that overtake each other. A delete finds its participant in one section and removes it in a later one; as
    long as no other request takes it away in between, nor its meeting, what it found is still there. -/

namespace AudioMeet
open Lib Machine

namespace ReqPc

/-- The id under which the next section of the request registers a meeting, or finds one to take from the registry. -/
def replaces (ans : Answer) : ReqPc → Option Bytes
  | .create => some (Server.hexId ans.random)
  | .destroyLookup meet_id => some meet_id
  | _ => none

/-- The participant that the next section of the request removes, with its meeting. -/
def removes : ReqPc → Option (Nat × Bytes)
  | .deleteSection m part_id => some (m, part_id)
  | _ => none

/-- The meeting that the next section of the request clears of its participants. -/
def stops : ReqPc → Option Nat
  | .destroySection m _ => some m
  | _ => none

theorem destroys_of_stops {pc : ReqPc} {m : Nat} (h : pc.stops = some m) : pc.destroys = some m := by
  cases pc with
  | destroySection m' ports => exact h
  | _ => cases h

end ReqPc

namespace Server

/-- The next section of a request at `pc` takes away what a delete at `waiting` has found. -/
def Overtakes (s : Server) (ans : Answer) (pc : ReqPc) : ReqPc → Prop
  | .deleteGet _ meet_id _ => pc.replaces ans = some meet_id
  | .deleteAgain meet_id part_id =>
    pc.replaces ans = some meet_id ∨ ∃ m ∈ s.meetings_[meet_id]?, pc.removes = some (m, part_id)
  | .deleteSection m part_id => pc.removes = some (m, part_id) ∨ pc.stops = some m
  | _ => False

instance (s : Server) (ans : Answer) (pc waiting : ReqPc) : Decidable (Overtakes s ans pc waiting) := by
  unfold Overtakes
  cases waiting <;> infer_instance

/-- The section overtakes no delete of another request. -/
def NotOvertaken (s : Server) : ServerAct → Prop
  | .receive _ => True
  | .go i ans => ∀ pc ∈ s.requests[i]?, ∀ waiting ∈ s.requests.eraseIdx i, ¬ Overtakes s ans pc waiting

instance (s : Server) : DecidablePred (NotOvertaken s)
  | .receive _ => .isTrue trivial
  | .go i ans =>
    inferInstanceAs (Decidable (∀ pc ∈ s.requests[i]?, ∀ waiting ∈ s.requests.eraseIdx i, ¬ Overtakes s ans pc waiting))

/-- What a delete at `pc` has found is there. -/
def Found (s : Server) : ReqPc → Prop
  | .deleteGet m meet_id _ => s.meetings_[meet_id]? = some m
  | .deleteAgain meet_id part_id => ∃ m, s.meetings_[meet_id]? = some m ∧ Present s m part_id
  | .deleteSection m part_id => Present s m part_id
  | _ => True

def AllFound (s : Server) : Prop := ∀ pc ∈ s.requests, Found s pc

section Sections
variable {s t u : Server} {i m : Nat} {ans : Answer} {pc waiting : ReqPc} {seen : List ServerEvent} {turn : Turn}
  {meet_id part_id : Bytes}

/-- A participant stays in a meeting that changes, if it stays under its id there. -/
theorem partAt_of_set {k slot : Nat} {q : Participant} {x x' : Meeting} (hx : s.objects[k]? = some x)
    (hu : u.objects = s.objects.set k x') (hq : PartAt s m part_id q slot)
    (hkeep : m = k → x.participants_[part_id]? = some (q, slot) → x'.participants_[part_id]? = some (q, slot)) :
    PartAt u m part_id q slot := by
  refine (partAt_set hx hu).mpr ?_
  by_cases hm : m = k
  · subst hm
    obtain ⟨y, hy, hq⟩ := hq
    obtain rfl := Option.some.inj (hx.symm.trans hy)
    exact Or.inl ⟨rfl, hkeep rfl hq⟩
  · exact Or.inr ⟨hm, hq⟩

/-- A section leaves a meeting registered unless it is one of a create or a destroy with its id. -/
theorem Section.registered (h : s.Section i ans pc u seen turn) (hm : s.meetings_[meet_id]? = some m)
    (hno : pc.replaces ans ≠ some meet_id) : u.meetings_[meet_id]? = some m := by
  cases h with
  | created => exact getElem?_insert_some.mpr (Or.inr ⟨fun heq => hno (congrArg some heq.symm), hm⟩)
  | unregistered _ => exact getElem?_eraseId_some.mpr ⟨fun heq => hno (congrArg some heq.symm), hm⟩
  | _ => exact hm

/-- A section leaves a participant in its meeting unless it removes it or clears the meeting. -/
theorem Section.present (h : s.Section i ans pc u seen turn) (hp : Present s m part_id)
    (hremoves : pc.removes ≠ some (m, part_id)) (hstops : pc.stops ≠ some m) : Present u m part_id := by
  obtain ⟨q, slot, hq⟩ := hp
  refine ⟨q, slot, ?_⟩
  have hremoved : ∀ {k : Nat} {part_id' : Bytes} {meeting meeting' : Meeting} {port : UInt16},
      meeting.remove_participant part_id' = some (meeting', port) → some (k, part_id') ≠ some (m, part_id) → m = k →
      meeting.participants_[part_id]? = some (q, slot) → meeting'.participants_[part_id]? = some (q, slot) := by
    intro k part_id' meeting meeting' port hr hne hmk hold
    obtain ⟨_, _, -, rfl, -⟩ := Meeting.remove_participant_eq_some hr
    exact getElem?_erase_some.mpr ⟨fun heq => hne (by rw [hmk, heq]), hold⟩
  cases h with
  | created =>
    obtain ⟨meeting, hm, hq⟩ := hq
    exact ⟨meeting, getElem?_snoc_some.mpr (Or.inr hm), hq⟩
  | added hk hadd =>
    rw [addTo_eq] at hadd
    obtain ⟨_, -, hjoin, -⟩ := Meeting.add_joins hadd
    refine partAt_of_set hk rfl hq fun _ hold => (hjoin.getElem? part_id).mpr (Or.inr ⟨?_, hold⟩)
    rintro rfl
    cases hold.symm.trans hjoin.absent
  | clockStopped hk => exact partAt_of_set hk rfl hq fun _ => id
  | stopped hk => exact partAt_of_set hk rfl hq fun heq => absurd (congrArg some heq.symm) hstops
  | removed hk hr _ => exact partAt_of_set hk rfl hq (hremoved hr hremoves)
  | removedPortless hk hr _ => exact partAt_of_set hk rfl hq (hremoved hr hremoves)
  | _ => exact hq

/-! ### What a delete has found is there -/

/-- A delete finds what its next sections go on with. -/
theorem Section.finds (h : s.Section i ans pc u seen turn) (hfound : Found s pc) : Found u (turn.next pc) := by
  cases h with
  | deleteFound hm => exact hm
  | deleteChecked hm hp =>
    obtain ⟨⟨q, slot⟩, hq, -⟩ := Option.map_eq_some_iff.mp hp
    exact ⟨_, hfound, q, slot, _, hm, hq⟩
  | deleteAgainFound hm =>
    obtain ⟨m', hm', hp⟩ := hfound
    obtain rfl := Option.some.inj (hm.symm.trans hm')
    exact hp
  | _ => trivial

/-- A section that does not overtake a delete leaves it what it has found. -/
theorem Section.found (h : s.Section i ans pc u seen turn) (hreg : RegistryInv s) (hpc : s.requests[i]? = some pc)
    (hno : ¬ Overtakes s ans pc waiting) (hfound : Found s waiting) : Found u waiting := by
  cases waiting with
  | deleteGet m meet_id part_id => exact h.registered hfound hno
  | deleteAgain meet_id part_id =>
    obtain ⟨m, hm, hp⟩ := hfound
    obtain ⟨hreplaces, hremoves⟩ := not_or.mp hno
    refine ⟨m, h.registered hm hreplaces, h.present hp (fun hr => hremoves ⟨m, hm, hr⟩) fun hstops => ?_⟩
    -- A meeting that is stopped is registered no more.
    exact (hreg.apart i pc m hpc (ReqPc.destroys_of_stops hstops)).2 meet_id hm
  | deleteSection m part_id =>
    obtain ⟨hremoves, hstops⟩ := not_or.mp hno
    exact h.present hfound hremoves hstops
  | _ => trivial

theorem Enters.found {req : Request} (h : Enters req pc) : Found s pc := by
  cases h <;> trivial

end Sections

section Runs
variable {base count : UInt16} {s t : Server} {tr : List Account}

theorem found_leave {u : Server} {i : Nat} {turn : Turn} {waiting : ReqPc} (h : Found u waiting) :
    Found (turn.leave u i).1 waiting := by
  cases turn <;> cases waiting <;> exact h

theorem AllFound.step (h : AllFound s) (hreg : RegistryInv s) {a : ServerAct} {es : List ServerEvent}
    (hs : s.step a = some (t, es)) (hok : NotOvertaken s a) : AllFound t := by
  obtain ⟨-, ⟨req, rfl, hreceive⟩ | ⟨i, ans, pc, rfl, hpc, hgo⟩⟩ := receives_or_goes hs
  · have hnew : ∃ pc, t = { s with requests := s.requests ++ [pc] } ∧ Found s pc := by
      obtain ⟨pc, henters, rfl, -⟩ | ⟨_, -, rfl, -⟩ := receive_cases hreceive
      · exact ⟨pc, rfl, henters.found⟩
      · exact ⟨.done, rfl, trivial⟩
    obtain ⟨pc, rfl, hfound⟩ := hnew
    intro waiting hwaiting
    rcases List.mem_append.mp hwaiting with hwaiting | hwaiting
    · exact h waiting hwaiting
    · obtain rfl := List.mem_singleton.mp hwaiting
      exact hfound
  · obtain ⟨u, seen, turn, hsection, rfl, rfl⟩ := goOn_took hgo
    intro waiting hwaiting
    obtain ⟨j, hj⟩ := List.mem_iff_getElem?.mp hwaiting
    refine found_leave ?_
    rcases (hsection.goes hpc j waiting).mp hj with ⟨-, rfl⟩ | ⟨hne, hj⟩
    · exact hsection.finds (h pc (List.mem_of_getElem? hpc))
    -- A request that is not the one that goes on stands where it stood.
    · refine hsection.found hreg hpc (hok pc hpc waiting (List.mem_eraseIdx_iff_getElem?.mpr ⟨j, hne, hj⟩)) ?_
      exact h waiting (List.mem_of_getElem? hj)

theorem run_allFound (h : (process base count).Run (OfRequests NotOvertaken) tr s) : AllFound s := by
  induction h with
  | init hs =>
    obtain ⟨listen_ip, rfl⟩ := hs
    exact fun waiting hw => absurd hw List.not_mem_nil
  | step hrun hok hs ih =>
    have hreg := run_registryInv hrun
    cases process_does hs with
    | request hstep => exact ih.step hreg hstep hok
    | destruct hm _ hkey hreq =>
      intro waiting hw
      have hfound := ih waiting hw
      cases waiting with
      | deleteGet m' meet_id part_id => exact hfound
      | deleteAgain meet_id part_id =>
        obtain ⟨m', hm', q, slot, hq⟩ := hfound
        exact ⟨m', hm', q, slot, partAt_of_set hm rfl hq fun heq => absurd (heq ▸ hm') (hkey meet_id)⟩
      | deleteSection m' part_id =>
        obtain ⟨q, slot, hq⟩ := hfound
        exact ⟨q, slot, partAt_of_set hm rfl hq fun heq => absurd (heq ▸ List.mem_singleton_self m') (hreq _ hw)⟩
      | _ => trivial

/-- In a run in which no delete is overtaken, every delete finds what its handler checked. -/
theorem stillThere_of_run (h : (process base count).Run (OfRequests NotOvertaken) tr s) (a : ServerAct) : StillThere s a := by
  cases a with
  | receive req => trivial
  | go i ans =>
    unfold StillThere
    dsimp only
    cases hpc : s.requests[i]? with
    | none => trivial
    | some pc =>
      have hfound := run_allFound h pc (List.mem_of_getElem? hpc)
      cases pc with
      | deleteAgain meet_id part_id =>
        obtain ⟨m, hm, -⟩ := hfound
        simp [Std.ExtTreeMap.contains_eq_isSome_getElem?, hm]
      | deleteSection m part_id =>
        obtain ⟨q, slot, meeting, hm, hq⟩ := hfound
        rintro meeting' hm'
        obtain rfl := Option.some.inj (hm.symm.trans hm')
        simp [Std.ExtTreeMap.contains_eq_isSome_getElem?, hq]
      | _ => trivial

/-- As long as no delete is overtaken, each code-0 delete erased its own participant, and each code-0 destroy its own
    meeting. -/
theorem deletes_and_destroys_once (h : (process base count).Run (OfRequests NotOvertaken) tr s) : ExactlyOnce tr := by
  have hdel := deletes_subperm (fun _ _ a hrun _ => stillThere_of_run hrun a) h
  exact ⟨fun meet_id part_id => (hdel meet_id part_id).length_le, fun meet_id => (destroys_subperm h meet_id).length_le,
    hdel, destroys_subperm h⟩

end Runs

/-- A meeting with two participants, deletes of both of them section by section in turn, and a destroy while the second
    has still to release its port. -/
def deletedInTurn : List ProcessAct :=
  (request 0 .createAudioMeet 1 { random := 1 } ++
  request 1 (.addAudioMeetPart { meetId := some (hexId 1), partId := some (ascii "a") }) 3 ++
  request 2 (.addAudioMeetPart { meetId := some (hexId 1), partId := some (ascii "b") }) 3 ++
  [ServerAct.receive (.delAudioMeetPart { meetId := some (hexId 1), partId := some (ascii "a") }),
    .receive (.delAudioMeetPart { meetId := some (hexId 1), partId := some (ascii "b") }),
    .go 3 {}, .go 4 {}, .go 3 {}, .go 4 {}, .go 3 {}, .go 4 {}, .go 3 {}, .go 4 {},
    .receive (.destroyAudioMeet { meetId := some (hexId 1) }), .go 5 {}, .go 3 {}, .go 5 {}, .go 5 {}, .go 4 {},
    .go 5 {}, .go 5 {}]).map .request

theorem deletes_and_destroys_once_in_turn : ∃ tr s, (process 10000 4).Run (OfRequests NotOvertaken) tr s ∧
    codeZeroDeletes tr (hexId 1) (ascii "a") = [3] ∧ codeZeroDeletes tr (hexId 1) (ascii "b") = [4] ∧
    codeZeroDestroys tr (hexId 1) = [5] ∧ ExactlyOnce tr := by
  have hmeets : (process 10000 4).Meets (OfRequests NotOvertaken) { listen_ip_ := [], port_allocator_ := .new 10000 4 }
      deletedInTurn := meets_of_checks (by decide +kernel)
  obtain ⟨tr, s, hrun, hs⟩ := exists_run (process 10000 4) _ deletedInTurn ⟨[], rfl⟩ hmeets
    (fun r => codeZeroDeletes r.2 (hexId 1) (ascii "a") == [3] && codeZeroDeletes r.2 (hexId 1) (ascii "b") == [4] &&
      codeZeroDestroys r.2 (hexId 1) == [5]) (by decide +kernel)
  simp only [Bool.and_eq_true, beq_iff_eq, and_assoc] at hs
  exact ⟨tr, s, hrun, hs.1, hs.2.1, hs.2.2, deletes_and_destroys_once hrun⟩

/-- Two deletes of one participant that both found it before either removed it. -/
def deletedTwice : List ProcessAct :=
  (request 0 .createAudioMeet 1 { random := 1 } ++
  request 1 (.addAudioMeetPart { meetId := some (hexId 1), partId := some (ascii "a") }) 3 ++
  request 2 (.delAudioMeetPart { meetId := some (hexId 1), partId := some (ascii "a") }) 2 ++
  request 3 (.delAudioMeetPart { meetId := some (hexId 1), partId := some (ascii "a") }) 2 ++
  [ServerAct.go 2 {}, .go 2 {}, .go 2 {}, .go 3 {}, .go 3 {}]).map .request

theorem deletes_succeed_twice : ¬ ∀ (base count : UInt16) (tr : List Account) (s : Server),
    (process base count).Run Any tr s → ExactlyOnce tr := by
  intro hall
  obtain ⟨tr, s, hrun, hs⟩ := exists_run (process 10000 4) { listen_ip_ := [], port_allocator_ := .new 10000 4 }
    deletedTwice ⟨[], rfl⟩ (meets_any _ _ _)
    (fun r => codeZeroDeletes r.2 (hexId 1) (ascii "a") == [2, 3] && erasures r.2 (hexId 1) (ascii "a") == [2])
    (by decide +kernel)
  simp only [Bool.and_eq_true, beq_iff_eq] at hs
  have hle := (hall 10000 4 tr s hrun).deletes (hexId 1) (ascii "a")
  rw [hs.1, hs.2] at hle
  exact absurd hle (by decide)

end Server
end AudioMeet
