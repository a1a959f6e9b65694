import AudioMeet.Lib.Fair
import AudioMeet.Theorems.Process.Deletes
import AudioMeet.Theorems.Process.HalfBuilt

/-! Every request is answered once. Each section of a handler brings it nearer to its end, whatever the other
    requests do in between, and it answers there. -/

namespace AudioMeet
open Lib Machine

namespace ReqPc

/-- The sections before a handler at most, and the rounds of the loop that it is in. -/
def rank : ReqPc → Nat × Nat
  | .done => (0, 0)
  | .destroyRelease ports => (1, ports.length)
  | .listParticipants _ rest => (1, rest.length)
  | .create | .addExisting _ _ | .deleteRelease _ | .muteSection _ _ _ => (1, 0)
  | .addRelease _ _ _ | .deleteSection _ _ | .destroySection _ _ | .muteLookup _ _ _ | .listLookup => (2, 0)
  | .addSection _ _ _ | .deleteAgain _ _ | .destroyClock _ _ => (3, 0)
  | .addAllocate _ _ | .deleteGet _ _ _ | .destroyPorts _ => (4, 0)
  | .addLookup _ _ | .deleteLookup _ _ | .destroyLookup _ => (5, 0)

/-- `pc'` is nearer to the end of its handler. -/
def Nearer (pc' pc : ReqPc) : Prop := Prod.Lex (· < ·) (· < ·) pc'.rank pc.rank

theorem nearer_of_lt {pc' pc : ReqPc} (h : pc'.rank.1 < pc.rank.1) : pc'.Nearer pc := Prod.lex_def.mpr (Or.inl h)

theorem Nearer.isDone {pc' pc : ReqPc} (h : pc'.Nearer pc) : pc.isDone = false := by
  cases pc with
  | done =>
    rcases Prod.lex_def.mp h with hlt | ⟨-, hlt⟩
    · exact absurd hlt (Nat.not_lt_zero _)
    · exact absurd hlt (Nat.not_lt_zero _)
  | _ => rfl

theorem nearer_done {pc : ReqPc} (h : pc.isDone = false) : Nearer .done pc := by
  refine nearer_of_lt ?_
  cases pc with
  | done => cases h
  | _ => exact Nat.zero_lt_succ _

end ReqPc

namespace Server

/-! ### One section -/

/-- A request that comes to `pc` is answered with `rs`: once at its end, and not before. -/
def Ends (pc : ReqPc) (rs : List Response) : Prop :=
  (pc.isDone = true ∧ ∃ response, rs = [response]) ∨ (pc.isDone = false ∧ rs = [])

/-- The section brings request `i` nearer to its end and answers it there, or it follows a null pointer. -/
def Advances (s : Server) (i : Nat) (pc : ReqPc) (t : Server) (es : List ServerEvent) : Prop :=
  (t.crashed = true ∧ t.requests = s.requests ∧ responses es = []) ∨
  ∃ pc' rs, t.requests = s.requests.set i pc' ∧ pc'.Nearer pc ∧ responses es = rs.map (Prod.mk i) ∧ Ends pc' rs

section Sections
variable {s t u : Server} {i : Nat} {pc pc' : ReqPc} {ans : Answer} {es : List ServerEvent}

/-- Where a section sends its request is nearer to the end of the handler. -/
theorem Section.nearer {turn : Turn} (h : s.Section i ans pc u es turn) :
    turn.All (fun pc' => pc'.Nearer pc ∧ pc'.isDone = false) fun _ => pc.isDone = false := by
  cases h with
  -- The two loops: the section stays in the handler's last stage and has one round less before it.
  | portReleased => exact ⟨Prod.lex_def.mpr (Or.inr ⟨rfl, Nat.lt_add_one _⟩), rfl⟩
  | listed _ => exact ⟨Prod.lex_def.mpr (Or.inr ⟨rfl, Nat.lt_add_one _⟩), rfl⟩
  | crashed _ _ => trivial
  | addFound _ | allocated _ | refused _ _ | splitFailed _ | unregistered _ | collected _ | clockStopped _ | stopped _
  | deleteFound _ | deleteChecked _ _ | deleteAgainFound _ | removed _ _ _ | muteFound _ | listLooked =>
    exact ⟨ReqPc.nearer_of_lt (Nat.lt_add_one _), rfl⟩
  | _ => rfl

/-- Every section advances its request. -/
theorem goOn_advances (hs : s.goOn i ans pc = some (t, es)) : Advances s i pc t es := by
  obtain hcrashed | ⟨pc', ⟨hnear, hgoing⟩, ht, hrs⟩ | ⟨json, hgoing, ht, hrs⟩ :=
    (goOn_took hs).leaves fun _ _ _ hsection => hsection.nearer
  · exact Or.inl hcrashed
  · exact Or.inr ⟨pc', [], ht, hnear, hrs, Or.inr ⟨hgoing, rfl⟩⟩
  · exact Or.inr ⟨.done, [respond json], ht, ReqPc.nearer_done hgoing, hrs, Or.inl ⟨rfl, _, rfl⟩⟩

/-- A section can be taken while the meetings that the handler works on are there. -/
theorem goOn_enabled (hdone : pc.isDone = false) (hheld : ∀ m ∈ pc.meetings, m < s.objects.length) :
    s.goOn i ans pc ≠ none := by
  have there : ∀ {m : Nat} {f : Meeting → Server × List ServerEvent}, m < s.objects.length →
      (s.objects[m]?.bind fun meeting => some (f meeting)) ≠ none := fun hm => by
    rw [List.getElem?_eq_getElem hm]
    exact Option.some_ne_none _
  cases pc with
  | addSection m part port => exact there (hheld m List.mem_cons_self)
  | addExisting m part_id => exact there (hheld m List.mem_cons_self)
  | destroyPorts m => exact there (hheld m List.mem_cons_self)
  | destroyClock m ports => exact there (hheld m List.mem_cons_self)
  | destroySection m ports => exact there (hheld m List.mem_cons_self)
  | deleteGet m meet_id part_id => exact there (hheld m List.mem_cons_self)
  | deleteSection m part_id => exact there (hheld m List.mem_cons_self)
  | muteSection m part_id mute => exact there (hheld m List.mem_cons_self)
  | listParticipants listed rest =>
    cases rest with
    | nil => exact Option.some_ne_none _
    | cons m rest => exact there (hheld m List.mem_cons_self)
  | done => cases hdone
  | _ => exact Option.some_ne_none _

theorem Enters.isDone {req : Request} (h : Enters req pc) : pc.isDone = false := by
  cases h <;> rfl

/-- A request that is received holds no meeting, and one that is refused is answered at once. -/
theorem receive_adds {req : Request} (hs : s.receive req = (t, es)) :
    ∃ pc rs, t.requests = s.requests ++ [pc] ∧ t.objects = s.objects ∧ pc.meetings = [] ∧
      responses es = rs.map (Prod.mk s.requests.length) ∧ Ends pc rs := by
  obtain ⟨pc, henters, rfl, rfl⟩ | ⟨msg, -, rfl, rfl⟩ := receive_cases hs
  · exact ⟨pc, [], rfl, rfl, henters.meetings, rfl, Or.inr ⟨henters.isDone, rfl⟩⟩
  · exact ⟨.done, [_], rfl, rfl, rfl, rfl, Or.inl ⟨rfl, _, rfl⟩⟩

end Sections

/-! ### Runs -/

/-- What request `i` was answered, in order. -/
def answersTo (tr : List Account) (i : Nat) : List Response :=
  (responses (tr.flatMap eventsOf)).filterMap fun x => if x.1 = i then some x.2 else none

section Runs
variable {base count : UInt16} {ok : Server → ProcessAct → Prop} {s t : Server} {tr es : List Account} {i n : Nat}
  {a : ProcessAct}

theorem answersTo_append (tr es : List Account) (i : Nat) :
    answersTo (tr ++ es) i = answersTo tr i ++ answersTo es i := by
  simp only [answersTo, responses, List.flatMap_append, List.filterMap_append]

theorem answersTo_account {a : ServerAct} {es : List ServerEvent} {rs : List Response} {j : Nat}
    (h : responses es = rs.map (Prod.mk j)) : answersTo (s.account t a es) i = if j = i then rs else [] := by
  rw [answersTo, flatMap_eventsOf_account, h, List.filterMap_map]
  split
  · rename_i hj
    simp [hj]
  · rename_i hj
    simp [hj]

/-- The meetings that a handler works on were made. -/
def Known (s : Server) : Prop := ∀ pc ∈ s.requests, ∀ m ∈ pc.meetings, m < s.objects.length

theorem Does.length_le {a : ServerAct} {es : List ServerEvent} (hd : Does s a t es) :
    s.objects.length ≤ t.objects.length := by
  by_contra hlt
  obtain ⟨_, hm, -⟩ := hd.ids (List.getElem?_eq_getElem (Nat.lt_of_not_le hlt))
  exact absurd (List.getElem?_eq_some_iff.mp hm).1 (Nat.lt_irrefl _)

theorem run_known (h : (process base count).Run ok tr s) : Known s := by
  induction h with
  | init hs =>
    obtain ⟨listen_ip, rfl⟩ := hs
    exact fun pc hpc => absurd hpc List.not_mem_nil
  | @step tr es s t a hrun _ hs ih =>
    cases process_does hs with
    | @request a t es hstep =>
      have hlen := (step_does hstep).2.length_le
      intro pc hpc m hm
      refine Nat.lt_of_lt_of_le ?_ hlen
      obtain ⟨-, ⟨req, -, hreceive⟩ | ⟨i, ans, old, -, hold, hgo⟩⟩ := receives_or_goes hstep
      · obtain ⟨new, _, ht, -, hnew, -⟩ := receive_adds hreceive
        rw [ht] at hpc
        rcases List.mem_append.mp hpc with hpc | hpc
        · exact ih pc hpc m hm
        · rw [List.mem_singleton.mp hpc, hnew] at hm
          cases hm
      · obtain ⟨pc', ht, hfetch⟩ := goOn_fetches hold hgo
        rw [ht] at hpc
        rcases List.mem_or_eq_of_mem_set hpc with hpc | rfl
        · exact ih pc hpc m hm
        · rcases hfetch m hm with hm | ⟨meet_id, hm⟩
          · exact ih old (List.mem_of_getElem? hold) m hm
          · obtain ⟨meeting, hobj, -⟩ := (run_registryInv hrun).keyed meet_id m hm
            exact (List.getElem?_eq_some_iff.mp hobj).1
    | destruct _ _ _ _ =>
      intro pc hpc m hm
      rw [List.length_set]
      exact ih pc hpc m hm

/-- A step of the process leaves request `i` alone, brings it nearer to its end, or receives it. -/
theorem step_answers (hs : (process base count).step s a = some (t, es)) (i : Nat) :
    (t.requests[i]? = s.requests[i]? ∧ answersTo es i = [] ∧
      (t.crashed = true ∨ ∀ ans, a ≠ .request (.go i ans))) ∨
    (∃ ans pc pc', a = .request (.go i ans) ∧ s.requests[i]? = some pc ∧ t.requests[i]? = some pc' ∧
      pc'.Nearer pc ∧ Ends pc' (answersTo es i)) ∨
    (s.requests[i]? = none ∧ ∃ pc', t.requests[i]? = some pc' ∧ Ends pc' (answersTo es i)) := by
  cases process_does hs with
  | @request a t es hstep =>
    obtain ⟨-, ⟨req, rfl, hreceive⟩ | ⟨j, ans, pc, rfl, hpc, hgo⟩⟩ := receives_or_goes hstep
    · obtain ⟨pc', rs, ht, -, -, hrs, hends⟩ := receive_adds hreceive
      rw [answersTo_account hrs, ht]
      by_cases hi : s.requests.length = i
      · subst hi
        rw [if_pos rfl]
        exact Or.inr (Or.inr ⟨by simp, pc', by simp, hends⟩)
      · rw [if_neg hi]
        refine Or.inl ⟨?_, rfl, Or.inr fun ans ha => by cases ha⟩
        rcases Nat.lt_or_gt_of_ne hi with hlt | hlt
        · rw [List.getElem?_eq_none (by simpa using Nat.succ_le_of_lt hlt), List.getElem?_eq_none hlt.le]
        · exact List.getElem?_append_left hlt
    · obtain ⟨hcrashed, ht, hrs⟩ | ⟨pc', rs, ht, hnear, hrs, hends⟩ := goOn_advances hgo
      · refine Or.inl ⟨by rw [ht], ?_, Or.inl hcrashed⟩
        have hnone : answersTo (s.account t (.go j ans) es) i = if j = i then [] else [] := answersTo_account hrs
        rw [hnone, ite_self]
      · rw [answersTo_account hrs, ht]
        by_cases hi : j = i
        · subst hi
          have hlt := (List.getElem?_eq_some_iff.mp hpc).1
          rw [if_pos rfl]
          exact Or.inr (Or.inl ⟨ans, pc, pc', rfl, hpc, by simp [hlt], hnear, hends⟩)
        · rw [if_neg hi]
          exact Or.inl ⟨List.getElem?_set_ne hi, rfl, Or.inr fun ans' ha => by cases ha; exact hi rfl⟩
  | destruct _ _ _ _ => exact Or.inl ⟨rfl, rfl, Or.inr fun ans ha => by cases ha⟩

/-- A request that is done was answered once, and no other was answered. -/
def AnsweredOnce (tr : List Account) (s : Server) (i : Nat) : Prop :=
  match s.requests[i]? with
  | some pc => Ends pc (answersTo tr i)
  | none => answersTo tr i = []

theorem run_answeredOnce (h : (process base count).Run ok tr s) (i : Nat) : AnsweredOnce tr s i := by
  induction h with
  | init hs =>
    obtain ⟨listen_ip, rfl⟩ := hs
    exact rfl
  | @step tr es s t a hrun _ hs ih =>
    unfold AnsweredOnce at ih ⊢
    rw [answersTo_append]
    obtain ⟨ht, hnone, -⟩ | ⟨_, pc, pc', -, hpc, ht, hnear, hends⟩ | ⟨hpc, pc', ht, hends⟩ := step_answers hs i
    · rw [ht, hnone, List.append_nil]
      exact ih
    · rw [hpc] at ih
      rw [ht]
      -- A request that goes on was not done.
      obtain ⟨hdone, -⟩ | ⟨-, hold⟩ := ih
      · rw [hnear.isDone] at hdone
        cases hdone
      · rw [hold]
        exact hends
    · rw [hpc] at ih
      rw [ht]
      simp only at ih ⊢
      rw [ih]
      exact hends

/-- Where request `i` stands, by its rank; nothing is left to do once a null pointer was followed. -/
def rankAt (i : Nat) (s : Server) : Nat × Nat :=
  if s.crashed then (0, 0) else ((s.requests[i]?).map ReqPc.rank).getD (0, 0)

/-- Until request `i` is done, its sections are enabled and bring it nearer to its end. -/
theorem ranked (i : Nat) : Execution.Ranked (process base count) Any (fun _ a => ∃ ans, a = .request (.go i ans))
    (Prod.Lex (· < ·) (· < ·)) (fun _ => rankAt i) (fun tr s => (process base count).Run Any tr s ∧ i < s.requests.length)
    (fun _ s => s.crashed = true ∨ ∃ pc, s.requests[i]? = some pc ∧ pc.isDone = true) := by
  rintro tr s ⟨hrun, hi⟩
  have hpc := List.getElem?_eq_getElem hi
  by_cases hend : s.crashed = true ∨ ∃ pc, s.requests[i]? = some pc ∧ pc.isDone = true
  · exact Or.inl hend
  obtain ⟨hlive, hgoing⟩ := not_or.mp hend
  have hdone : s.requests[i].isDone = false := Bool.eq_false_iff.mpr fun hd => hgoing ⟨_, hpc, hd⟩
  have hrank : rankAt i s = s.requests[i].rank := by rw [rankAt, if_neg hlive, hpc]; rfl
  refine Or.inr ⟨⟨.request (.go i {}), ⟨_, rfl⟩, ?_⟩, fun a t es _ hs => ?_⟩
  · have hgo : s.goOn i {} s.requests[i] ≠ none := goOn_enabled hdone (run_known hrun _ (List.getElem_mem hi))
    intro hnone
    refine hgo ?_
    have hstep : s.step (.go i {}) = none := Option.map_eq_none_iff.mp hnone
    rwa [Server.step, if_neg hlive, hpc] at hstep
  · have hi' : i < t.requests.length → (process base count).Run Any (tr ++ es) t ∧ i < t.requests.length :=
      fun h => ⟨hrun.step trivial hs, h⟩
    dsimp only
    rw [hrank]
    by_cases hcrashed : t.crashed = true
    · have ht : rankAt i t = ReqPc.rank .done := if_pos hcrashed
      rw [ht]
      refine ⟨hi' ?_, Or.inl (ReqPc.nearer_done hdone)⟩
      obtain ⟨ht, -⟩ | ⟨_, _, _, -, -, ht, -⟩ | ⟨hnone, -⟩ := step_answers hs i
      · exact (List.getElem?_eq_some_iff.mp (ht.trans hpc)).1
      · exact (List.getElem?_eq_some_iff.mp ht).1
      · rw [hpc] at hnone
        cases hnone
    · obtain ⟨ht, -, hother⟩ | ⟨ans, pc, pc', -, hold, ht, hnear, -⟩ | ⟨hnone, -⟩ := step_answers hs i
      · rw [hpc] at ht
        have hsame : rankAt i t = s.requests[i].rank := by rw [rankAt, if_neg hcrashed, ht]; rfl
        refine ⟨hi' (List.getElem?_eq_some_iff.mp ht).1, Or.inr ⟨hsame, ?_⟩⟩
        rintro ⟨ans, rfl⟩
        exact (hother.resolve_left hcrashed) ans rfl
      · obtain rfl := Option.some.inj (hpc.symm.trans hold)
        have hlower : rankAt i t = pc'.rank := by rw [rankAt, if_neg hcrashed, ht]; rfl
        rw [hlower]
        exact ⟨hi' (List.getElem?_eq_some_iff.mp ht).1, Or.inl hnear⟩
      · rw [hpc] at hnone
        cases hnone

/-- A request that is done stays so, and is not answered again. -/
theorem answered_for_good (e : (process base count).Execution) {pc : ReqPc}
    (hpc : (e.state n).requests[i]? = some pc) (hdone : pc.isDone = true) :
    ∃ response, ∀ k, n ≤ k → answersTo (e.history k) i = [response] := by
  have hstays : ∀ k, n ≤ k → (e.state k).requests[i]? = some pc ∧
      answersTo (e.history k) i = answersTo (e.history n) i := by
    intro k hk
    induction hk with
    | refl => exact ⟨hpc, rfl⟩
    | @step k _ ih =>
      rw [e.history_succ, answersTo_append, ih.2]
      cases hact : e.act k with
      | none =>
        obtain ⟨hstate, hevents⟩ := e.idle k hact
        rw [hstate, hevents]
        exact ⟨ih.1, List.append_nil _⟩
      | some a =>
        obtain ⟨ht, hnone, -⟩ | ⟨_, old, _, -, hold, -, hnear, -⟩ | ⟨hnone, -⟩ := step_answers (e.step k a hact) i
        · rw [ht, hnone, List.append_nil]
          exact ⟨ih.1, rfl⟩
        · obtain rfl := Option.some.inj (ih.1.symm.trans hold)
          rw [hnear.isDone] at hdone
          cases hdone
        · rw [ih.1] at hnone
          cases hnone
  have honce := run_answeredOnce (Execution.run e.obeys_any n) i
  rw [AnsweredOnce, hpc] at honce
  obtain ⟨-, response, hresponse⟩ | ⟨hgoing, -⟩ := honce
  · exact ⟨response, fun k hk => (hstays k hk).2.trans hresponse⟩
  · rw [hdone] at hgoing
    cases hgoing

/-- Every request is answered, and only once, in every execution that lets it go on, unless the process
    crashes. -/
theorem every_request_is_answered (e : (process base count).Execution) (hi : i < (e.state n).requests.length)
    (hfair : e.Fair fun _ a => ∃ ans, a = .request (.go i ans)) :
    ∃ m, n ≤ m ∧ ((e.state m).crashed = true ∨
      ∃ response, ∀ k, m ≤ k → answersTo (e.history k) i = [response]) := by
  have hwf : WellFounded (Prod.Lex (· < ·) (· < ·) : Nat × Nat → Nat × Nat → Prop) :=
    WellFounded.prod_lex Nat.lt_wfRel.wf Nat.lt_wfRel.wf
  obtain ⟨m, hm, hcrashed | ⟨pc, hpc, hdone⟩⟩ := Execution.comes_to hwf (ranked i) e.obeys_any hfair ⟨Execution.run e.obeys_any n, hi⟩
  · exact ⟨m, hm, Or.inl hcrashed⟩
  · exact ⟨m, hm, Or.inr (answered_for_good e hpc hdone)⟩

/-- A meeting is created and then listed, while a participant is added to it section by section. -/
def listedMeanwhile : List ProcessAct :=
  (request 0 .createAudioMeet 1 { random := 1 } ++
  [ServerAct.receive .listAudioMeets,
    .receive (.addAudioMeetPart { meetId := some (hexId 1), partId := some (ascii "a") }),
    .go 1 {}, .go 2 {}, .go 2 {}, .go 1 {}, .go 2 {}, .go 1 {}]).map .request

theorem every_request_is_answered_meanwhile : ∃ (e : (process 20000 2).Execution) (s : Server),
    (∀ k, 10 ≤ k → e.state k = s) ∧ HasPort s 20000 ∧ ∀ i < 3, ∃ m, (e.state m).crashed = true ∨
      ∃ response, ∀ k, m ≤ k → answersTo (e.history k) i = [response] := by
  obtain ⟨⟨t, tr⟩, hexec, hp⟩ := (Option.any_eq_true
    (fun r => r.1.requests.length == 3 && r.1.requests.all ReqPc.isDone && hasPort r.1 (hexId 1) (ascii "a") 20000)
    ((process 20000 2).exec { listen_ip_ := [], port_allocator_ := .new 20000 2 } listedMeanwhile)).mp (by decide +kernel)
  simp only [Bool.and_eq_true, beq_iff_eq, List.all_eq_true] at hp
  obtain ⟨⟨hlen, hdone⟩, hport⟩ := hp
  obtain ⟨e, -, -, hlast, -⟩ := Execution.exists_execution (process 20000 2) _ ⟨[], rfl⟩ (meets_any _ _ _) hexec
  rw [show listedMeanwhile.length = 10 from rfl] at hlast
  refine ⟨e, t, hlast, hasPort_of_test (by decide) hport, fun i hi => ?_⟩
  -- In the end no handler has a section left.
  have hfair : e.Fair fun _ a => ∃ ans, a = .request (.go i ans) := by
    refine Execution.fair_of_rest ⟨10, fun m hm a ha => ?_⟩
    obtain ⟨ans, rfl⟩ := ha
    rw [hlast m hm]
    cases hstep : (process 20000 2).step t (.request (.go i ans)) with
    | none => rfl
    | some r =>
      obtain ⟨r', hr', -⟩ := Option.map_eq_some_iff.mp hstep
      obtain ⟨pc, hpc, hgo⟩ := go_goes hr'
      rw [ReqPc.isDone_iff.mp (hdone pc (List.mem_of_getElem? hpc))] at hgo
      cases hgo
  have hrequests : i < (e.state 10).requests.length := by
    rw [hlast 10 (Nat.le_refl 10), hlen]
    exact hi
  obtain ⟨m, -, hm⟩ := every_request_is_answered e hrequests hfair
  exact ⟨m, hm⟩

end Runs
end Server
end AudioMeet
