import AudioMeet.Theorems.Process.Schema

/-! What a listing is a picture of. The handler holds `meetings_mutex_` for the registry and each `parts_mutex_` in its
    turn, never two of them: other requests come in between, so that the parts of one answer are of different times. -/

namespace AudioMeet.Server
open Lib Machine

section Listings
variable {base count : UInt16} {s t : Server} {es : List Account} {i k n n₀ : Nat} {pc : ReqPc} {response : Response}
  {a : ProcessAct} {e : (process base count).Execution} {ms : List Nat} {reads : List (Nat × Meeting)}

/-- At time `k` listing `i` was asked for and not yet answered. -/
def Open (e : (process base count).Execution) (i k : Nat) : Prop :=
  .received i .listAudioMeets ∈ e.history k ∧ answersTo (e.history k) i = []

/-- The registry was read at the time `n₀` and the meetings `ms` at later times, one after another, all of them before
    the time `n` and while the listing was open. -/
structure Read (e : (process base count).Execution) (i n n₀ : Nat) (ms : List Nat) (reads : List (Nat × Meeting)) :
    Prop where
  order : (n₀ :: reads.map Prod.fst).Pairwise (· < ·)
  times : ∀ k ∈ n₀ :: reads.map Prod.fst, k < n ∧ Open e i k
  found : List.Forall₂ (fun m r => (e.state r.1).objects[m]? = some r.2) ms reads

theorem Read.start (hi : Open e i n) : Read e i (n + 1) n [] [] :=
  ⟨List.pairwise_singleton _ n, fun k hk => by rw [List.mem_singleton.mp hk]; exact ⟨Nat.lt_add_one n, hi⟩, .nil⟩

theorem Read.later (h : Read e i n n₀ ms reads) (hk : n ≤ k) : Read e i k n₀ ms reads :=
  ⟨h.order, fun j hj => ⟨Nat.lt_of_lt_of_le (h.times j hj).1 hk, (h.times j hj).2⟩, h.found⟩

/-- One more meeting is read. -/
theorem Read.snoc (h : Read e i n n₀ ms reads) (hi : Open e i n) {m : Nat} {meeting : Meeting}
    (hm : (e.state n).objects[m]? = some meeting) :
    Read e i (n + 1) n₀ (ms ++ [m]) (reads ++ [(n, meeting)]) where
  order := by
    rw [List.map_append, ← List.cons_append]
    refine List.pairwise_append.mpr ⟨h.order, List.pairwise_singleton _ n, fun k hk j hj => ?_⟩
    rw [List.mem_singleton.mp hj]
    exact (h.times k hk).1
  times := by
    intro k hk
    rw [List.map_append, ← List.cons_append] at hk
    rcases List.mem_append.mp hk with hk | hk
    · exact ⟨Nat.lt_succ_of_lt (h.times k hk).1, (h.times k hk).2⟩
    · rw [List.mem_singleton.mp hk]
      exact ⟨Nat.lt_add_one n, hi⟩
  found := List.rel_append h.found (.cons hm .nil)

/-- The response lists what was read. -/
def Lists (e : (process base count).Execution) (i n : Nat) (response : Response) : Prop :=
  ∃ n₀ reads, Read e i n n₀ (e.state n₀).list_meetings reads ∧
    response = respond (body 0 "success" (.array (reads.map fun r => meetingJson r.2)))

/-- How far listing `i` is at time `n`. -/
def Progress (e : (process base count).Execution) (i n : Nat) : ReqPc → Prop
  | .listLookup => True
  | .listParticipants listed rest =>
    ∃ n₀ ms reads, (e.state n₀).list_meetings = ms ++ rest ∧ Read e i n n₀ ms reads ∧
      listed = reads.map fun r => meetingJson r.2
  | .done => ∀ response ∈ answersTo (e.history n) i, Lists e i n response
  | _ => False

/-- While nothing happens to the listing. -/
theorem Progress.later (h : Progress e i n pc) (hk : n ≤ k) (heq : answersTo (e.history k) i = answersTo (e.history n) i) :
    Progress e i k pc := by
  cases pc with
  | listLookup => exact h
  | listParticipants listed rest =>
    obtain ⟨n₀, ms, reads, hms, hread, hlisted⟩ := h
    exact ⟨n₀, ms, reads, hms, hread.later hk, hlisted⟩
  | done =>
    intro response hr
    obtain ⟨n₀, reads, hread, hresponse⟩ := h response (heq ▸ hr)
    exact ⟨n₀, reads, hread.later hk, hresponse⟩
  | _ => exact h

/-! ### One section -/

theorem mem_answersTo {tr : List Account} : response ∈ answersTo tr i ↔ .event (.responded i response) ∈ tr := by
  have heach : ∀ a : Account, (i, response) ∈ responses (eventsOf a) ↔ a = .event (.responded i response) := by
    intro a
    rw [mem_responses]
    cases a with
    | event ev => simp [eventsOf, eq_comm]
    | _ => simp [eventsOf]
  simp only [answersTo, List.mem_filterMap, Option.ite_none_right_eq_some, Option.some.injEq, Prod.exists]
  constructor
  · rintro ⟨j, x, hx, rfl, rfl⟩
    rw [mem_responses, List.mem_flatMap] at hx
    obtain ⟨a, ha, hev⟩ := hx
    exact (heach a).mp (mem_responses.mpr hev) ▸ ha
  · intro h
    refine ⟨i, response, ?_, rfl, rfl⟩
    rw [mem_responses, List.mem_flatMap]
    exact ⟨_, h, List.mem_singleton_self _⟩

/-- A section of the handler takes the listing on. -/
theorem Progress.goOn {ans : Answer} {evs : List ServerEvent} (h : Progress e i n pc) (hi : Open e i n)
    (hpc : (e.state n).requests[i]? = some pc) (hs : (e.state n).goOn i ans pc = some (t, evs)) (ht : t = e.state (n + 1))
    (hes : answersTo (e.history (n + 1)) i = (responses evs).map Prod.snd) :
    ∃ pc', t.requests[i]? = some pc' ∧ Progress e i (n + 1) pc' := by
  have hlt : i < (e.state n).requests.length := (List.getElem?_eq_some_iff.mp hpc).1
  cases pc with
  | listLookup =>
    obtain ⟨rfl, -⟩ := Prod.mk.inj (Option.some.inj hs)
    exact ⟨_, List.getElem?_set_self hlt, n, [], [], rfl, .start hi, rfl⟩
  | listParticipants listed rest =>
    obtain ⟨n₀, ms, reads, hms, hread, hlisted⟩ := h
    cases rest with
    | nil =>
      obtain ⟨rfl, rfl⟩ := Prod.mk.inj (Option.some.inj hs)
      refine ⟨.done, List.getElem?_set_self hlt, fun response hr => ?_⟩
      rw [hes] at hr
      obtain rfl := List.mem_singleton.mp hr
      rw [List.append_nil] at hms
      exact ⟨n₀, reads, hms ▸ hread.later (Nat.le_add_right n 1), by rw [hlisted]⟩
    | cons m rest =>
      obtain ⟨meeting, hm, hs⟩ := Option.bind_eq_some_iff.mp hs
      obtain ⟨rfl, -⟩ := Prod.mk.inj (Option.some.inj hs)
      refine ⟨_, List.getElem?_set_self hlt, n₀, ms ++ [m], reads ++ [(n, meeting)], ?_, hread.snoc hi hm, ?_⟩
      · rw [hms, List.append_assoc]
        rfl
      · rw [hlisted, List.map_append]
        rfl
  | done => cases hs
  | _ => exact h.elim

/-! ### Executions -/

theorem received_not_mem_go {j : Nat} {req : Request} (ans : Answer) (evs : List ServerEvent) :
    .received i req ∉ s.account t (.go j ans) evs := by
  intro hreq
  rcases List.mem_append.mp hreq with hreq | hreq
  · cases hpc : s.requests[j]? with
    | none => simp [hpc] at hreq
    | some pc =>
      rw [hpc] at hreq
      rcases mem_erases hreq with ⟨_, heq⟩ | ⟨_, _, _, heq⟩ <;> cases heq
  · obtain ⟨_, -, hev⟩ := List.mem_map.mp hreq
    cases hev

/-- A section of the listing's own handler. -/
theorem progress_goOn {ans : Answer} (hreq : .received i .listAudioMeets ∈ e.history n)
    (hpc : (e.state n).requests[i]? = some pc) (hprog : Progress e i n pc)
    (hs : (process base count).step (e.state n) (.request (.go i ans)) = some (e.state (n + 1), e.events n)) :
    ∃ pc', (e.state (n + 1)).requests[i]? = some pc' ∧ Progress e i (n + 1) pc' := by
  obtain ⟨⟨t, evs⟩, hstep, heq⟩ := Option.map_eq_some_iff.mp hs
  obtain ⟨rfl, hes⟩ := Prod.mk.inj heq
  obtain ⟨old, hold, hgo⟩ := go_goes hstep
  obtain rfl := Option.some.inj (hpc.symm.trans hold)
  have hdone : pc.isDone = false := by
    cases pc with
    | done => cases hgo
    | _ => rfl
  have honce := run_answeredOnce (Execution.run e.obeys_any n) i
  rw [AnsweredOnce, hpc] at honce
  have hnone : answersTo (e.history n) i = [] := (honce.resolve_left fun h => by rw [hdone] at h; cases h.1).2
  refine hprog.goOn ⟨hreq, hnone⟩ hpc hgo rfl ?_
  have hrs : ∃ rs : List Response, responses evs = rs.map (Prod.mk i) := by
    obtain ⟨-, -, hrs⟩ | ⟨_, rs, -, -, hrs, -⟩ := goOn_advances hgo
    · exact ⟨[], hrs⟩
    · exact ⟨rs, hrs⟩
  obtain ⟨rs, hrs⟩ := hrs
  rw [e.history_succ, answersTo_append, hnone, ← hes, answersTo_account hrs, if_pos rfl, hrs, List.map_map]
  exact (List.map_id rs).symm

/-- A request for the listing comes to its handler. -/
theorem received_at (hs : (process base count).step s a = some (t, es)) (hreq : .received i .listAudioMeets ∈ es) :
    t.requests[i]? = some .listLookup := by
  cases process_does hs with
  | @request a t evs hstep =>
    obtain ⟨-, ⟨req, rfl, hreceive⟩ | ⟨j, ans, pc, rfl, hpc, -⟩⟩ := receives_or_goes hstep
    · rcases List.mem_cons.mp hreq with heq | hreq
      · obtain ⟨rfl, rfl⟩ := Account.received.inj heq
        obtain ⟨rfl, -⟩ := Prod.mk.inj hreceive
        exact List.getElem?_concat_length
      · obtain ⟨_, -, hev⟩ := List.mem_map.mp hreq
        cases hev
    · exact absurd hreq (received_not_mem_go ans evs)
  | destruct _ _ _ _ => cases List.mem_singleton.mp hreq

/-- A listing is always somewhere in its handler. -/
theorem progress (hreq : .received i .listAudioMeets ∈ e.history n) :
    ∃ pc, (e.state n).requests[i]? = some pc ∧ Progress e i n pc := by
  induction n with
  | zero => cases hreq
  | succ n ih =>
    rw [e.history_succ] at hreq
    cases hact : e.act n with
    | none =>
      obtain ⟨hstate, hevents⟩ := e.idle n hact
      rw [hevents, List.append_nil] at hreq
      obtain ⟨pc, hpc, hprog⟩ := ih hreq
      rw [hstate]
      exact ⟨pc, hpc, hprog.later (Nat.le_add_right n 1) (by rw [e.history_succ, hevents, List.append_nil])⟩
    | some a =>
      have hs := e.step n a hact
      rcases List.mem_append.mp hreq with hreq | hreq
      · obtain ⟨pc, hpc, hprog⟩ := ih hreq
        obtain ⟨hsame, hnone, -⟩ | ⟨ans, pc', -, rfl, hpc', -⟩ | ⟨hnone, -⟩ := step_answers hs i
        · refine ⟨pc, hsame.trans hpc, hprog.later (Nat.le_add_right n 1) ?_⟩
          rw [e.history_succ, answersTo_append, hnone, List.append_nil]
        · exact progress_goOn hreq hpc hprog hs
        · rw [hpc] at hnone
          cases hnone
      · exact ⟨.listLookup, received_at hs hreq, trivial⟩

/-- The answer to a listing shows the meetings that were registered at one time, each of them as it was at a time of
    its own after that, and all of these times lie between the request and the answer. -/
theorem listing_is_read_in_order (e : (process base count).Execution) (hreq : .received i .listAudioMeets ∈ e.history n)
    (hr : .event (.responded i response) ∈ e.history n) :
    ∃ n₀ reads, Read e i n n₀ (e.state n₀).list_meetings reads ∧
      response = respond (body 0 "success" (.array (reads.map fun r => meetingJson r.2))) := by
  obtain ⟨pc, hpc, hprog⟩ := progress hreq
  have honce := run_answeredOnce (Execution.run e.obeys_any n) i
  rw [AnsweredOnce, hpc] at honce
  have hmem := mem_answersTo.mpr hr
  obtain ⟨hdone, -⟩ | ⟨-, hnone⟩ := honce
  · cases pc with
    | done => exact hprog response hmem
    | _ => cases hdone
  · rw [hnone] at hmem
    cases hmem

/-- A participant joins while the meetings are listed: after the registry was read, before its meeting is. -/
def joinsListed : List ProcessAct :=
  [.request (.receive .createAudioMeet), .request (.go 0 {}), .request (.receive .listAudioMeets), .request (.go 1 {}),
    .request (.receive (.addAudioMeetPart { meetId := some (hexId 0), partId := some (ascii "late") })),
    .request (.go 2 {}), .request (.go 2 {}), .request (.go 2 {}), .request (.go 1 {}), .request (.go 1 {})]

theorem listing_is_read_in_order_joins : ∃ (e : (process 20000 2).Execution) (n : Nat) (response : Response),
    .received 1 .listAudioMeets ∈ e.history n ∧ .event (.responded 1 response) ∈ e.history n ∧
      ∃ n₀ reads, Read e 1 n n₀ (e.state n₀).list_meetings reads ∧
        response = respond (body 0 "success" (.array (reads.map fun r => meetingJson r.2))) := by
  obtain ⟨⟨t, tr⟩, hexec, hp⟩ := (Option.any_eq_true
    (fun r => asked r.2 (fun req => decide (req.endpoint = .listAudioMeets)) 1 && decide (1 ∈ answered r.2))
    ((process 20000 2).exec { listen_ip_ := [], port_allocator_ := .new 20000 2 } joinsListed)).mp (by decide +kernel)
  simp only [Bool.and_eq_true, decide_eq_true_eq] at hp
  obtain ⟨e, -, -, -, hhistory⟩ :=
    Execution.exists_execution (process 20000 2) joinsListed ⟨[], rfl⟩ (meets_any _ _ _) hexec
  obtain ⟨req, hreq, hlist⟩ := asked_iff.mp hp.1
  obtain ⟨response, hr⟩ := mem_answered.mp hp.2
  have hlisting : req = .listAudioMeets := by
    cases req with
    | listAudioMeets => rfl
    | _ => cases of_decide_eq_true hlist
  rw [hlisting, ← hhistory] at hreq
  rw [← hhistory] at hr
  exact ⟨e, _, response, hreq, hr, listing_is_read_in_order e hreq hr⟩

end Listings
end AudioMeet.Server
