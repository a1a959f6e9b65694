import AudioMeet.Pjmedia
import AudioMeet.Theorems.Process.Creates

/-! Half-built meetings. `create_meeting` registers a meeting whose constructor failed like any other; while every
    constructor succeeds, no request that comes after the others passes a null pool or bridge. -/

namespace AudioMeet.Server
open Lib Machine

/-- The calls of the constructor of a meeting succeed. -/
def Built (s : Server) : ServerAct → Prop
  | .receive _ => True
  | .go i ans =>
    match s.requests[i]? with
    | some .create => ans.pool = true ∧ ans.conf = true ∧ ans.clock = true
    | _ => True

instance (s : Server) : DecidablePred (Built s)
  | .receive _ => .isTrue trivial
  | .go i ans => by
    unfold Built
    dsimp only
    generalize s.requests[i]? = req
    rcases req with _ | pc
    · infer_instance
    · rcases pc <;> infer_instance

/-- A request is received when the others are done. -/
def OneByOne (s : Server) : ServerAct → Prop
  | .receive _ => ∀ pc ∈ s.requests, pc = .done
  | .go _ _ => True

instance (s : Server) : DecidablePred (OneByOne s)
  | .receive _ => decidable_of_iff (∀ pc ∈ s.requests, pc.isDone = true) (by simp only [ReqPc.isDone_iff, OneByOne])
  | .go _ _ => .isTrue trivial

/-- The `stop` of the meeting at `m` has begun. -/
def Stopping (s : Server) (m : Nat) : Prop := ∃ (i : Nat) (ports : List UInt16), s.requests[i]? = some (.destroySection m ports)

/-- Until its `stop` begins, a meeting has its pool, its bridge and its clock; until it ends, the first two. -/
def Usable (s : Server) (m : Nat) (x : Meeting) : Prop :=
  x.stopped = false → x.pool_ = true ∧ x.conf_ = true ∧ (x.clock_ = true ∨ Stopping s m)

def AllUsable (s : Server) : Prop := ∀ (m : Nat) (x : Meeting), s.objects[m]? = some x → Usable s m x

section Steps
variable {s t : Server} {base count : UInt16} {tr : List Account} {i m : Nat} {x x' : Meeting}

/-! ### Every constructor succeeds -/

theorem stopping_of_set {pc pc' : ReqPc} (hpc : s.requests[i]? = some pc) (ht : t.requests = s.requests.set i pc')
    (hne : ∀ ports, pc ≠ .destroySection m ports) (h : Stopping s m) : Stopping t m := by
  obtain ⟨j, ports, hj⟩ := h
  refine ⟨j, ports, (goes_set hpc ht j _).mpr (Or.inr ⟨?_, hj⟩)⟩
  rintro rfl
  exact hne ports (Option.some.inj (hpc.symm.trans hj))

theorem Usable.imp (h : Usable s m x) (hstop : Stopping s m → Stopping t m) : Usable t m x := by
  intro hlive
  obtain ⟨hpool, hconf, hclock⟩ := h hlive
  exact ⟨hpool, hconf, hclock.imp_right hstop⟩

theorem AllUsable.same (h : AllUsable s) (hobj : t.objects = s.objects)
    (hstop : ∀ m, Stopping s m → Stopping t m) : AllUsable t :=
  fun m x hx => (h m x (hobj ▸ hx)).imp (hstop m)

/-- A step that changes one meeting, which stays usable. -/
theorem AllUsable.set (h : AllUsable s) (hm : s.objects[m]? = some x) (hobj : t.objects = s.objects.set m x')
    (hstop : ∀ k, k ≠ m → Stopping s k → Stopping t k) (hx' : Usable t m x') : AllUsable t := by
  intro k y hk
  rw [hobj] at hk
  rcases (getElem?_set_some hm).mp hk with ⟨rfl, rfl⟩ | ⟨hne, hk⟩
  · exact hx'
  · exact (h k y hk).imp (hstop k hne)

theorem AllUsable.step (h : AllUsable s) {a : ServerAct} {es : List ServerEvent} (hd : Does s a t es)
    (hok : Built s a) : AllUsable t := by
  cases hd with
  | received _ _ =>
    refine h.same rfl fun m hm => ?_
    obtain ⟨j, ports, hj⟩ := hm
    exact ⟨j, ports, getElem?_snoc_some.mpr (Or.inr hj)⟩
  | @created i ans _ hpc _ =>
    simp only [Built, hpc] at hok
    obtain ⟨hpool, hconf, hclock⟩ := hok
    intro m x hx
    rcases getElem?_snoc_some.mp hx with ⟨-, rfl⟩ | hx
    · intro _
      simp [Meeting.new, hpool, hconf, hclock]
    · exact (h m x hx).imp (stopping_of_set hpc rfl (by simp))
  | moved hpc hq _ _ =>
    refine h.same rfl fun m => stopping_of_set hpc rfl ?_
    rintro ports rfl
    cases hq.collected
  | allocated hpc _ => exact h.same rfl fun m => stopping_of_set hpc rfl (by simp)
  | crashed _ _ _ => exact h.same rfl fun m hm => hm
  | refused hpc _ _ => exact h.same rfl fun m => stopping_of_set hpc rfl (by simp)
  | @added _ _ m x x' _ _ _ _ hpc hm hadd _ =>
    rw [addTo_eq] at hadd
    obtain ⟨slot, -, hjoin, -⟩ := Meeting.add_joins hadd
    refine h.set hm rfl (fun k _ => stopping_of_set hpc rfl (by simp)) ?_
    rw [hjoin.eq]
    exact (h m x hm).imp (stopping_of_set hpc rfl (by simp))
  | addReleased hpc _ _ => exact h.same rfl fun m => stopping_of_set hpc rfl (by simp)
  | unregistered hpc _ => exact h.same rfl fun m => stopping_of_set hpc rfl (by simp)
  | collected hpc _ => exact h.same rfl fun m => stopping_of_set hpc rfl (by simp)
  | @clockStopped i _ m x ports hpc hm =>
    refine h.set hm rfl (fun k _ => stopping_of_set hpc rfl (by simp)) fun hlive => ?_
    obtain ⟨h1, h2, -⟩ := h m x hm hlive
    exact ⟨h1, h2, Or.inr ⟨i, ports, List.getElem?_set_self (List.getElem?_eq_some_iff.mp hpc).1⟩⟩
  | stopped hpc hm =>
    refine h.set hm rfl (fun k hne => stopping_of_set hpc rfl ?_) fun hlive => Bool.noConfusion hlive
    intro ports heq
    injection heq with heq
    exact hne heq.symm
  | destroyReleased hpc => exact h.same rfl fun m => stopping_of_set hpc rfl (by simp)
  | destroyed hpc _ => exact h.same rfl fun m => stopping_of_set hpc rfl (by simp)
  | @removed _ _ m x _ _ _ _ _ hpc hm _ hpc' _ =>
    refine h.set hm rfl (fun k _ => stopping_of_set hpc rfl (by simp)) ?_
    exact (h m x hm).imp (stopping_of_set hpc rfl (by simp))
  | deleteReleased hpc _ => exact h.same rfl fun m => stopping_of_set hpc rfl (by simp)

theorem allUsable_of_run (h : (process base count).Run (OfRequests Built) tr s) : AllUsable s := by
  refine h.invariant (I := fun _ s => AllUsable s) (fun s hs => ?_) fun tr s a t es hinv hok hs => ?_
  · obtain ⟨listen_ip, rfl⟩ := hs
    simp [AllUsable]
  · cases process_does hs with
    | request hstep => exact hinv.step (step_does hstep).2 hok
    | destruct hm _ _ _ => exact hinv.set hm rfl (fun _ _ hk => hk) fun hlive => Bool.noConfusion hlive

/-- A registered meeting is usable. -/
theorem usable_of_registered (h : (process base count).Run (OfRequests Built) tr s) {meet_id : Bytes}
    (hm : s.meetings_[meet_id]? = some m) :
    ∃ x, s.objects[m]? = some x ∧ x.pool_ = true ∧ x.conf_ = true ∧ x.clock_ = true := by
  obtain ⟨x, hx, -, hwhole⟩ := (run_registryInv h).keyed meet_id m hm
  obtain ⟨hpool, hconf, -⟩ := allUsable_of_run h m x hx hwhole.live
  exact ⟨x, hx, hpool, hconf, hwhole.clock.trans hpool⟩

/-! ### Requests that come one after the other -/

/-- A step leaves a request with meetings that it held before, or that are registered. -/
def Fetches (s : Server) (i : Nat) (pc : ReqPc) (t : Server) : Prop :=
  ∃ pc', t.requests = s.requests.set i pc' ∧
    ∀ m ∈ pc'.meetings, m ∈ pc.meetings ∨ ∃ meet_id : Bytes, s.meetings_[meet_id]? = some m

section Fetch
variable {pc pc' : ReqPc} {ans : Answer} {es : List ServerEvent} {u : Server}

theorem Section.fetches {turn : Turn} (h : s.Section i ans pc u es turn) :
    turn.All (fun pc' => ∀ m ∈ pc'.meetings, m ∈ pc.meetings ∨ ∃ meet_id : Bytes, s.meetings_[meet_id]? = some m)
      fun _ => True := by
  cases h with
  | addFound hm | unregistered hm | deleteFound hm | deleteAgainFound hm | muteFound hm =>
    exact fun k hk => Or.inr ⟨_, List.mem_singleton.mp hk ▸ hm⟩
  | listLooked => exact fun m hm => Or.inr (mem_list_meetings.mp hm)
  | listed _ => exact fun k hk => Or.inl (List.mem_cons_of_mem _ hk)
  | allocated _ | refused _ _ | splitFailed _ | collected _ | clockStopped _ => exact fun k hk => Or.inl hk
  | stopped _ | portReleased | deleteChecked _ _ | removed _ _ _ => exact fun k hk => absurd hk List.not_mem_nil
  | _ => trivial

theorem goOn_fetches (hpc : s.requests[i]? = some pc) (hs : s.goOn i ans pc = some (t, es)) : Fetches s i pc t := by
  obtain ⟨-, ht, -⟩ | ⟨pc', hfetch, ht, -⟩ | ⟨_, -, ht, -⟩ := (goOn_took hs).leaves fun _ _ _ hsection => hsection.fetches
  · obtain ⟨hi, heq⟩ := List.getElem?_eq_some_iff.mp hpc
    exact ⟨pc, by rw [ht, ← heq, List.set_getElem_self], fun m hm => Or.inl hm⟩
  · exact ⟨pc', ht, hfetch⟩
  · exact ⟨.done, ht, fun m hm => absurd hm List.not_mem_nil⟩

end Fetch

/-- A new request holds no meeting. -/
theorem Enters.meetings {req : Request} {pc : ReqPc} (h : Enters req pc) : pc.meetings = [] := by
  cases h <;> rfl

/-- The meeting at `m` was made, and its `stop` has not ended. -/
def Live (s : Server) (m : Nat) : Prop := ∃ x, s.objects[m]? = some x ∧ x.stopped = false

theorem live_of_objects (h : t.objects = s.objects) (hm : Live s m) : Live t m := by
  rwa [Live, h]

theorem live_set {k : Nat} (hk : s.objects[k]? = some x) (ht : t.objects = s.objects.set k x')
    (hx : m = k → x.stopped = false → x'.stopped = false) (hm : Live s m) : Live t m := by
  obtain ⟨y, hy, hlive⟩ := hm
  rw [Live, ht]
  by_cases hmk : m = k
  · subst hmk
    obtain rfl := Option.some.inj (hy.symm.trans hk)
    exact ⟨x', (getElem?_set_some hk).mpr (Or.inl ⟨rfl, rfl⟩), hx rfl hlive⟩
  · exact ⟨y, (getElem?_set_some hk).mpr (Or.inr ⟨hmk, hy⟩), hlive⟩

/-- Only the end of its `stop` ends a meeting. -/
theorem Does.live {a : ServerAct} {es : List ServerEvent} (hd : Does s a t es) (hm : Live s m) :
    Live t m ∨ ∃ i ans ports, a = .go i ans ∧ s.requests[i]? = some (.destroySection m ports) ∧
      t.requests = s.requests.set i (.destroyRelease ports) := by
  cases hd with
  | created _ _ =>
    obtain ⟨x, hx, hlive⟩ := hm
    exact Or.inl ⟨x, getElem?_snoc_some.mpr (Or.inr hx), hlive⟩
  | added _ hk hadd _ =>
    rw [addTo_eq] at hadd
    obtain ⟨slot, -, hjoin, -⟩ := Meeting.add_joins hadd
    refine Or.inl (live_set hk rfl (fun _ hlive => ?_) hm)
    rw [hjoin.eq]
    exact hlive
  | clockStopped _ hk => exact Or.inl (live_set hk rfl (fun _ hlive => hlive) hm)
  | @stopped i ans k x ports hpc hk =>
    by_cases hmk : m = k
    · subst hmk
      exact Or.inr ⟨i, ans, ports, rfl, hpc, rfl⟩
    · exact Or.inl (live_set hk rfl (fun heq => absurd heq hmk) hm)
  | removed _ hk _ _ _ => exact Or.inl (live_set hk rfl (fun _ hlive => hlive) hm)
  | _ => exact Or.inl (live_of_objects rfl hm)

/-- At most one request is not done, and the meetings that it holds are not stopped. -/
structure OneInv (s : Server) : Prop where
  alone : ∀ (i j : Nat) (pc pc' : ReqPc), s.requests[i]? = some pc → s.requests[j]? = some pc' → pc ≠ .done →
    pc' ≠ .done → i = j
  held : ∀ (i : Nat) (pc : ReqPc) (m : Nat), s.requests[i]? = some pc → m ∈ pc.meetings → Live s m

theorem OneInv.receive (h : OneInv s) {req : Request} {es : List ServerEvent} (hidle : ∀ pc ∈ s.requests, pc = .done)
    (hs : s.receive req = (t, es)) : OneInv t := by
  have hnew : ∃ pc, t.requests = s.requests ++ [pc] ∧ pc.meetings = [] ∧ t.objects = s.objects := by
    obtain ⟨pc, henters, rfl, -⟩ | ⟨_, -, rfl, -⟩ := receive_cases hs
    · exact ⟨pc, rfl, henters.meetings, rfl⟩
    · exact ⟨.done, rfl, rfl, rfl⟩
  obtain ⟨new, hreq, hnone, hobj⟩ := hnew
  have hlast : ∀ (j : Nat) (pc : ReqPc), t.requests[j]? = some pc → pc ≠ .done → j = s.requests.length := by
    intro j pc hpc hne
    rw [hreq] at hpc
    rcases getElem?_snoc_some.mp hpc with ⟨rfl, -⟩ | hpc
    · rfl
    · exact absurd (hidle pc (List.mem_of_getElem? hpc)) hne
  refine ⟨fun i j pc pc' hi hj hne hne' => (hlast i pc hi hne).trans (hlast j pc' hj hne').symm, fun j pc m hpc hm => ?_⟩
  rw [hreq] at hpc
  rcases getElem?_snoc_some.mp hpc with ⟨-, rfl⟩ | hpc
  · rw [hnone] at hm
    cases hm
  · exact live_of_objects hobj (h.held j pc m hpc hm)

theorem OneInv.go (h : OneInv s) (hreg : RegistryInv s) {ans : Answer} {es : List ServerEvent}
    (hs : s.step (.go i ans) = some (t, es)) : OneInv t := by
  have hd := (step_does hs).2
  obtain ⟨pc, hpc, hs⟩ := go_goes hs
  obtain ⟨pc', hreq, hfetch⟩ := goOn_fetches hpc hs
  have hbusy : pc ≠ .done := by
    rintro rfl
    cases hs
  have hother : ∀ (j : Nat) (x : ReqPc), j ≠ i → t.requests[j]? = some x → x = .done := by
    intro j x hj hx
    rcases (goes_set hpc hreq j x).mp hx with ⟨rfl, -⟩ | ⟨-, hx⟩
    · exact absurd rfl hj
    · by_contra hne
      exact hj (h.alone j i x pc hx hpc hne hbusy)
  constructor
  · intro j k x y hx hy hne hne'
    by_contra hjk
    by_cases hj : j = i
    · exact hne' (hother k y (fun hk => hjk (hj.trans hk.symm)) hy)
    · exact hne (hother j x hj hx)
  · intro j x m hx hm
    by_cases hj : j = i
    · subst hj
      have hlive : Live s m := by
        rcases (goes_set hpc hreq j x).mp hx with ⟨-, rfl⟩ | ⟨hne, -⟩
        · rcases hfetch m hm with hold | ⟨meet_id, hnew⟩
          · exact h.held j pc m hpc hold
          · obtain ⟨meeting, hobj, -, hwhole⟩ := hreg.keyed meet_id m hnew
            exact ⟨meeting, hobj, hwhole.live⟩
        · exact absurd rfl hne
      rcases hd.live hlive with hlive' | ⟨k, _, ports, hk, hsec, hset⟩
      · exact hlive'
      · injection hk with hk
        subst hk
        rw [hset, List.getElem?_set_self (List.getElem?_eq_some_iff.mp hpc).1] at hx
        obtain rfl := Option.some.inj hx
        cases hm
    · rw [hother j x hj hx] at hm
      cases hm

theorem OneInv.destructs (h : OneInv s) (hx : s.objects[m]? = some x) (hreq : ∀ pc ∈ s.requests, m ∉ pc.meetings) :
    OneInv { s with objects := s.objects.set m x.stopClock.stopSection } := by
  refine ⟨h.alone, fun i pc k hpc hk => live_set hx rfl (fun heq => ?_) (h.held i pc k hpc hk)⟩
  subst heq
  exact absurd hk (hreq pc (List.mem_of_getElem? hpc))

/-- The requests come one after the other, and every constructor succeeds. -/
def Ordered (s : Server) (a : ServerAct) : Prop := Built s a ∧ OneByOne s a

instance (s : Server) : DecidablePred (Ordered s) := fun a => inferInstanceAs (Decidable (Built s a ∧ OneByOne s a))

theorem built_of_ordered (h : (process base count).Run (OfRequests Ordered) tr s) :
    (process base count).Run (OfRequests Built) tr s := by
  refine h.mono fun s a hok => ?_
  cases a with
  | request a => exact hok.1
  | destruct m => exact hok

theorem oneInv_of_run (h : (process base count).Run (OfRequests Ordered) tr s) : OneInv s := by
  have hboth : OneInv s ∧ RegistryInv s := by
    refine h.invariant (I := fun _ s => OneInv s ∧ RegistryInv s) (fun s hs => ?_) fun tr s a t es hinv hok hs => ?_
    · obtain ⟨listen_ip, rfl⟩ := hs
      exact ⟨⟨by simp, by simp⟩, ⟨by simp, by simp⟩⟩
    · obtain ⟨hone, hreg⟩ := hinv
      cases process_does hs with
      | @request a _ _ hstep =>
        refine ⟨?_, hreg.step (step_does hstep).2⟩
        obtain ⟨-, ⟨req, rfl, hreceive⟩ | ⟨i, ans, pc, rfl, -, -⟩⟩ := receives_or_goes hstep
        · exact hone.receive hok.2 hreceive
        · exact hone.go hreg hstep
      | destruct hm _ hkey hreq =>
        refine ⟨hone.destructs hm hreq, hreg.same rfl (stay_set hm rfl rfl ?_) List.length_set ?_⟩
        · rintro ⟨meet_id, hid⟩
          exact absurd hid (hkey meet_id)
        · exact fun j pc m hpc hd => ⟨j, pc, hpc, hd⟩
  exact hboth.1

/-! ### The calls of a meeting that has its pool and its bridge -/

section Calls
variable (hpool : x.pool_ = true) (hconf : x.conf_ = true)
include hpool hconf

theorem addCalls_noNull (part : NewPart) (port : Nat) (ans : AddAnswer) :
    ∀ c ∈ x.addCalls (addTo x part port ans), c.NoNull := by
  rw [addTo_eq]
  have hcall : ∀ call ∈ (x.add (part.participant x.meet_id_ (UInt16.ofNat port)) ans).2,
      call = .start ∨ call = .createMediaPort true ∨ call = .confAddPort true := fun call hcall => by
    have h := Meeting.mem_add_calls hcall
    rwa [hpool, hconf] at h
  generalize x.add (part.participant x.meet_id_ (UInt16.ofNat port)) ans = r at hcall
  obtain ⟨result, calls⟩ := r
  intro c hc
  rcases List.mem_append.mp hc with hc | hc
  · obtain ⟨call, hmem, hc⟩ := List.mem_flatMap.mp hc
    rcases hcall call hmem with rfl | rfl | rfl
    · cases hc
    · exact List.mem_singleton.mp hc ▸ rfl
    · exact List.mem_singleton.mp hc ▸ ⟨rfl, hpool⟩
  · cases result with
    | crashed => cases hc
    | nullptr => cases hc
    | added meeting =>
      obtain ⟨entry, -, hc⟩ := List.mem_flatMap.mp hc
      simp only [List.mem_cons, List.not_mem_nil, or_false, or_self] at hc
      exact hc ▸ hconf

theorem stopCalls_noNull : ∀ c ∈ x.stopCalls, c.NoNull := by
  intro c hc
  simp only [Meeting.stopCalls, hpool, hconf, if_true, List.mem_append, List.mem_map, List.mem_singleton] at hc
  rcases hc with (⟨entry, -, rfl⟩ | rfl) | rfl <;> rfl

end Calls

theorem clockCalls_noNull (x : Meeting) : ∀ c ∈ x.clockCalls, c.NoNull := by
  intro c hc
  unfold Meeting.clockCalls at hc
  split at hc
  · rename_i hclock
    simp only [List.mem_cons, List.not_mem_nil, or_false] at hc
    rcases hc with rfl | rfl <;> exact hclock
  · cases hc

/-- The calls of a request on a meeting that it holds, and that is not stopped. -/
theorem sectionCalls_noNull (husable : AllUsable s) {pc : ReqPc} (hlive : ∀ m ∈ pc.meetings, Live s m) (ans : Answer) :
    ∀ c ∈ s.sectionCalls ans pc, c.NoNull := by
  have hobject : ∀ m ∈ pc.meetings, ∃ x, s.objects[m]? = some x ∧ x.pool_ = true ∧ x.conf_ = true := by
    intro m hm
    obtain ⟨x, hx, hnot⟩ := hlive m hm
    obtain ⟨hpool, hconf, -⟩ := husable m x hx hnot
    exact ⟨x, hx, hpool, hconf⟩
  have hone : ∀ {test : Bool} (call : PjCall) {c : PjCall}, call.NoNull → (c ∈ if test = true then [call] else []) →
      c.NoNull := by
    intro test call c hcall hc
    split at hc
    · exact List.mem_singleton.mp hc ▸ hcall
    · cases hc
  intro c hc
  cases pc with
  | addSection m part port =>
    obtain ⟨x, hx, hpool, hconf⟩ := hobject m (List.mem_singleton_self m)
    simp only [sectionCalls, hx, Option.map_some, Option.getD_some] at hc
    exact addCalls_noNull hpool hconf part port ans.add c hc
  | muteSection m part_id mute =>
    obtain ⟨x, hx, -, hconf⟩ := hobject m (List.mem_singleton_self m)
    simp only [sectionCalls, hx, Option.map_some, Option.getD_some] at hc
    exact hone (.pjmedia_conf_adjust_rx_level x.conf_) hconf hc
  | deleteSection m part_id =>
    obtain ⟨x, hx, -, hconf⟩ := hobject m (List.mem_singleton_self m)
    simp only [sectionCalls, hx, Option.map_some, Option.getD_some] at hc
    exact hone (.pjmedia_conf_remove_port x.conf_) hconf hc
  | destroyClock m ports =>
    obtain ⟨x, hx, -, -⟩ := hobject m (List.mem_singleton_self m)
    simp only [sectionCalls, hx, Option.map_some, Option.getD_some] at hc
    exact clockCalls_noNull x c hc
  | destroySection m ports =>
    obtain ⟨x, hx, hpool, hconf⟩ := hobject m (List.mem_singleton_self m)
    simp only [sectionCalls, hx, Option.map_some, Option.getD_some] at hc
    exact stopCalls_noNull hpool hconf c hc
  | _ => cases hc

theorem pjCalls_noNull (h : (process base count).Run (OfRequests Ordered) tr s) {a : ProcessAct} {es : List Account}
    (hs : (process base count).step s a = some (t, es)) : ∀ c ∈ s.pjCalls a, c.NoNull := by
  have husable := allUsable_of_run (built_of_ordered h)
  intro c hc
  cases process_does hs with
  | @request a _ _ hstep =>
    cases a with
    | receive req => cases hc
    | go i ans =>
      simp only [pjCalls] at hc
      cases hpc : s.requests[i]? with
      | none =>
        rw [hpc] at hc
        cases hc
      | some pc =>
        rw [hpc] at hc
        exact sectionCalls_noNull husable (fun m hm => (oneInv_of_run h).held i pc m hpc hm) ans c hc
  | @destruct m x hx hlive _ _ =>
    simp only [pjCalls, hx, Option.map_some, Option.getD_some] at hc
    obtain ⟨hpool, hconf, -⟩ := husable m x hx hlive
    rcases List.mem_append.mp hc with hc | hc
    · exact clockCalls_noNull x c hc
    · exact stopCalls_noNull hpool hconf c hc

/-- No null pointer is followed. -/
theorem not_crashed (h : (process base count).Run (OfRequests Ordered) tr s) : s.crashed = false := by
  induction h with
  | init hs =>
    obtain ⟨listen_ip, rfl⟩ := hs
    rfl
  | @step tr es s t a hrun hok hs ih =>
    cases process_does hs with
    | destruct _ _ _ _ => exact ih
    | request hstep =>
      cases (step_does hstep).2 with
      | @crashed i ans m x part port calls hpc hx hadd =>
        rw [addTo_eq] at hadd
        obtain ⟨y, hy, hlive⟩ := (oneInv_of_run hrun).held i _ m hpc (List.mem_singleton_self m)
        obtain rfl := Option.some.inj (hy.symm.trans hx)
        obtain ⟨hpool, hconf, -⟩ := allUsable_of_run (built_of_ordered hrun) m y hy hlive
        obtain ⟨-, -, hnull⟩ := Meeting.add_crashed hadd
        rw [hpool, hconf] at hnull
        simp at hnull
      | _ => exact ih

/-- While every constructor succeeds, every meeting is usable until its `stop`, `create_meeting` reports usable
    meetings, and no request that comes after the others passes or follows a null pointer. -/
theorem half_built_never_served (h : (process base count).Run (OfRequests Built) tr s) :
    AllUsable s ∧
    (∀ (meet_id : Bytes) (m : Nat), s.meetings_[meet_id]? = some m →
      ∃ x, s.objects[m]? = some x ∧ x.pool_ = true ∧ x.conf_ = true ∧ x.clock_ = true) ∧
    (∀ i ans t es, s.requests[i]? = some .create → Built s (.go i ans) →
      (process base count).step s (.request (.go i ans)) = some (t, es) →
      ∃ m x, t.meetings_[hexId ans.random]? = some m ∧ t.objects[m]? = some x ∧
        x.pool_ = true ∧ x.conf_ = true ∧ x.clock_ = true) ∧
    ∀ tr', (process base count).Run (OfRequests Ordered) tr' s → s.crashed = false ∧
      ∀ a t es, (process base count).step s a = some (t, es) → ∀ c ∈ s.pjCalls a, c.NoNull := by
  refine ⟨allUsable_of_run h, fun meet_id m => usable_of_registered h, fun i ans t es hpc hok hs => ?_,
    fun tr' hordered => ⟨not_crashed hordered, fun a t es => pjCalls_noNull hordered⟩⟩
  have hc : s.crashed = false := by
    obtain ⟨r, hstep, -⟩ := Option.map_eq_some_iff.mp hs
    exact (step_does hstep).1
  have hm : t.meetings_[hexId ans.random]? = some s.objects.length := by
    obtain ⟨rfl, -⟩ := Prod.mk.inj (Option.some.inj ((create_step hc hpc).symm.trans hs))
    exact getElem?_insert_some.mpr (Or.inl ⟨rfl, rfl⟩)
  obtain ⟨x, hx, hall⟩ := usable_of_registered (h.step (a := .request (.go i ans)) hok hs) hm
  exact ⟨s.objects.length, x, hm, hx, hall⟩

end Steps

/-- A meeting whose constructor gets the answer `pool`, a participant, and an add that has come to its section. -/
def joining (pool : Bool) : List ProcessAct :=
  (request 0 .createAudioMeet 1 { random := 1, pool := pool } ++
  request 1 (.addAudioMeetPart { meetId := some (hexId 1), partId := some (ascii "a") }) 2).map .request

/-- The calls that the add is about to make. -/
def joiningCalls (pool : Bool) : List PjCall :=
  if pool then [.pj_pool_zalloc true, .pjmedia_conf_add_port true true] else [.pj_pool_zalloc false]

theorem exists_joining (ok : Server → ServerAct → Prop) [∀ s, DecidablePred (ok s)] (pool : Bool)
    (hok : (process 10000 4).checks (OfRequests ok) { listen_ip_ := [], port_allocator_ := .new 10000 4 }
      (joining pool) = true) : ∃ tr s, (process 10000 4).Run (OfRequests ok) tr s ∧
      s.meetings_[hexId 1]? = some 0 ∧ (s.objects[0]?.map (·.pool_)) = some pool ∧
      s.pjCalls (.request (.go 1 {})) = joiningCalls pool ∧
      ((process 10000 4).step s (.request (.go 1 {}))).isSome = true := by
  have hinit : (process 10000 4).init { listen_ip_ := [], port_allocator_ := .new 10000 4 } := ⟨[], rfl⟩
  obtain ⟨tr, s, hrun, hs⟩ := exists_run (process 10000 4) _ (joining pool) hinit (meets_of_checks hok)
    (fun r => r.1.meetings_[hexId 1]? == some 0 && ((r.1.objects[0]?.map (·.pool_)) == some pool &&
      (decide (r.1.pjCalls (.request (.go 1 {})) = joiningCalls pool) &&
      ((process 10000 4).step r.1 (.request (.go 1 {}))).isSome))) (by cases pool <;> decide +kernel)
  simp only [Bool.and_eq_true, beq_iff_eq, decide_eq_true_eq] at hs
  exact ⟨tr, s, hrun, hs⟩

theorem half_built_never_served_joining : ∃ tr s x, (process 10000 4).Run (OfRequests Built) tr s ∧
    s.objects[0]? = some x ∧ x.pool_ = true ∧ x.conf_ = true ∧ x.clock_ = true ∧ s.crashed = false ∧
    s.pjCalls (.request (.go 1 {})) = joiningCalls true ∧ ∀ c ∈ joiningCalls true, c.NoNull := by
  obtain ⟨tr, s, hrun, hm, -, hcalls, hstep⟩ := exists_joining Ordered true (by decide +kernel)
  obtain ⟨r, hs⟩ := Option.isSome_iff_exists.mp hstep
  have hbuilt := built_of_ordered hrun
  obtain ⟨-, hreg, -, hseq⟩ := half_built_never_served hbuilt
  obtain ⟨x, hx, hall⟩ := hreg (hexId 1) 0 hm
  obtain ⟨hc, hnull⟩ := hseq tr hrun
  exact ⟨tr, s, x, hbuilt, hx, hall.1, hall.2.1, hall.2.2, hc, hcalls, hcalls ▸ hnull _ r.1 r.2 hs⟩

/-- `pj_pool_create` fails: the meeting is registered all the same, and the next add takes memory from no pool. -/
theorem half_built_is_served :
    (¬ ∀ (base count : UInt16) (tr : List Account) (s : Server), (process base count).Run (OfRequests OneByOne) tr s →
      ∀ (meet_id : Bytes) (m : Nat), s.meetings_[meet_id]? = some m → ∃ x, s.objects[m]? = some x ∧ x.pool_ = true) ∧
    ¬ ∀ (base count : UInt16) (tr : List Account) (s : Server), (process base count).Run (OfRequests OneByOne) tr s →
      ∀ a t es, (process base count).step s a = some (t, es) → ∀ c ∈ s.pjCalls a, c.NoNull := by
  obtain ⟨tr, s, hrun, hm, hpool, hcalls, hstep⟩ := exists_joining OneByOne false (by decide +kernel)
  constructor
  · intro hall
    obtain ⟨x, hx, hx'⟩ := hall 10000 4 tr s hrun (hexId 1) 0 hm
    rw [hx, Option.map_some, hx'] at hpool
    cases hpool
  · intro hall
    obtain ⟨r, hs⟩ := Option.isSome_iff_exists.mp hstep
    have hnull := hall 10000 4 tr s hrun _ r.1 r.2 hs (.pj_pool_zalloc false) (hcalls ▸ List.mem_singleton_self _)
    cases hnull

end AudioMeet.Server
