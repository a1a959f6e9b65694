import AudioMeet.Theorems.Server.Meetings
import AudioMeet.Theorems.Server.PortUse

/-! Adds on a meeting that was stopped. Neither the handlers nor the adders look whether it was. -/

namespace AudioMeet

/-- The meeting whose section an add is about to enter. -/
def ReqPc.joins : ReqPc → Option Nat
  | .addSection m _ _ => some m
  | _ => none

theorem ReqPc.Quiet.joins {pc : ReqPc} (h : pc.Quiet) : pc.joins = none := by
  cases pc with
  | addSection m part port => cases h.held
  | _ => rfl

namespace Server
open Lib Machine

/-- An add on a meeting that was stopped before makes no call and inserts nobody. -/
def NeverJoined (tr : List ServerEvent) : Prop :=
  tr.Pairwise fun e f => ∀ m i calls added, e = .stopped m → f = .add i m calls added → calls = [] ∧ added = false

/-- A meeting is stopped while no add is about to enter its section, and an add that found it before gets no
    port afterwards. -/
def NoLateAdd (s : Server) : ServerAct → Prop
  | .receive _ => True
  | .go i ans =>
    match s.requests[i]? with
    | some (.destroySection m _) => ∀ pc ∈ s.requests, pc.joins ≠ some m
    | some (.addAllocate m _) => ∀ meeting ∈ s.objects[m]?, meeting.stopped = true →
        (s.port_allocator_.allocate ans.is_port_available).2 = none
    | _ => True

instance (s : Server) : DecidablePred (NoLateAdd s)
  | .receive _ => .isTrue trivial
  | .go i ans => by
    unfold NoLateAdd
    dsimp only
    generalize s.requests[i]? = req
    rcases req with _ | pc
    · infer_instance
    · rcases pc <;> infer_instance

def IsStopped (s : Server) (m : Nat) : Prop := ∃ meeting, s.objects[m]? = some meeting ∧ meeting.stopped = true

structure JoinsInv (tr : List ServerEvent) (s : Server) : Prop where
  never : NeverJoined tr
  stopped : ∀ m, .stopped m ∈ tr → IsStopped s m
  joins : ∀ (i : Nat) (pc : ReqPc) (m : Nat), s.requests[i]? = some pc → pc.joins = some m → ¬ IsStopped s m

section Steps
variable {s t : Server} {a : ServerAct} {tr es : List ServerEvent}

theorem isStopped_of_objects (h : t.objects = s.objects) (m : Nat) : IsStopped t m ↔ IsStopped s m := by
  rw [IsStopped, h, IsStopped]

theorem isStopped_set {m : Nat} {meeting meeting' : Meeting} (hm : s.objects[m]? = some meeting)
    (ht : t.objects = s.objects.set m meeting') (k : Nat) :
    IsStopped t k ↔ (k = m ∧ meeting'.stopped = true) ∨ (k ≠ m ∧ IsStopped s k) := by
  simp only [IsStopped, ht, getElem?_set_some hm]
  constructor
  · rintro ⟨x, ⟨rfl, rfl⟩ | ⟨hne, hx⟩, hstop⟩
    · exact Or.inl ⟨rfl, hstop⟩
    · exact Or.inr ⟨hne, x, hx, hstop⟩
  · rintro (⟨rfl, hstop⟩ | ⟨hne, x, hx, hstop⟩)
    · exact ⟨meeting', Or.inl ⟨rfl, rfl⟩, hstop⟩
    · exact ⟨x, Or.inr ⟨hne, hx⟩, hstop⟩

theorem isStopped_set_same {m : Nat} {meeting meeting' : Meeting} (hm : s.objects[m]? = some meeting)
    (ht : t.objects = s.objects.set m meeting') (hsame : meeting'.stopped = meeting.stopped) (k : Nat) :
    IsStopped t k ↔ IsStopped s k := by
  rw [isStopped_set hm ht, hsame]
  by_cases hk : k = m
  · subst hk
    simp [IsStopped, hm]
  · simp [hk]

theorem isStopped_new {meet_id : Bytes} {pool conf clock : Bool}
    (ht : t.objects = s.objects ++ [Meeting.new meet_id pool conf clock]) (m : Nat) : IsStopped t m ↔ IsStopped s m := by
  simp only [IsStopped, ht, getElem?_snoc_some]
  constructor
  · rintro ⟨x, ⟨-, rfl⟩ | hx, hstop⟩
    · cases hstop
    · exact ⟨x, hx, hstop⟩
  · rintro ⟨x, hx, hstop⟩
    exact ⟨x, Or.inr hx, hstop⟩

/-- The events of a step that stops no meeting. -/
def Lawful (s : Server) (es : List ServerEvent) : Prop :=
  ∀ e ∈ es, (∃ i response, e = .responded i response) ∨ ∃ i m calls added, e = .add i m calls added ∧ ¬ IsStopped s m

theorem Replies.lawful (h : Replies es) : Lawful s es := fun e he => Or.inl (h e he)

theorem lawful_add {i m : Nat} {calls : List AddCall} {added : Bool} (hm : ¬ IsStopped s m) (h : Replies es) :
    Lawful s (.add i m calls added :: es) := by
  intro e he
  rcases List.mem_cons.mp he with rfl | he
  · exact Or.inr ⟨i, m, calls, added, rfl, hm⟩
  · exact Or.inl (h e he)

theorem Lawful.not_stopped (h : Lawful s es) {m : Nat} : .stopped m ∉ es := by
  intro he
  rcases h _ he with ⟨i, response, heq⟩ | ⟨i, k, calls, added, heq, -⟩
  · cases heq
  · cases heq

theorem JoinsInv.keep (h : JoinsInv tr s) {i : Nat} {pc' : ReqPc} (hreq : Goes s t i pc')
    (hobj : ∀ m, IsStopped t m ↔ IsStopped s m) (hjoin : ∀ m, pc'.joins = some m → ¬ IsStopped s m)
    (hes : Lawful s es) : JoinsInv (tr ++ es) t where
  never := by
    refine List.pairwise_append.mpr ⟨h.never, ?_, ?_⟩
    · refine List.pairwise_of_forall_mem_list fun e he f _ m i calls added hstop => ?_
      exact absurd (hstop ▸ he) hes.not_stopped
    · intro e he f hf m i calls added hstop hadd
      subst hstop
      subst hadd
      rcases hes _ hf with ⟨j, response, heq⟩ | ⟨j, k, calls', added', heq, hk⟩
      · cases heq
      · cases heq
        exact absurd (h.stopped m he) hk
  stopped := by
    intro m hm
    rcases List.mem_append.mp hm with hm | hm
    · exact (hobj m).mpr (h.stopped m hm)
    · exact absurd hm hes.not_stopped
  joins := by
    intro j pc m hpc hj
    rw [hobj]
    rcases (hreq j pc).mp hpc with ⟨-, rfl⟩ | ⟨-, hpc⟩
    · exact hjoin m hj
    · exact h.joins j pc m hpc hj

/-- The request joins nothing from here on. -/
theorem JoinsInv.leave (h : JoinsInv tr s) {i : Nat} {pc' : ReqPc} (hreq : Goes s t i pc')
    (hobj : ∀ m, IsStopped t m ↔ IsStopped s m) (hnone : pc'.joins = none) (hes : Lawful s es) :
    JoinsInv (tr ++ es) t := by
  refine h.keep hreq hobj (fun m hm => ?_) hes
  rw [hnone] at hm
  cases hm

theorem JoinsInv.stops (h : JoinsInv tr s) {i m : Nat} {meeting : Meeting} {ports : List UInt16}
    (hpc : s.requests[i]? = some (.destroySection m ports)) (hm : s.objects[m]? = some meeting)
    (hnone : ∀ pc ∈ s.requests, pc.joins ≠ some m) :
    JoinsInv (tr ++ [.stopped m])
      { s with objects := s.objects.set m meeting.stopSection, requests := s.requests.set i (.destroyRelease ports) } := by
  have hobj : ∀ k, IsStopped
      { s with objects := s.objects.set m meeting.stopSection, requests := s.requests.set i (.destroyRelease ports) } k ↔
      (k = m ∧ meeting.stopSection.stopped = true) ∨ (k ≠ m ∧ IsStopped s k) := isStopped_set hm rfl
  constructor
  · refine List.pairwise_append.mpr ⟨h.never, List.pairwise_singleton _ _, ?_⟩
    intro e _ f hf k j calls added _ hadd
    rw [List.mem_singleton.mp hf] at hadd
    cases hadd
  · intro k hk
    rcases List.mem_append.mp hk with hk | hk
    · by_cases hkm : k = m
      · exact (hobj k).mpr (Or.inl ⟨hkm, rfl⟩)
      · exact (hobj k).mpr (Or.inr ⟨hkm, h.stopped k hk⟩)
    · cases List.mem_singleton.mp hk
      exact (hobj m).mpr (Or.inl ⟨rfl, rfl⟩)
  · intro j pc k hpc' hj hstop
    rcases (goes_set hpc rfl j pc).mp hpc' with ⟨-, rfl⟩ | ⟨-, hold⟩
    · cases hj
    · rcases (hobj k).mp hstop with ⟨rfl, -⟩ | ⟨-, hstop⟩
      · exact hnone pc (List.mem_of_getElem? hold) hj
      · exact h.joins j pc k hold hj hstop

/-- The meeting that an add is about to enter, or that it found a port for, is not stopped. -/
theorem JoinsInv.step (h : JoinsInv tr s) (hd : Does s a t es) (hok : NoLateAdd s a) : JoinsInv (tr ++ es) t := by
  cases hd with
  | received hq hes =>
    exact h.leave (goes_snoc rfl) (isStopped_of_objects rfl) hq.joins hes.lawful
  | created hpc hes => exact h.leave (goes_set hpc rfl) (isStopped_new rfl) rfl hes.lawful
  | moved hpc _ hq hes =>
    exact h.leave (goes_set hpc rfl) (isStopped_of_objects rfl) hq.joins hes.lawful
  | @allocated i ans m part port alloc hpc halloc =>
    refine h.keep (goes_set hpc rfl) (isStopped_of_objects rfl) ?_ replies_nil.lawful
    rintro k hk ⟨meeting, hm, hstop⟩
    obtain rfl := Option.some.inj hk
    simp only [NoLateAdd, hpc] at hok
    have hnone := hok meeting hm hstop
    rw [halloc] at hnone
    cases hnone
  | @crashed i ans m meeting part port calls hpc _ _ =>
    have hes : Lawful s [.add i m calls false] := lawful_add (h.joins i _ m hpc rfl) replies_nil
    exact h.keep (goes_same hpc rfl) (isStopped_of_objects rfl) (fun k hk => h.joins i _ k hpc hk) hes
  | @refused i ans m meeting part port calls hpc _ _ =>
    exact h.leave (goes_set hpc rfl) (isStopped_of_objects rfl) rfl (lawful_add (h.joins i _ m hpc rfl) replies_nil)
  | @added i ans m meeting meeting' part port calls es hpc hm hadd hes =>
    rw [addTo_eq] at hadd
    obtain ⟨slot, -, hjoin, -⟩ := Meeting.add_joins hadd
    exact h.leave (goes_set hpc rfl) (isStopped_set_same hm rfl (by rw [hjoin.eq])) rfl
      (lawful_add (h.joins i _ m hpc rfl) hes)
  | addReleased hpc hq hes =>
    exact h.leave (goes_set hpc rfl) (isStopped_of_objects rfl) hq.joins hes.lawful
  | unregistered hpc _ => exact h.leave (goes_set hpc rfl) (isStopped_of_objects rfl) rfl replies_nil.lawful
  | collected hpc _ => exact h.leave (goes_set hpc rfl) (isStopped_of_objects rfl) rfl replies_nil.lawful
  | clockStopped hpc hm => exact h.leave (goes_set hpc rfl) (isStopped_set_same hm rfl rfl) rfl replies_nil.lawful
  | stopped hpc hm =>
    refine h.stops hpc hm ?_
    simpa only [NoLateAdd, hpc] using hok
  | destroyReleased hpc => exact h.leave (goes_set hpc rfl) (isStopped_of_objects rfl) rfl replies_nil.lawful
  | destroyed hpc hes => exact h.leave (goes_set hpc rfl) (isStopped_of_objects rfl) rfl hes.lawful
  | removed hpc hm hq hpc' hes =>
    refine h.leave (goes_set hpc rfl) (isStopped_set_same hm rfl rfl) ?_ hes.lawful
    subst hpc'
    split <;> rfl
  | deleteReleased hpc hes => exact h.leave (goes_set hpc rfl) (isStopped_of_objects rfl) rfl hes.lawful

end Steps

def destroyed : List ServerAct :=
  request 0 .createAudioMeet 1 { random := 1 } ++
  request 1 (.addAudioMeetPart { meetId := some (hexId 1), partId := some (ascii "a") }) 3 ++
  request 2 (.destroyAudioMeet { meetId := some (hexId 1) }) 6 ++
  request 3 (.addAudioMeetPart { meetId := some (hexId 1), partId := some (ascii "b") }) 1

/-- As long as no add is past `allocate` when its meeting is stopped, and none gets a port afterwards, no add
    joins a meeting that was stopped. -/
theorem stopped_is_never_joined {base count : UInt16} {tr : List ServerEvent} {s : Server}
    (h : (machine base count).Run NoLateAdd tr s) : NeverJoined tr := by
  suffices hinv : JoinsInv tr s from hinv.never
  refine h.invariant (I := JoinsInv) (fun s hs => ?_) fun _ _ _ _ _ hinv hok hs => hinv.step (step_does hs).2 hok
  obtain ⟨listen_ip, rfl⟩ := hs
  exact ⟨.nil, nofun, nofun⟩

/-- A meeting with a participant is destroyed, and an add does not find it any more. -/
theorem stopped_is_never_joined_destroyed : ∃ tr s, (machine 10000 4).Run NoLateAdd tr s ∧ .stopped 0 ∈ tr ∧
    NeverJoined tr := by
  have hmeets : (machine 10000 4).Meets NoLateAdd { listen_ip_ := [], port_allocator_ := .new 10000 4 } destroyed :=
    meets_of_checks (by decide +kernel)
  obtain ⟨tr, s, hrun, hs⟩ := exists_run (machine 10000 4) _ destroyed ⟨[], rfl⟩ hmeets
    (fun r => r.2.any (· matches .stopped 0)) (by decide +kernel)
  obtain ⟨e, he, hm⟩ := List.any_eq_true.mp hs
  have hstop : .stopped 0 ∈ tr := by
    split at hm
    · exact he
    · cases hm
  exact ⟨tr, s, hrun, hstop, stopped_is_never_joined hrun⟩

/-- Whether an add made a call on a meeting after it was stopped. -/
def callsAfterStop : List ServerEvent → Bool
  | [] => false
  | .stopped m :: tr => tr.any (fun | .add _ k calls _ => k == m && !calls.isEmpty | _ => false) || callsAfterStop tr
  | _ :: tr => callsAfterStop tr

theorem not_neverJoined_of_test {tr : List ServerEvent} (h : callsAfterStop tr = true) : ¬ NeverJoined tr := by
  intro hnever
  induction tr with
  | nil => cases h
  | cons e tr ih =>
    obtain ⟨hfirst, hrest⟩ := List.pairwise_cons.mp hnever
    cases e with
    | stopped m =>
      rcases Bool.or_eq_true_iff.mp h with h | h
      · obtain ⟨f, hf, hcall⟩ := List.any_eq_true.mp h
        split at hcall
        · rename_i i k calls added
          simp only [Bool.and_eq_true, beq_iff_eq] at hcall
          obtain ⟨rfl, hne⟩ := hcall
          simp [(hfirst _ hf k i calls added rfl rfl).1] at hne
        · cases hcall
      · exact ih h hrest
    | _ => exact ih h hrest

/-- The add found the meeting before the destroy, and a port; its participant starts, and its media port is
    created in a pool that is gone. -/
def joinedStopped : List ServerAct :=
  request 0 .createAudioMeet 1 { random := 1 } ++
  request 1 (.addAudioMeetPart { meetId := some (hexId 1), partId := some (ascii "a") }) 2 ++
  request 2 (.destroyAudioMeet { meetId := some (hexId 1) }) 5 ++
  [.go 1 {}]

theorem stopped_is_joined : ¬ ∀ (base count : UInt16) (tr : List ServerEvent) (s : Server),
    1 ≤ base.toNat → base.toNat + count.toNat ≤ 65536 → (machine base count).Run FreshIds tr s → NeverJoined tr := by
  intro hall
  have hmeets : (machine 10000 1).Meets FreshIds { listen_ip_ := [], port_allocator_ := .new 10000 1 } joinedStopped :=
    meets_of_checks (by decide +kernel)
  obtain ⟨tr, s, hrun, hs⟩ := exists_run (machine 10000 1) _ joinedStopped ⟨[], rfl⟩ hmeets
    (fun r => callsAfterStop r.2) (by decide +kernel)
  exact not_neverJoined_of_test hs (hall 10000 1 tr s (by decide) (by decide) hrun)

/-! ### Exactly the adds that enter their section on a stopped meeting -/

/-- An add on a stopped meeting starts its participant, whatever comes of it. -/
theorem add_of_stopped {meeting : Meeting} (p : Participant) (ans : AddAnswer) (hempty : meeting.participants_ = ∅) :
    (meeting.add p ans).2 ≠ [] := by
  unfold Meeting.add
  rw [hempty]
  simp only [Std.ExtTreeMap.contains_empty, Bool.false_eq_true, if_false]
  split
  · simp
  · split
    · simp
    · split
      · simp
      · split
        · simp
        · split <;> simp

section Exact
variable {s t : Server} {a : ServerAct} {tr es : List ServerEvent}

theorem Replies.no_add (h : Replies es) {i m : Nat} {calls : List AddCall} {added : Bool} :
    .add i m calls added ∉ es := by
  intro he
  obtain ⟨_, _, heq⟩ := h _ he
  cases heq

theorem Replies.no_stopped (h : Replies es) {m : Nat} : .stopped m ∉ es := by
  intro he
  obtain ⟨_, _, heq⟩ := h _ he
  cases heq

/-- The section of an add on a stopped meeting makes calls. -/
theorem Does.add_starts (hd : Does s a t es) (hmeet : MeetingsInv s) {i m : Nat} {calls : List AddCall} {added : Bool}
    (he : .add i m calls added ∈ es) (hstop : IsStopped s m) : calls ≠ [] := by
  have hsection : ∀ {meeting : Meeting} {part : NewPart} {port : Nat} {ans : AddAnswer} {r : AddResult} {calls : List AddCall},
      s.objects[m]? = some meeting → addTo meeting part port ans = (r, calls) → calls ≠ [] := by
    intro meeting part port ans r calls hm hadd
    obtain ⟨x, hx, hstop⟩ := hstop
    obtain rfl := Option.some.inj (hm.symm.trans hx)
    have hne := add_of_stopped (part.participant meeting.meet_id_ (UInt16.ofNat port)) ans (hmeet.stopped m meeting hm hstop).2
    rwa [← addTo_eq, hadd] at hne
  cases hd with
  | received _ hes => exact absurd he hes.no_add
  | created _ hes => exact absurd he hes.no_add
  | moved _ _ _ hes => exact absurd he hes.no_add
  | crashed _ hm hadd =>
    cases List.mem_singleton.mp he
    exact hsection hm hadd
  | refused _ hm hadd =>
    cases List.mem_singleton.mp he
    exact hsection hm hadd
  | added _ hm hadd hes =>
    rcases List.mem_cons.mp he with heq | he
    · cases heq
      exact hsection hm hadd
    · exact absurd he hes.no_add
  | addReleased _ _ hes => exact absurd he hes.no_add
  | destroyed _ hes => exact absurd he hes.no_add
  | removed _ _ _ _ hes => exact absurd he hes.no_add
  | deleteReleased _ hes => exact absurd he hes.no_add
  | stopped _ _ => cases List.mem_singleton.mp he
  | _ => cases he

/-- A meeting that was stopped stays so, and is so after its section of `stop`. -/
theorem Does.isStopped (hd : Does s a t es) {m : Nat} (h : IsStopped s m ∨ .stopped m ∈ es) : IsStopped t m := by
  cases hd with
  | received _ hes => exact (isStopped_of_objects rfl m).mpr (h.resolve_right hes.no_stopped)
  | created _ hes => exact (isStopped_new rfl m).mpr (h.resolve_right hes.no_stopped)
  | moved _ _ _ hes => exact (isStopped_of_objects rfl m).mpr (h.resolve_right hes.no_stopped)
  | allocated _ _ => exact (isStopped_of_objects rfl m).mpr (h.resolve_right nofun)
  | crashed _ _ _ => exact (isStopped_of_objects rfl m).mpr (h.resolve_right (by simp))
  | refused _ _ _ => exact (isStopped_of_objects rfl m).mpr (h.resolve_right (by simp))
  | added _ hm hadd hes =>
    rw [addTo_eq] at hadd
    obtain ⟨slot, -, hjoin, -⟩ := Meeting.add_joins hadd
    exact (isStopped_set_same hm rfl (by rw [hjoin.eq]) m).mpr (h.resolve_right (by simp [hes.no_stopped]))
  | addReleased _ _ hes => exact (isStopped_of_objects rfl m).mpr (h.resolve_right hes.no_stopped)
  | unregistered _ _ => exact (isStopped_of_objects rfl m).mpr (h.resolve_right nofun)
  | collected _ _ => exact (isStopped_of_objects rfl m).mpr (h.resolve_right nofun)
  | clockStopped _ hm =>
    refine Iff.mpr (isStopped_set_same hm rfl ?_ m) (h.resolve_right nofun)
    rfl
  | @stopped i ans k meeting ports hpc hm =>
    refine (isStopped_set hm rfl m).mpr ?_
    by_cases hk : m = k
    · exact Or.inl ⟨hk, rfl⟩
    · exact Or.inr ⟨hk, h.resolve_right (by simp [hk])⟩
  | destroyReleased _ => exact (isStopped_of_objects rfl m).mpr (h.resolve_right nofun)
  | destroyed _ hes => exact (isStopped_of_objects rfl m).mpr (h.resolve_right hes.no_stopped)
  | removed _ hm _ _ hes =>
    refine Iff.mpr (isStopped_set_same hm rfl ?_ m) (h.resolve_right hes.no_stopped)
    rfl
  | deleteReleased _ hes => exact (isStopped_of_objects rfl m).mpr (h.resolve_right hes.no_stopped)

theorem Does.stopped_alone (hd : Does s a t es) {m : Nat} (h : .stopped m ∈ es) : es = [.stopped m] := by
  cases hd with
  | received _ hes => exact absurd h hes.no_stopped
  | created _ hes => exact absurd h hes.no_stopped
  | moved _ _ _ hes => exact absurd h hes.no_stopped
  | crashed _ _ _ => cases List.mem_singleton.mp h
  | refused _ _ _ => cases List.mem_singleton.mp h
  | added _ _ _ hes => exact absurd ((List.mem_cons.mp h).resolve_left nofun) hes.no_stopped
  | addReleased _ _ hes => exact absurd h hes.no_stopped
  | stopped _ _ => rw [List.mem_singleton.mp h]
  | destroyed _ hes => exact absurd h hes.no_stopped
  | removed _ _ _ _ hes => exact absurd h hes.no_stopped
  | deleteReleased _ hes => exact absurd h hes.no_stopped
  | _ => cases h

/-- No add enters its section on a meeting that was stopped before. -/
def NoAddAfterStop (tr : List ServerEvent) : Prop :=
  tr.Pairwise fun e f => ∀ m i calls added, e = .stopped m → f ≠ .add i m calls added

/-- Only the schedule keeps a stopped meeting from being joined: an add that enters its section afterwards
    always starts its participant. -/
theorem neverJoined_iff {base count : UInt16} (h : (machine base count).Run FreshIds tr s) :
    NeverJoined tr ↔ NoAddAfterStop tr := by
  suffices hstarts : (∀ m, .stopped m ∈ tr → IsStopped s m) ∧ tr.Pairwise fun e f =>
      ∀ m i calls added, e = .stopped m → f = .add i m calls added → calls ≠ [] by
    constructor
    · intro hnever
      refine (hnever.and hstarts.2).imp fun hef m i calls added he hf => ?_
      exact hef.2 m i calls added he hf (hef.1 m i calls added he hf).1
    · intro hnone
      exact hnone.imp fun hef m i calls added he hf => absurd hf (hef m i calls added he)
  induction h with
  | init _ => exact ⟨nofun, .nil⟩
  | @step tr es s t a hrun hok hs ih =>
    have hd := (step_does hs).2
    have hmeet := run_meetingsInv hrun
    refine ⟨fun m hm => hd.isStopped ((List.mem_append.mp hm).imp_left (ih.1 m)), ?_⟩
    refine List.pairwise_append.mpr ⟨ih.2, ?_, fun e he f hf m i calls added hem hfm => ?_⟩
    · by_cases hstop : ∃ m, .stopped m ∈ es
      · obtain ⟨m, hm⟩ := hstop
        rw [hd.stopped_alone hm]
        exact List.pairwise_singleton _ _
      · refine List.pairwise_of_forall_mem_list fun e he f _ m i calls added hem => ?_
        exact absurd ⟨m, hem ▸ he⟩ hstop
    · subst hem
      subst hfm
      exact hd.add_starts hmeet hf (ih.1 m he)

end Exact

end Server
end AudioMeet
