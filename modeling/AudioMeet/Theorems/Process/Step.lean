import AudioMeet.Process
import AudioMeet.Theorems.Server.Meetings

/-! What a step of the process can do, and what holds of the registered meetings whatever ids are drawn. -/

namespace AudioMeet
open Lib Machine

/-- The constructor made the bridge and the clock when it made the pool, and `stop` has not run. -/
structure Meeting.Whole (m : Meeting) : Prop where
  live : m.stopped = false
  conf : m.conf_ = m.pool_
  clock : m.clock_ = m.pool_

theorem Meeting.whole_new (meet_id : Bytes) (pool conf clock : Bool) : (Meeting.new meet_id pool conf clock).Whole :=
  ⟨rfl, rfl, rfl⟩

namespace Server

section Steps
variable {s t : Server} {es : List Account} {base count : UInt16}

/-- What a step of the process can do. -/
inductive ProcessDoes (s : Server) : ProcessAct → Server → List Account → Prop
  | request {a : ServerAct} {t : Server} {es : List ServerEvent} :
      s.step a = some (t, es) → ProcessDoes s (.request a) t (s.account t a es)
  | destruct {m : Nat} {meeting : Meeting} :
      s.objects[m]? = some meeting → meeting.stopped = false → (∀ meet_id : Bytes, s.meetings_[meet_id]? ≠ some m) →
      (∀ pc ∈ s.requests, m ∉ pc.meetings) →
      ProcessDoes s (.destruct m) { s with objects := s.objects.set m meeting.stopClock.stopSection } [.event (.stopped m)]

theorem mem_list_meetings {m : Nat} : m ∈ s.list_meetings ↔ ∃ meet_id : Bytes, s.meetings_[meet_id]? = some m := by
  simp only [list_meetings, List.mem_map, Prod.exists, exists_eq_right, Std.ExtTreeMap.mem_toList_iff_getElem?_eq_some]

theorem process_does {a : ProcessAct} (hs : (process base count).step s a = some (t, es)) : ProcessDoes s a t es := by
  cases a with
  | request a =>
    obtain ⟨⟨t', es'⟩, hstep, heq⟩ := Option.map_eq_some_iff.mp hs
    obtain ⟨rfl, rfl⟩ := Prod.mk.inj heq
    exact .request hstep
  | destruct m =>
    obtain ⟨meeting, hm, hs⟩ := Option.bind_eq_some_iff.mp hs
    split at hs
    · cases hs
    · rename_i hguard
      obtain ⟨rfl, rfl⟩ := Prod.mk.inj (Option.some.inj hs)
      simp only [not_or, Bool.not_eq_true, mem_list_meetings, not_exists, not_and] at hguard
      exact .destruct hm hguard.2.1 hguard.2.2.1 hguard.2.2.2

/-- The result of a request's step in the process. -/
theorem process_request {a : ServerAct} {es : List ServerEvent} (h : s.step a = some (t, es)) :
    (process base count).step s (.request a) = some (t, s.account t a es) := by
  show (s.step a).map _ = _
  rw [h]
  rfl

/-! ### Without equal ids -/

/-- A condition on the steps of the requests. -/
def OfRequests (ok : Server → ServerAct → Prop) (s : Server) : ProcessAct → Prop
  | .request a => ok s a
  | .destruct _ => True

instance {ok : Server → ServerAct → Prop} [∀ s, DecidablePred (ok s)] (s : Server) : DecidablePred (OfRequests ok s)
  | .request a => inferInstanceAs (Decidable (ok s a))
  | .destruct _ => .isTrue trivial

/-- The events among an account. -/
def eventsOf : Account → List ServerEvent
  | .event e => [e]
  | _ => []

/-- An account of what a section erases. -/
theorem mem_erases {i : Nat} {pc : ReqPc} {e : Account} (he : e ∈ s.erases t i pc) :
    (∃ meet_id, e = .unregistered i meet_id) ∨ ∃ m meet_id part_id, e = .erased i m meet_id part_id := by
  cases pc with
  | destroyLookup meet_id =>
    simp only [erases] at he
    split at he
    · exact Or.inl ⟨meet_id, List.mem_singleton.mp he⟩
    · cases he
  | deleteSection m part_id =>
    simp only [erases] at he
    split at he
    · split at he
      · exact Or.inr ⟨m, _, part_id, List.mem_singleton.mp he⟩
      · cases he
    · cases he
  | _ => cases he

theorem flatMap_eventsOf_account (a : ServerAct) (es : List ServerEvent) : (s.account t a es).flatMap eventsOf = es := by
  have hevents : (es.map Account.event).flatMap eventsOf = es := by
    rw [List.flatMap_map]
    exact List.flatMap_singleton' es
  have herases : ∀ i pc, (s.erases t i pc).flatMap eventsOf = [] := fun i pc =>
    List.flatMap_eq_nil_iff.mpr fun e he => by rcases mem_erases he with ⟨_, rfl⟩ | ⟨_, _, _, rfl⟩ <;> rfl
  cases a with
  | receive req =>
    rw [account, List.flatMap_cons, hevents]
    rfl
  | go i ans =>
    rw [account, List.flatMap_append, hevents]
    cases s.requests[i]? with
    | none => rfl
    | some pc => simp [herases]

/-- While a new meeting gets an id that no meeting had before, no destructor finds anything to stop: the runs of
    the process are those of its requests. -/
theorem run_of_process {tr : List Account} (h : (process base count).Run (OfRequests FreshIds) tr s) :
    (machine base count).Run FreshIds (tr.flatMap eventsOf) s := by
  induction h with
  | init hs => exact .init hs
  | @step tr es s t a hrun hok hs ih =>
    rw [List.flatMap_append]
    cases process_does hs with
    | request hstep =>
      rw [flatMap_eventsOf_account]
      exact ih.step hok hstep
    | @destruct m meeting hm hlive hkey hreq =>
      obtain ⟨meet_id | i, ho⟩ := (run_meetingsInv ih).live m meeting hm hlive
      · exact absurd ho (hkey meet_id)
      · obtain ⟨pc, hpc, hd⟩ := ho
        refine absurd ?_ (hreq pc (List.mem_of_getElem? hpc))
        cases pc <;> simp only [ReqPc.destroys, Option.some.injEq, reduceCtorEq] at hd
        all_goals
          subst hd
          exact List.mem_singleton_self _

/-! ### The registered meetings -/

structure RegistryInv (s : Server) : Prop where
  keyed : ∀ (meet_id : Bytes) (m : Nat), s.meetings_[meet_id]? = some m →
    ∃ meeting, s.objects[m]? = some meeting ∧ meeting.meet_id_ = meet_id ∧ meeting.Whole
  apart : ∀ (i : Nat) (pc : ReqPc) (m : Nat), s.requests[i]? = some pc → pc.destroys = some m →
    m < s.objects.length ∧ ∀ meet_id : Bytes, s.meetings_[meet_id]? ≠ some m

/-- The meetings at the places that `p` holds of stay there, with their ids, and as whole as they were. -/
def Stay (p : Nat → Prop) (s t : Server) : Prop :=
  ∀ (m : Nat) (meeting : Meeting), p m → s.objects[m]? = some meeting →
    ∃ meeting', t.objects[m]? = some meeting' ∧ meeting'.meet_id_ = meeting.meet_id_ ∧ (meeting.Whole → meeting'.Whole)

theorem stay_of_objects {p : Nat → Prop} (h : t.objects = s.objects) : Stay p s t :=
  fun _ meeting _ hm => ⟨meeting, h ▸ hm, rfl, id⟩

theorem stay_set {p : Nat → Prop} {m : Nat} {meeting meeting' : Meeting} (hm : s.objects[m]? = some meeting)
    (ht : t.objects = s.objects.set m meeting') (hid : meeting'.meet_id_ = meeting.meet_id_)
    (hwhole : p m → meeting.Whole → meeting'.Whole) : Stay p s t := by
  intro k x hp hx
  simp only [ht, getElem?_set_some hm]
  by_cases hk : k = m
  · subst hk
    obtain rfl := Option.some.inj (hm.symm.trans hx)
    exact ⟨meeting', Or.inl ⟨rfl, rfl⟩, hid, hwhole hp⟩
  · exact ⟨x, Or.inr ⟨hk, hx⟩, rfl, id⟩

/-- A step of a request that registers no meeting, and takes none from the registry. -/
theorem RegistryInv.same (h : RegistryInv s) (hmap : t.meetings_ = s.meetings_)
    (hstay : Stay (fun m => ∃ meet_id : Bytes, s.meetings_[meet_id]? = some m) s t)
    (hlen : t.objects.length = s.objects.length)
    (hreq : ∀ (i : Nat) (pc : ReqPc) (m : Nat), t.requests[i]? = some pc → pc.destroys = some m →
      ∃ (i : Nat) (pc : ReqPc), s.requests[i]? = some pc ∧ pc.destroys = some m) : RegistryInv t where
  keyed := by
    intro meet_id m hm
    rw [hmap] at hm
    obtain ⟨meeting, hobj, hid, hwhole⟩ := h.keyed meet_id m hm
    obtain ⟨meeting', hobj', hid', hwhole'⟩ := hstay m meeting ⟨meet_id, hm⟩ hobj
    exact ⟨meeting', hobj', hid'.trans hid, hwhole' hwhole⟩
  apart := by
    intro i pc m hpc hd
    obtain ⟨i, pc, hpc, hd⟩ := hreq i pc m hpc hd
    rw [hmap, hlen]
    exact h.apart i pc m hpc hd

theorem destroys_of_goes {i : Nat} {pc pc' : ReqPc} (hpc : s.requests[i]? = some pc)
    (ht : t.requests = s.requests.set i pc') (hd' : pc'.destroys = pc.destroys ∨ pc'.destroys = none) :
    ∀ (j : Nat) (x : ReqPc) (m : Nat), t.requests[j]? = some x → x.destroys = some m →
      ∃ (j : Nat) (x : ReqPc), s.requests[j]? = some x ∧ x.destroys = some m := by
  intro j x m hx hd
  rcases (goes_set hpc ht j x).mp hx with ⟨rfl, rfl⟩ | ⟨-, hx⟩
  · rcases hd' with heq | hnone
    · exact ⟨j, pc, hpc, heq ▸ hd⟩
    · rw [hnone] at hd
      cases hd
  · exact ⟨j, x, hx, hd⟩

theorem RegistryInv.created (h : RegistryInv s) {i : Nat} {ans : Answer} (hpc : s.requests[i]? = some .create) :
    RegistryInv
      { s with
        objects := s.objects ++ [Meeting.new (hexId ans.random) ans.pool ans.conf ans.clock]
        meetings_ := s.meetings_.insert (hexId ans.random) s.objects.length
        requests := s.requests.set i .done } := by
  constructor
  · intro meet_id m hm
    rcases getElem?_insert_some.mp hm with ⟨rfl, rfl⟩ | ⟨-, hm⟩
    · exact ⟨_, getElem?_snoc_some.mpr (Or.inl ⟨rfl, rfl⟩), rfl, Meeting.whole_new _ _ _ _⟩
    · obtain ⟨meeting, hm, hid⟩ := h.keyed meet_id m hm
      exact ⟨meeting, getElem?_snoc_some.mpr (Or.inr hm), hid⟩
  · intro j pc m hj hd
    obtain ⟨j, pc, hj, hd⟩ := destroys_of_goes (t := { s with requests := s.requests.set i .done }) hpc rfl
      (Or.inr rfl) j pc m hj hd
    obtain ⟨hlt, hkey⟩ := h.apart j pc m hj hd
    refine ⟨by simp only [List.length_append, List.length_singleton]; omega, fun meet_id hm => ?_⟩
    rcases getElem?_insert_some.mp hm with ⟨-, rfl⟩ | ⟨-, hm⟩
    · exact hlt.false
    · exact hkey meet_id hm

theorem RegistryInv.unregistered (h : RegistryInv s) {i m : Nat} {meet_id : Bytes}
    (hpc : s.requests[i]? = some (.destroyLookup meet_id)) (hm : s.meetings_[meet_id]? = some m) :
    RegistryInv
      { s with meetings_ := s.meetings_.erase meet_id, requests := s.requests.set i (.destroyPorts m) } := by
  constructor
  · exact fun meet_id' k hk => h.keyed meet_id' k (getElem?_eraseId_some.mp hk).2
  · intro j pc k hj hd
    obtain ⟨meeting, hobj, hid, -⟩ := h.keyed meet_id m hm
    rcases (goes_set (t := { s with requests := s.requests.set i (.destroyPorts m) }) hpc rfl j pc).mp hj with
      ⟨rfl, rfl⟩ | ⟨-, hj⟩
    · obtain rfl := Option.some.inj hd
      refine ⟨(List.getElem?_eq_some_iff.mp hobj).1, fun meet_id' hm' => ?_⟩
      obtain ⟨hne, hm'⟩ := getElem?_eraseId_some.mp hm'
      obtain ⟨meeting', hobj', hid', -⟩ := h.keyed meet_id' m hm'
      obtain rfl := Option.some.inj (hobj.symm.trans hobj')
      exact hne (hid'.symm.trans hid)
    · obtain ⟨hlt, hkey⟩ := h.apart j pc k hj hd
      exact ⟨hlt, fun meet_id' hk => hkey meet_id' (getElem?_eraseId_some.mp hk).2⟩

theorem RegistryInv.step (h : RegistryInv s) {a : ServerAct} {es : List ServerEvent} (hd : Does s a t es) :
    RegistryInv t := by
  have hlen : ∀ {m : Nat} {x : Meeting}, (s.objects.set m x).length = s.objects.length := List.length_set
  cases hd with
  | received hq _ =>
    refine h.same rfl (stay_of_objects rfl) rfl fun j pc m hpc hd => ?_
    rcases getElem?_snoc_some.mp hpc with ⟨-, rfl⟩ | hpc
    · rw [hq.destroys] at hd
      cases hd
    · exact ⟨j, pc, hpc, hd⟩
  | created hpc _ => exact h.created hpc
  | moved hpc _ hq' _ =>
    exact h.same rfl (stay_of_objects rfl) rfl (destroys_of_goes hpc rfl (Or.inr hq'.destroys))
  | allocated hpc _ => exact h.same rfl (stay_of_objects rfl) rfl (destroys_of_goes hpc rfl (Or.inr rfl))
  | crashed _ _ _ => exact h.same rfl (stay_of_objects rfl) rfl fun j pc m hpc hd => ⟨j, pc, hpc, hd⟩
  | refused hpc _ _ => exact h.same rfl (stay_of_objects rfl) rfl (destroys_of_goes hpc rfl (Or.inr rfl))
  | added hpc hm hadd _ =>
    rw [addTo_eq] at hadd
    obtain ⟨slot, -, hjoin, -⟩ := Meeting.add_joins hadd
    refine h.same rfl (stay_set hm rfl (by rw [hjoin.eq]) fun _ hw => ?_) hlen (destroys_of_goes hpc rfl (Or.inr rfl))
    rw [hjoin.eq]
    exact ⟨hw.live, hw.conf, hw.clock⟩
  | addReleased hpc hq _ => exact h.same rfl (stay_of_objects rfl) rfl (destroys_of_goes hpc rfl (Or.inr hq.destroys))
  | unregistered hpc hm => exact h.unregistered hpc hm
  | collected hpc _ => exact h.same rfl (stay_of_objects rfl) rfl (destroys_of_goes hpc rfl (Or.inl rfl))
  | clockStopped hpc hm =>
    refine h.same rfl (stay_set hm rfl rfl ?_) hlen (destroys_of_goes hpc rfl (Or.inl rfl))
    exact fun ⟨meet_id, hkey⟩ => absurd hkey ((h.apart _ _ _ hpc rfl).2 meet_id)
  | stopped hpc hm =>
    refine h.same rfl (stay_set hm rfl rfl ?_) hlen (destroys_of_goes hpc rfl (Or.inr rfl))
    exact fun ⟨meet_id, hkey⟩ => absurd hkey ((h.apart _ _ _ hpc rfl).2 meet_id)
  | destroyReleased hpc => exact h.same rfl (stay_of_objects rfl) rfl (destroys_of_goes hpc rfl (Or.inr rfl))
  | destroyed hpc _ => exact h.same rfl (stay_of_objects rfl) rfl (destroys_of_goes hpc rfl (Or.inr rfl))
  | removed hpc hm _ hpc' _ =>
    refine h.same rfl (stay_set hm rfl rfl fun _ hw => ⟨hw.live, hw.conf, hw.clock⟩) hlen
      (destroys_of_goes hpc rfl (Or.inr ?_))
    subst hpc'
    split <;> rfl
  | deleteReleased hpc _ => exact h.same rfl (stay_of_objects rfl) rfl (destroys_of_goes hpc rfl (Or.inr rfl))

/-- A meeting keeps its place and its id. -/
theorem Does.ids {a : ServerAct} {es : List ServerEvent} (hd : Does s a t es) {m : Nat} {meeting : Meeting}
    (hm : s.objects[m]? = some meeting) :
    ∃ meeting', t.objects[m]? = some meeting' ∧ meeting'.meet_id_ = meeting.meet_id_ := by
  have hset : ∀ {k : Nat} {x x' : Meeting}, s.objects[k]? = some x → x'.meet_id_ = x.meet_id_ →
      ∃ meeting', (s.objects.set k x')[m]? = some meeting' ∧ meeting'.meet_id_ = meeting.meet_id_ := by
    intro k x x' hx hid
    by_cases hk : m = k
    · subst hk
      obtain rfl := Option.some.inj (hm.symm.trans hx)
      exact ⟨x', (getElem?_set_some hm).mpr (Or.inl ⟨rfl, rfl⟩), hid⟩
    · exact ⟨meeting, (getElem?_set_some hx).mpr (Or.inr ⟨hk, hm⟩), rfl⟩
  cases hd with
  | created _ _ => exact ⟨meeting, getElem?_snoc_some.mpr (Or.inr hm), rfl⟩
  | added _ hx hadd _ =>
    rw [addTo_eq] at hadd
    obtain ⟨slot, -, hjoin, -⟩ := Meeting.add_joins hadd
    exact hset hx (by rw [hjoin.eq])
  | clockStopped _ hx => exact hset hx rfl
  | stopped _ hx => exact hset hx rfl
  | removed _ hx _ _ _ => exact hset hx rfl
  | _ => exact ⟨meeting, hm, rfl⟩

/-- Whatever ids are drawn, a registered meeting is there under its id and was not stopped. -/
theorem run_registryInv {ok : Server → ProcessAct → Prop} {tr : List Account}
    (h : (process base count).Run ok tr s) : RegistryInv s := by
  refine h.invariant (I := fun _ s => RegistryInv s) (fun s hs => ?_) fun tr s a t es hinv _ hs => ?_
  · obtain ⟨listen_ip, rfl⟩ := hs
    exact ⟨by simp, by simp⟩
  · cases process_does hs with
    | request hstep => exact hinv.step (step_does hstep).2
    | destruct hm _ hkey _ =>
      refine hinv.same rfl (stay_set hm rfl rfl ?_) List.length_set fun j pc m hpc hd => ⟨j, pc, hpc, hd⟩
      exact fun ⟨meet_id, hid⟩ => absurd hid (hkey meet_id)

end Steps
end Server
end AudioMeet
