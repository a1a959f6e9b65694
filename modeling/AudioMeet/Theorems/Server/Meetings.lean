import AudioMeet.Theorems.Server.Step

/-! Who holds a meeting: the registry under one id, or the destroy that took it from there. A meeting has one
    holder until it is stopped, and none from then on. -/

namespace AudioMeet.Server
open Lib Machine

inductive Holder
  | key (meet_id : Bytes)
  | request (i : Nat)

def Holds (s : Server) (m : Nat) : Holder → Prop
  | .key meet_id => s.meetings_[meet_id]? = some m
  | .request i => ∃ pc, s.requests[i]? = some pc ∧ pc.destroys = some m

structure MeetingsInv (s : Server) : Prop where
  keyed : ∀ (meet_id : Bytes) (m : Nat), s.meetings_[meet_id]? = some m →
    ∃ meeting, s.objects[m]? = some meeting ∧ meeting.meet_id_ = meet_id
  held : ∀ m o, Holds s m o → ∃ meeting, s.objects[m]? = some meeting ∧ meeting.stopped = false
  unique : ∀ m o o', Holds s m o → Holds s m o' → o = o'
  live : ∀ (m : Nat) (meeting : Meeting), s.objects[m]? = some meeting → meeting.stopped = false → ∃ o, Holds s m o
  stopped : ∀ (m : Nat) (meeting : Meeting), s.objects[m]? = some meeting → meeting.stopped = true →
    meeting.conf_ = false ∧ meeting.participants_ = ∅

/-- A new meeting gets an id that no meeting had before. -/
def FreshIds (s : Server) : ServerAct → Prop
  | .receive _ => True
  | .go i ans =>
    match s.requests[i]? with
    | some .create => ∀ meeting ∈ s.objects, meeting.meet_id_ ≠ hexId ans.random
    | _ => True

instance (s : Server) : DecidablePred (FreshIds s)
  | .receive _ => .isTrue trivial
  | .go i ans => by
    unfold FreshIds
    dsimp only
    generalize s.requests[i]? = req
    rcases req with _ | pc
    · infer_instance
    · rcases pc <;> infer_instance

section Steps
variable {s t : Server} {a : ServerAct} {es : List ServerEvent}

/-! ### Holders after a step -/

theorem holds_of_goes {i m : Nat} {pc' : ReqPc} {o : Holder} (hreq : Goes s t i pc') (hmap : t.meetings_ = s.meetings_) :
    Holds t m o ↔ (o = .request i ∧ pc'.destroys = some m) ∨ (o ≠ .request i ∧ Holds s m o) := by
  cases o with
  | key meet_id => simp [Holds, hmap]
  | request j =>
    simp only [Holds, hreq j, Holder.request.injEq, ne_eq]
    constructor
    · rintro ⟨pc, ⟨rfl, rfl⟩ | ⟨hne, hpc⟩, hd⟩
      · exact Or.inl ⟨rfl, hd⟩
      · exact Or.inr ⟨hne, pc, hpc, hd⟩
    · rintro (⟨rfl, hd⟩ | ⟨hne, pc, hpc, hd⟩)
      · exact ⟨pc', Or.inl ⟨rfl, rfl⟩, hd⟩
      · exact ⟨pc, Or.inr ⟨hne, hpc⟩, hd⟩

/-- A request that holds after a step what it held before changes no holder. -/
theorem holds_same {i m : Nat} {pc pc' : ReqPc} {o : Holder} (hpc : s.requests[i]? = some pc)
    (hreq : t.requests = s.requests.set i pc') (hmap : t.meetings_ = s.meetings_) (hd : pc'.destroys = pc.destroys) :
    Holds t m o ↔ Holds s m o := by
  rw [holds_of_goes (goes_set hpc hreq) hmap, hd]
  by_cases ho : o = .request i
  · subst ho
    simp [Holds, hpc]
  · simp [ho]

/-- What a step may do to a meeting that it does not stop. -/
structure Alike (meeting meeting' : Meeting) : Prop where
  id : meeting'.meet_id_ = meeting.meet_id_
  stopped : meeting'.stopped = meeting.stopped
  empty : meeting.stopped = true → meeting.conf_ = false ∧ meeting.participants_ = ∅ →
    meeting'.conf_ = false ∧ meeting'.participants_ = ∅

theorem Alike.refl (meeting : Meeting) : Alike meeting meeting := ⟨rfl, rfl, fun _ h => h⟩

/-- Every meeting after a step is like one before, at the same place. -/
def AlikeAll (s t : Server) : Prop :=
  (∀ (m : Nat) (meeting' : Meeting), t.objects[m]? = some meeting' → ∃ meeting, s.objects[m]? = some meeting ∧ Alike meeting meeting') ∧
  ∀ (m : Nat) (meeting : Meeting), s.objects[m]? = some meeting → ∃ meeting', t.objects[m]? = some meeting' ∧ Alike meeting meeting'

theorem alikeAll_of_objects (h : t.objects = s.objects) : AlikeAll s t := by
  constructor
  · exact fun m meeting hm => ⟨meeting, h ▸ hm, .refl meeting⟩
  · exact fun m meeting hm => ⟨meeting, h ▸ hm, .refl meeting⟩

theorem alikeAll_set {m : Nat} {meeting meeting' : Meeting} (hm : s.objects[m]? = some meeting)
    (ht : t.objects = s.objects.set m meeting') (halike : Alike meeting meeting') : AlikeAll s t := by
  constructor
  · intro k x hx
    rw [ht, getElem?_set_some hm] at hx
    rcases hx with ⟨rfl, rfl⟩ | ⟨-, hx⟩
    · exact ⟨meeting, hm, halike⟩
    · exact ⟨x, hx, .refl x⟩
  · intro k x hx
    simp only [ht, getElem?_set_some hm]
    by_cases hk : k = m
    · subst hk
      obtain rfl := Option.some.inj (hm.symm.trans hx)
      exact ⟨meeting', Or.inl ⟨rfl, rfl⟩, halike⟩
    · exact ⟨x, Or.inr ⟨hk, hx⟩, .refl x⟩

theorem MeetingsInv.same (h : MeetingsInv s) (hobj : AlikeAll s t) (hmap : t.meetings_ = s.meetings_)
    (hholds : ∀ m o, Holds t m o ↔ Holds s m o) : MeetingsInv t where
  keyed := by
    intro meet_id m hm
    obtain ⟨meeting, hm, hid⟩ := h.keyed meet_id m (hmap ▸ hm)
    obtain ⟨meeting', hm', halike⟩ := hobj.2 m meeting hm
    exact ⟨meeting', hm', halike.id.trans hid⟩
  held := by
    intro m o ho
    obtain ⟨meeting, hm, hstop⟩ := h.held m o ((hholds m o).mp ho)
    obtain ⟨meeting', hm', halike⟩ := hobj.2 m meeting hm
    exact ⟨meeting', hm', halike.stopped.trans hstop⟩
  unique := fun m o o' ho ho' => h.unique m o o' ((hholds m o).mp ho) ((hholds m o').mp ho')
  live := by
    intro m meeting' hm' hstop
    obtain ⟨meeting, hm, halike⟩ := hobj.1 m meeting' hm'
    obtain ⟨o, ho⟩ := h.live m meeting hm (halike.stopped.symm.trans hstop)
    exact ⟨o, (hholds m o).mpr ho⟩
  stopped := by
    intro m meeting' hm' hstop
    obtain ⟨meeting, hm, halike⟩ := hobj.1 m meeting' hm'
    have hstop' := halike.stopped.symm.trans hstop
    exact halike.empty hstop' (h.stopped m meeting hm hstop')

/-! ### The registry -/

theorem getElem?_insert_some {meetings_ : Std.ExtTreeMap Bytes Nat compare} {meet_id meet_id' : Bytes} {m n : Nat} :
    (meetings_.insert meet_id n)[meet_id']? = some m ↔
      (meet_id' = meet_id ∧ m = n) ∨ (meet_id' ≠ meet_id ∧ meetings_[meet_id']? = some m) := by
  simp only [Std.ExtTreeMap.getElem?_insert, Std.LawfulEqCmp.compare_eq_iff_eq]
  split
  · rename_i heq
    simp [heq, eq_comm]
  · rename_i hne
    simp [Ne.symm hne]

theorem getElem?_eraseId_some {meetings_ : Std.ExtTreeMap Bytes Nat compare} {meet_id meet_id' : Bytes} {m : Nat} :
    (meetings_.erase meet_id)[meet_id']? = some m ↔ meet_id' ≠ meet_id ∧ meetings_[meet_id']? = some m := by
  simp only [Std.ExtTreeMap.getElem?_erase, Std.LawfulEqCmp.compare_eq_iff_eq]
  split
  · rename_i heq
    simp [heq]
  · rename_i hne
    simp [Ne.symm hne]

theorem MeetingsInv.created (h : MeetingsInv s) {i : Nat} {ans : Answer} (hpc : s.requests[i]? = some .create)
    (hfresh : ∀ meeting ∈ s.objects, meeting.meet_id_ ≠ hexId ans.random) :
    MeetingsInv
      { s with
        objects := s.objects ++ [Meeting.new (hexId ans.random) ans.pool ans.conf ans.clock]
        meetings_ := s.meetings_.insert (hexId ans.random) s.objects.length
        requests := s.requests.set i .done } := by
  generalize hn : Meeting.new (hexId ans.random) ans.pool ans.conf ans.clock = new
  have hnew : new.meet_id_ = hexId ans.random ∧ new.stopped = false := by
    subst hn
    exact ⟨rfl, rfl⟩
  have hkey : ∀ meet_id (m : Nat), s.meetings_[meet_id]? = some m → meet_id ≠ hexId ans.random := by
    intro meet_id m hm heq
    obtain ⟨meeting, hm, hid⟩ := h.keyed meet_id m hm
    exact hfresh meeting (List.mem_of_getElem? hm) (hid.trans heq)
  have hlt : ∀ m o, Holds s m o → m < s.objects.length := by
    intro m o ho
    obtain ⟨meeting, hm, -⟩ := h.held m o ho
    exact (List.getElem?_eq_some_iff.mp hm).1
  have hholds : ∀ m o, Holds
      { s with
        objects := s.objects ++ [new]
        meetings_ := s.meetings_.insert (hexId ans.random) s.objects.length
        requests := s.requests.set i .done } m o ↔
      (m = s.objects.length ∧ o = .key (hexId ans.random)) ∨ Holds s m o := by
    intro m o
    cases o with
    | key meet_id =>
      simp only [Holds, getElem?_insert_some, Holder.key.injEq]
      constructor
      · rintro (⟨rfl, rfl⟩ | ⟨-, hm⟩)
        · exact Or.inl ⟨rfl, rfl⟩
        · exact Or.inr hm
      · rintro (⟨rfl, rfl⟩ | hm)
        · exact Or.inl ⟨rfl, rfl⟩
        · exact Or.inr ⟨hkey meet_id m hm, hm⟩
    | request j =>
      have hsame : Holds { s with requests := s.requests.set i .done } m (.request j) ↔ Holds s m (.request j) :=
        holds_same hpc rfl rfl rfl
      simpa [Holds] using hsame
  constructor
  · intro meet_id m hm
    rcases getElem?_insert_some.mp hm with ⟨rfl, rfl⟩ | ⟨-, hm⟩
    · exact ⟨new, getElem?_snoc_some.mpr (Or.inl ⟨rfl, rfl⟩), hnew.1⟩
    · obtain ⟨meeting, hm, hid⟩ := h.keyed meet_id m hm
      exact ⟨meeting, getElem?_snoc_some.mpr (Or.inr hm), hid⟩
  · intro m o ho
    rcases (hholds m o).mp ho with ⟨rfl, -⟩ | ho
    · exact ⟨new, getElem?_snoc_some.mpr (Or.inl ⟨rfl, rfl⟩), hnew.2⟩
    · obtain ⟨meeting, hm, hstop⟩ := h.held m o ho
      exact ⟨meeting, getElem?_snoc_some.mpr (Or.inr hm), hstop⟩
  · intro m o o' ho ho'
    rcases (hholds m o).mp ho with ⟨hm, rfl⟩ | ho <;> rcases (hholds m o').mp ho' with ⟨hm', rfl⟩ | ho'
    · rfl
    · exact absurd hm (hlt m o' ho').ne
    · exact absurd hm' (hlt m o ho).ne
    · exact h.unique m o o' ho ho'
  · intro m meeting hm hstop
    rcases getElem?_snoc_some.mp hm with ⟨rfl, -⟩ | hm
    · exact ⟨_, (hholds _ _).mpr (Or.inl ⟨rfl, rfl⟩)⟩
    · obtain ⟨o, ho⟩ := h.live m meeting hm hstop
      exact ⟨o, (hholds m o).mpr (Or.inr ho)⟩
  · intro m meeting hm hstop
    rcases getElem?_snoc_some.mp hm with ⟨-, rfl⟩ | hm
    · rw [hnew.2] at hstop
      cases hstop
    · exact h.stopped m meeting hm hstop

/-- The destroy holds the meeting that it takes from the registry. -/
theorem MeetingsInv.unregistered (h : MeetingsInv s) {i m : Nat} {meet_id : Bytes}
    (hpc : s.requests[i]? = some (.destroyLookup meet_id)) (hm : s.meetings_[meet_id]? = some m) :
    MeetingsInv
      { s with meetings_ := s.meetings_.erase meet_id, requests := s.requests.set i (.destroyPorts m) } := by
  have hold : Holds s m (.key meet_id) := hm
  have hholds : ∀ k o, Holds
      { s with meetings_ := s.meetings_.erase meet_id, requests := s.requests.set i (.destroyPorts m) } k o ↔
      (k = m ∧ o = .request i) ∨ (k ≠ m ∧ Holds s k o) := by
    intro k o
    cases o with
    | key meet_id' =>
      simp only [Holds, getElem?_eraseId_some, reduceCtorEq, and_false, false_or, and_congr_left_iff]
      intro hk
      constructor
      · rintro hne rfl
        exact hne (Holder.key.inj (h.unique k _ _ hk hold))
      · rintro hne rfl
        exact hne (Option.some.inj (hk.symm.trans hm))
    | request j =>
      have hj : ∀ k, Holds s k (.request i) → False := by
        rintro k ⟨pc, hpc', hd⟩
        obtain rfl := Option.some.inj (hpc.symm.trans hpc')
        cases hd
      have hgo : Holds { s with requests := s.requests.set i (.destroyPorts m) } k (.request j) ↔
          (Holder.request j = .request i ∧ (ReqPc.destroyPorts m).destroys = some k) ∨
            (Holder.request j ≠ .request i ∧ Holds s k (.request j)) :=
        holds_of_goes (goes_set hpc rfl) rfl
      refine Iff.trans (by simp [Holds]) (hgo.trans ?_)
      simp only [ReqPc.destroys, Option.some.injEq]
      constructor
      · rintro (⟨ho, rfl⟩ | ⟨hne, hk⟩)
        · exact Or.inl ⟨rfl, ho⟩
        · refine Or.inr ⟨?_, hk⟩
          rintro rfl
          cases h.unique k _ _ hk hold
      · rintro (⟨rfl, ho⟩ | ⟨hne, hk⟩)
        · exact Or.inl ⟨ho, rfl⟩
        · exact Or.inr ⟨fun ho => hj k (ho ▸ hk), hk⟩
  constructor
  · intro meet_id' k hk
    exact h.keyed meet_id' k (getElem?_eraseId_some.mp hk).2
  · intro k o ho
    rcases (hholds k o).mp ho with ⟨rfl, -⟩ | ⟨-, ho⟩
    · exact h.held k _ hold
    · exact h.held k o ho
  · intro k o o' ho ho'
    rcases (hholds k o).mp ho with ⟨rfl, rfl⟩ | ⟨hne, ho⟩ <;> rcases (hholds k o').mp ho' with ⟨hk, rfl⟩ | ⟨hne', ho'⟩
    · rfl
    · exact absurd rfl hne'
    · exact absurd hk hne
    · exact h.unique k o o' ho ho'
  · intro k meeting hk hstop
    by_cases hkm : k = m
    · exact ⟨_, (hholds k _).mpr (Or.inl ⟨hkm, rfl⟩)⟩
    · obtain ⟨o, ho⟩ := h.live k meeting hk hstop
      exact ⟨o, (hholds k o).mpr (Or.inr ⟨hkm, ho⟩)⟩
  · exact h.stopped

/-- Nobody holds a meeting any more that was stopped. -/
theorem MeetingsInv.stops (h : MeetingsInv s) {i m : Nat} {meeting : Meeting} {ports : List UInt16}
    (hpc : s.requests[i]? = some (.destroySection m ports)) (hm : s.objects[m]? = some meeting) :
    MeetingsInv
      { s with objects := s.objects.set m meeting.stopSection, requests := s.requests.set i (.destroyRelease ports) } := by
  have hold : Holds s m (.request i) := ⟨_, hpc, rfl⟩
  have hholds : ∀ k o, Holds
      { s with objects := s.objects.set m meeting.stopSection, requests := s.requests.set i (.destroyRelease ports) } k o ↔
      k ≠ m ∧ Holds s k o := by
    intro k o
    refine Iff.trans (holds_of_goes (goes_set hpc rfl) rfl) ?_
    simp only [ReqPc.destroys, reduceCtorEq, and_false, false_or, and_congr_left_iff]
    intro hk
    constructor
    · rintro hne rfl
      exact hne (h.unique k _ _ hk hold)
    · rintro hne rfl
      obtain ⟨pc, hpc', hd⟩ := hk
      obtain rfl := Option.some.inj (hpc.symm.trans hpc')
      exact hne (Option.some.inj hd).symm
  have hobj : ∀ (k : Nat) (x : Meeting), (s.objects.set m meeting.stopSection)[k]? = some x ↔
      (k = m ∧ x = meeting.stopSection) ∨ (k ≠ m ∧ s.objects[k]? = some x) :=
    fun k x => getElem?_set_some hm
  constructor
  · intro meet_id k hk
    have hne : k ≠ m := ((hholds k (.key meet_id)).mp hk).1
    obtain ⟨x, hx, hid⟩ := h.keyed meet_id k hk
    exact ⟨x, (hobj k x).mpr (Or.inr ⟨hne, hx⟩), hid⟩
  · intro k o ho
    obtain ⟨hne, ho⟩ := (hholds k o).mp ho
    obtain ⟨x, hx, hstop⟩ := h.held k o ho
    exact ⟨x, (hobj k x).mpr (Or.inr ⟨hne, hx⟩), hstop⟩
  · exact fun k o o' ho ho' => h.unique k o o' ((hholds k o).mp ho).2 ((hholds k o').mp ho').2
  · intro k x hx hstop
    rcases (hobj k x).mp hx with ⟨rfl, rfl⟩ | ⟨hne, hx⟩
    · cases hstop
    · obtain ⟨o, ho⟩ := h.live k x hx hstop
      exact ⟨o, (hholds k o).mpr ⟨hne, ho⟩⟩
  · intro k x hx hstop
    rcases (hobj k x).mp hx with ⟨rfl, rfl⟩ | ⟨hne, hx⟩
    · exact ⟨rfl, rfl⟩
    · exact h.stopped k x hx hstop

/-! ### The invariant along a run -/

theorem MeetingsInv.step (h : MeetingsInv s) (hd : Does s a t es) (hok : FreshIds s a) : MeetingsInv t := by
  cases hd with
  | received hq _ =>
    refine h.same (alikeAll_of_objects rfl) rfl fun m o => ?_
    refine Iff.trans (holds_of_goes (goes_snoc rfl) rfl) ?_
    rw [hq.destroys]
    simp only [reduceCtorEq, and_false, false_or, and_iff_right_iff_imp]
    rintro hm rfl
    obtain ⟨pc, hpc, -⟩ := hm
    exact (List.getElem?_eq_some_iff.mp hpc).1.false
  | created hpc _ =>
    refine h.created hpc ?_
    simpa only [FreshIds, hpc] using hok
  | moved hpc hq hq' _ =>
    exact h.same (alikeAll_of_objects rfl) rfl fun m o => holds_same hpc rfl rfl (hq'.destroys.trans hq.destroys.symm)
  | allocated hpc _ => exact h.same (alikeAll_of_objects rfl) rfl fun m o => holds_same hpc rfl rfl rfl
  | crashed _ _ _ => exact h.same (alikeAll_of_objects rfl) rfl fun m o => Iff.rfl
  | refused hpc _ _ => exact h.same (alikeAll_of_objects rfl) rfl fun m o => holds_same hpc rfl rfl rfl
  | added hpc hm hadd _ =>
    rw [addTo_eq] at hadd
    obtain ⟨slot, -, hjoin, -⟩ := Meeting.add_joins hadd
    refine h.same (alikeAll_set hm rfl ?_) rfl fun m o => holds_same hpc rfl rfl rfl
    rw [hjoin.eq]
    refine ⟨rfl, rfl, fun _ hempty => ?_⟩
    exact absurd (hempty.1.symm.trans hjoin.conf_) Bool.false_ne_true
  | addReleased hpc hq _ =>
    exact h.same (alikeAll_of_objects rfl) rfl fun m o => holds_same hpc rfl rfl hq.destroys
  | unregistered hpc hm => exact h.unregistered hpc hm
  | collected hpc _ => exact h.same (alikeAll_of_objects rfl) rfl fun m o => holds_same hpc rfl rfl rfl
  | clockStopped hpc hm =>
    exact h.same (alikeAll_set hm rfl ⟨rfl, rfl, fun _ hempty => hempty⟩) rfl fun m o => holds_same hpc rfl rfl rfl
  | stopped hpc hm => exact h.stops hpc hm
  | destroyReleased hpc => exact h.same (alikeAll_of_objects rfl) rfl fun m o => holds_same hpc rfl rfl rfl
  | destroyed hpc _ => exact h.same (alikeAll_of_objects rfl) rfl fun m o => holds_same hpc rfl rfl rfl
  | removed hpc hm hq hpc' _ =>
    refine h.same (alikeAll_set hm rfl ⟨rfl, rfl, fun _ hempty => ⟨hempty.1, ?_⟩⟩) rfl fun m o => holds_same hpc rfl rfl ?_
    · simp only [hempty.2, Std.ExtTreeMap.erase_empty]
    · subst hpc'
      split <;> rfl
  | deleteReleased hpc _ => exact h.same (alikeAll_of_objects rfl) rfl fun m o => holds_same hpc rfl rfl rfl

theorem run_meetingsInv {base count : UInt16} {tr : List ServerEvent} (h : (machine base count).Run FreshIds tr s) :
    MeetingsInv s := by
  refine h.invariant (I := fun _ s => MeetingsInv s) (fun s hs => ?_)
    fun _ _ _ _ _ hinv hok hs => hinv.step (step_does hs).2 hok
  obtain ⟨listen_ip, rfl⟩ := hs
  have hnone : ∀ m o, ¬ Holds { listen_ip_ := listen_ip, port_allocator_ := .new base count } m o := by
    rintro m (meet_id | i)
    · simp [Holds]
    · simp [Holds]
  exact ⟨by simp, fun m o ho => absurd ho (hnone m o), fun m o _ ho => absurd ho (hnone m o), nofun, nofun⟩

end Steps
end AudioMeet.Server
