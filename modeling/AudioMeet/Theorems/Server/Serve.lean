import AudioMeet.Theorems.Server.PortUse

/-! A request that runs alone to its end. -/

namespace AudioMeet.Server
open Lib Machine

/-- Request `i` runs alone to its end, or until the process crashes. Each field of `ans` answers what the handler
    asks from outside, once. -/
inductive Finishes (i : Nat) (ans : Answer) : Server → Server → List ServerEvent → Prop
  | done {s : Server} : s.requests[i]? = some .done ∨ s.crashed = true → Finishes i ans s s []
  | step {s t u : Server} {es es' : List ServerEvent} :
      s.step (.go i ans) = some (t, es) → Finishes i ans t u es' → Finishes i ans s u (es ++ es')

/-- The request is received in `s` and runs alone to its end. -/
def Serves (s : Server) (req : Request) (ans : Answer) (t : Server) (es : List ServerEvent) : Prop :=
  ∃ u es₁ es₂, s.step (.receive req) = some (u, es₁) ∧ Finishes s.requests.length ans u t es₂ ∧ es = es₁ ++ es₂

section Runs
variable {s t t' u : Server} {i : Nat} {ans : Answer} {es es' : List ServerEvent} {req : Request} {base count : UInt16}

theorem step_none (h : s.requests[i]? = some .done ∨ s.crashed = true) : s.step (.go i ans) = none := by
  unfold step
  split
  · rfl
  · rename_i hc
    rcases h with h | h
    · simp [h, goOn]
    · exact absurd h hc

theorem Finishes.unique (h : Finishes i ans s t es) (h' : Finishes i ans s t' es') : t' = t ∧ es' = es := by
  induction h generalizing t' es' with
  | done hd =>
    cases h' with
    | done _ => exact ⟨rfl, rfl⟩
    | step hs _ =>
      rw [step_none hd] at hs
      cases hs
  | step hs _ ih =>
    cases h' with
    | done hd =>
      rw [step_none hd] at hs
      cases hs
    | step hs' hrest =>
      obtain ⟨rfl, rfl⟩ := Prod.mk.inj (Option.some.inj (hs.symm.trans hs'))
      obtain ⟨rfl, rfl⟩ := ih hrest
      exact ⟨rfl, rfl⟩

/-- The answers from outside decide how a request ends. -/
theorem Serves.unique (h : Serves s req ans t es) (h' : Serves s req ans t' es') : t' = t ∧ es' = es := by
  obtain ⟨u, es₁, es₂, hs, hf, rfl⟩ := h
  obtain ⟨u', es₁', es₂', hs', hf', rfl⟩ := h'
  obtain ⟨rfl, rfl⟩ := Prod.mk.inj (Option.some.inj (hs.symm.trans hs'))
  obtain ⟨rfl, rfl⟩ := hf.unique hf'
  exact ⟨rfl, rfl⟩

theorem finishes_of_exec {n : Nat} (h : (machine base count).exec s (List.replicate n (.go i ans)) = some (t, es))
    (hend : t.requests[i]? = some .done ∨ t.crashed = true) : Finishes i ans s t es := by
  induction n generalizing s es with
  | zero =>
    obtain ⟨rfl, rfl⟩ := Prod.mk.inj (Option.some.inj h)
    exact .done hend
  | succ n ih =>
    obtain ⟨⟨u, es₁⟩, hs, h⟩ := Option.bind_eq_some_iff.mp h
    obtain ⟨⟨t', es₂⟩, hrest, h⟩ := Option.bind_eq_some_iff.mp h
    obtain ⟨rfl, rfl⟩ := Prod.mk.inj (Option.some.inj h)
    exact .step hs (ih hrest)

/-- A replay of a request and its sections serves it. -/
theorem serves_of_exec {n : Nat} (h : (machine base count).exec s (request s.requests.length req n ans) = some (t, es))
    (hend : t.requests[s.requests.length]? = some .done ∨ t.crashed = true) : Serves s req ans t es := by
  obtain ⟨⟨u, es₁⟩, hs, h⟩ := Option.bind_eq_some_iff.mp h
  obtain ⟨⟨t', es₂⟩, hrest, h⟩ := Option.bind_eq_some_iff.mp h
  obtain ⟨rfl, rfl⟩ := Prod.mk.inj (Option.some.inj h)
  exact ⟨u, es₁, es₂, hs, finishes_of_exec hrest hend, rfl⟩

/-! ### The state while the last request runs -/

/-- The last request stands at `pc`. -/
def withRequest (s : Server) (pc : ReqPc) : Server := { s with requests := s.requests ++ [pc] }

theorem getElem?_withRequest (s : Server) (pc : ReqPc) : (s.withRequest pc).requests[s.requests.length]? = some pc := by
  simp [withRequest]

theorem set_withRequest (s : Server) (pc pc' : ReqPc) :
    (s.withRequest pc).requests.set s.requests.length pc' = (s.withRequest pc').requests := by
  simp [withRequest]

theorem goto_withRequest (s : Server) (pc pc' : ReqPc) :
    (s.withRequest pc).goto s.requests.length pc' = (s.withRequest pc', []) := by
  simp [goto, withRequest]

theorem finish_withRequest (s : Server) (pc : ReqPc) (json : Json) :
    (s.withRequest pc).finish s.requests.length json =
      (s.withRequest .done, [.responded s.requests.length (respond json)]) := by
  simp [finish, withRequest]

theorem receive_finishes (hc : s.crashed = false) {pc : ReqPc} (hv : validate req = .inl pc)
    (h : Finishes s.requests.length ans (s.withRequest pc) t es) : Serves s req ans t es :=
  ⟨s.withRequest pc, [], es, by simp [step, hc, receive, hv, withRequest], h, rfl⟩

theorem receive_refuses (hc : s.crashed = false) {json : Json} (hv : validate req = .inr json) :
    Serves s req ans (s.withRequest .done) [.responded s.requests.length (respond json)] :=
  ⟨s.withRequest .done, [.responded s.requests.length (respond json)], [],
    by simp [step, hc, receive, hv, withRequest], .done (Or.inl (getElem?_withRequest s .done)), rfl⟩

/-- One section of the last request. -/
theorem go_finishes {pc : ReqPc} (es : List ServerEvent) (hc : s.crashed = false)
    (hgo : (s.withRequest pc).goOn s.requests.length ans pc = some (t, es))
    (h : Finishes s.requests.length ans t u es') : Finishes s.requests.length ans (s.withRequest pc) u (es ++ es') := by
  refine .step ?_ h
  have hc' : (s.withRequest pc).crashed = false := hc
  simp only [step, hc', Bool.false_eq_true, if_false, getElem?_withRequest, Option.bind_eq_bind, Option.bind_some, hgo]

/-- The last section of the last request. -/
theorem go_ends {pc : ReqPc} (hc : s.crashed = false)
    (hgo : (s.withRequest pc).goOn s.requests.length ans pc = some (t, es))
    (hdone : t.requests[s.requests.length]? = some .done ∨ t.crashed = true) :
    Finishes s.requests.length ans (s.withRequest pc) t es := by
  simpa using go_finishes es hc hgo (.done hdone)

/-! ### How an add ends -/

/-- What the handler answers when the section added nothing. -/
def refusal (meeting : Meeting) (part : NewPart) : Json :=
  match part.remote with
  | none => body 2 "partId already exists" .null
  | some _ =>
    match meeting.get_participant part.part_id with
    | some _ => body 2 "partId already exists" .null
    | none => body 5 "startSplit failed" .null

/-- The ends of an add of `part` to the meeting `meet_id`. -/
inductive AddEnds (s : Server) (meet_id : Bytes) (part : NewPart) (ans : Answer) : Server → List ServerEvent → Prop
  | unknown : s.meetings_[meet_id]? = none →
      AddEnds s meet_id part ans (s.withRequest .done)
        [.responded s.requests.length (respond (body 1 "meetId not found" .null))]
  | noPort {m : Nat} : s.meetings_[meet_id]? = some m →
      s.port_allocator_.allocate ans.is_port_available = (s.port_allocator_, none) →
      AddEnds s meet_id part ans (s.withRequest .done)
        [.responded s.requests.length (respond (body 3 "no ports available" .null))]
  | crashed {m port : Nat} {meeting : Meeting} {alloc : PortAllocator} {calls : List AddCall} :
      s.meetings_[meet_id]? = some m → s.port_allocator_.allocate ans.is_port_available = (alloc, some port) →
      s.objects[m]? = some meeting → addTo meeting part port ans.add = (.crashed, calls) →
      AddEnds s meet_id part ans
        { s.withRequest (.addSection m part port) with port_allocator_ := alloc, crashed := true }
        [.add s.requests.length m calls false]
  | refused {m port : Nat} {meeting : Meeting} {alloc : PortAllocator} {calls : List AddCall} :
      s.meetings_[meet_id]? = some m → s.port_allocator_.allocate ans.is_port_available = (alloc, some port) →
      s.objects[m]? = some meeting → addTo meeting part port ans.add = (.nullptr, calls) →
      AddEnds s meet_id part ans
        { s.withRequest .done with port_allocator_ := alloc.release (UInt16.ofNat port) }
        [.add s.requests.length m calls false, .responded s.requests.length (respond (refusal meeting part))]
  | added {m port : Nat} {meeting meeting' : Meeting} {alloc : PortAllocator} {calls : List AddCall} :
      s.meetings_[meet_id]? = some m → s.port_allocator_.allocate ans.is_port_available = (alloc, some port) →
      s.objects[m]? = some meeting → addTo meeting part port ans.add = (.added meeting', calls) →
      AddEnds s meet_id part ans
        { s.withRequest .done with port_allocator_ := alloc, objects := s.objects.set m meeting' }
        [.add s.requests.length m calls true, .responded s.requests.length (respond (s.success part port))]

theorem refusal_finishes {m port : Nat} {meeting : Meeting} {part : NewPart} (hc : s.crashed = false)
    (hm : s.objects[m]? = some meeting) :
    Finishes s.requests.length ans (s.withRequest (.addRelease m part port))
      { s.withRequest .done with port_allocator_ := s.port_allocator_.release (UInt16.ofNat port) }
      [.responded s.requests.length (respond (refusal meeting part))] := by
  obtain ⟨part_id, remote⟩ := part
  cases remote with
  | none =>
    refine go_ends hc ?_ (Or.inl (getElem?_withRequest s .done))
    simp only [goOn, addRelease, releasePort, finish, refusal]
    rw [set_withRequest]
    rfl
  | some remote =>
    refine go_finishes [] (t := (s.releasePort (UInt16.ofNat port)).withRequest (.addExisting m part_id)) hc ?_ ?_
    · simp only [goOn, addRelease, releasePort, goto]
      rw [set_withRequest]
      rfl
    · have hm' : ((s.releasePort (UInt16.ofNat port)).withRequest (.addExisting m part_id)).objects[m]? = some meeting := hm
      refine go_ends (s := s.releasePort (UInt16.ofNat port)) hc ?_ (Or.inl (getElem?_withRequest s .done))
      simp only [goOn, hm', Option.bind_eq_bind, Option.bind_some, addExisting, refusal]
      cases meeting.get_participant part_id <;> exact congrArg some (finish_withRequest _ _ _)

section AddSection
variable {m port : Nat} {meeting : Meeting} {part : NewPart} {calls : List AddCall}

theorem crash_finishes (hc : s.crashed = false) (hm : s.objects[m]? = some meeting)
    (hadd : addTo meeting part port ans.add = (.crashed, calls)) :
    Finishes s.requests.length ans (s.withRequest (.addSection m part port))
      { s.withRequest (.addSection m part port) with crashed := true } [.add s.requests.length m calls false] := by
  have hm' : (s.withRequest (.addSection m part port)).objects[m]? = some meeting := hm
  refine go_ends hc ?_ (Or.inr rfl)
  simp only [goOn, hm', Option.bind_eq_bind, Option.bind_some, addSection, hadd]

theorem refuse_finishes (hc : s.crashed = false) (hm : s.objects[m]? = some meeting)
    (hadd : addTo meeting part port ans.add = (.nullptr, calls)) :
    Finishes s.requests.length ans (s.withRequest (.addSection m part port))
      { s.withRequest .done with port_allocator_ := s.port_allocator_.release (UInt16.ofNat port) }
      [.add s.requests.length m calls false, .responded s.requests.length (respond (refusal meeting part))] := by
  have hm' : (s.withRequest (.addSection m part port)).objects[m]? = some meeting := hm
  refine go_finishes [.add s.requests.length m calls false] hc ?_ (refusal_finishes hc hm)
  simp only [goOn, hm', Option.bind_eq_bind, Option.bind_some, addSection, hadd]
  rw [set_withRequest]
  rfl

theorem join_finishes {meeting' : Meeting} (hc : s.crashed = false) (hm : s.objects[m]? = some meeting)
    (hadd : addTo meeting part port ans.add = (.added meeting', calls)) :
    Finishes s.requests.length ans (s.withRequest (.addSection m part port))
      { s.withRequest .done with objects := s.objects.set m meeting' }
      [.add s.requests.length m calls true, .responded s.requests.length (respond (s.success part port))] := by
  have hm' : (s.withRequest (.addSection m part port)).objects[m]? = some meeting := hm
  refine go_ends hc ?_ (Or.inl (getElem?_withRequest s .done))
  simp only [goOn, hm', Option.bind_eq_bind, Option.bind_some, addSection, hadd, finish]
  rw [set_withRequest]
  rfl

end AddSection

/-- An add that runs alone ends in one of these ways. -/
theorem serves_add (ans : Answer) {meet_id : Bytes} {part : NewPart} (hc : s.crashed = false)
    (hobj : ∀ m, s.meetings_[meet_id]? = some m → ∃ meeting, s.objects[m]? = some meeting)
    (hv : validate req = .inl (.addLookup meet_id part)) :
    ∃ t es, Serves s req ans t es ∧ AddEnds s meet_id part ans t es := by
  cases hm : s.meetings_[meet_id]? with
  | none =>
    refine ⟨_, _, receive_finishes hc hv (go_ends hc ?_ (Or.inl (getElem?_withRequest s .done))), .unknown hm⟩
    have hm' : (s.withRequest (.addLookup meet_id part)).meetings_[meet_id]? = none := hm
    simp only [goOn, get_meeting, hm', finish_withRequest]
  | some m =>
    have hm' : (s.withRequest (.addLookup meet_id part)).meetings_[meet_id]? = some m := hm
    have hlookup : ∀ {t es}, Finishes s.requests.length ans (s.withRequest (.addAllocate m part)) t es →
        Serves s req ans t es := by
      intro t es h
      refine receive_finishes hc hv (go_finishes [] hc ?_ h)
      simp only [goOn, get_meeting, hm', goto_withRequest]
    obtain ⟨meeting, hmeeting⟩ := hobj m hm
    cases halloc : s.port_allocator_.allocate ans.is_port_available with
    | mk alloc r =>
      have halloc' : (s.withRequest (.addAllocate m part)).port_allocator_.allocate ans.is_port_available =
        (alloc, r) := halloc
      cases r with
      | none =>
        have heq : alloc = s.port_allocator_ := by
          rcases PortAllocator.allocate_cases halloc with ⟨h, -⟩ | ⟨_, -, -, -, hr⟩
          · exact h
          · cases hr
        subst heq
        refine ⟨_, _, hlookup (go_ends hc ?_ (Or.inl (getElem?_withRequest s .done))), .noPort hm halloc⟩
        simp only [goOn, allocatePort, halloc']
        exact congrArg some (finish_withRequest s _ _)
      | some port =>
        have hallocate : ∀ {t es}, Finishes s.requests.length ans
            ({ s with port_allocator_ := alloc }.withRequest (.addSection m part port)) t es → Serves s req ans t es := by
          intro t es h
          refine hlookup (go_finishes [] hc ?_ h)
          simp only [goOn, allocatePort, halloc']
          exact congrArg some (goto_withRequest { s with port_allocator_ := alloc } _ _)
        cases hadd : addTo meeting part port ans.add with
        | mk result calls =>
          have hc' : { s with port_allocator_ := alloc }.crashed = false := hc
          cases result with
          | crashed => exact ⟨_, _, hallocate (crash_finishes hc' hmeeting hadd), .crashed hm halloc hmeeting hadd⟩
          | nullptr => exact ⟨_, _, hallocate (refuse_finishes hc' hmeeting hadd), .refused hm halloc hmeeting hadd⟩
          | added meeting' => exact ⟨_, _, hallocate (join_finishes hc' hmeeting hadd), .added hm halloc hmeeting hadd⟩

/-! ### How a create, a delete and a destroy end -/

/-- The last request goes on from `pc` alone, to its end in `u`. -/
def Reaches (s : Server) (pc : ReqPc) (ans : Answer) (u : Server) : Prop :=
  ∃ es, Finishes s.requests.length ans (s.withRequest pc) u es

section Reaching
variable {pc : ReqPc} (s' : Server) (pc' : ReqPc)

/-- A section that takes the state without the request to `s'`. -/
theorem Reaches.go (hc : s.crashed = false) (hreqs : s'.requests = s.requests)
    (hgo : ((s.withRequest pc).goOn s.requests.length ans pc).map Prod.fst = some (s'.withRequest pc'))
    (h : Reaches s' pc' ans u) : Reaches s pc ans u := by
  obtain ⟨⟨t, es⟩, hgo, rfl⟩ := Option.map_eq_some_iff.mp hgo
  obtain ⟨es', h⟩ := h
  rw [hreqs] at h
  exact ⟨es ++ es', go_finishes es hc hgo h⟩

/-- The last section. -/
theorem Reaches.last (hc : s.crashed = false) (hreqs : s'.requests = s.requests)
    (hgo : ((s.withRequest pc).goOn s.requests.length ans pc).map Prod.fst = some (s'.withRequest .done)) :
    Reaches s pc ans (s'.withRequest .done) :=
  .go s' .done hc hreqs hgo ⟨[], .done (Or.inl (getElem?_withRequest s' .done))⟩

theorem Reaches.serves (hc : s.crashed = false) (hv : validate req = .inl pc) (h : Reaches s pc ans u) :
    ∃ es, Serves s req ans u es := h.imp fun _ => receive_finishes hc hv

/-- `goto` and `finish` in a section that takes the rest of the state to `s'`. -/
theorem goto_reaches {pc' : ReqPc} (hreqs : s'.requests = s.requests) :
    (some ((s'.withRequest pc).goto s.requests.length pc')).map Prod.fst = some (s'.withRequest pc') := by
  rw [← hreqs, goto_withRequest]
  rfl

theorem finish_reaches (hreqs : s'.requests = s.requests) (json : Json) :
    (some ((s'.withRequest pc).finish s.requests.length json)).map Prod.fst = some (s'.withRequest .done) := by
  rw [← hreqs, finish_withRequest]
  rfl

theorem serves_create (ans : Answer) (hc : s.crashed = false) :
    ∃ es, Serves s .createAudioMeet ans (({ s with
      objects := s.objects ++ [Meeting.new (hexId ans.random) ans.pool ans.conf ans.clock]
      meetings_ := s.meetings_.insert (hexId ans.random) s.objects.length }).withRequest .done) es := by
  refine Reaches.serves hc (show validate .createAudioMeet = .inl .create from rfl) (.last _ hc rfl ?_)
  exact finish_reaches { s with
    objects := s.objects ++ [Meeting.new (hexId ans.random) ans.pool ans.conf ans.clock]
    meetings_ := s.meetings_.insert (hexId ans.random) s.objects.length } rfl _

/-- A delete that finds its participant, with a port. -/
theorem serves_delete (ans : Answer) {meet_id part_id : Bytes} {m slot : Nat} {meeting : Meeting} {q : Participant} (hc : s.crashed = false)
    (hm : s.meetings_[meet_id]? = some m) (hobj : s.objects[m]? = some meeting)
    (hq : meeting.participants_[part_id]? = some (q, slot)) (hport : q.port_ ≠ 0)
    (hv : validate req = .inl (.deleteLookup meet_id part_id)) :
    ∃ es, Serves s req ans (({ s with
      objects := s.objects.set m { meeting with participants_ := meeting.participants_.erase part_id }
      port_allocator_ := s.port_allocator_.release q.port_ }).withRequest .done) es := by
  have hpos : 0 < q.port_ := UInt16.pos_iff_ne_zero.mpr hport
  have hget : meeting.get_participant part_id = some q := by rw [Meeting.get_participant, hq]; rfl
  have hm' : ∀ pc, (s.withRequest pc).meetings_[meet_id]? = some m := fun _ => hm
  have hobj' : ∀ pc, (s.withRequest pc).objects[m]? = some meeting := fun _ => hobj
  refine Reaches.serves hc hv (.go s (.deleteGet m meet_id part_id) hc rfl ?_ (.go s (.deleteAgain meet_id part_id) hc rfl ?_
    (.go s (.deleteSection m part_id) hc rfl ?_ (.go { s with
      objects := s.objects.set m { meeting with participants_ := meeting.participants_.erase part_id } }
      (.deleteRelease q.port_) hc rfl ?_ (.last _ hc rfl ?_)))))
  · simp only [goOn, get_meeting, hm']
    exact goto_reaches _ rfl
  · simp only [goOn, hobj', Option.bind_eq_bind, Option.bind_some, deleteGet, hget]
    exact goto_reaches _ rfl
  · simp only [goOn, deleteAgain, hm']
    exact goto_reaches _ rfl
  · simp only [goOn, hobj', Option.bind_eq_bind, Option.bind_some, deleteSection, Meeting.remove_participant, hq, if_pos hpos]
    exact goto_reaches { s with
      objects := s.objects.set m { meeting with participants_ := meeting.participants_.erase part_id } } rfl
  · exact finish_reaches { s with
      objects := s.objects.set m { meeting with participants_ := meeting.participants_.erase part_id }
      port_allocator_ := s.port_allocator_.release q.port_ } rfl _

theorem reaches_release (ports : List UInt16) (hc : s.crashed = false) :
    Reaches s (.destroyRelease ports) ans
      (({ s with port_allocator_ := ports.foldl PortAllocator.release s.port_allocator_ }).withRequest .done) := by
  induction ports generalizing s with
  | nil => exact .last s hc rfl (finish_reaches s rfl _)
  | cons port ports ih =>
    exact .go (s.releasePort port) (.destroyRelease ports) hc rfl (goto_reaches (s.releasePort port) rfl) (ih hc)

/-- A destroy that finds its meeting. -/
theorem serves_destroy (ans : Answer) {meet_id : Bytes} {m : Nat} {meeting : Meeting} (hc : s.crashed = false)
    (hm : s.meetings_[meet_id]? = some m) (hobj : s.objects[m]? = some meeting)
    (hv : validate req = .inl (.destroyLookup meet_id)) :
    ∃ es, Serves s req ans (({ s with
      meetings_ := s.meetings_.erase meet_id
      objects := (s.objects.set m meeting.stopClock).set m meeting.stopClock.stopSection
      port_allocator_ := meeting.participant_ports.foldl PortAllocator.release s.port_allocator_ }).withRequest .done) es := by
  have hlt := (List.getElem?_eq_some_iff.mp hobj).1
  refine Reaches.serves hc hv (.go { s with meetings_ := s.meetings_.erase meet_id } (.destroyPorts m) hc rfl ?_
    (.go { s with meetings_ := s.meetings_.erase meet_id } (.destroyClock m meeting.participant_ports) hc rfl ?_
    (.go { s with meetings_ := s.meetings_.erase meet_id, objects := s.objects.set m meeting.stopClock }
      (.destroySection m meeting.participant_ports) hc rfl ?_
    (.go { s with
      meetings_ := s.meetings_.erase meet_id
      objects := (s.objects.set m meeting.stopClock).set m meeting.stopClock.stopSection }
      (.destroyRelease meeting.participant_ports) hc rfl ?_ (reaches_release _ hc)))))
  · have hm' : (s.withRequest (.destroyLookup meet_id)).meetings_[meet_id]? = some m := hm
    simp only [goOn, destroyLookup, hm']
    exact goto_reaches { s with meetings_ := s.meetings_.erase meet_id } rfl
  · have hobj' : ({ s with meetings_ := s.meetings_.erase meet_id }.withRequest (.destroyPorts m)).objects[m]? =
      some meeting := hobj
    simp only [goOn, hobj', Option.bind_eq_bind, Option.bind_some]
    exact goto_reaches _ rfl
  · have hobj' : ({ s with meetings_ := s.meetings_.erase meet_id }.withRequest
      (.destroyClock m meeting.participant_ports)).objects[m]? = some meeting := hobj
    simp only [goOn, hobj', Option.bind_eq_bind, Option.bind_some]
    exact goto_reaches { s with
      meetings_ := s.meetings_.erase meet_id, objects := s.objects.set m meeting.stopClock } rfl
  · have hobj' : (({ s with
      meetings_ := s.meetings_.erase meet_id, objects := s.objects.set m meeting.stopClock }).withRequest
        (.destroySection m meeting.participant_ports)).objects[m]? = some meeting.stopClock := by
      simp only [withRequest, List.getElem?_set_self hlt]
    simp only [goOn, hobj', Option.bind_eq_bind, Option.bind_some, destroySection]
    rw [set_withRequest { s with meetings_ := s.meetings_.erase meet_id, objects := s.objects.set m meeting.stopClock }]
    rfl

end Reaching

end Runs
end AudioMeet.Server
