import AudioMeet.Callers
import AudioMeet.Theorems.Live.Bridge

/-! The calls on a live meeting are linearizable: whatever the order of their steps, they return what whole
    sections of `Meeting` return one after the other. -/

namespace AudioMeet.Live
open Lib Machine Linearizable

/-- The meeting as the coarser model sees it. -/
def Conference.meeting {B : Type} (c : Conference B) : Meeting :=
  { Meeting.new c.meet_id_ true true true with participants_ := c.participants_ }

/-! ### The operations -/

/-- What an operation does at once to a meeting and to its roster. -/
inductive Acts : Atomic (Meeting × Roster) Op Reply
  | added {m m' : Meeting} {x : Roster} {p : Participant} {ans : AddAnswer} : (m.add p ans).1 = .added m' →
      Acts (m, x) (.add p) (.participant (some p)) (m', x.put (.joined p.part_id_))
  | refused {m : Meeting} {x : Roster} {p : Participant} {ans : AddAnswer} : (m.add p ans).1 = .nullptr →
      Acts (m, x) (.add p) (.participant none) (m, x)
  | muted {m : Meeting} {x : Roster} {part_id : Bytes} {mute : Bool} : m.set_participant_mute part_id = true →
      Acts (m, x) (.set_participant_mute part_id mute) (.code 0) (m, x.put (.muted part_id mute))
  | unmuted {m : Meeting} {x : Roster} {part_id : Bytes} {mute : Bool} : m.set_participant_mute part_id = false →
      Acts (m, x) (.set_participant_mute part_id mute) (.code (-1)) (m, x)
  | removed {m m' : Meeting} {x : Roster} {part_id : Bytes} {port : UInt16} :
      m.remove_participant part_id = some (m', port) →
      Acts (m, x) (.remove_participant part_id) (.code port.toNat) (m', x.put (.left part_id))
  | missing {m : Meeting} {x : Roster} {part_id : Bytes} : m.remove_participant part_id = none →
      Acts (m, x) (.remove_participant part_id) (.code (-1)) (m, x)
  | read {m : Meeting} {x : Roster} {q : Query} : Acts (m, x) (.query q) (q.ask m.participants_) (m, x)

/-- A call that did not take effect is where the operation it was asked for leads. -/
def CallPc.Serves (op : Op) : CallPc → Prop
  | .addLock p | .addCount p | .addStart p | .addMediaPort p | .addConfLock p | .addPort p
  | .addConfUnlock p (some _) | .addConnect p _ _ | .addConnectBack p _ _ _ => op = .add p
  | .muteLock part_id mute | .muteFind part_id mute | .muteConfLock part_id mute _ | .muteAdjust part_id mute _ =>
    op = .set_participant_mute part_id mute
  | .removeLock part_id | .removeFind part_id => op = .remove_participant part_id
  | _ => True

theorem CallPc.serves_of_reply {pc : CallPc} {r : Reply} (h : pc.reply = some r) (op : Op) : pc.Serves op := by
  cases pc with
  | addConfUnlock p new_slot =>
    cases new_slot
    · trivial
    · cases h
  | _ => trivial

theorem begin_serves (c : Call) (meet_id : Bytes) : (c.begin meet_id).Serves (c.op meet_id) := by cases c <;> rfl

theorem begin_reply (c : Call) (meet_id : Bytes) : (c.begin meet_id).reply = none := by cases c <;> rfl

namespace Conference
variable {B : Type} {P : Pjmedia B} {c c' : Conference B} {t : Thread} {ok : Bool} {pc pc' : CallPc} {es : List Event}
  {op : Op} {x : Roster}

/-- What a step is for its call: it takes effect, or its answer stays what it is. -/
inductive Settles (c : Conference B) (op : Op) (x : Roster) (pc : CallPc) (c' : Conference B) (pc' : CallPc)
    (es : List Event) : Prop
  | took {r : Reply} : pc.reply = none → pc'.reply = some r → pc'.isReturned = false →
      Acts (c.meeting, x) op r (c'.meeting, es.foldl Roster.put x) → Settles c op x pc c' pc' es
  | stays : pc.isReturned = false → pc'.reply = pc.reply → c'.meeting = c.meeting → es = [] → pc'.Serves op →
      Settles c op x pc c' pc' es

theorem contains_of_slot {part_id : Bytes} (h : c.slot part_id = none) : c.participants_.contains part_id = false := by
  rw [Std.ExtTreeMap.contains_eq_isSome_getElem?, Option.map_eq_none_iff.mp h, Option.isSome_none]

theorem add_refused {p : Participant} {ans : AddAnswer} (h : c.slot p.part_id_ = none)
    (hans : ans.started = false ∨ ans.media_port = false ∨ ans.slot = none) :
    (c.meeting.add p ans).1 = .nullptr := by
  unfold Meeting.add
  rw [show c.meeting.participants_ = c.participants_ from rfl, contains_of_slot h]
  obtain ⟨started, media_port, slot⟩ := ans
  cases started <;> cases media_port <;> cases slot <;> simp_all [meeting, Meeting.new]

theorem add_added {p : Participant} {n : Nat} (h : c.slot p.part_id_ = none) :
    (c.meeting.add p { started := true, media_port := true, slot := some n }).1 =
      .added { c.meeting with participants_ := c.participants_.insert p.part_id_ (p, n) } := by
  unfold Meeting.add
  rw [show c.meeting.participants_ = c.participants_ from rfl, contains_of_slot h]
  rfl

theorem go_settles (h : c.go P t ok pc = some (c', pc', es)) (hk : pc.Knows c.slot) (hs : pc.Serves op) :
    Settles c op x pc c' pc' es := by
  cases pc with
  | addLock p | muteLock part_id mute | removeLock part_id | addUnlock p | muteUnlock n =>
    obtain ⟨m, -, rfl, rfl, rfl⟩ := onParts_inv h
    exact .stays rfl rfl rfl rfl hs
  | removeUnlock p =>
    cases p <;> obtain ⟨m, -, rfl, rfl, rfl⟩ := onParts_inv h
    · exact .stays rfl rfl rfl rfl hs
    · exact .stays rfl rfl rfl rfl hs
  | addConfLock p | muteConfLock part_id mute slot | removeConfLock p slot | muteConfUnlock | removeConfUnlock p =>
    obtain ⟨m, -, rfl, rfl, rfl⟩ := onConf_inv h
    exact .stays rfl rfl rfl rfl hs
  | addConfUnlock p new_slot =>
    cases new_slot <;> obtain ⟨m, -, rfl, rfl, rfl⟩ := onConf_inv h
    · exact .stays rfl rfl rfl rfl trivial
    · exact .stays rfl rfl rfl rfl hs
  | addCount p =>
    cases h
    obtain rfl : op = .add p := hs
    split
    · next hc =>
      have hrefused : (c.meeting.add p ⟨true, true, none⟩).1 = .nullptr := by
        unfold Meeting.add
        rw [show c.meeting.participants_ = c.participants_ from rfl, hc]
        rfl
      exact .took rfl rfl rfl (.refused hrefused)
    · exact .stays rfl rfl rfl rfl rfl
  | addStart p =>
    cases h
    obtain rfl : op = .add p := hs
    cases ok
    · have hrefused : (c.meeting.add p ⟨false, true, none⟩).1 = .nullptr := add_refused hk (Or.inl rfl)
      exact .took rfl rfl rfl (.refused hrefused)
    · exact .stays rfl rfl rfl rfl rfl
  | addMediaPort p =>
    cases h
    obtain rfl : op = .add p := hs
    cases ok
    · have hrefused : (c.meeting.add p ⟨true, false, none⟩).1 = .nullptr := add_refused hk (Or.inr (Or.inl rfl))
      exact .took rfl rfl rfl (.refused hrefused)
    · exact .stays rfl rfl rfl rfl rfl
  | addPort p =>
    obtain rfl : op = .add p := hs
    rcases hadd : P.conf_add_port c.conf_ with ⟨b, _ | n⟩ <;> rw [go, hadd] at h <;> cases h
    · have hrefused : (c.meeting.add p ⟨true, true, none⟩).1 = .nullptr := add_refused hk (Or.inr (Or.inr rfl))
      exact .took rfl rfl rfl (.refused hrefused)
    · exact .stays rfl rfl rfl rfl rfl
  | addConnect p n existing =>
    obtain rfl : op = .add p := hs
    cases existing <;> cases h
    · exact .took rfl rfl rfl (.added (add_added hk.1))
    · exact .stays rfl rfl rfl rfl rfl
  | addConnectBack p n e existing =>
    cases h
    exact .stays rfl rfl rfl rfl hs
  | muteFind part_id mute =>
    obtain rfl : op = .set_participant_mute part_id mute := hs
    rcases hslot : c.slot part_id with _ | n <;> rw [go, hslot] at h <;> cases h
    · exact .took rfl rfl rfl (.unmuted (contains_of_slot hslot))
    · exact .stays rfl rfl rfl rfl rfl
  | muteAdjust part_id mute slot =>
    obtain rfl : op = .set_participant_mute part_id mute := hs
    cases h
    refine .took rfl rfl rfl (.muted ?_)
    show c.participants_.contains part_id = true
    obtain ⟨y, hy, -⟩ := Option.map_eq_some_iff.mp hk
    rw [Std.ExtTreeMap.contains_eq_isSome_getElem?, hy, Option.isSome_some]
  | removeFind part_id =>
    obtain rfl : op = .remove_participant part_id := hs
    rcases hfound : c.participants_[part_id]? with _ | ⟨p, slot⟩ <;> rw [go, hfound] at h <;> cases h
    · refine .took rfl rfl rfl (.missing ?_)
      rw [Meeting.remove_participant, show c.meeting.participants_ = c.participants_ from rfl, hfound]
    · have hremoved : c.meeting.remove_participant part_id =
          some ({ c.meeting with participants_ := c.participants_.erase part_id }, p.port_) := by
        rw [Meeting.remove_participant, show c.meeting.participants_ = c.participants_ from rfl, hfound]
      exact .took rfl rfl rfl (.removed hremoved)
  | removePort p slot | removeStop p =>
    cases h
    exact .stays rfl rfl rfl rfl trivial
  | returned r => cases h

end Conference

/-! ### The calls and their callers -/

/-- Where a call that was asked for `op` stands. -/
def CallPc.phase (pc : CallPc) (op : Op) : Phase Op Reply :=
  match pc.reply with
  | none => .pending op
  | some r => if pc.isReturned then .over op r else .effected op r

def QueryPc.phase : QueryPc → Phase Op Reply
  | .lock q => .pending (.query q)
  | .unlocked q r => .effected (.query q) r
  | .returned q r => .over (.query q) r

namespace Callers
variable {B : Type} {P : Pjmedia B} {s t : Callers B} {a : CallersAct} {tr es : List CallMoment} {o : Meeting × Roster}

def phase (s : Callers B) : CallId → Phase Op Reply
  | .call k => (s.session.calls[k]?.bind fun pc => s.asked[k]?.map pc.phase).getD .absent
  | .query j => (s.queries[j]?.map QueryPc.phase).getD .absent

theorem phase_call {k : Nat} {pc : CallPc} {op : Op} (hk : s.session.calls[k]? = some pc) (hop : s.asked[k]? = some op) :
    s.phase (.call k) = pc.phase op := by
  simp [phase, hk, hop]

theorem phase_query {j : Nat} {pc : QueryPc} (hj : s.queries[j]? = some pc) : s.phase (.query j) = pc.phase := by
  simp [phase, hj]

theorem phase_set {session : Session B} {k : Nat} {pc pc' : CallPc} {op : Op} (hk : s.session.calls[k]? = some pc)
    (hop : s.asked[k]? = some op) (hcalls : session.calls = s.session.calls.set k pc') :
    phase { s with session } = Function.update s.phase (.call k) (pc'.phase op) := by
  refine Function.eq_update_iff.mpr ⟨phase_call ?_ hop, fun id hid => ?_⟩
  · rw [hcalls, getElem?_set_some hk]
    exact Or.inl ⟨rfl, rfl⟩
  · cases id with
    | query j => rfl
    | call j =>
      have hj : k ≠ j := fun h => hid (h ▸ rfl)
      simp only [phase, hcalls, List.getElem?_set_ne hj]

theorem phase_set_query {j : Nat} {pc pc' : QueryPc} (hj : s.queries[j]? = some pc) :
    phase { s with queries := s.queries.set j pc' } = Function.update s.phase (.query j) pc'.phase := by
  refine Function.eq_update_iff.mpr ⟨phase_query ?_, fun id hid => ?_⟩
  · rw [getElem?_set_some hj]
    exact Or.inl ⟨rfl, rfl⟩
  · cases id with
    | call k => rfl
    | query i =>
      have hi : j ≠ i := fun h => hid (h ▸ rfl)
      simp only [phase, List.getElem?_set_ne hi]

theorem phase_snoc {session : Session B} {pc : CallPc} {op : Op} (hlen : s.asked.length = s.session.calls.length)
    (hcalls : session.calls = s.session.calls ++ [pc]) :
    phase { s with session, asked := s.asked ++ [op] } =
      Function.update s.phase (.call s.session.calls.length) (pc.phase op) := by
  refine Function.eq_update_iff.mpr ⟨phase_call (by simp [hcalls]) (by simp [← hlen]), fun id hid => ?_⟩
  cases id with
  | query j => rfl
  | call j =>
    have hj : j ≠ s.session.calls.length := fun h => hid (h ▸ rfl)
    simp only [phase, hcalls, getElem?_snoc_ne hj, getElem?_snoc_ne (hlen ▸ hj)]

theorem phase_snoc_query (s : Callers B) (pc : QueryPc) :
    phase { s with queries := s.queries ++ [pc] } = Function.update s.phase (.query s.queries.length) pc.phase := by
  refine Function.eq_update_iff.mpr ⟨phase_query (by simp), fun id hid => ?_⟩
  cases id with
  | call k => rfl
  | query i =>
    have hi : i ≠ s.queries.length := fun h => hid (h ▸ rfl)
    simp only [phase, getElem?_snoc_ne hi]

/-- The meeting and the roster are as the operations so far left them. -/
structure Along (P : Pjmedia B) (s : Callers B) (o : Meeting × Roster) : Prop where
  inv : Session.Inv P s.session o.2
  meeting : o.1 = s.session.conference.meeting
  length : s.asked.length = s.session.calls.length
  serves : ∀ (k : Nat) (pc : CallPc) (op : Op), s.session.calls[k]? = some pc → s.asked[k]? = some op → pc.Serves op

namespace Along

theorem init (h : (machine P).init s) :
    (∀ id, s.phase id = .absent) ∧ ∃ o : Meeting × Roster,
      (∃ meet_id, o = (Meeting.new meet_id true true true, fun _ => none)) ∧ Along P s o := by
  obtain ⟨session, hinit, rfl⟩ := h
  have hinv := Session.Inv.init hinit
  obtain ⟨meet_id, b, -, rfl⟩ := hinit
  refine ⟨fun id => by cases id <;> rfl, _, ⟨meet_id, rfl⟩, hinv, rfl, rfl, ?_⟩
  rintro k pc op hk
  simp at hk

theorem call (h : Along P s o) (c : Call) {session : Session B}
    (hs : session = { s.session with calls := s.session.calls ++ [c.begin s.session.conference.meet_id_] }) :
    Along P { s with session, asked := s.asked ++ [c.op s.session.conference.meet_id_] } o where
  inv := hs ▸ h.inv.call c
  meeting := hs ▸ h.meeting
  length := by simp [hs, h.length]
  serves k pc op hk hop := by
    rw [hs, getElem?_snoc_some] at hk
    rw [getElem?_snoc_some, h.length] at hop
    rcases hk with ⟨rfl, rfl⟩ | hk
    · rcases hop with ⟨-, rfl⟩ | hop
      · exact begin_serves c _
      · rw [List.getElem?_eq_none (Nat.le_of_eq h.length)] at hop
        cases hop
    · rcases hop with ⟨rfl, -⟩ | hop
      · rw [List.getElem?_eq_none (Nat.le_refl _)] at hk
        cases hk
      · exact h.serves k pc op hk hop

/-- A step of a call is at most one of its moments. -/
theorem go (hP : P.Lawful) (h : Along P s o) {k : Nat} {ok : Bool} {pc pc' : CallPc} {op : Op} {c : Conference B}
    {es : List Event} (hk : s.session.calls[k]? = some pc) (hop : s.asked[k]? = some op)
    (hgo : s.session.conference.go P (.call k) ok pc = some (c, pc', es)) {session : Session B}
    (hs : session = { s.session with conference := c, calls := s.session.calls.set k pc' }) :
    ∃ o', Advances Acts o s.phase (passes k op pc pc') (phase { s with session }) o' ∧ Along P { s with session } o' := by
  obtain ⟨y, hsteps, hinv⟩ := h.inv.go hP hk (Conference.go_does hgo)
  have hsettles := Conference.go_settles (x := o.2) hgo (h.inv.knows k pc hk) (h.serves k pc op hk hop)
  have hy := Roster.steps_eq hsteps
  have hphase : phase { s with session } = Function.update s.phase (.call k) (pc'.phase op) :=
    phase_set hk hop (congrArg Session.calls hs)
  have hserves (hpc : pc'.Serves op) : ∀ (j : Nat) (pcj : CallPc) (opj : Op), session.calls[j]? = some pcj →
      s.asked[j]? = some opj → pcj.Serves opj := by
    intro j pcj opj hj hopj
    rw [hs] at hj
    rcases (getElem?_set_some hk).mp hj with ⟨rfl, rfl⟩ | ⟨-, hj⟩
    · cases hop.symm.trans hopj
      exact hpc
    · exact h.serves j pcj opj hj hopj
  have hlength : s.asked.length = session.calls.length := by simp [hs, h.length]
  rw [hphase]
  cases hsettles with
  | @took r hnone hsome hret hacts =>
    refine ⟨(c.meeting, y), ?_, hs ▸ hinv, by rw [hs], hlength, hserves (CallPc.serves_of_reply hsome op)⟩
    have hbefore : s.phase (.call k) = .pending op := by rw [phase_call hk hop, CallPc.phase, hnone]
    have hafter : pc'.phase op = .effected op r := by simp [CallPc.phase, hsome, hret]
    rw [passes, hnone, hsome, hafter]
    exact .took hbefore (by rw [hy, ← h.meeting] at *; exact hacts)
  | stays hret hreply hmeeting hes hpc =>
    refine ⟨o, ?_, ?_, by rw [hs, h.meeting]; exact hmeeting.symm, hlength, hserves hpc⟩
    · rcases hr : pc.reply with _ | r
      · have hbefore : s.phase (.call k) = pc'.phase op := by
          rw [phase_call hk hop, CallPc.phase, CallPc.phase, hreply, hr]
        rw [passes, hreply, hr, ← hbefore, Function.update_eq_self]
        exact .stays
      · have hbefore : s.phase (.call k) = .effected op r := by simp [phase_call hk hop, CallPc.phase, hr, hret]
        cases hret' : pc'.isReturned
        · have hafter : pc'.phase op = s.phase (.call k) := by simp [hbefore, CallPc.phase, hreply, hr, hret']
          simp only [passes, hreply, hr, hret', hafter, Function.update_eq_self]
          exact .stays
        · have hafter : pc'.phase op = .over op r := by simp [CallPc.phase, hreply, hr, hret']
          simp only [passes, hreply, hr, hret', hafter]
          exact .returned hbefore
    · rw [hy, hes] at hinv
      exact hs ▸ hinv

theorem query (h : Along P s o) (j : Nat) (pc' : QueryPc) : Along P { s with queries := s.queries.set j pc' } o :=
  ⟨h.inv, h.meeting, h.length, h.serves⟩

theorem step (hP : P.Lawful) (h : Along P s o) (hs : Callers.step P s a = some (t, es)) :
    ∃ o', Advances Acts o s.phase es t.phase o' ∧ Along P t o' := by
  cases a with
  | session a =>
    cases a with
    | call c =>
      cases hs
      refine ⟨o, ?_, h.call c rfl⟩
      rw [phase_snoc h.length rfl, show (c.begin s.session.conference.meet_id_).phase _ = .pending _ by
        rw [CallPc.phase, begin_reply]]
      refine .invoked ?_
      simp [phase]
    | go k ok =>
      simp only [Callers.step, goOn, Session.step, Option.bind_eq_bind, Option.bind_eq_some_iff] at hs
      obtain ⟨pc, hk, op, hop, ⟨session, es₀⟩, ⟨pc₀, hk', ⟨c, pc', es'⟩, hgo, hsession⟩, pc'', hk'', hs⟩ := hs
      cases hk.symm.trans hk'
      cases hsession
      cases hs
      obtain rfl : pc' = pc'' := by
        have hset : (s.session.calls.set k pc')[k]? = some pc' := (getElem?_set_some hk).mpr (Or.inl ⟨rfl, rfl⟩)
        exact Option.some.inj (hset.symm.trans hk'')
      exact h.go hP hk hop hgo rfl
    | tick =>
      obtain ⟨⟨session, es'⟩, hstep, hs⟩ := Option.map_eq_some_iff.mp hs
      cases hs
      have hdoes := Session.step_does hstep
      generalize hact : SessionAct.tick = act at hdoes
      cases hdoes <;> cases hact
      exact ⟨o, .stays, ⟨⟨h.inv.toLocked.step (Session.step_does hstep), h.inv.mirrors⟩, h.meeting, h.length, h.serves⟩⟩
  | ask q =>
    cases hs
    refine ⟨o, ?_, h.inv, h.meeting, h.length, h.serves⟩
    rw [phase_snoc_query]
    refine .invoked ?_
    simp [phase]
  | query j =>
    simp only [Callers.step, Option.bind_eq_bind, Option.bind_eq_some_iff] at hs
    obtain ⟨pc, hj, hs⟩ := hs
    cases pc with
    | lock q =>
      simp only [queryStep] at hs
      split at hs <;> cases hs
      refine ⟨o, ?_, h.query j _⟩
      rw [phase_set_query hj]
      have hread : q.ask s.session.conference.participants_ = q.ask o.1.participants_ := by
        rw [h.meeting]
        rfl
      rw [hread]
      exact .took (phase_query hj) .read
    | unlocked q r =>
      cases hs
      refine ⟨o, ?_, h.query j _⟩
      rw [phase_set_query hj]
      exact .returned (phase_query hj)
    | returned q r => cases hs

end Along

/-- Every call on a live meeting takes effect at one moment between its beginning and its return. -/
theorem linearizer (hP : P.Lawful) :
    Linearizer (machine P) Any Acts (fun o => ∃ meet_id, o = (Meeting.new meet_id true true true, fun _ => none))
      phase (Along P) where
  init _ hs := Along.init hs
  step _ _ _ _ _ h _ hs := h.step hP hs

/-- However the calls on a meeting interleave, some order of whole sections that respects time has the same
    answers and ends with the same participants, and whenever `parts_mutex_` is free the bridge is that of the
    roster. -/
theorem calls_are_linearizable (hP : P.Lawful) (hrun : (machine P).Run Any tr s) :
    ∃ meet_id ops m x, Linearizes Acts (Meeting.new meet_id true true true, fun _ => none) tr ops (m, x) ∧
      m = s.session.conference.meeting ∧
      (s.session.conference.parts_mutex_.Free → Session.Refines P s.session.conference x) := by
  obtain ⟨_, ⟨m, x⟩, ⟨meet_id, rfl⟩, hlin, hs⟩ := (linearizer hP).run hrun
  exact ⟨meet_id, points tr, m, x, hlin, hs.meeting, hs.inv.refines⟩

/-- One call reads the ports while two participants join and the first is muted, a second one after them. -/
def twoAsk : List CallersAct :=
  [CallersAct.ask .participant_ports] ++ Session.twoJoin.map .session ++
  [CallersAct.query 0, .query 0, .ask .participants, .query 1, .query 1]

theorem calls_are_linearizable_two : ∃ tr s, (machine Session.board).Run Any tr s ∧
    .returned (.query 0) (.ports [10000]) ∈ tr ∧ .returned (.call 2) (.code 0) ∈ tr ∧
    ∃ meet_id ops m x, Linearizes Acts (Meeting.new meet_id true true true, fun _ => none) tr ops (m, x) ∧
      m = s.session.conference.meeting ∧
      (s.session.conference.parts_mutex_.Free → Session.Refines Session.board s.session.conference x) := by
  obtain ⟨tr, s, hrun, hs⟩ := exists_run (machine Session.board)
    { session := { conference := { meet_id_ := [], conf_ := .new } } } twoAsk
    ⟨_, ⟨[], .new, ⟨fun _ => beq_iff_eq, fun _ _ => nofun⟩, rfl⟩, rfl⟩ (meets_any ..)
    (fun r => decide (.returned (.query 0) (.ports [10000]) ∈ r.2) && decide (.returned (.call 2) (.code 0) ∈ r.2))
    (by decide +kernel)
  simp only [Bool.and_eq_true, decide_eq_true_eq] at hs
  exact ⟨tr, s, hrun, hs.1, hs.2, calls_are_linearizable Session.board_lawful hrun⟩

end Callers
end AudioMeet.Live
