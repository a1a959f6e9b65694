import AudioMeet.Theorems.Server.Meetings
import AudioMeet.Theorems.Server.Ports

/-! A port in use is marked used, and no request releases it. -/

namespace AudioMeet

/-- The port that the next step of a request releases. -/
def ReqPc.releases : ReqPc → Option UInt16
  | .addRelease _ _ port => some (UInt16.ofNat port)
  | .destroyRelease (port :: _) => some port
  | .deleteRelease port => some port
  | _ => none

namespace Server
open Lib Machine

variable {s : Server} {tr : List ServerEvent} {base count : UInt16}

/-- A participant of a registered meeting has the port. -/
def HasPort (s : Server) (p : UInt16) : Prop :=
  p ≠ 0 ∧ ∃ (meet_id : Bytes) (m : Nat) (part_id : Bytes) (q : Participant) (slot : Nat),
    s.meetings_[meet_id]? = some m ∧ PartAt s m part_id q slot ∧ q.port_ = p

structure PortsSafe (s : Server) : Prop where
  used : ∀ p, HasPort s p → s.port_allocator_.isUsed p = true
  released : ∀ (i : Nat) (pc : ReqPc) (p : UInt16), s.requests[i]? = some pc → pc.releases = some p → ¬ HasPort s p

theorem portsInv_init {listen_ip : Bytes} (hbase : 1 ≤ base.toNat) (hcount : base.toNat + count.toNat ≤ 65536) :
    PortsInv { listen_ip_ := listen_ip, port_allocator_ := .new base count } := by
  have hnone : ∀ p o, ¬ Owns { listen_ip_ := listen_ip, port_allocator_ := .new base count } p o := by
    rintro p (⟨m, part_id⟩ | i)
    · rintro ⟨q, slot, ⟨meeting, hm, -⟩, -⟩
      cases hm
    · rintro ⟨pc, hpc, -⟩
      cases hpc
  exact ⟨⟨hbase, hcount⟩, fun p o ho => absurd ho (hnone p o), fun p o _ ho => absurd ho (hnone p o),
    fun p o _ => hnone p o, fun m p o _ ho => absurd ho (hnone p o)⟩

theorem run_portsInv (hbase : 1 ≤ base.toNat) (hcount : base.toNat + count.toNat ≤ 65536)
    (h : (machine base count).Run NoEarlyReuse tr s) : PortsInv s := by
  refine h.invariant (I := fun _ s => PortsInv s) (fun s hs => ?_)
    fun _ _ _ _ _ hinv hok hs => hinv.step (step_does hs).2 hok
  obtain ⟨listen_ip, rfl⟩ := hs
  exact portsInv_init hbase hcount

/-- The next release of a request finds its port with no participant. -/
theorem PortsInv.releases_free (h : PortsInv s) {i : Nat} {pc : ReqPc} {p : UInt16} (hpc : s.requests[i]? = some pc)
    (hp : pc.releases = some p) (m : Nat) (part_id : Bytes) : ¬ Owns s p (.part m part_id) := by
  cases pc with
  | addRelease m' part port =>
    intro ho
    have hheld : Owns s p (.request i) := ⟨_, hpc, hp⟩
    cases h.unique p _ _ ho hheld
  | destroyRelease ports =>
    cases ports with
    | nil => cases hp
    | cons port ports =>
      obtain rfl := Option.some.inj hp
      exact h.pending _ _ ⟨i, _, hpc, List.mem_cons_self⟩
  | deleteRelease port =>
    obtain rfl := Option.some.inj hp
    exact h.pending _ _ ⟨i, _, hpc, List.mem_singleton_self _⟩
  | _ => cases hp

/-- As long as `allocate` hands out no port that a delete or a destroy has still to release, the port of every
    participant of a registered meeting is marked used, and no request releases it. -/
theorem port_in_use_is_used (hbase : 1 ≤ base.toNat) (hcount : base.toNat + count.toNat ≤ 65536)
    (h : (machine base count).Run (fun s a => FreshIds s a ∧ NoEarlyReuse s a) tr s) : PortsSafe s := by
  have hinv := run_portsInv hbase hcount (h.mono fun _ _ hok => hok.2)
  constructor
  · rintro p ⟨hne, meet_id, m, part_id, q, slot, -, hq, hp⟩
    exact hinv.used p (.part m part_id) ⟨q, slot, hq, hp, hne⟩
  · rintro i pc p hpc hrel ⟨hne, meet_id, m, part_id, q, slot, -, hq, hp⟩
    exact hinv.releases_free hpc hrel m part_id ⟨q, slot, hq, hp, hne⟩

/-- Request `i`, taken `n` steps far. -/
def request (i : Nat) (req : Request) (n : Nat) (ans : Answer := {}) : List ServerAct :=
  .receive req :: List.replicate n (.go i ans)

/-- Two meetings with one participant each, of which the second one is in no hurry. -/
def twoMeetings : List ServerAct :=
  request 0 .createAudioMeet 1 { random := 1 } ++
  request 1 (.addAudioMeetPart { meetId := some (hexId 1), partId := some (ascii "a") }) 3 ++
  request 2 .createAudioMeet 1 { random := 2 } ++
  request 3 (.addAudioMeetPart { meetId := some (hexId 2), partId := some (ascii "b") }) 2

/-- Whether `part_id` has the port in the registered meeting. -/
def hasPort (s : Server) (meet_id part_id : Bytes) (p : UInt16) : Bool :=
  ((s.meetings_[meet_id]?.bind (s.objects[·]?)).bind (·.participants_[part_id]?)).any (·.1.port_ == p)

theorem hasPort_of_test {meet_id part_id : Bytes} {p : UInt16} (hp : p ≠ 0) (h : hasPort s meet_id part_id p = true) :
    HasPort s p := by
  obtain ⟨⟨q, slot⟩, hq, hport⟩ := (Option.any_eq_true _ _).mp h
  obtain ⟨meeting, hm, hq⟩ := Option.bind_eq_some_iff.mp hq
  obtain ⟨m, hid, hm⟩ := Option.bind_eq_some_iff.mp hm
  exact ⟨hp, meet_id, m, part_id, q, slot, hid, ⟨meeting, hm, hq⟩, beq_iff_eq.mp hport⟩

/-- Two participants with their ports. -/
theorem port_in_use_is_used_two : ∃ tr s, (machine 10000 4).Run (fun s a => FreshIds s a ∧ NoEarlyReuse s a) tr s ∧
    HasPort s 10000 ∧ PortsSafe s := by
  have hmeets : (machine 10000 4).Meets (fun s a => FreshIds s a ∧ NoEarlyReuse s a)
      { listen_ip_ := [], port_allocator_ := .new 10000 4 } twoMeetings := meets_of_checks (by decide +kernel)
  obtain ⟨tr, s, hrun, hs⟩ := exists_run (machine 10000 4) _ twoMeetings ⟨[], rfl⟩ hmeets (fun r => hasPort r.1 (hexId 1) (ascii "a") 10000) (by decide +kernel)
  exact ⟨tr, s, hrun, hasPort_of_test (by decide) hs, port_in_use_is_used (by decide) (by decide) hrun⟩

/-- A destroy collects the port of a participant; a delete that found the meeting before releases the port, and
    the participant of another meeting gets it; then the destroy releases it. -/
def releasedTwice : List ServerAct :=
  request 0 .createAudioMeet 1 { random := 1 } ++
  request 1 (.addAudioMeetPart { meetId := some (hexId 1), partId := some (ascii "a") }) 3 ++
  request 2 .createAudioMeet 1 { random := 2 } ++
  request 3 (.delAudioMeetPart { meetId := some (hexId 1), partId := some (ascii "a") }) 3 ++
  request 4 (.destroyAudioMeet { meetId := some (hexId 1) }) 2 ++
  [.go 3 {}, .go 3 {}] ++
  request 5 (.addAudioMeetPart { meetId := some (hexId 2), partId := some (ascii "b") }) 3 ++
  [.go 4 {}, .go 4 {}, .go 4 {}]

theorem port_in_use_is_released : ¬ ∀ (base count : UInt16) (tr : List ServerEvent) (s : Server),
    1 ≤ base.toNat → base.toNat + count.toNat ≤ 65536 → (machine base count).Run FreshIds tr s → PortsSafe s := by
  intro hall
  have hmeets : (machine 10000 1).Meets FreshIds { listen_ip_ := [], port_allocator_ := .new 10000 1 } releasedTwice :=
    meets_of_checks (by decide +kernel)
  obtain ⟨tr, s, hrun, hs⟩ := exists_run (machine 10000 1) _ releasedTwice ⟨[], rfl⟩ hmeets
    (fun r => hasPort r.1 (hexId 2) (ascii "b") 10000 && !r.1.port_allocator_.isUsed 10000) (by decide +kernel)
  simp only [Bool.and_eq_true, Bool.not_eq_true'] at hs
  have hused := (hall 10000 1 tr s (by decide) (by decide) hrun).used 10000 (hasPort_of_test (by decide) hs.1)
  rw [hs.2] at hused
  cases hused

end Server
end AudioMeet
