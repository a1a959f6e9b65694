import AudioMeet.Theorems.Process.Step
import AudioMeet.Theorems.Server.Ports
import AudioMeet.Theorems.Server.PortUse
import AudioMeet.Theorems.Server.Serve

/-! Requests that come one after the other. Then every allocation hands out a port that no request has still to
    release, so that ports have one owner each, and a participant that stays is the one that was added. -/

namespace AudioMeet

/-- The request will insert no participant any more. -/
def ReqPc.Ending : ReqPc → Prop
  | .deleteRelease _ | .destroyRelease _ | .done => True
  | _ => False

namespace Server
open Lib Machine

/-- The states between requests. -/
inductive Sequential (base count : UInt16) : Server → Prop
  | start {listen_ip : Bytes} : Sequential base count { listen_ip_ := listen_ip, port_allocator_ := .new base count }
  | serve {s t : Server} {req : Request} {ans : Answer} {es : List ServerEvent} :
      Sequential base count s → Serves s req ans t es → Sequential base count t
  | destruct {s t : Server} {m : Nat} {es : List Account} :
      Sequential base count s → s.destruct m = some (t, es) → Sequential base count t

/-- Between the requests from `s` on, up to `t`, the participant is always there. -/
inductive Stays (m : Nat) (part_id : Bytes) (s : Server) : Server → Prop
  | refl : Stays m part_id s s
  | serve {t u : Server} {req : Request} {ans : Answer} {es : List ServerEvent} :
      Stays m part_id s t → Serves t req ans u es → Present u m part_id → Stays m part_id s u
  | destruct {t u : Server} {k : Nat} {es : List Account} :
      Stays m part_id s t → t.destruct k = some (u, es) → Present u m part_id → Stays m part_id s u

section Sequences
variable {s t u : Server} {base count : UInt16} {req : Request} {ans : Answer} {es : List ServerEvent} {i m : Nat}
  {part_id : Bytes}

theorem Finishes.process_steps (h : Finishes i ans s t es) :
    ∃ acc, (process base count).Steps Any s acc t := by
  induction h with
  | done _ => exact ⟨[], .refl⟩
  | step hs _ ih =>
    obtain ⟨acc, hrest⟩ := ih
    have hfirst : (process base count).Steps Any _ _ _ := .single (a := .request (.go i ans)) trivial (process_request hs)
    exact ⟨_, hfirst.trans hrest⟩

/-- Requests one after the other are a run of the process. -/
theorem Sequential.run (h : Sequential base count s) : ∃ tr, (process base count).Run Any tr s := by
  induction h with
  | start => exact ⟨[], .init ⟨_, rfl⟩⟩
  | @serve s t req ans es _ hs ih =>
    obtain ⟨tr, hrun⟩ := ih
    obtain ⟨u, es₁, es₂, hreceive, hf, -⟩ := hs
    obtain ⟨acc, hsteps⟩ : ∃ acc, (process base count).Steps Any u acc t := hf.process_steps
    exact ⟨_, (hrun.step (a := .request (.receive req)) trivial (process_request hreceive)).steps hsteps⟩
  | @destruct s t m es _ hs ih =>
    obtain ⟨tr, hrun⟩ := ih
    exact ⟨_, hrun.step (a := .destruct m) trivial hs⟩

/-! ### Requests do not meet -/

/-- A request moves no other. -/
theorem Does.others (hd : Does s (.go i ans) t es) {j : Nat} (hj : j ≠ i) : t.requests[j]? = s.requests[j]? := by
  cases hd with
  | crashed _ _ _ => rfl
  | _ => exact List.getElem?_set_ne hj.symm

/-- All requests but `i` are done. -/
def Alone (i : Nat) (s : Server) : Prop := ∀ (j : Nat) (pc : ReqPc), j ≠ i → s.requests[j]? = some pc → pc = .done

theorem Alone.step (h : Alone i s) (hs : s.step (.go i ans) = some (t, es)) : Alone i t := by
  intro j pc hj hpc
  rw [(step_does hs).2.others hj] at hpc
  exact h j pc hj hpc

theorem Alone.noEarlyReuse (h : Alone i s) (ans : Answer) : NoEarlyReuse s (.go i ans) := by
  unfold NoEarlyReuse
  dsimp only
  split
  · rename_i m part hpc
    intro port _ pc hmem
    obtain ⟨j, hlt, rfl⟩ := List.mem_iff_getElem.mp hmem
    have hj := List.getElem?_eq_getElem hlt
    by_cases heq : j = i
    · subst heq
      rw [Option.some.inj (hj.symm.trans hpc)]
      exact List.not_mem_nil
    · rw [h j _ heq hj]
      exact List.not_mem_nil
  · trivial

/-- Between two requests all are done, unless the process crashed. -/
theorem Finishes.done_of_alone (h : Finishes i ans s t es) (halone : Alone i s) (hc : t.crashed = false) :
    ∀ pc ∈ t.requests, pc = .done := by
  induction h with
  | done hd =>
    intro pc hmem
    obtain ⟨j, hlt, rfl⟩ := List.mem_iff_getElem.mp hmem
    have hj := List.getElem?_eq_getElem hlt
    by_cases heq : j = i
    · subst heq
      rcases hd with hd | hd
      · exact Option.some.inj (hj.symm.trans hd)
      · rw [hd] at hc
        cases hc
    · exact halone j _ heq hj
  | step hs _ ih => exact ih (halone.step hs) hc

theorem alone_receive (hidle : ∀ pc ∈ s.requests, pc = .done) (hs : s.step (.receive req) = some (t, es)) :
    Alone s.requests.length t := by
  intro j pc hj hpc
  cases (step_does hs).2 with
  | received _ _ =>
    rcases getElem?_snoc_some.mp hpc with ⟨rfl, -⟩ | hpc
    · exact absurd rfl hj
    · exact hidle pc (List.mem_of_getElem? hpc)

theorem destruct_cases {es : List Account} (hs : s.destruct m = some (t, es)) :
    ∃ meeting, s.objects[m]? = some meeting ∧ s.crashed = false ∧
      t = { s with objects := s.objects.set m meeting.stopClock.stopSection } := by
  obtain ⟨meeting, hm, hs⟩ := Option.bind_eq_some_iff.mp hs
  split at hs
  · cases hs
  · rename_i hguard
    obtain ⟨rfl, -⟩ := Prod.mk.inj (Option.some.inj hs)
    simp only [not_or, Bool.not_eq_true] at hguard
    exact ⟨meeting, hm, hguard.1, rfl⟩

theorem Sequential.idle (h : Sequential base count s) (hc : s.crashed = false) : ∀ pc ∈ s.requests, pc = .done := by
  induction h with
  | start => simp
  | serve _ hs ih =>
    obtain ⟨u, es₁, es₂, hreceive, hf, -⟩ := hs
    exact hf.done_of_alone (alone_receive (ih (step_does hreceive).1) hreceive) hc
  | destruct _ hs ih =>
    obtain ⟨meeting, -, -, rfl⟩ := destruct_cases hs
    exact ih hc

/-! ### Ports have one owner -/

theorem PortsInv.finishes (hinv : PortsInv s) (h : Finishes i ans s t es) (halone : Alone i s) : PortsInv t := by
  induction h with
  | done _ => exact hinv
  | step hs _ ih => exact ih (hinv.step (step_does hs).2 (halone.noEarlyReuse ans)) (halone.step hs)

/-- The participants of the meeting that is destructed leave. -/
theorem PortsInv.destructs (h : PortsInv s) {meeting : Meeting} (hm : s.objects[m]? = some meeting) :
    PortsInv { s with objects := s.objects.set m meeting.stopClock.stopSection } := by
  have hparts : PartsLeave s { s with objects := s.objects.set m meeting.stopClock.stopSection } :=
    partsLeave_set hm rfl fun _ _ hx => by simp [Meeting.stopSection] at hx
  have howns : ∀ p o, Owns { s with objects := s.objects.set m meeting.stopClock.stopSection } p o → Owns s p o := by
    intro p o ho
    cases o with
    | part k part_id =>
      obtain ⟨q, slot, hq, hp⟩ := ho
      exact ⟨q, slot, hparts k part_id q slot hq, hp⟩
    | request j => exact ho
  exact ⟨h.range, fun p o ho => h.used p o (howns p o ho),
    fun p o o' ho ho' => h.unique p o o' (howns p o ho) (howns p o' ho'),
    fun p o hp ho => h.pending p o hp (howns p o ho), fun k p o hp ho => h.collected k p o hp (howns p o ho)⟩

theorem Sequential.portsInv (hbase : 1 ≤ base.toNat) (hcount : base.toNat + count.toNat ≤ 65536)
    (h : Sequential base count s) : PortsInv s := by
  induction h with
  | start => exact portsInv_init hbase hcount
  | serve hseq hs ih =>
    obtain ⟨u, es₁, es₂, hreceive, hf, -⟩ := hs
    have hu := ih.step (step_does hreceive).2 trivial
    exact hu.finishes hf (alone_receive (hseq.idle (step_does hreceive).1) hreceive)
  | destruct _ hs ih =>
    obtain ⟨meeting, hm, -, rfl⟩ := destruct_cases hs
    exact ih.destructs hm

/-! ### A participant that stays is the same -/

/-- The pool has the ports that the process was started with. -/
theorem Does.config {a : ServerAct} (hd : Does s a t es) :
    t.port_allocator_.base_ = s.port_allocator_.base_ ∧ t.port_allocator_.count_ = s.port_allocator_.count_ := by
  have hrelease : ∀ p, (s.port_allocator_.release p).base_ = s.port_allocator_.base_ ∧
      (s.port_allocator_.release p).count_ = s.port_allocator_.count_ := by
    intro p
    unfold PortAllocator.release
    split <;> exact ⟨rfl, rfl⟩
  cases hd with
  | allocated _ halloc =>
    rcases PortAllocator.allocate_cases halloc with ⟨-, hr⟩ | ⟨k, -, -, rfl, -⟩
    · cases hr
    · exact ⟨rfl, rfl⟩
  | addReleased _ _ _ => exact hrelease _
  | destroyReleased _ => exact hrelease _
  | deleteReleased _ _ => exact hrelease _
  | _ => exact ⟨rfl, rfl⟩

theorem Sequential.config (h : Sequential base count s) :
    s.port_allocator_.base_ = base.toNat ∧ s.port_allocator_.count_ = count.toNat := by
  obtain ⟨tr, hrun⟩ := h.run
  refine hrun.invariant (I := fun _ s => s.port_allocator_.base_ = base.toNat ∧ s.port_allocator_.count_ = count.toNat)
    (fun s hs => ?_) fun tr s a t es hinv _ hs => ?_
  · obtain ⟨listen_ip, rfl⟩ := hs
    exact ⟨rfl, rfl⟩
  · cases process_does hs with
    | request hstep =>
      obtain ⟨hb, hcnt⟩ := (step_does hstep).2.config
      exact ⟨hb.trans hinv.1, hcnt.trans hinv.2⟩
    | destruct _ _ _ _ => exact hinv

/-- A step leaves a participant as it is, or removes it and then inserts none any more. -/
theorem Does.stays (hd : Does s (.go i ans) t es) {q : Participant} {slot : Nat} (hq : PartAt s m part_id q slot) :
    PartAt t m part_id q slot ∨ (¬ Present t m part_id ∧ ∃ pc, t.requests[i]? = some pc ∧ pc.Ending) := by
  have hobj := hq
  obtain ⟨x, hx, hqx⟩ := hq
  have hset : ∀ {k : Nat} {meeting meeting' : Meeting}, s.objects[k]? = some meeting → t.objects = s.objects.set k meeting' →
      (m = k → meeting'.participants_[part_id]? = some (q, slot) ∨
        (meeting'.participants_[part_id]? = none ∧ ∃ pc, t.requests[i]? = some pc ∧ pc.Ending)) →
      PartAt t m part_id q slot ∨ (¬ Present t m part_id ∧ ∃ pc, t.requests[i]? = some pc ∧ pc.Ending) := by
    intro k meeting meeting' hk ht hcase
    by_cases hmk : m = k
    · rcases hcase hmk with hsame | ⟨hnone, hpc⟩
      · exact Or.inl ((partAt_set hk ht).mpr (Or.inl ⟨hmk, hsame⟩))
      · refine Or.inr ⟨?_, hpc⟩
        rintro ⟨q', slot', hq'⟩
        rcases (partAt_set hk ht).mp hq' with ⟨-, hq'⟩ | ⟨hne, -⟩
        · rw [hnone] at hq'
          cases hq'
        · exact hne hmk
    · exact Or.inl ((partAt_set hk ht).mpr (Or.inr ⟨hmk, hobj⟩))
  cases hd with
  | created _ _ => exact Or.inl ⟨x, getElem?_snoc_some.mpr (Or.inr hx), hqx⟩
  | @added _ _ k meeting meeting' part port calls es _ hk hadd _ =>
    rw [addTo_eq] at hadd
    obtain ⟨slot', -, hjoin, -⟩ := Meeting.add_joins hadd
    refine hset hk rfl fun hmk => Or.inl ((hjoin.getElem? part_id).mpr (Or.inr ⟨?_, ?_⟩))
    · rintro rfl
      obtain rfl := Option.some.inj (hx.symm.trans (hmk ▸ hk))
      exact absurd (hjoin.absent.symm.trans hqx) (by simp)
    · obtain rfl := Option.some.inj (hx.symm.trans (hmk ▸ hk))
      exact hqx
  | clockStopped _ hk =>
    refine hset hk rfl fun hmk => Or.inl ?_
    obtain rfl := Option.some.inj (hx.symm.trans (hmk ▸ hk))
    exact hqx
  | @stopped _ _ k meeting ports hpc hk =>
    have hnext : (s.requests.set i (.destroyRelease ports))[i]? = some (.destroyRelease ports) :=
      List.getElem?_set_self (List.getElem?_eq_some_iff.mp hpc).1
    exact hset hk rfl fun _ => Or.inr ⟨by simp [Meeting.stopSection], _, hnext, trivial⟩
  | @removed _ _ k meeting part_id' p slot' pc es hpc hk hp hpc' _ =>
    refine hset hk rfl fun hmk => ?_
    obtain rfl := Option.some.inj (hx.symm.trans (hmk ▸ hk))
    by_cases heq : part_id = part_id'
    · refine Or.inr ⟨by simp [heq], pc, List.getElem?_set_self (List.getElem?_eq_some_iff.mp hpc).1, ?_⟩
      subst hpc'
      split <;> trivial
    · exact Or.inl (getElem?_erase_some.mpr ⟨heq, hqx⟩)
  | _ => exact Or.inl hobj

/-- A request that inserts none any more goes on so. -/
theorem Section.ending {pc : ReqPc} {u : Server} {seen : List ServerEvent} {turn : Turn}
    (h : s.Section i ans pc u seen turn) (he : pc.Ending) : u.objects = s.objects ∧ (turn.next pc).Ending := by
  cases h with
  | portReleased | destroyed | deleteReleased => exact ⟨rfl, trivial⟩
  | _ => exact he.elim

theorem ending_step (hs : s.step (.go i ans) = some (t, es)) {pc : ReqPc} (hpc : s.requests[i]? = some pc)
    (he : pc.Ending) : t.objects = s.objects ∧ ∃ pc', t.requests[i]? = some pc' ∧ pc'.Ending := by
  obtain ⟨pc₁, hpc₁, hgo⟩ := go_goes hs
  obtain rfl := Option.some.inj (hpc.symm.trans hpc₁)
  obtain ⟨u, seen, turn, hsection, rfl, rfl⟩ := goOn_took hgo
  obtain ⟨hobj, he'⟩ := hsection.ending he
  exact ⟨turn.leave_objects.trans hobj, _, (hsection.goes hpc i _).mpr (Or.inl ⟨rfl, rfl⟩), he'⟩

theorem Finishes.of_ending (h : Finishes i ans s t es) {pc : ReqPc} (hpc : s.requests[i]? = some pc) (he : pc.Ending) :
    t.objects = s.objects := by
  induction h generalizing pc with
  | done _ => rfl
  | step hs _ ih =>
    obtain ⟨hobj, pc', hpc', he'⟩ := ending_step hs hpc he
    exact (ih hpc' he').trans hobj

theorem present_of_objects (h : t.objects = s.objects) : Present t m part_id ↔ Present s m part_id := by
  simp only [Present, PartAt, h]

theorem Finishes.same (h : Finishes i ans s t es) {q : Participant} {slot : Nat} (hq : PartAt s m part_id q slot)
    (hp : Present t m part_id) : PartAt t m part_id q slot := by
  induction h with
  | done _ => exact hq
  | step hs hrest ih =>
    rcases (step_does hs).2.stays hq with hq' | ⟨hgone, pc, hpc, he⟩
    · exact ih hq' hp
    · exact absurd ((present_of_objects (hrest.of_ending hpc he)).mp hp) hgone

theorem partAt_of_present {q q' : Participant} {slot slot' : Nat} (h : PartAt s m part_id q slot)
    (h' : PartAt s m part_id q' slot') : q' = q ∧ slot' = slot := by
  obtain ⟨x, hx, hq⟩ := h
  obtain ⟨x', hx', hq'⟩ := h'
  obtain rfl := Option.some.inj (hx.symm.trans hx')
  obtain ⟨rfl, rfl⟩ := Prod.mk.inj (Option.some.inj (hq.symm.trans hq'))
  exact ⟨rfl, rfl⟩

/-- A participant that is there between all requests is the one that was there at first. -/
theorem Stays.same (h : Stays m part_id s t) {q : Participant} {slot : Nat} (hq : PartAt s m part_id q slot) :
    PartAt t m part_id q slot := by
  induction h with
  | refl => exact hq
  | @serve t u req ans es _ hs hp ih =>
    obtain ⟨v, es₁, es₂, hreceive, hf, -⟩ := hs
    have hv : PartAt v m part_id q slot := by
      cases (step_does hreceive).2 with
      | received _ _ => exact ih
    exact hf.same hv hp
  | @destruct t u k es _ hs hp ih =>
    obtain ⟨meeting, hk, -, rfl⟩ := destruct_cases hs
    obtain ⟨q', slot', hq'⟩ := hp
    rcases (partAt_set hk rfl).mp hq' with ⟨-, hnone⟩ | ⟨hne, -⟩
    · simp [Meeting.stopSection] at hnone
    · exact (partAt_set hk rfl).mpr (Or.inr ⟨hne, ih⟩)

theorem Stays.sequential (h : Stays m part_id s t) (hs : Sequential base count s) : Sequential base count t := by
  induction h with
  | refl => exact hs
  | serve _ hserves _ ih => exact ih.serve hserves
  | destruct _ hd _ ih => exact ih.destruct hd

end Sequences
end Server
end AudioMeet
