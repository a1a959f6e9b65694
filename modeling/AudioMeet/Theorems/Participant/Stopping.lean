import AudioMeet.Theorems.Participant.OwnCalls

/-! `stop` against the threads of its participant. Each thread that it joins ended or can go on: the sockets
    that a thread waits on were shut down before, and the tx thread does not miss its notification. -/

namespace AudioMeet.Threads
open Lib Machine

/-! ### Who can go on -/

/-- A call that waits on a socket returns once that is shut down; a call on no socket returns at once. -/
def Returns (t : Table) (on : Option (Sock Nat)) : Prop := ∀ k ∈ on, k ∈ t.shut

/-- A step of a thread of participant `i` that no call holds up. -/
def GoesOn (w : World) (i : Nat) : Act → Prop
  | .accept j _ => j = i ∧ ∀ p ∈ w.parts[i]?, ∀ on, p.accept = .accepting on → Returns w.table on
  | .rx j _ => j = i ∧ ∀ p ∈ w.parts[i]?, ∀ h r on, p.rx = .recving h r on → Returns w.table on
  | .tx j _ => j = i ∧ ∀ p ∈ w.parts[i]?, ∀ h left next on, p.tx = .sending h left next on → Returns w.table on
  | _ => False

def AcceptPc.Ended (pc : AcceptPc) : Prop := pc = .none ∨ pc = .done

def RxPc.Ended (pc : RxPc) : Prop := pc = .none ∨ pc = .done

def TxPc.Ended (pc : TxPc) : Prop := pc = .none ∨ pc = .done

def Part.AllEnded (p : Part) : Prop := p.accept.Ended ∧ p.rx.Ended ∧ p.tx.Ended

/-- Some thread of participant `i` can take a step. -/
def CanGo (w : World) (i : Nat) : Prop := ∃ a w' es, GoesOn w i a ∧ w.step a = some (w', es)

/-- No join of `stop` waits for a thread that waits for ever, and no thread is left when `stop` returned. -/
structure NeverStuck (w : World) : Prop where
  joinAccept : ∀ i p, w.parts[i]? = some p → p.main = .joinAccept → p.accept.Ended ∨ CanGo w i
  joinRx : ∀ i p, w.parts[i]? = some p → p.main = .joinRx → p.rx.Ended ∨ CanGo w i
  joinTx : ∀ i p, w.parts[i]? = some p → p.main = .joinTx → p.tx.Ended ∨ CanGo w i
  returned : ∀ (i : Nat) p, w.parts[i]? = some p → p.main = .idle → p.stop_flag_ = true → p.AllEnded

/-! ### The numbers that a participant keeps -/

/-- The numbers in the members and with the threads. -/
def Part.numbers (p : Part) : List (Option Nat) :=
  [p.listen_fd_, p.client_fd_, p.rx_fd_, p.main.held.map Held.fd, p.accept.held.map Held.fd, p.rx.held.map Held.fd,
    p.tx.held.map Held.fd]

/-- No number is given again that a participant still keeps. -/
def NoReuse (w : World) : Act → Prop
  | .main _ ans | .accept _ ans => ∀ f ∈ ans.fd, ∀ p ∈ w.parts, some f ∉ p.numbers
  | _ => True

instance (w : World) : DecidablePred (NoReuse w)
  | .main _ ans | .accept _ ans => inferInstanceAs (Decidable (∀ f ∈ ans.fd, ∀ p ∈ w.parts, some f ∉ p.numbers))
  | .new _ | .rx _ _ | .tx _ _ | .put _ _ | .wake _ => .isTrue trivial

namespace Part
variable {p : Part} {f : Nat} {h : Held}

theorem member_mem {m : Member} (hm : p.member m = some f) : some f ∈ p.numbers := by
  cases m <;> simp_all [member, numbers]

theorem main_mem (hh : p.main.held = some h) : some h.fd ∈ p.numbers := by simp [numbers, hh]

theorem accept_mem (hh : p.accept.held = some h) : some h.fd ∈ p.numbers := by simp [numbers, hh]

theorem rx_mem (hh : p.rx.held = some h) : some h.fd ∈ p.numbers := by simp [numbers, hh]

theorem tx_mem (hh : p.tx.held = some h) : some h.fd ∈ p.numbers := by simp [numbers, hh]

theorem forall_numbers {P : Nat → Prop} (hmember : ∀ m f, p.member m = some f → P f)
    (hmain : ∀ h, p.main.held = some h → P h.fd) (haccept : ∀ h, p.accept.held = some h → P h.fd)
    (hrx : ∀ h, p.rx.held = some h → P h.fd) (htx : ∀ h, p.tx.held = some h → P h.fd) :
    ∀ f, some f ∈ p.numbers → P f := by
  have hheld : ∀ {o : Option Held} {f : Nat}, some f = o.map Held.fd → (∀ h, o = some h → P h.fd) → P f := by
    rintro (_ | g) f hf hP
    · cases hf
    · rw [Option.some.inj hf]
      exact hP g rfl
  intro f hf
  simp only [numbers, List.mem_cons, List.not_mem_nil, or_false] at hf
  rcases hf with hf | hf | hf | hf | hf | hf | hf
  · exact hmember .listen_fd_ f hf.symm
  · exact hmember .client_fd_ f hf.symm
  · exact hmember .rx_fd_ f hf.symm
  · exact hheld hf hmain
  · exact hheld hf haccept
  · exact hheld hf hrx
  · exact hheld hf htx

end Part

/-! ### What `stop` has dealt with -/

def Member.index : Member → Nat
  | .listen_fd_ => 0
  | .client_fd_ => 1
  | .rx_fd_ => 2

/-- `stop` shut the member down, or skipped it. -/
def MainPc.passed : MainPc → Member → Bool
  | .test m', m | .shutdown m', m => decide (m.index < m'.index)
  | .close m' true, m | .reset m' true, m => decide (m.index ≤ m'.index)
  | .joinAccept, _ | .joinRx, _ | .joinTx, _ => true
  | _, _ => false

/-- The socket was shut down, or is in a member that `stop` has still to come to. -/
def Covered (t : Table) (p : Part) (k : Sock Nat) : Prop :=
  k ∈ t.shut ∨ ∃ m f, p.member m = some f ∧ t.fds f = some k ∧ p.main.passed m = false

/-- The number denotes no other socket than the one that it was given for. -/
def Known (t : Table) (h : Held) : Prop := ∀ k, t.fds h.fd = some k → k = h.sock

def AcceptOk (t : Table) (p : Part) : AcceptPc → Prop
  | .none | .accept | .done => True
  | .accepting on => ∀ k ∈ on, Covered t p k
  | .assign h => t.fds h.fd = some h.sock ∧ ∀ m, p.member m ≠ some h.fd
  | .spawnRx h | .spawnTx h => Known t h ∧ (Covered t p h.sock ∨ p.stop_flag_ = true)

def RxOk (t : Table) (p : Part) : RxPc → Prop
  | .none | .done => True
  | .check h => Known t h ∧ (Covered t p h.sock ∨ p.stop_flag_ = true)
  | .recv h _ => Known t h ∧ Covered t p h.sock
  | .recving h _ on => Known t h ∧ Covered t p h.sock ∧ ∀ k ∈ on, k = h.sock

/-- The tx thread waits only before the queue section of `stop`. -/
def TxOk (t : Table) (p : Part) : TxPc → Prop
  | .none | .cleanup | .done => True
  | .check h | .dequeue h | .send h _ _ => Known t h ∧ Covered t p h.sock
  | .waiting h => Known t h ∧ Covered t p h.sock ∧ (p.stop_flag_ = false ∨ p.main = .stopQueue)
  | .sending h _ _ on => Known t h ∧ Covered t p h.sock ∧ ∀ k ∈ on, k = h.sock

/-- No thread was started yet. -/
def Part.Unstarted (p : Part) : Prop := p.stop_flag_ = false ∧ p.accept = .none ∧ p.rx = .none ∧ p.tx = .none

def MainOk (t : Table) (p : Part) : MainPc → Prop
  | .socketListen | .bind | .listen => p.Unstarted ∧ p.mode ≠ .startPassive
  | .inetPton | .socketTx => p.Unstarted ∧ p.mode ≠ .start
  | .connect h | .closeTx h | .setClient h => p.Unstarted ∧ p.mode ≠ .start ∧ t.fds h.fd = some h.sock
  | .spawnRx h => p.Unstarted ∧ p.mode = .startPassive ∧ t.fds h.fd = some h.sock ∧ p.client_fd_ = some h.fd
  | .spawnTx h => p.stop_flag_ = false ∧ p.accept = .none ∧ p.mode ≠ .start ∧ t.fds h.fd = some h.sock ∧
      p.client_fd_ = some h.fd
  | .spawnAccept => p.stop_flag_ = false ∧ p.accept = .none ∧ p.mode ≠ .startPassive
  | .idle => p.stop_flag_ = true → p.AllEnded
  | .close _ false | .reset _ false => p.Unstarted
  | .stopQueue | .test _ | .reset _ true | .joinAccept => p.stop_flag_ = true
  | .shutdown m => p.stop_flag_ = true ∧ p.member m ≠ none
  | .close m true => p.stop_flag_ = true ∧ p.member m ≠ none ∧
      ∀ f k, p.member m = some f → t.fds f = some k → k ∈ t.shut
  | .joinRx => p.stop_flag_ = true ∧ p.accept.Ended
  | .joinTx => p.stop_flag_ = true ∧ p.accept.Ended ∧ p.rx.Ended

/-- The member that the accept thread assigns. -/
def Part.target (p : Part) : Member := if p.mode = .startSplit then .rx_fd_ else .client_fd_

/-- The accept thread did not assign its descriptor yet. -/
def AcceptPc.early : AcceptPc → Bool
  | .none | .accept | .accepting _ | .assign _ => true
  | _ => false

structure StopInv (t : Table) (p : Part) : Prop where
  main : MainOk t p p.main
  accept : AcceptOk t p p.accept
  rx : RxOk t p p.rx
  tx : TxOk t p p.tx
  target : p.accept.early = true → p.mode ≠ .startPassive → p.member p.target = none
  passive : p.mode = .startPassive → p.accept = .none
  listen : p.main.passed .listen_fd_ = true → ∀ f k, p.listen_fd_ = some f → t.fds f = some k → k ∈ t.shut

/-! ### What the threads rely on -/

/-- From `t`, `p` to `u`, `q` no socket that a thread may wait on is lost from sight. -/
structure Frame (t : Table) (p : Part) (u : Table) (q : Part) : Prop where
  shut : ∀ k ∈ t.shut, k ∈ u.shut
  cover : ∀ m f k, p.member m = some f → t.fds f = some k → p.main.passed m = false →
    k ∈ u.shut ∨ (q.member m = some f ∧ u.fds f = some k ∧ q.main.passed m = false)
  fresh : ∀ f k, some f ∈ p.numbers → u.fds f = some k → t.fds f = some k
  stop : p.stop_flag_ = true → q.stop_flag_ = true

section Frames
variable {t u : Table} {p q : Part} {k : Sock Nat} {h : Held}

/-- No member that `stop` has still to come to is lost or passed. -/
theorem Frame.of_members
    (hmember : ∀ m f, p.member m = some f → p.main.passed m = false → q.member m = some f ∧ q.main.passed m = false)
    (hstop : p.stop_flag_ = true → q.stop_flag_ = true) : Frame t p t q :=
  ⟨fun _ => id, fun m f _ hm hf hp => Or.inr ⟨(hmember m f hm hp).1, hf, (hmember m f hm hp).2⟩, fun _ _ _ => id, hstop⟩

theorem Frame.of_passed (hmember : ∀ m f, p.member m = some f → q.member m = some f)
    (hpassed : ∀ m, p.main.passed m = false → q.main.passed m = false) (hstop : p.stop_flag_ = true → q.stop_flag_ = true) :
    Frame t p t q :=
  .of_members (fun m f hm hp => ⟨hmember m f hm, hpassed m hp⟩) hstop

theorem Frame.covered (F : Frame t p u q) (hk : Covered t p k) : Covered u q k := by
  rcases hk with hk | ⟨m, f, hm, hf, hp⟩
  · exact Or.inl (F.shut k hk)
  · exact (F.cover m f k hm hf hp).imp_right fun h => ⟨m, f, h⟩

theorem Frame.known (F : Frame t p u q) (hn : some h.fd ∈ p.numbers) (hk : Known t h) : Known u h :=
  fun k hf => hk k (F.fresh _ k hn hf)

theorem Frame.started (F : Frame t p u q) (hk : Covered t p k ∨ p.stop_flag_ = true) :
    Covered u q k ∨ q.stop_flag_ = true := hk.imp F.covered F.stop

theorem Frame.acceptOk (F : Frame t p u q) (hq : q.accept = p.accept)
    (hassign : ∀ h, p.accept = .assign h → u.fds h.fd = t.fds h.fd ∧ ∀ m, q.member m = some h.fd → p.member m = some h.fd)
    (ha : AcceptOk t p p.accept) : AcceptOk u q q.accept := by
  rw [hq]
  have hmem := @Part.accept_mem p
  cases hpc : p.accept with
  | none | accept | done => trivial
  | accepting on =>
    rw [hpc] at ha
    exact fun k hk => F.covered (ha k hk)
  | assign h =>
    rw [hpc] at ha
    obtain ⟨hf, hm⟩ := hassign h hpc
    exact ⟨hf.trans ha.1, fun m hq => ha.2 m (hm m hq)⟩
  | spawnRx h | spawnTx h =>
    rw [hpc] at ha
    exact ⟨F.known (hmem (by rw [hpc]; rfl)) ha.1, F.started ha.2⟩

theorem Frame.rxOk (F : Frame t p u q) (hq : q.rx = p.rx) (hr : RxOk t p p.rx) : RxOk u q q.rx := by
  rw [hq]
  have hmem := @Part.rx_mem p
  cases hpc : p.rx with
  | none | done => trivial
  | check h =>
    rw [hpc] at hr
    exact ⟨F.known (hmem (by rw [hpc]; rfl)) hr.1, F.started hr.2⟩
  | recv h r =>
    rw [hpc] at hr
    exact ⟨F.known (hmem (by rw [hpc]; rfl)) hr.1, F.covered hr.2⟩
  | recving h r on =>
    rw [hpc] at hr
    exact ⟨F.known (hmem (by rw [hpc]; rfl)) hr.1, F.covered hr.2.1, hr.2.2⟩

theorem Frame.txOk (F : Frame t p u q) (hq : q.tx = p.tx)
    (hwait : ∀ h, p.tx = .waiting h → q.stop_flag_ = false ∨ q.main = .stopQueue) (hx : TxOk t p p.tx) :
    TxOk u q q.tx := by
  rw [hq]
  have hmem := @Part.tx_mem p
  cases hpc : p.tx with
  | none | cleanup | done => trivial
  | check h | dequeue h | send h _ _ =>
    rw [hpc] at hx
    exact ⟨F.known (hmem (by rw [hpc]; rfl)) hx.1, F.covered hx.2⟩
  | waiting h =>
    rw [hpc] at hx
    exact ⟨F.known (hmem (by rw [hpc]; rfl)) hx.1, F.covered hx.2.1, hwait h hpc⟩
  | sending h _ _ on =>
    rw [hpc] at hx
    exact ⟨F.known (hmem (by rw [hpc]; rfl)) hx.1, F.covered hx.2.1, hx.2.2⟩

end Frames

/-! ### A step of the thread that starts and stops -/

/-- A step of a participant leaves alone the numbers that it does not keep, and what was shut down. -/
structure Local (t : Table) (p : Part) (u : Table) (q : Part) (new : Option Nat) : Prop where
  fds : ∀ f, some f ∉ p.numbers → new ≠ some f → u.fds f = t.fds f
  shut : ∀ k ∈ t.shut, k ∈ u.shut
  numbers : ∀ f, some f ∈ q.numbers → some f ∈ p.numbers ∨ new = some f

section Steps
variable {t u : Table} {i : Nat} {p q : Part} {es : List Event} {ans : Answer} {new : Option Nat}

theorem Local.of_numbers (h : ∀ f, some f ∈ q.numbers → some f ∈ p.numbers) : Local t p t q new :=
  ⟨fun _ _ _ => rfl, fun _ => id, fun f hf => Or.inl (h f hf)⟩

theorem Local.give {k : Sock Nat} {fd : Nat} (hg : t.give i fd = some (u, k))
    (h : ∀ f, some f ∈ q.numbers → some f ∈ p.numbers ∨ f = fd) : Local t p u q (some fd) := by
  obtain ⟨-, -, -, hother⟩ := Descriptors.give_fds hg
  refine ⟨fun f _ hne => hother f fun heq => hne (congrArg some heq.symm), fun k hk => ?_, fun f hf => ?_⟩
  · rwa [Descriptors.give_shut hg]
  · exact (h f hf).imp_right fun heq => congrArg some heq.symm

theorem Local.close {fd : Option Nat} (hfd : ∀ f, fd = some f → some f ∈ p.numbers)
    (h : ∀ f, some f ∈ q.numbers → some f ∈ p.numbers) : Local t p (t.close fd) q new := by
  refine ⟨fun f hf _ => ?_, fun _ => id, fun f hf => Or.inl (h f hf)⟩
  rw [Descriptors.fds_close, if_neg fun heq => hf (hfd f heq)]

theorem Local.shutdown {fd : Option Nat} (h : ∀ f, some f ∈ q.numbers → some f ∈ p.numbers) :
    Local t p (t.shutdown fd) q new :=
  ⟨fun _ _ _ => by rw [Descriptors.shutdown_fds], Descriptors.shut_shutdown t fd, fun f hf => Or.inl (h f hf)⟩

/-- The main thread takes no number over from elsewhere. -/
theorem numbers_main {pc : MainPc} (hheld : ∀ g, pc.held = some g → some g.fd ∈ p.numbers) :
    ∀ f, some f ∈ ({ p with main := pc } : Part).numbers → some f ∈ p.numbers :=
  Part.forall_numbers (fun _ _ hm => Part.member_mem (p := p) hm) hheld (fun _ => Part.accept_mem (p := p))
    (fun _ => Part.rx_mem (p := p)) fun _ => Part.tx_mem (p := p)

theorem failed_held (p : Part) : p.failed.held = none := by
  unfold Part.failed
  split <;> rfl

theorem notify_eq (p : Part) : p.notify = p ∨ ∃ h, p.tx = .waiting h ∧ p.notify = { p with tx := .dequeue h } := by
  unfold Part.notify
  split
  · exact Or.inr ⟨_, by assumption, rfl⟩
  · exact Or.inl rfl

theorem passed_afterMember (m m' : Member) : (Part.afterMember m).passed m' = decide (m'.index ≤ m.index) := by
  cases m <;> cases m' <;> rfl

theorem Member.eq_of_index {m m' : Member} (h : m.index = m'.index) : m = m' := by
  cases m <;> cases m' <;> first | rfl | cases h

theorem StopInv.waits (h : StopInv t p) (g : Held) (hg : p.tx = .waiting g) :
    p.stop_flag_ = false ∨ p.main = .stopQueue := by
  have htx := h.tx
  rw [hg] at htx
  exact htx.2.2

/-- Before the threads there is nothing to keep but the start itself. -/
theorem StopInv.of_unstarted (hu : q.Unstarted) (hmain : MainOk u q q.main)
    (htarget : q.mode ≠ .startPassive → q.member q.target = none) (hlisten : q.main.passed .listen_fd_ = false) :
    StopInv u q where
  main := hmain
  accept := by rw [hu.2.1]; trivial
  rx := by rw [hu.2.2.1]; trivial
  tx := by rw [hu.2.2.2]; trivial
  target := fun _ => htarget
  passive := fun _ => hu.2.1
  listen := fun h => by rw [hlisten] at h; cases h

theorem mainOk_main {pc pc' : MainPc} (h : MainOk t p pc) : MainOk t { p with main := pc' } pc := by
  cases pc with
  | close m stopping | reset m stopping => cases stopping <;> exact h
  | _ => exact h

/-- The main thread goes on, and leaves no member behind that holds an open socket. -/
theorem StopInv.goto (h : StopInv t p) {pc : MainPc} (hq : p.main ≠ .stopQueue)
    (hheld : ∀ g, pc.held = some g → p.main.held = some g) (hmain : MainOk t p pc)
    (hpassed : ∀ m, p.main.passed m = false → pc.passed m = false ∨ p.member m = none) :
    Local t p t { p with main := pc } new ∧ StopInv t { p with main := pc } := by
  have F : Frame t p t { p with main := pc } := by
    refine ⟨fun _ => id, fun m f k hm hf hp => ?_, fun _ _ _ => id, id⟩
    rcases hpassed m hp with hp | hnone
    · exact Or.inr ⟨hm, hf, hp⟩
    · rw [hm] at hnone
      cases hnone
  refine ⟨.of_numbers (numbers_main fun g hg => Part.main_mem (hheld g hg)), ?_⟩
  exact {
    main := mainOk_main hmain
    accept := F.acceptOk rfl (fun _ _ => ⟨rfl, fun _ => id⟩) h.accept
    rx := F.rxOk rfl h.rx
    tx := F.txOk rfl (fun g hg => Or.inl ((h.waits g hg).resolve_right hq)) h.tx
    target := h.target
    passive := h.passive
    listen := fun hl f k hf hk => by
      cases hp : p.main.passed .listen_fd_ with
      | true => exact h.listen hp f k hf hk
      | false =>
        rcases hpassed _ hp with hp' | hnone
        · rw [show pc.passed .listen_fd_ = true from hl] at hp'
          cases hp'
        · rw [show p.member .listen_fd_ = some f from hf] at hnone
          cases hnone }

/-- A start that failed goes to close its listening socket, or is over. -/
theorem StopInv.failed (h : StopInv t p) (hu : p.Unstarted) : StopInv u { p with main := p.failed } := by
  have htarget := h.target (by rw [hu.2.1]; rfl)
  unfold Part.failed
  split
  · exact .of_unstarted hu (fun hs => by rw [hu.1] at hs; cases hs) htarget rfl
  · exact .of_unstarted hu hu htarget rfl

theorem StopInv.socketListen (h : StopInv t p) (hpc : p.main = .socketListen)
    (hs : Part.socketListen t i p ans = some (u, q, es)) : Local t p u q ans.fd ∧ StopInv u q := by
  obtain ⟨hu, hmode⟩ : p.Unstarted ∧ p.mode ≠ .startPassive := by
    have := h.main
    rwa [hpc] at this
  unfold Part.socketListen at hs
  cases hfd : ans.fd with
  | none =>
    simp only [hfd, Option.some.injEq, Prod.mk.injEq] at hs
    obtain ⟨rfl, rfl, rfl⟩ := hs
    exact h.goto (by rw [hpc]; simp) (by simp [MainPc.held]) (fun hs => by rw [hu.1] at hs; cases hs) (fun _ _ => Or.inl rfl)
  | some fd =>
    simp only [hfd, Option.bind_eq_bind, Option.bind_eq_some_iff, Prod.exists, Option.some.injEq, Prod.mk.injEq] at hs
    obtain ⟨u, k, hg, rfl, rfl, rfl⟩ := hs
    refine ⟨.give hg ?_, .of_unstarted hu ⟨hu, hmode⟩ (fun hm => ?_) rfl⟩
    · refine Part.forall_numbers (fun m f hf => ?_) (by simp [MainPc.held]) (fun _ hh => Or.inl (Part.accept_mem hh))
        (fun _ hh => Or.inl (Part.rx_mem hh)) fun _ hh => Or.inl (Part.tx_mem hh)
      cases m with
      | listen_fd_ => exact Or.inr (Option.some.inj hf).symm
      | client_fd_ => exact Or.inl (Part.member_mem (p := p) (m := .client_fd_) hf)
      | rx_fd_ => exact Or.inl (Part.member_mem (p := p) (m := .rx_fd_) hf)
    · have htarget := h.target (by rw [hu.2.1]; rfl) hm
      unfold Part.target at htarget ⊢
      by_cases hsplit : p.mode = .startSplit <;> simpa [hsplit, Part.member] using htarget

theorem StopInv.socketTx (h : StopInv t p) (hpc : p.main = .socketTx)
    (hs : Part.socketTx t i p ans = some (u, q, es)) : Local t p u q ans.fd ∧ StopInv u q := by
  obtain ⟨hu, hmode⟩ : p.Unstarted ∧ p.mode ≠ .start := by
    have := h.main
    rwa [hpc] at this
  unfold Part.socketTx at hs
  cases hfd : ans.fd with
  | none =>
    simp only [hfd, Option.some.injEq, Prod.mk.injEq] at hs
    obtain ⟨rfl, rfl, rfl⟩ := hs
    exact ⟨.of_numbers (numbers_main (by simp [failed_held])), h.failed hu⟩
  | some fd =>
    simp only [hfd, Option.bind_eq_bind, Option.bind_eq_some_iff, Prod.exists, Option.some.injEq, Prod.mk.injEq] at hs
    obtain ⟨u, k, hg, rfl, rfl, rfl⟩ := hs
    have hfds := (Descriptors.give_fds hg).2.2.1
    refine ⟨.give hg ?_, .of_unstarted hu ⟨hu, hmode, hfds⟩ (h.target (by rw [hu.2.1]; rfl)) rfl⟩
    exact Part.forall_numbers (fun _ _ hm => Or.inl (Part.member_mem hm))
      (fun g hg => Or.inr (congrArg Held.fd (Option.some.inj hg)).symm) (fun _ hh => Or.inl (Part.accept_mem hh))
      (fun _ hh => Or.inl (Part.rx_mem hh)) fun _ hh => Or.inl (Part.tx_mem hh)

/-- `client_fd_` is the socket that was connected. -/
theorem StopInv.setClient (h : StopInv t p) {g : Held} (hpc : p.main = .setClient g) :
    let q := { p with client_fd_ := some g.fd, main := if p.mode = .startPassive then .spawnRx g else .spawnTx g }
    Local t p t q new ∧ StopInv t q := by
  obtain ⟨hu, hmode, hfds⟩ : p.Unstarted ∧ p.mode ≠ .start ∧ t.fds g.fd = some g.sock := by
    have := h.main
    rwa [hpc] at this
  have hmine : some g.fd ∈ p.numbers := Part.main_mem (by rw [hpc]; rfl)
  refine ⟨.of_numbers ?_, ?_⟩
  · refine Part.forall_numbers (fun m f hf => ?_) (fun g' hg => ?_) (fun _ => Part.accept_mem (p := p))
      (fun _ => Part.rx_mem (p := p)) fun _ => Part.tx_mem (p := p)
    · cases m with
      | client_fd_ => rwa [← hf]
      | listen_fd_ => exact Part.member_mem (p := p) (m := .listen_fd_) hf
      | rx_fd_ => exact Part.member_mem (p := p) (m := .rx_fd_) hf
    · dsimp only at hg
      split at hg <;> cases hg <;> exact hmine
  · cases hm : p.mode with
    | start => exact absurd hm hmode
    | startPassive =>
      simp only [if_true]
      exact .of_unstarted hu ⟨hu, rfl, hfds, rfl⟩ (fun h => absurd rfl h) rfl
    | startSplit =>
      have htarget := h.target (by rw [hu.2.1]; rfl) (by rw [hm]; simp)
      simp only [reduceCtorEq, if_false]
      refine .of_unstarted hu ⟨hu.1, hu.2.1, by simp, hfds, rfl⟩ (fun _ => ?_) rfl
      simpa [Part.target, hm, Part.member] using htarget

/-- The connected socket is in `client_fd_`, where `stop` will find it. -/
theorem covered_client {g : Held} (hfds : t.fds g.fd = some g.sock) (hc : p.client_fd_ = some g.fd)
    (hp : p.main.passed .client_fd_ = false) : Known t g ∧ Covered t p g.sock :=
  ⟨fun _ hk => Option.some.inj (hk.symm.trans hfds), Or.inr ⟨.client_fd_, g.fd, hc, hfds, hp⟩⟩

theorem StopInv.spawnRx (h : StopInv t p) {g : Held} (hpc : p.main = .spawnRx g) :
    Local t p t { p with rx := .check g, main := .spawnTx g } new ∧ StopInv t { p with rx := .check g, main := .spawnTx g } := by
  obtain ⟨hu, hmode, hfds, hc⟩ : p.Unstarted ∧ p.mode = .startPassive ∧ t.fds g.fd = some g.sock ∧
      p.client_fd_ = some g.fd := by
    have := h.main
    rwa [hpc] at this
  have hmine : some g.fd ∈ p.numbers := Part.main_mem (by rw [hpc]; rfl)
  obtain ⟨hk, hcov⟩ := covered_client (p := { p with rx := .check g, main := .spawnTx g }) hfds hc rfl
  refine ⟨.of_numbers (Part.forall_numbers (fun _ _ => Part.member_mem (p := p)) (fun g' hg => ?_)
    (fun _ => Part.accept_mem (p := p)) (fun g' hg => ?_) fun _ => Part.tx_mem (p := p)), ?_⟩
  · rwa [← Option.some.inj hg]
  · rwa [← Option.some.inj hg]
  exact {
    main := ⟨hu.1, hu.2.1, by rw [hmode]; simp, hfds, hc⟩
    accept := by rw [show ({ p with rx := .check g, main := .spawnTx g } : Part).accept = .none from hu.2.1]; trivial
    rx := ⟨hk, Or.inl hcov⟩
    tx := by rw [show ({ p with rx := .check g, main := .spawnTx g } : Part).tx = .none from hu.2.2.2]; trivial
    target := fun _ hm => absurd hmode hm
    passive := fun _ => hu.2.1
    listen := by simp [MainPc.passed] }

theorem StopInv.spawnTx (h : StopInv t p) {g : Held} (hpc : p.main = .spawnTx g) :
    let q := { p.start_tx_thread g with main := if p.mode = .startPassive then .idle else .spawnAccept }
    Local t p t q new ∧ StopInv t q := by
  obtain ⟨hstop, hacc, hmode, hfds, hc⟩ : p.stop_flag_ = false ∧ p.accept = .none ∧ p.mode ≠ .start ∧
      t.fds g.fd = some g.sock ∧ p.client_fd_ = some g.fd := by
    have := h.main
    rwa [hpc] at this
  have hmine : some g.fd ∈ p.numbers := Part.main_mem (by rw [hpc]; rfl)
  have hq : p.start_tx_thread g = { p with tx_active_ := true, tx := .check g } := if_neg (by simp [hstop])
  -- The same for both ways on: no member is passed, and the rx thread relies on what it did before.
  have step : ∀ pc : MainPc, pc.held = none → (∀ m, pc.passed m = false) →
      MainOk t { p with tx_active_ := true, tx := .check g } pc →
      Local t p t { p with tx_active_ := true, tx := .check g, main := pc } new ∧
        StopInv t { p with tx_active_ := true, tx := .check g, main := pc } := by
    intro pc hheld hpassed hmain
    have F : Frame t p t { p with tx_active_ := true, tx := .check g, main := pc } :=
      .of_passed (fun _ _ => id) (fun m _ => hpassed m) id
    refine ⟨.of_numbers (Part.forall_numbers (fun _ _ => Part.member_mem (p := p)) (fun g' hg => ?_)
      (fun _ => Part.accept_mem (p := p)) (fun _ => Part.rx_mem (p := p)) fun g' hg => ?_), ?_⟩
    · rw [hheld] at hg
      cases hg
    · rwa [← Option.some.inj hg]
    exact {
      main := mainOk_main hmain
      accept := F.acceptOk rfl (fun _ _ => ⟨rfl, fun _ => id⟩) h.accept
      rx := F.rxOk rfl h.rx
      tx := covered_client hfds hc (hpassed _)
      target := h.target
      passive := h.passive
      listen := fun hl => by rw [hpassed] at hl; cases hl }
  simp only [hq]
  split
  · exact step .idle rfl (fun _ => rfl) fun hs => by rw [hstop] at hs; cases hs
  · rename_i hm
    exact step .spawnAccept rfl (fun _ => rfl) ⟨hstop, hacc, hm⟩

/-- The members, and the threads but the accept thread, stay as they are, and no member is passed. -/
theorem StopInv.spawnAccept (h : StopInv t p) (hpc : p.main = .spawnAccept) :
    Local t p t { p with accept := .accept, main := .idle } new ∧ StopInv t { p with accept := .accept, main := .idle } := by
  obtain ⟨hstop, hacc, hmode⟩ : p.stop_flag_ = false ∧ p.accept = .none ∧ p.mode ≠ .startPassive := by
    have := h.main
    rwa [hpc] at this
  have F : Frame t p t { p with accept := .accept, main := .idle } :=
    .of_passed (fun _ _ => id) (fun _ _ => rfl) id
  refine ⟨.of_numbers (Part.forall_numbers (fun _ _ => Part.member_mem (p := p)) (by simp [MainPc.held])
    (by simp [AcceptPc.held])
    (fun _ => Part.rx_mem (p := p)) fun _ => Part.tx_mem (p := p)), ?_⟩
  exact {
    main := fun hs => by rw [hstop] at hs; cases hs
    accept := trivial
    rx := F.rxOk rfl h.rx
    tx := F.txOk rfl (fun _ _ => Or.inl hstop) h.tx
    target := fun _ => h.target (by rw [hacc]; rfl)
    passive := fun hm => absurd hm hmode
    listen := by simp [MainPc.passed] }

/-- `stop_flag_.store(true)` -/
theorem StopInv.idle (h : StopInv t p) :
    Local t p t { p with stop_flag_ := true, main := .stopQueue } new ∧
      StopInv t { p with stop_flag_ := true, main := .stopQueue } := by
  have F : Frame t p t { p with stop_flag_ := true, main := .stopQueue } :=
    .of_passed (fun _ _ => id) (fun _ _ => rfl) fun _ => rfl
  refine ⟨.of_numbers (Part.forall_numbers (fun _ _ => Part.member_mem (p := p)) (by simp [MainPc.held]) (fun _ => Part.accept_mem (p := p))
    (fun _ => Part.rx_mem (p := p)) fun _ => Part.tx_mem (p := p)), ?_⟩
  exact {
    main := rfl
    accept := F.acceptOk rfl (fun _ _ => ⟨rfl, fun _ => id⟩) h.accept
    rx := F.rxOk rfl h.rx
    tx := F.txOk rfl (fun _ _ => Or.inr rfl) h.tx
    target := h.target
    passive := h.passive
    listen := by simp [MainPc.passed] }

/-- What holds of the main thread does not depend on how far a living thread is. -/
theorem MainOk.keep (h : MainOk t p p.main) (hmain : q.main = p.main) (hstop : q.stop_flag_ = p.stop_flag_)
    (hmode : q.mode = p.mode) (hmember : ∀ m, p.member m ≠ none ∨ p.accept.Ended → q.member m = p.member m)
    (hfds : ∀ f, some f ∈ p.numbers → u.fds f = t.fds f) (hshut : ∀ k ∈ t.shut, k ∈ u.shut)
    (haccept : q.accept = p.accept ∨ ¬ p.accept.Ended) (hrx : q.rx = p.rx ∨ ¬ p.rx.Ended ∨ ¬ p.accept.Ended)
    (htx : q.tx = p.tx ∨ ¬ p.tx.Ended ∨ ¬ p.accept.Ended) : MainOk u q q.main := by
  have hun : p.Unstarted → q.Unstarted := by
    rintro ⟨hs, ha, hr, hx⟩
    simp only [ha, hr, hx, AcceptPc.Ended, RxPc.Ended, TxPc.Ended, true_or, not_true_eq_false, or_false] at haccept hrx htx
    exact ⟨hstop.trans hs, haccept, hrx, htx⟩
  have hacc : p.accept.Ended → q.accept = p.accept := fun he => haccept.resolve_right fun hne => hne he
  have hr : p.accept.Ended → p.rx.Ended → q.rx = p.rx := fun ha he => hrx.resolve_right fun hne => hne.elim (· he) (· ha)
  have hx : p.accept.Ended → p.tx.Ended → q.tx = p.tx := fun ha he => htx.resolve_right fun hne => hne.elim (· he) (· ha)
  have hheld : ∀ g, p.main.held = some g → t.fds g.fd = some g.sock → u.fds g.fd = some g.sock := fun g hg hf =>
    (hfds g.fd (Part.main_mem hg)).trans hf
  have hnone : p.accept = .none → q.accept = .none ∧ q.client_fd_ = p.client_fd_ := fun ha =>
    have he : p.accept.Ended := Or.inl ha
    ⟨(hacc he).trans ha, hmember .client_fd_ (Or.inr he)⟩
  rw [hmain]
  cases hpc : p.main with
  | socketListen | bind | listen | inetPton | socketTx =>
    rw [hpc] at h
    exact ⟨hun h.1, hmode ▸ h.2⟩
  | connect g | closeTx g | setClient g =>
    rw [hpc] at h
    exact ⟨hun h.1, hmode ▸ h.2.1, hheld g (by rw [hpc]; rfl) h.2.2⟩
  | spawnRx g =>
    rw [hpc] at h
    exact ⟨hun h.1, hmode.trans h.2.1, hheld g (by rw [hpc]; rfl) h.2.2.1, (hnone h.1.2.1).2.trans h.2.2.2⟩
  | spawnTx g =>
    rw [hpc] at h
    exact ⟨hstop.trans h.1, (hnone h.2.1).1, hmode ▸ h.2.2.1, hheld g (by rw [hpc]; rfl) h.2.2.2.1,
      (hnone h.2.1).2.trans h.2.2.2.2⟩
  | spawnAccept =>
    rw [hpc] at h
    exact ⟨hstop.trans h.1, (hnone h.2.1).1, hmode ▸ h.2.2⟩
  | idle =>
    rw [hpc] at h
    intro hs
    obtain ⟨ha, hr', hx'⟩ := h (hstop ▸ hs)
    exact ⟨hacc ha ▸ ha, hr ha hr' ▸ hr', hx ha hx' ▸ hx'⟩
  | stopQueue | test _ | joinAccept =>
    rw [hpc] at h
    exact hstop.trans h
  | shutdown m =>
    rw [hpc] at h
    exact ⟨hstop.trans h.1, by rw [hmember m (Or.inl h.2)]; exact h.2⟩
  | close m stopping =>
    cases stopping with
    | false =>
      rw [hpc] at h
      exact hun h
    | true =>
      rw [hpc] at h
      have hm := hmember m (Or.inl h.2.1)
      refine ⟨hstop.trans h.1, by rw [hm]; exact h.2.1, fun f k hf hk => hshut k (h.2.2 f k (hm ▸ hf) ?_)⟩
      rwa [hfds f (Part.member_mem (hm ▸ hf))] at hk
  | reset m stopping =>
    cases stopping with
    | false =>
      rw [hpc] at h
      exact hun h
    | true =>
      rw [hpc] at h
      exact hstop.trans h
  | joinRx =>
    rw [hpc] at h
    exact ⟨hstop.trans h.1, hacc h.2 ▸ h.2⟩
  | joinTx =>
    rw [hpc] at h
    exact ⟨hstop.trans h.1, hacc h.2.1 ▸ h.2.1, hr h.2.1 h.2.2 ▸ h.2.2⟩

/-- The tx thread leaves its wait. -/
theorem StopInv.notify (h : StopInv t p) : Local t p t p.notify new ∧ StopInv t p.notify := by
  rcases notify_eq p with hn | ⟨g, htx, hn⟩ <;> rw [hn]
  · exact ⟨.of_numbers fun _ => id, h⟩
  · have hok := h.tx
    rw [htx] at hok
    have F : Frame t p t { p with tx := .dequeue g } := .of_passed (fun _ _ => id) (fun _ => id) id
    refine ⟨.of_numbers (Part.forall_numbers (fun _ _ => Part.member_mem (p := p)) (fun _ => Part.main_mem (p := p))
      (fun _ => Part.accept_mem (p := p)) (fun _ => Part.rx_mem (p := p)) fun g' hg => ?_), ?_⟩
    · rw [← Option.some.inj hg]
      exact Part.tx_mem (by rw [htx]; rfl)
    exact {
      main := h.main.keep rfl rfl rfl (fun _ _ => rfl) (fun _ _ => rfl) (fun _ => id) (Or.inl rfl) (Or.inl rfl)
        (Or.inr (Or.inl (by simp [TxPc.Ended, htx])))
      accept := F.acceptOk rfl (fun _ _ => ⟨rfl, fun _ => id⟩) h.accept
      rx := F.rxOk rfl h.rx
      tx := ⟨hok.1, F.covered hok.2.1⟩
      target := h.target
      passive := h.passive
      listen := h.listen }

theorem notify_tx (p : Part) (g : Held) : p.notify.tx ≠ .waiting g := by
  rcases notify_eq p with hn | ⟨g', -, hn⟩ <;> rw [hn]
  · intro htx
    rw [Part.notify, htx] at hn
    rw [← hn] at htx
    cases htx
  · simp

theorem notify_main (p : Part) : p.notify.main = p.main ∧ p.notify.stop_flag_ = p.stop_flag_ := by
  rcases notify_eq p with hn | ⟨g, -, hn⟩ <;> rw [hn] <;> exact ⟨rfl, rfl⟩

/-- `stop` goes on, and the threads stay as they are. -/
theorem StopInv.goesOn (h : StopInv t p) (F : Frame t p u q) (hmain : MainOk u q q.main) (hmode : q.mode = p.mode)
    (hacc : q.accept = p.accept) (hrx : q.rx = p.rx) (htx : q.tx = p.tx) (hwait : ∀ g, p.tx ≠ .waiting g)
    (hassign : ∀ g, p.accept = .assign g → u.fds g.fd = t.fds g.fd)
    (hmember : ∀ m f, q.member m = some f → p.member m = some f)
    (hlisten : q.main.passed .listen_fd_ = true → ∀ f k, q.listen_fd_ = some f → u.fds f = some k → k ∈ u.shut) :
    StopInv u q where
  main := hmain
  accept := F.acceptOk hacc (fun g hg => ⟨hassign g hg, fun m => hmember m g.fd⟩) h.accept
  rx := F.rxOk hrx h.rx
  tx := F.txOk htx (fun g hg => absurd hg (hwait g)) h.tx
  target := fun he hm => by
    have htarget := h.target (hacc ▸ he) (hmode ▸ hm)
    rw [show q.target = p.target by rw [Part.target, Part.target, hmode]]
    cases hq : q.member p.target with
    | none => rfl
    | some f =>
      rw [hmember _ f hq] at htarget
      cases htarget
  passive := fun hm => hacc.trans (h.passive (hmode ▸ hm))
  listen := hlisten

/-- After its queue section `stop` finds the tx thread in no wait. -/
theorem StopInv.not_waiting (h : StopInv t p) (hstop : p.stop_flag_ = true) (hne : p.main ≠ .stopQueue) (g : Held) :
    p.tx ≠ .waiting g := by
  intro hg
  rcases h.waits g hg with hs | hq
  · rw [hstop] at hs
    cases hs
  · exact hne hq

theorem StopInv.stopQueue (h : StopInv t p) (hpc : p.main = .stopQueue) :
    let q := { p.notify with tx_active_ := false, send_queue_ := [], main := .test .listen_fd_ }
    Local t p t q new ∧ StopInv t q := by
  obtain ⟨L, h'⟩ : Local t p t p.notify new ∧ StopInv t p.notify := h.notify
  obtain ⟨hmain, hstop⟩ := notify_main p
  have hs : p.stop_flag_ = true := by
    have := h.main
    rwa [hpc] at this
  have hsub : ∀ f, some f ∈ ({ p.notify with tx_active_ := false, send_queue_ := [], main := .test .listen_fd_ } : Part).numbers →
      some f ∈ p.notify.numbers :=
    Part.forall_numbers (fun _ _ => Part.member_mem (p := p.notify)) (by simp [MainPc.held])
      (fun _ => Part.accept_mem (p := p.notify)) (fun _ => Part.rx_mem (p := p.notify)) fun _ => Part.tx_mem (p := p.notify)
  refine ⟨⟨L.fds, L.shut, fun f hf => L.numbers f (hsub f hf)⟩, ?_⟩
  · refine h'.goesOn (.of_passed (fun _ _ => id) (fun m _ => ?_) id) (hstop.trans hs) rfl rfl rfl rfl (notify_tx p)
      (fun _ _ => rfl) (fun _ _ => id) (by simp [MainPc.passed])
    exact decide_eq_false (Nat.not_lt_zero m.index)

theorem StopInv.shutdown (h : StopInv t p) {m : Member} (hpc : p.main = .shutdown m) :
    Local t p (t.shutdown (p.member m)) { p with main := .close m true } new ∧
      StopInv (t.shutdown (p.member m)) { p with main := .close m true } := by
  obtain ⟨hstop, hm⟩ : p.stop_flag_ = true ∧ p.member m ≠ none := by
    have := h.main
    rwa [hpc] at this
  have hshut : ∀ f k, p.member m = some f → t.fds f = some k → k ∈ (t.shutdown (p.member m)).shut := fun f k hf hk =>
    Descriptors.mem_shutdown (by rw [hf]; exact hk)
  have F : Frame t p (t.shutdown (p.member m)) { p with main := .close m true } := by
    refine ⟨Descriptors.shut_shutdown t _, fun m' f k hf hk hp => ?_, fun f k _ hk => ?_, id⟩
    · rw [hpc] at hp
      by_cases heq : m' = m
      · exact Or.inl (hshut f k (heq ▸ hf) hk)
      · refine Or.inr ⟨hf, by rwa [Descriptors.shutdown_fds], decide_eq_false fun hle => heq ?_⟩
        exact Member.eq_of_index (le_antisymm hle (Nat.not_lt.mp (of_decide_eq_false hp)))
    · rwa [Descriptors.shutdown_fds] at hk
  refine ⟨.shutdown (numbers_main (by simp [MainPc.held])), ?_⟩
  refine h.goesOn F ⟨hstop, hm, fun f k hf hk => hshut f k hf ?_⟩ rfl rfl rfl rfl
    (h.not_waiting hstop (by rw [hpc]; simp)) (fun g _ => by rw [Descriptors.shutdown_fds]) (fun _ _ => id) fun _ f k hf hk => ?_
  · rwa [Descriptors.shutdown_fds] at hk
  · rw [Descriptors.shutdown_fds] at hk
    cases hp : p.main.passed .listen_fd_ with
    | true => exact F.shut k (h.listen hp f k hf hk)
    | false =>
      rw [hpc] at hp
      have hidx : m.index ≤ Member.listen_fd_.index := Nat.not_lt.mp (of_decide_eq_false hp)
      obtain rfl : m = .listen_fd_ := Member.eq_of_index (le_antisymm hidx (Nat.zero_le _))
      exact hshut f k hf hk

theorem StopInv.close (h : StopInv t p) {m : Member} (hpc : p.main = .close m true) :
    Local t p (t.close (p.member m)) { p with main := .reset m true } new ∧
      StopInv (t.close (p.member m)) { p with main := .reset m true } := by
  obtain ⟨hstop, -, hshut⟩ : p.stop_flag_ = true ∧ p.member m ≠ none ∧
      ∀ f k, p.member m = some f → t.fds f = some k → k ∈ t.shut := by
    have := h.main
    rwa [hpc] at this
  have hfds : ∀ f k, (t.close (p.member m)).fds f = some k → t.fds f = some k := fun f k hk => by
    rw [Descriptors.fds_close] at hk
    split at hk
    · cases hk
    · exact hk
  have F : Frame t p (t.close (p.member m)) { p with main := .reset m true } := by
    refine ⟨fun _ => id, fun m' f k hf hk hp => ?_, fun f k _ => hfds f k, id⟩
    rw [hpc] at hp
    by_cases heq : p.member m = some f
    · exact Or.inl (hshut f k heq hk)
    · exact Or.inr ⟨hf, by rwa [Descriptors.fds_close, if_neg heq], hp⟩
  refine ⟨.close (fun f => Part.member_mem) (numbers_main (by simp [MainPc.held])), ?_⟩
  refine h.goesOn F hstop rfl rfl rfl rfl (h.not_waiting hstop (by rw [hpc]; simp)) (fun g hg => ?_) (fun _ _ => id)
    fun _ f k hf hk => h.listen (by simp [hpc, MainPc.passed, Member.index]) f k hf (hfds f k hk)
  have hacc := h.accept
  rw [hg] at hacc
  rw [Descriptors.fds_close, if_neg (hacc.2 m)]

theorem member_setMember (p : Part) (fd : Option Nat) (m m' : Member) :
    (p.setMember fd m).member m' = if m' = m then fd else p.member m' := by
  cases m <;> cases m' <;> rfl

theorem setMember_same (p : Part) (fd : Option Nat) (m : Member) :
    (p.setMember fd m).mode = p.mode ∧ (p.setMember fd m).accept = p.accept ∧ (p.setMember fd m).rx = p.rx ∧
      (p.setMember fd m).tx = p.tx ∧ (p.setMember fd m).stop_flag_ = p.stop_flag_ ∧ (p.setMember fd m).main = p.main := by
  cases m <;> exact ⟨rfl, rfl, rfl, rfl, rfl, rfl⟩

theorem StopInv.reset (h : StopInv t p) {m : Member} (hpc : p.main = .reset m true) :
    let q := { p.setMember none m with main := Part.afterMember m }
    Local t p t q new ∧ StopInv t q := by
  have hstop : p.stop_flag_ = true := by
    have := h.main
    rwa [hpc] at this
  obtain ⟨hmode, hacc, hrx, htx, hstop', -⟩ := setMember_same p none m
  have hmember : ∀ m' f, (p.setMember none m).member m' = some f → m' ≠ m ∧ p.member m' = some f := fun m' f hf => by
    rw [member_setMember] at hf
    split at hf
    · cases hf
    · exact ⟨by assumption, hf⟩
  have F : Frame t p t { p.setMember none m with main := Part.afterMember m } := by
    refine .of_members (fun m' f hf hp => ?_) fun hs => hstop'.trans hs
    rw [hpc] at hp
    have hlt : ¬ m'.index ≤ m.index := of_decide_eq_false hp
    have hne : m' ≠ m := fun heq => hlt (heq ▸ le_refl _)
    refine ⟨?_, (passed_afterMember m m').trans hp⟩
    exact (member_setMember p none m m').trans ((if_neg hne).trans hf)
  refine ⟨.of_numbers ?_, ?_⟩
  · refine Part.forall_numbers (fun m' f hf => Part.member_mem (hmember m' f hf).2) (fun g hg => ?_)
      (fun g hg => Part.accept_mem (hacc ▸ hg)) (fun g hg => Part.rx_mem (hrx ▸ hg)) fun g hg => Part.tx_mem (htx ▸ hg)
    cases m <;> cases hg
  · refine h.goesOn F ?_ hmode hacc hrx htx (h.not_waiting hstop (by rw [hpc]; simp)) (fun _ _ => rfl)
      (fun m' f hf => (hmember m' f hf).2) fun _ f k hf hk => ?_
    · cases m <;> exact hstop
    · exact h.listen (by simp [hpc, MainPc.passed, Member.index]) f k (hmember .listen_fd_ f hf).2 hk

/-- A start that failed closes its listening socket, before there are threads. -/
theorem StopInv.closeFailed (h : StopInv t p) {m : Member} (hpc : p.main = .close m false) :
    Local t p (t.close (p.member m)) { p with main := .reset m false } new ∧
      StopInv (t.close (p.member m)) { p with main := .reset m false } := by
  have hu : p.Unstarted := by
    have := h.main
    rwa [hpc] at this
  exact ⟨.close (fun f => Part.member_mem) (numbers_main (by simp [MainPc.held])), .of_unstarted hu hu (h.target (by rw [hu.2.1]; rfl)) rfl⟩

theorem StopInv.resetFailed (h : StopInv t p) {m : Member} (hpc : p.main = .reset m false) :
    let q := { p.setMember none m with main := .idle }
    Local t p t q new ∧ StopInv t q := by
  have hu : p.Unstarted := by
    have := h.main
    rwa [hpc] at this
  obtain ⟨hmode, hacc, hrx, htx, hstop, -⟩ := setMember_same p none m
  have hmember : ∀ m' f, (p.setMember none m).member m' = some f → p.member m' = some f := fun m' f hf => by
    rw [member_setMember] at hf
    split at hf
    · cases hf
    · exact hf
  refine ⟨.of_numbers ?_, ?_⟩
  · exact Part.forall_numbers (fun m' f hf => Part.member_mem (hmember m' f hf)) (by simp [MainPc.held])
      (fun g hg => Part.accept_mem (hacc ▸ hg)) (fun g hg => Part.rx_mem (hrx ▸ hg)) fun g hg => Part.tx_mem (htx ▸ hg)
  · refine .of_unstarted ⟨hstop.trans hu.1, hacc.trans hu.2.1, hrx.trans hu.2.2.1, htx.trans hu.2.2.2⟩
      (fun hs => by rw [show _ = false from hstop.trans hu.1] at hs; cases hs) (fun hm => ?_) rfl
    have htarget := h.target (by rw [hu.2.1]; rfl) (hmode ▸ hm)
    have hsame : (p.setMember none m).target = p.target := by rw [Part.target, Part.target, hmode]
    change (p.setMember none m).member (p.setMember none m).target = none
    rw [hsame, member_setMember, htarget, ite_self]

theorem StopInv.mainStep (h : StopInv t p) (hs : p.mainStep t i ans = some (u, q, es)) :
    Local t p u q ans.fd ∧ StopInv u q := by
  have hmain := h.main
  unfold Part.mainStep at hs
  cases hpc : p.main <;> rw [hpc] at hmain <;> simp only [hpc, Option.some.injEq, Prod.mk.injEq] at hs
  case socketListen => exact h.socketListen hpc hs
  case bind =>
    obtain ⟨rfl, rfl, rfl⟩ := hs
    split
    · exact h.goto (by simp [hpc]) (by simp [MainPc.held]) hmain fun _ _ => Or.inl rfl
    · exact ⟨.of_numbers (numbers_main (by simp [failed_held])), h.failed hmain.1⟩
  case listen =>
    obtain ⟨rfl, rfl, rfl⟩ := hs
    split
    · split
      · rename_i hsplit
        exact h.goto (by simp [hpc]) (by simp [MainPc.held]) ⟨hmain.1, by rw [hsplit]; simp⟩ fun _ _ => Or.inl rfl
      · exact h.goto (by simp [hpc]) (by simp [MainPc.held]) ⟨hmain.1.1, hmain.1.2.1, hmain.2⟩ fun _ _ => Or.inl rfl
    · exact ⟨.of_numbers (numbers_main (by simp [failed_held])), h.failed hmain.1⟩
  case inetPton =>
    obtain ⟨rfl, rfl, rfl⟩ := hs
    split
    · exact h.goto (by simp [hpc]) (by simp [MainPc.held]) hmain fun _ _ => Or.inl rfl
    · exact ⟨.of_numbers (numbers_main (by simp [failed_held])), h.failed hmain.1⟩
  case socketTx => exact h.socketTx hpc hs
  case connect g =>
    obtain ⟨rfl, rfl, rfl⟩ := hs
    split
    · exact h.goto (by simp [hpc]) (by simp [hpc, MainPc.held]) hmain fun _ _ => Or.inl rfl
    · exact h.goto (by simp [hpc]) (by simp [hpc, MainPc.held]) hmain fun _ _ => Or.inl rfl
  case closeTx g =>
    obtain ⟨rfl, rfl, rfl⟩ := hs
    refine ⟨.close (fun f hf => ?_) (numbers_main (by simp [failed_held])), h.failed hmain.1⟩
    rw [← Option.some.inj hf]
    exact Part.main_mem (by rw [hpc]; rfl)
  case setClient g =>
    obtain ⟨rfl, rfl, rfl⟩ := hs
    exact h.setClient hpc
  case spawnRx g =>
    obtain ⟨rfl, rfl, rfl⟩ := hs
    exact h.spawnRx hpc
  case spawnTx g =>
    obtain ⟨rfl, rfl, rfl⟩ := hs
    exact h.spawnTx hpc
  case spawnAccept =>
    obtain ⟨rfl, rfl, rfl⟩ := hs
    exact h.spawnAccept hpc
  case idle =>
    obtain ⟨rfl, rfl, rfl⟩ := hs
    exact h.idle
  case stopQueue =>
    obtain ⟨rfl, rfl, rfl⟩ := hs
    exact h.stopQueue hpc
  case test m =>
    obtain ⟨rfl, rfl, rfl⟩ := hs
    split
    · rename_i hsome
      exact h.goto (by simp [hpc]) (by simp [MainPc.held]) ⟨hmain, by simpa [Option.isSome_iff_ne_none] using hsome⟩
        fun _ hp => Or.inl (by rwa [hpc] at hp)
    · rename_i hnone
      refine h.goto (by simp [hpc]) (by cases m <;> simp [Part.afterMember, MainPc.held]) (by cases m <;> exact hmain) fun m' hp => ?_
      rw [hpc] at hp
      have hle : m.index ≤ m'.index := Nat.not_lt.mp (of_decide_eq_false hp)
      by_cases heq : m' = m
      · exact Or.inr (by simpa [heq] using hnone)
      · refine Or.inl ((passed_afterMember m m').trans (decide_eq_false fun hge => heq ?_))
        exact Member.eq_of_index (le_antisymm hge hle)
  case shutdown m =>
    obtain ⟨rfl, rfl, rfl⟩ := hs
    exact h.shutdown hpc
  case close m stopping =>
    obtain ⟨rfl, rfl, rfl⟩ := hs
    cases stopping with
    | false => exact h.closeFailed hpc
    | true => exact h.close hpc
  case reset m stopping =>
    obtain ⟨rfl, rfl, rfl⟩ := hs
    cases stopping with
    | false => exact h.resetFailed hpc
    | true => exact h.reset hpc
  case joinAccept =>
    split at hs
    · rename_i hended
      obtain ⟨rfl, rfl, rfl⟩ : t = u ∧ { p with main := .joinRx } = q ∧ [] = es := by simpa using hs
      exact h.goto (by simp [hpc]) (by simp [MainPc.held]) ⟨hmain, hended⟩ fun m hp => by rw [hpc] at hp; cases hp
    · cases hs
  case joinRx =>
    split at hs
    · rename_i hended
      obtain ⟨rfl, rfl, rfl⟩ : t = u ∧ { p with main := .joinTx } = q ∧ [] = es := by simpa using hs
      exact h.goto (by simp [hpc]) (by simp [MainPc.held]) ⟨hmain.1, hmain.2, hended⟩ fun m hp => by rw [hpc] at hp; cases hp
    · cases hs
  case joinTx =>
    split at hs
    · rename_i hended
      obtain ⟨rfl, rfl, rfl⟩ : t = u ∧ { p with main := .idle } = q ∧ [] = es := by simpa using hs
      exact h.goto (by simp [hpc]) (by simp [MainPc.held]) (fun _ => ⟨hmain.2.1, hmain.2.2, hended⟩) fun m hp => by rw [hpc] at hp; cases hp
    · cases hs

end Steps
end AudioMeet.Threads
