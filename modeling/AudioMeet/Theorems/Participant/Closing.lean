import AudioMeet.Theorems.Participant.Joins
import AudioMeet.Theorems.Participant.Sockets

/-! What `stop` closes. Once it returned, every socket of its participant was shut down and is closed, unless the
    accept thread stored a descriptor in a member that `stop` was done with. -/

namespace AudioMeet.Threads
open Lib Machine

/-! ### The schedules -/

/-- The accept thread is about to store its descriptor in a member that `stop` is done with. -/
def Part.StoresLate (p : Part) : Prop := p.accept.unassigned.isSome ∧ p.main.passed p.target = true

/-- A start that failed is about to close a socket. -/
def MainPc.givesUp : MainPc → Bool
  | .closeTx _ | .close _ false => true
  | _ => false

/-- The accept thread of participant `i` stores its descriptor before `stop` is done with the member. -/
def StoredInTime (i : Nat) (w : World) : Act → Prop
  | .accept j _ => j = i → ∀ p ∈ w.parts[i]?, ¬ p.StoresLate
  | _ => True

/-- The start of participant `i` does not fail once it has a socket. -/
def StartsWell (i : Nat) (w : World) : Act → Prop
  | .main j _ => j = i → ∀ p ∈ w.parts[i]?, p.main.givesUp = false
  | _ => True

/-- `stop` of participant `i` is not called again. -/
def StopsOnce (i : Nat) (w : World) : Act → Prop
  | .main j _ => j = i → ∀ p ∈ w.parts[i]?, p.main = .idle → p.stop_flag_ = false
  | _ => True

/-- The numbers are apart, the start succeeds, and what it accepts is stored in time. -/
def InTime (i : Nat) (w : World) (a : Act) : Prop := NoReuse w a ∧ StoredInTime i w a ∧ StartsWell i w a

instance (p : Part) : Decidable p.StoresLate := inferInstanceAs (Decidable (_ ∧ _))

instance (i : Nat) (w : World) : DecidablePred (InTime i w)
  | .main j ans => inferInstanceAs (Decidable (NoReuse w (.main j ans) ∧ True ∧ (j = i → ∀ p ∈ w.parts[i]?, p.main.givesUp = false)))
  | .accept j ans => inferInstanceAs (Decidable (NoReuse w (.accept j ans) ∧ (j = i → ∀ p ∈ w.parts[i]?, ¬ p.StoresLate) ∧ True))
  | .new _ | .rx _ _ | .tx _ _ | .put _ _ | .wake _ => .isTrue ⟨trivial, trivial, trivial⟩

instance (i : Nat) (w : World) : DecidablePred (StopsOnce i w)
  | .main j _ => inferInstanceAs (Decidable (j = i → ∀ p ∈ w.parts[i]?, p.main = .idle → p.stop_flag_ = false))
  | .new _ | .accept _ _ | .rx _ _ | .tx _ _ | .put _ _ | .wake _ => .isTrue trivial

/-- The members of participant `i` are -1, and each of its sockets in `w₁` was shut down and is closed in `w`. -/
structure AllClosed (i : Nat) (w₁ w : World) (p : Part) : Prop where
  members : ∀ m, p.member m = none
  closed : ∀ f k, w.table.fds f = some k → k.owner ≠ i
  shut : ∀ f k, w₁.table.fds f = some k → k.owner = i → k ∈ w.table.shut

/-! ### What is open, and what is -1 -/

/-- The member is -1 here: it is not opened yet, or `stop` is done with it. -/
def Part.cleared (p : Part) (m : Member) : Bool :=
  match p.main with
  | .socketListen | .joinAccept | .joinRx | .joinTx => true
  | .bind | .listen | .inetPton | .socketTx | .connect _ | .closeTx _ | .setClient _ => decide (m = .client_fd_)
  | .idle => p.stop_flag_
  | .test m' | .shutdown m' | .close m' true | .reset m' true => decide (m.index < m'.index)
  | _ => false

/-- Participant `i` knows the number of each of its open sockets, and what it is done with is -1. -/
structure Closes (t : Table) (i : Nat) (p : Part) : Prop where
  sockets : Sockets t i p
  cleared : ∀ m, p.cleared m = true → p.member m = none

section Steps
variable {t u : Table} {i : Nat} {p q : Part} {ans : Answer} {es : List Event} {f : Nat}

/-! ### A step of the thread that starts and stops -/

/-- Nothing is cleared when a start fails. -/
theorem cleared_failed (hstop : p.stop_flag_ = false) (m : Member) :
    ({ p with main := p.failed } : Part).cleared m = false := by
  unfold Part.failed
  split
  · exact hstop
  · rfl

/-- `stop` goes on to the next member. -/
theorem cleared_afterMember (p : Part) (m m' : Member) :
    ({ p with main := Part.afterMember m } : Part).cleared m' = decide (m'.index ≤ m.index) := by
  cases m <;> cases m' <;> rfl

/-- A start goes on, or fails. -/
theorem Closes.tries (h : Closes t i p) {pc : MainPc} {ok : Bool} (hstop : p.stop_flag_ = false)
    (hclear : ∀ m, ({ p with main := pc } : Part).cleared m = true → p.cleared m = true) (m : Member)
    (hm : ({ p with main := if ok then pc else p.failed } : Part).cleared m = true) : p.member m = none := by
  cases ok with
  | true => exact h.cleared m (hclear m hm)
  | false => exact absurd ((cleared_failed hstop m).symm.trans hm) Bool.false_ne_true

theorem Closes.socketListen (h : Closes t i p) (hstop : p.stop_flag_ = false) (hpc : p.main = .socketListen)
    (hs : Part.socketListen t i p ans = some (u, q, es)) (m : Member) (hm : q.cleared m = true) : q.member m = none := by
  unfold Part.socketListen at hs
  split at hs
  · cases hs
    exact absurd (hstop.symm.trans hm) Bool.false_ne_true
  · obtain ⟨⟨u', k⟩, -, hs⟩ := Option.bind_eq_some_iff.mp hs
    cases hs
    obtain rfl : m = .client_fd_ := of_decide_eq_true hm
    exact h.cleared .client_fd_ (by simp [Part.cleared, hpc])

theorem Closes.socketTx (h : Closes t i p) (hstop : p.stop_flag_ = false) (hpc : p.main = .socketTx)
    (hs : Part.socketTx t i p ans = some (u, q, es)) (m : Member) (hm : q.cleared m = true) : q.member m = none := by
  unfold Part.socketTx at hs
  split at hs
  · cases hs
    exact absurd ((cleared_failed hstop m).symm.trans hm) Bool.false_ne_true
  · obtain ⟨⟨u', k⟩, -, hs⟩ := Option.bind_eq_some_iff.mp hs
    cases hs
    obtain rfl : m = .client_fd_ := of_decide_eq_true hm
    exact h.cleared .client_fd_ (by simp [Part.cleared, hpc])

theorem Closes.reset {m : Member} {stopping : Bool} (h : Closes t i p) (hstop : stopping = false → p.stop_flag_ = false)
    (hpc : p.main = .reset m stopping) (m' : Member)
    (hm : ({ p.setMember none m with main := if stopping then Part.afterMember m else .idle } : Part).cleared m' = true) :
    (p.setMember none m).member m' = none := by
  obtain ⟨-, -, -, -, hflag, -⟩ := setMember_same p none m
  rw [member_setMember]
  cases stopping with
  | false => exact absurd ((hflag.trans (hstop rfl)).symm.trans hm) Bool.false_ne_true
  | true =>
    rw [if_pos rfl, cleared_afterMember] at hm
    split
    · rfl
    · rename_i hne
      have hlt : m'.index < m.index := lt_of_le_of_ne (of_decide_eq_true hm) fun heq => hne (Member.eq_of_index heq)
      exact h.cleared m' (by simpa [Part.cleared, hpc] using hlt)

/-- `stop` skips a member that is -1. -/
theorem Closes.skip {m : Member} (h : Closes t i p) (hpc : p.main = .test m) (hnone : p.member m = none) (m' : Member)
    (hm : ({ p with main := Part.afterMember m } : Part).cleared m' = true) : p.member m' = none := by
  rw [cleared_afterMember] at hm
  by_cases heq : m' = m
  · exact heq ▸ hnone
  · have hlt : m'.index < m.index := lt_of_le_of_ne (of_decide_eq_true hm) fun hidx => heq (Member.eq_of_index hidx)
    exact h.cleared m' (by simpa [Part.cleared, hpc] using hlt)

/-- What the thread is done with after its step is -1. -/
theorem Closes.clears (h : Closes t i p) (hinv : StopInv t p) (hs : p.mainStep t i ans = some (u, q, es)) (m : Member)
    (hm : q.cleared m = true) : q.member m = none := by
  have hmain := hinv.main
  unfold Part.mainStep at hs
  cases hpc : p.main <;> rw [hpc] at hmain <;> simp only [hpc, Option.some.injEq, Prod.mk.injEq] at hs
  case socketListen => exact h.socketListen hmain.1.1 hpc hs m hm
  case socketTx => exact h.socketTx hmain.1.1 hpc hs m hm
  case bind | inetPton =>
    obtain ⟨rfl, rfl, -⟩ := hs
    exact h.tries hmain.1.1 (fun m hm => by simpa [Part.cleared, hpc] using hm) m hm
  case listen =>
    obtain ⟨rfl, rfl, -⟩ := hs
    refine h.tries hmain.1.1 (fun m hm => ?_) m hm
    split at hm
    · simpa [Part.cleared, hpc] using hm
    · cases hm
  case connect g =>
    obtain ⟨rfl, rfl, -⟩ := hs
    refine h.cleared m ?_
    split at hm
    · simpa [Part.cleared, hpc] using hm
    · simpa [Part.cleared, hpc] using hm
  case closeTx g =>
    obtain ⟨rfl, rfl, -⟩ := hs
    exact absurd ((cleared_failed hmain.1.1 m).symm.trans hm) Bool.false_ne_true
  case setClient g =>
    obtain ⟨rfl, rfl, -⟩ := hs
    split at hm <;> cases hm
  case spawnRx g | idle =>
    obtain ⟨rfl, rfl, -⟩ := hs
    cases hm
  case spawnTx g =>
    obtain ⟨rfl, rfl, -⟩ := hs
    have heq : p.start_tx_thread g = { p with tx_active_ := true, tx := .check g } := if_neg (by simp [hmain.1])
    rw [heq] at hm
    split at hm
    · exact absurd (hmain.1.symm.trans hm) Bool.false_ne_true
    · cases hm
  case spawnAccept =>
    obtain ⟨rfl, rfl, -⟩ := hs
    exact absurd (hmain.1.symm.trans hm) Bool.false_ne_true
  case stopQueue =>
    obtain ⟨rfl, rfl, -⟩ := hs
    exact absurd (of_decide_eq_true (p := m.index < 0) hm) (Nat.not_lt_zero _)
  case test m' =>
    obtain ⟨rfl, rfl, -⟩ := hs
    split at hm
    · exact h.cleared m (by simpa [Part.cleared, hpc] using hm)
    · rename_i hnone
      exact h.skip hpc (by simpa using hnone) m hm
  case shutdown m' =>
    obtain ⟨rfl, rfl, -⟩ := hs
    exact h.cleared m (by simpa [Part.cleared, hpc] using hm)
  case close m' stopping =>
    obtain ⟨rfl, rfl, -⟩ := hs
    refine h.cleared m (hm ▸ ?_)
    cases stopping <;> simp [Part.cleared, hpc]
  case reset m' stopping =>
    obtain ⟨rfl, rfl, -⟩ := hs
    refine h.reset (fun hfalse => ?_) hpc m hm
    subst hfalse
    exact hmain.1
  case joinAccept | joinRx | joinTx =>
    split at hs <;> cases hs
    exact h.cleared m (by simp [Part.cleared, hpc])

theorem Closes.mainStep (h : Closes t i p) (hinv : StopInv t p) (hs : p.mainStep t i ans = some (u, q, es)) :
    Closes u i q := by
  have hmain := hinv.main
  refine ⟨h.sockets.mainStep (fun hpc => ?_) (fun g hpc => ?_) (fun hpc => ?_) hs, h.clears hinv hs⟩
  · exact h.cleared .listen_fd_ (by simp [Part.cleared, hpc])
  · exact h.cleared .client_fd_ (by simp [Part.cleared, hpc])
  · rw [hpc] at hmain
    rw [hmain.2.1]
    rfl

/-! ### A step of the other threads -/

/-- What `stop` is done with while the accept thread is alive. -/
theorem StopInv.passed_of_cleared (h : StopInv t p) (hlive : ¬ p.accept.Ended) {m : Member} (hm : p.cleared m = true) :
    p.main.passed m = true := by
  have hmain := h.main
  have hstarted : ¬ p.Unstarted := fun hu => hlive (Or.inl hu.2.1)
  unfold Part.cleared at hm
  cases hpc : p.main with
  | socketListen | bind | listen | inetPton | socketTx | connect _ | closeTx _ | setClient _ =>
    rw [hpc] at hmain
    exact absurd hmain.1 hstarted
  | idle =>
    rw [hpc] at hmain hm
    exact absurd (hmain hm).1 hlive
  | close m' stopping | reset m' stopping =>
    rw [hpc] at hm
    cases stopping with
    | false => cases hm
    | true => exact decide_eq_true (of_decide_eq_true (p := m.index < m'.index) hm).le
  | test m' | shutdown m' =>
    rw [hpc] at hm
    exact hm
  | joinAccept | joinRx | joinTx => rfl
  | _ =>
    rw [hpc] at hm
    cases hm

/-- No thread but that of `stop` has a say in what is cleared. -/
theorem cleared_congr (hmain : q.main = p.main) (hstop : q.stop_flag_ = p.stop_flag_) (m : Member) :
    q.cleared m = p.cleared m := by
  unfold Part.cleared
  rw [hmain, hstop]

/-- The member of the accept thread is not on its way to -1 while it is stored in time. -/
theorem StopInv.not_stale {g : Held} (hinv : StopInv t p) (hpc : p.accept = .assign g) (hlate : ¬ p.StoresLate) :
    p.main.stale ≠ some p.target := by
  intro hstale
  refine hlate ⟨by rw [hpc]; rfl, ?_⟩
  have hmain := hinv.main
  cases hm : p.main with
  | reset m stopping =>
    rw [hm] at hmain hstale
    obtain rfl := Option.some.inj hstale
    cases stopping with
    | false => exact absurd (hpc.symm.trans hmain.2.1) (by simp)
    | true => exact decide_eq_true (le_refl _)
  | _ =>
    rw [hm] at hstale
    cases hstale

theorem Closes.acceptStep (h : Closes t i p) (hinv : StopInv t p) (hlate : ¬ p.StoresLate)
    (hs : p.acceptStep t i ans = some (u, q, es)) : Closes u i q := by
  have hassign : ∀ g, p.accept = .assign g → ¬ p.accept.Ended ∧ p.member p.target = none := fun g hpc => by
    have hlive : ¬ p.accept.Ended := by simp [AcceptPc.Ended, hpc]
    exact ⟨hlive, hinv.target (by rw [hpc]; rfl) fun hm => hlive (Or.inl (hinv.passive hm))⟩
  refine ⟨h.sockets.acceptStep (fun g hpc => ⟨(hassign g hpc).2, hinv.not_stale hpc hlate⟩) hs, fun m hm => ?_⟩
  unfold Part.acceptStep at hs
  cases hpc : p.accept <;> simp only [hpc, Option.some.injEq, Prod.mk.injEq, reduceCtorEq] at hs
  case accept | spawnRx g =>
    obtain ⟨rfl, rfl, -⟩ := hs
    exact h.cleared m hm
  case accepting on =>
    split at hs
    · cases hs
      exact h.cleared m hm
    · split at hs
      · obtain ⟨⟨u', k⟩, -, hs⟩ := Option.bind_eq_some_iff.mp hs
        cases hs
        exact h.cleared m hm
      · cases hs
  case assign g =>
    obtain ⟨rfl, rfl, -⟩ := hs
    obtain ⟨-, -, -, -, hstop, hmain⟩ := setMember_same p (some g.fd) p.target
    have hcleared : p.cleared m = true := (cleared_congr hmain hstop m).symm.trans hm
    refine (member_setMember p (some g.fd) p.target m).trans ?_
    rw [if_neg, h.cleared m hcleared]
    intro heq
    subst heq
    exact hlate ⟨by rw [hpc]; rfl, hinv.passed_of_cleared (hassign g hpc).1 hcleared⟩
  case spawnTx g =>
    obtain ⟨rfl, rfl, -⟩ := hs
    obtain ⟨hmember, hmain, -, hstop⟩ := start_tx_thread_same p g
    exact (hmember m).trans (h.cleared m ((cleared_congr hmain hstop m).symm.trans hm))

theorem Closes.threads (h : Closes t i p) (rx : RxPc) (tx : TxPc) (active : Bool) (queue : List Bytes) :
    Closes t i { p with rx := rx, tx := tx, tx_active_ := active, send_queue_ := queue } :=
  ⟨h.sockets.threads rx tx active queue, h.cleared⟩

/-! ### What leaves the table -/

/-- From `t` to `u` a socket of participant `i` is lost only after it was shut down. -/
structure ShutFirst (i : Nat) (t u : Table) : Prop where
  shut : ∀ k ∈ t.shut, k ∈ u.shut
  lost : ∀ f k, t.fds f = some k → k.owner = i → u.fds f = some k ∨ k ∈ u.shut

theorem ShutFirst.refl (i : Nat) (t : Table) : ShutFirst i t t := ⟨fun _ => id, fun _ _ hf _ => Or.inl hf⟩

theorem ShutFirst.give {j fd : Nat} {k : Sock Nat} (hg : t.give j fd = some (u, k)) : ShutFirst i t u := by
  refine ⟨fun k hk => by rwa [Descriptors.give_shut hg], fun f k' hf hk => Or.inl ?_⟩
  exact Descriptors.keeps_give hg i f k' hf hk

/-- What is closed is none of the participant's sockets, or was shut down. -/
theorem ShutFirst.close {fd : Option Nat} (h : ∀ f k, t.fds f = some k → k.owner = i → fd = some f → k ∈ t.shut) :
    ShutFirst i t (t.close fd) := by
  refine ⟨fun _ => id, fun f k hf hk => ?_⟩
  rw [Descriptors.fds_close]
  split
  · exact Or.inr (h f k hf hk ‹_›)
  · exact Or.inl hf

theorem ShutFirst.shutdown (fd : Option Nat) : ShutFirst i t (t.shutdown fd) := by
  refine ⟨Descriptors.shut_shutdown t fd, fun f k hf _ => Or.inl ?_⟩
  rwa [Descriptors.shutdown_fds]

/-- What `stop` closes was shut down. -/
theorem StopInv.shut_of_closes {k : Sock Nat} (h : StopInv t p) (hf : t.fds f = some k) (hc : p.closes = some f)
    (hwell : p.main.givesUp = false) : k ∈ t.shut := by
  have hmain := h.main
  unfold Part.closes at hc
  cases hpc : p.main with
  | closeTx g =>
    rw [hpc] at hwell
    cases hwell
  | close m stopping =>
    rw [hpc] at hmain hwell hc
    cases stopping with
    | false => cases hwell
    | true => exact hmain.2.2 f k hc hf
  | _ =>
    rw [hpc] at hc
    cases hc

/-- A participant keeps the numbers that it closes. -/
theorem closes_mem (hc : p.closes = some f) : some f ∈ p.numbers := by
  unfold Part.closes at hc
  split at hc
  · rename_i g hpc
    rw [← Option.some.inj hc]
    exact Part.main_mem (by rw [hpc]; rfl)
  · exact Part.member_mem hc
  · cases hc

/-- A slot is one of the numbers that a participant keeps. -/
theorem owns_mem {slot : Slot} (hf : p.owns slot = some f) : some f ∈ p.numbers := by
  rcases owns_cases hf with ⟨m, hm, -⟩ | hun | hacc
  · exact Part.member_mem hm
  · cases hpc : p.main with
    | connect g | closeTx g | setClient g =>
      rw [hpc] at hun
      rw [← Option.some.inj hun]
      exact Part.main_mem (by rw [hpc]; rfl)
    | _ =>
      rw [hpc] at hun
      cases hun
  · cases hpc : p.accept with
    | assign g =>
      rw [hpc] at hacc
      rw [← Option.some.inj hacc]
      exact Part.accept_mem (by rw [hpc]; rfl)
    | _ =>
      rw [hpc] at hacc
      cases hacc

end Steps

/-! ### All participants -/

section Worlds
variable {w w₁ w' : World} {a : Act} {i : Nat} {p : Part} {tr es : List Event}

/-- Participant `i`, if it is there, knows its sockets. -/
def ClosesAt (i : Nat) (w : World) : Prop := ∀ p, w.parts[i]? = some p → Closes w.table i p

theorem Closes.takes {t u : Table} {q : Part} (h : Closes t i p) (hinv : StopInv t p)
    (hlate : ∀ ans, a = .accept i ans → ¬ p.StoresLate) (htakes : Takes t i p a u q es) : Closes u i q := by
  cases htakes with
  | main hs => exact h.mainStep hinv hs
  | accept hs => exact h.acceptStep hinv (hlate _ rfl) hs
  | rx hs =>
    obtain ⟨rfl, rx, rfl⟩ := rxStep_eq hs
    exact h.threads rx p.tx p.tx_active_ p.send_queue_
  | tx hs =>
    obtain ⟨rfl, tx, active, queue, rfl⟩ := txStep_eq hs
    exact h.threads p.rx tx active queue
  | put pkt =>
    obtain ⟨tx, queue, heq⟩ := put_eq p pkt
    rw [heq]
    exact h.threads p.rx tx p.tx_active_ queue
  | wake =>
    obtain ⟨tx, heq⟩ := notify_same p
    rw [heq]
    exact h.threads p.rx tx p.tx_active_ p.send_queue_

theorem ClosesAt.step (h : ClosesAt i w) (hw : StopWorld w) (howned : w.Owned) (hok : StoredInTime i w a)
    (hs : w.step a = some (w', es)) : ClosesAt i w' := by
  rcases step_takes hs with ⟨mode, -, rfl, -⟩ | ⟨j, x, u, q, hx, htakes, rfl⟩ <;> intro y hy
  · rcases getElem?_snoc_some.mp hy with ⟨rfl, rfl⟩ | hy
    · refine ⟨fun f k hf hk => absurd (howned f k hf) (by omega), fun m _ => ?_⟩
      cases m <;> rfl
    · exact h y hy
  · rcases (getElem?_set_some hx).mp hy with ⟨rfl, rfl⟩ | ⟨hne, hy⟩
    · refine (h x hx).takes (hw.inv _ x hx) (fun ans ha => ?_) htakes
      subst ha
      exact hok rfl x hx
    · refine ⟨(h y hy).sockets.table fun f k hf hk => ?_, (h y hy).cleared⟩
      exact (htakes.gives f k hf).resolve_right fun hj => hne (hk.symm.trans hj)

theorem run_closesAt (h : World.machine.Run (fun w a => NoReuse w a ∧ StoredInTime i w a) tr w) : ClosesAt i w := by
  induction h with
  | init hs =>
    rw [hs]
    exact fun p hp => by simp at hp
  | step hrun hok hstep ih =>
    exact ih.step (run_stopWorld (hrun.mono fun _ _ hok => hok.1)) (run_owned hrun) hok.2 hstep

/-- Once `stop` returned the members are -1, and nothing of the participant is open. -/
theorem ClosesAt.returned (h : ClosesAt i w) (hw : StopWorld w) (hp : w.parts[i]? = some p) (hidle : p.main = .idle)
    (hstop : p.stop_flag_ = true) : (∀ m, p.member m = none) ∧ ∀ f k, w.table.fds f = some k → k.owner ≠ i := by
  have hnone : ∀ m, p.member m = none := fun m => (h p hp).cleared m (by simp [Part.cleared, hidle, hstop])
  refine ⟨hnone, (h p hp).sockets.none_open hnone (by rw [hidle]; rfl) ?_⟩
  have hmain := (hw.inv i p hp).main
  rw [hidle] at hmain
  rcases (hmain hstop).1 with hended | hended <;> rw [hended] <;> rfl

/-- A failed start included: every `stop` that returns left nothing open, if what was accepted was stored in time. -/
theorem stop_leaves_none_open (h : World.machine.Run (fun w a => NoReuse w a ∧ StoredInTime i w a) tr w)
    (hp : w.parts[i]? = some p) (hidle : p.main = .idle) (hstop : p.stop_flag_ = true) :
    (∀ m, p.member m = none) ∧ ∀ f k, w.table.fds f = some k → k.owner ≠ i :=
  (run_closesAt h).returned (run_stopWorld (h.mono fun _ _ hok => hok.1)) hp hidle hstop

/-! ### What was shut down -/

/-- The main thread of a participant closes only what is its own, and in `stop` only what it shut down. -/
theorem shutFirst_main {j : Nat} {u : Table} {x q : Part} {ans : Answer} (h : ClosesAt i w) (hw : StopWorld w) (howned : w.Owned)
    (hwell : j = i → x.main.givesUp = false) (hx : w.parts[j]? = some x) (hs : x.mainStep w.table j ans = some (u, q, es)) :
    ShutFirst i w.table u := by
  rcases mainStep_table hs with rfl | ⟨fd, k, hg⟩ | ⟨fd, rfl⟩ | rfl
  · exact .refl i _
  · exact .give hg
  · exact .shutdown fd
  · refine .close fun f k hf hk hc => ?_
    by_cases hji : j = i
    · exact (hw.inv j x hx).shut_of_closes hf hc (hwell hji)
    · have hlt : i < w.parts.length := hk ▸ howned f k hf
      have hp : w.parts[i]? = some w.parts[i] := List.getElem?_eq_getElem hlt
      obtain ⟨slot, hslot⟩ := (h _ hp).sockets f k hf hk
      exact absurd (owns_mem hslot) (hw.apart j i x _ f hx hp hji (closes_mem hc))

theorem shutFirst_step (h : ClosesAt i w) (hw : StopWorld w) (howned : w.Owned) (hok : StartsWell i w a)
    (hs : w.step a = some (w', es)) : ShutFirst i w.table w'.table := by
  rcases step_takes hs with ⟨mode, -, rfl, -⟩ | ⟨j, x, u, q, hx, htakes, rfl⟩
  · exact .refl i _
  · cases htakes with
    | main hs => exact shutFirst_main h hw howned (fun hji => hok hji x (hji ▸ hx)) hx hs
    | accept hs =>
      rcases acceptStep_table hs with rfl | ⟨fd, k, hg⟩
      · exact .refl i _
      · exact .give hg
    | rx hs => exact (rxStep_eq hs).1 ▸ .refl i _
    | tx hs => exact (txStep_eq hs).1 ▸ .refl i _
    | put | wake => exact .refl i _

/-- A socket that was there was shut down, or is there still. -/
theorem steps_shut {f : Nat} {k : Sock Nat} (h₁ : World.machine.Run (InTime i) tr w₁)
    (h₂ : World.machine.Steps (InTime i) w₁ es w) (hf : w₁.table.fds f = some k) (hk : k.owner = i) :
    w.table.fds f = some k ∨ k ∈ w.table.shut := by
  induction h₂ with
  | refl => exact Or.inl hf
  | tail hsteps hok hstep ih =>
    have hrun := h₁.steps hsteps
    have hlast := shutFirst_step (run_closesAt (hrun.mono fun _ _ hok => ⟨hok.1, hok.2.1⟩))
      (run_stopWorld (hrun.mono fun _ _ hok => hok.1)) (run_owned hrun) hok.2.2 hstep
    rcases ih with ih | ih
    · exact hlast.lost f k ih hk
    · exact Or.inr (hlast.shut k ih)

/-- A participant that somebody connects to, up to where `accept` has returned the connection. -/
def connected : List Act :=
  [.new .start, .main 0 { fd := some 5 }, .main 0 {}, .main 0 {}, .main 0 {}, .accept 0 {}, .accept 0 { fd := some 6 }]

/-- It is stopped after the accept thread stored the connection. -/
def storedBefore : List Act :=
  List.replicate 3 (Act.accept 0 {}) ++ List.replicate 12 (Act.main 0 {}) ++ [Act.rx 0 {}, .tx 0 {}, .tx 0 {}] ++
  List.replicate 2 (Act.main 0 {})

/-- It is stopped before, and the joins wait for the threads. -/
def storedAfter : List Act :=
  List.replicate 8 (Act.main 0 {}) ++ List.replicate 3 (Act.accept 0 {}) ++ [Act.main 0 {}, .rx 0 {}] ++
  List.replicate 2 (Act.main 0 {})

end Worlds
end AudioMeet.Threads
