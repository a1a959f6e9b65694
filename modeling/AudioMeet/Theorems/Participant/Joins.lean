import AudioMeet.Theorems.Participant.Stopping

/-! The joins of `stop`. Every step of every thread keeps what the threads rely on, so that `stop` waits for
    no thread that waits for ever, and leaves none behind. -/

namespace AudioMeet.Threads
open Lib Machine

section Steps
variable {t u : Table} {i : Nat} {p q : Part} {es : List Event} {ans : Answer} {new : Option Nat}

/-! ### A step of the other threads -/

/-- Where the accept thread is alive, `stop_flag_` is set as soon as `stop` passed a member. -/
theorem StopInv.passed_stop (h : StopInv t p) {m : Member} (hp : p.main.passed m = true) : p.stop_flag_ = true := by
  have hmain := h.main
  cases hpc : p.main with
  | test _ | joinAccept =>
    rw [hpc] at hmain
    exact hmain
  | shutdown _ | joinRx | joinTx =>
    rw [hpc] at hmain
    exact hmain.1
  | close _ stopping | reset _ stopping =>
    rw [hpc] at hmain hp
    cases stopping with
    | false => cases hp
    | true => first | exact hmain | exact hmain.1
  | _ =>
    rw [hpc] at hp
    cases hp

/-- The accept thread goes on with what it holds. -/
theorem StopInv.acceptGoto (h : StopInv t p) {pc : AcceptPc} (hlive : ¬ p.accept.Ended) (hok : AcceptOk t p pc)
    (hheld : ∀ g, pc.held = some g → p.accept.held = some g) (hearly : pc.early = true → p.accept.early = true) :
    Local t p t { p with accept := pc } new ∧ StopInv t { p with accept := pc } := by
  have F : Frame t p t { p with accept := pc } := .of_passed (fun _ _ => id) (fun _ => id) id
  refine ⟨.of_numbers (Part.forall_numbers (fun _ _ => Part.member_mem (p := p)) (fun _ => Part.main_mem (p := p))
    (fun g hg => Part.accept_mem (hheld g hg)) (fun _ => Part.rx_mem (p := p)) fun _ => Part.tx_mem (p := p)), ?_⟩
  exact {
    main := h.main.keep rfl rfl rfl (fun _ _ => rfl) (fun _ _ => rfl) (fun _ => id) (Or.inr hlive) (Or.inl rfl) (Or.inl rfl)
    accept := by cases pc <;> exact hok
    rx := F.rxOk rfl h.rx
    tx := F.txOk rfl h.waits h.tx
    target := fun he => h.target (hearly he)
    passive := fun hm => absurd (Or.inl (h.passive hm)) hlive
    listen := h.listen }

/-- `accept` gave a new descriptor. -/
theorem StopInv.accepted (h : StopInv t p) {on : Option (Sock Nat)} {fd : Nat} {k : Sock Nat}
    (hpc : p.accept = .accepting on) (hg : t.give i fd = some (u, k)) (hnew : some fd ∉ p.numbers) :
    Local t p u { p with accept := .assign ⟨fd, k⟩ } (some fd) ∧ StopInv u { p with accept := .assign ⟨fd, k⟩ } := by
  obtain ⟨-, hfree, hfd, hother⟩ := Descriptors.give_fds hg
  have hlive : ¬ p.accept.Ended := by simp [AcceptPc.Ended, hpc]
  have hfds : ∀ f, some f ∈ p.numbers → u.fds f = t.fds f := fun f hf => hother f fun heq => hnew (heq ▸ hf)
  have hshut : ∀ k ∈ t.shut, k ∈ u.shut := fun k hk => by rwa [Descriptors.give_shut hg]
  have F : Frame t p u { p with accept := .assign ⟨fd, k⟩ } := by
    refine ⟨hshut, fun m f k hm hf hp => Or.inr ⟨hm, ?_, hp⟩, fun f k hf hk => ?_, id⟩
    · rw [hfds f (Part.member_mem hm)]
      exact hf
    · rwa [hfds f hf] at hk
  refine ⟨.give hg (Part.forall_numbers (fun _ _ hm => Or.inl (Part.member_mem (p := p) hm))
    (fun _ hm => Or.inl (Part.main_mem (p := p) hm)) (fun g hg => Or.inr (congrArg Held.fd (Option.some.inj hg)).symm)
    (fun _ hm => Or.inl (Part.rx_mem (p := p) hm)) fun _ hm => Or.inl (Part.tx_mem (p := p) hm)), ?_⟩
  exact {
    main := h.main.keep rfl rfl rfl (fun _ _ => rfl) hfds hshut (Or.inr hlive) (Or.inl rfl) (Or.inl rfl)
    accept := ⟨hfd, fun m hm => hnew (Part.member_mem hm)⟩
    rx := F.rxOk rfl h.rx
    tx := F.txOk rfl h.waits h.tx
    target := fun _ => h.target (by rw [hpc]; rfl)
    passive := fun hm => absurd (Or.inl (h.passive hm)) hlive
    listen := fun hl f k hf hk => by
      rw [hfds f (Part.member_mem (m := .listen_fd_) hf)] at hk
      exact hshut k (h.listen hl f k hf hk) }

/-- The accepted descriptor goes to a member that was -1. -/
theorem StopInv.assign (h : StopInv t p) {g : Held} (hpc : p.accept = .assign g) :
    let q := { p.setMember (some g.fd) p.target with accept := .spawnRx g }
    Local t p t q new ∧ StopInv t q := by
  have hlive : ¬ p.accept.Ended := by simp [AcceptPc.Ended, hpc]
  have hmode : p.mode ≠ .startPassive := fun hm => hlive (Or.inl (h.passive hm))
  have htarget : p.member p.target = none := h.target (by rw [hpc]; rfl) hmode
  have hmine : some g.fd ∈ p.numbers := Part.accept_mem (by rw [hpc]; rfl)
  have hok := h.accept
  rw [hpc] at hok
  obtain ⟨hmode', -, hrx, htx, hstop, hmain⟩ := setMember_same p (some g.fd) p.target
  have hother : ∀ m, m ≠ p.target → (p.setMember (some g.fd) p.target).member m = p.member m := fun m hne => by
    rw [member_setMember, if_neg hne]
  have hset : (p.setMember (some g.fd) p.target).member p.target = some g.fd := by rw [member_setMember, if_pos rfl]
  have hlisten : p.target ≠ .listen_fd_ := by
    unfold Part.target
    split <;> simp
  have F : Frame t p t { p.setMember (some g.fd) p.target with accept := .spawnRx g } := by
    refine .of_members (fun m f hm hp => ⟨?_, hmain ▸ hp⟩) fun hs => hstop.trans hs
    refine (hother m fun heq => ?_).trans hm
    rw [heq, htarget] at hm
    cases hm
  refine ⟨.of_numbers (Part.forall_numbers (fun m f hm => ?_) (fun g' hg => Part.main_mem (hmain ▸ hg)) (fun g' hg => ?_)
    (fun g' hg => Part.rx_mem (hrx ▸ hg)) fun g' hg => Part.tx_mem (htx ▸ hg)), ?_⟩
  · by_cases heq : m = p.target
    · subst heq
      rwa [← Option.some.inj (hset.symm.trans hm)]
    · exact Part.member_mem ((hother m heq).symm.trans hm)
  · rwa [← Option.some.inj hg]
  exact {
    main := h.main.keep hmain hstop hmode' (fun m hm => hother m fun heq => hm.elim (fun hne => hne (heq ▸ htarget)) hlive)
      (fun _ _ => rfl) (fun _ => id) (Or.inr hlive) (Or.inl hrx) (Or.inl htx)
    accept := by
      refine ⟨fun k hk => Option.some.inj (hk.symm.trans hok.1), ?_⟩
      cases hp : p.main.passed p.target with
      | true => exact Or.inr (hstop.trans (h.passed_stop hp))
      | false => exact Or.inl (Or.inr ⟨p.target, g.fd, hset, hok.1, (congrArg (MainPc.passed · p.target) hmain).trans hp⟩)
    rx := F.rxOk hrx h.rx
    tx := F.txOk htx (fun g' hg => (h.waits g' hg).imp hstop.trans hmain.trans) h.tx
    target := by simp [AcceptPc.early]
    passive := fun hm => absurd (hmode'.symm.trans hm) hmode
    listen := fun hl f k hf hk => by
      refine h.listen ((congrArg (MainPc.passed · .listen_fd_) hmain).symm.trans hl) f k ?_ hk
      exact (hother .listen_fd_ (Ne.symm hlisten)).symm.trans hf }

/-- The accept thread starts the rx thread. -/
theorem StopInv.acceptSpawnRx (h : StopInv t p) {g : Held} (hpc : p.accept = .spawnRx g) :
    let q := { p with rx := .check g, accept := if p.mode = .startSplit then .done else .spawnTx g }
    Local t p t q new ∧ StopInv t q := by
  have hlive : ¬ p.accept.Ended := by simp [AcceptPc.Ended, hpc]
  have hmine : some g.fd ∈ p.numbers := Part.accept_mem (by rw [hpc]; rfl)
  have hok := h.accept
  rw [hpc] at hok
  -- The same for both modes: only what the accept thread holds afterwards differs.
  have step : ∀ pc : AcceptPc, pc = .done ∨ pc = .spawnTx g →
      Local t p t { p with rx := .check g, accept := pc } new ∧ StopInv t { p with rx := .check g, accept := pc } := by
    intro pc hcase
    have F : Frame t p t { p with rx := .check g, accept := pc } := .of_passed (fun _ _ => id) (fun _ => id) id
    have hown : AcceptOk t { p with rx := .check g, accept := pc } pc ∧ pc.early = false ∧
        ∀ g', pc.held = some g' → some g'.fd ∈ p.numbers := by
      rcases hcase with rfl | rfl
      · exact ⟨trivial, rfl, by simp [AcceptPc.held]⟩
      · exact ⟨hok, rfl, fun g' hg => by rwa [← Option.some.inj hg]⟩
    refine ⟨.of_numbers (Part.forall_numbers (fun _ _ => Part.member_mem (p := p)) (fun _ => Part.main_mem (p := p))
      hown.2.2 (fun g' hg => ?_) fun _ => Part.tx_mem (p := p)), ?_⟩
    · rwa [← Option.some.inj hg]
    exact {
      main := h.main.keep rfl rfl rfl (fun _ _ => rfl) (fun _ _ => rfl) (fun _ => id) (Or.inr hlive)
        (Or.inr (Or.inr hlive)) (Or.inl rfl)
      accept := hown.1
      rx := ⟨hok.1, F.started hok.2⟩
      tx := F.txOk rfl h.waits h.tx
      target := fun he => by rw [hown.2.1] at he; cases he
      passive := fun hm => absurd (Or.inl (h.passive hm)) hlive
      listen := h.listen }
  dsimp only
  split
  · exact step _ (Or.inl rfl)
  · exact step _ (Or.inr rfl)

/-- The accept thread calls `start_tx_thread`, and ends. -/
theorem StopInv.acceptSpawnTx (h : StopInv t p) {g : Held} (hpc : p.accept = .spawnTx g) :
    let q := { p.start_tx_thread g with accept := .done }
    Local t p t q new ∧ StopInv t q := by
  have hlive : ¬ p.accept.Ended := by simp [AcceptPc.Ended, hpc]
  have hok := h.accept
  rw [hpc] at hok
  unfold Part.start_tx_thread
  dsimp only
  split
  · exact h.acceptGoto hlive trivial (by simp [AcceptPc.held]) (by simp [AcceptPc.early])
  · rename_i hstop
    have F : Frame t p t { p with tx_active_ := true, tx := .check g, accept := .done } := .of_passed (fun _ _ => id) (fun _ => id) id
    refine ⟨.of_numbers (Part.forall_numbers (fun _ _ => Part.member_mem (p := p)) (fun _ => Part.main_mem (p := p))
      (by simp [AcceptPc.held]) (fun _ => Part.rx_mem (p := p)) fun g' hg => ?_), ?_⟩
    · rw [← Option.some.inj hg]
      exact Part.accept_mem (by rw [hpc]; rfl)
    exact {
      main := h.main.keep rfl rfl rfl (fun _ _ => rfl) (fun _ _ => rfl) (fun _ => id) (Or.inr hlive) (Or.inl rfl)
        (Or.inr (Or.inr hlive))
      accept := trivial
      rx := F.rxOk rfl h.rx
      tx := ⟨hok.1, F.covered (hok.2.resolve_right hstop)⟩
      target := by simp [AcceptPc.early]
      passive := fun hm => absurd (Or.inl (h.passive hm)) hlive
      listen := h.listen }

theorem StopInv.acceptStep (h : StopInv t p) (hnew : ∀ f ∈ ans.fd, some f ∉ p.numbers)
    (hs : p.acceptStep t i ans = some (u, q, es)) : Local t p u q ans.fd ∧ StopInv u q := by
  unfold Part.acceptStep at hs
  cases hpc : p.accept <;> simp only [hpc, Option.some.injEq, Prod.mk.injEq, reduceCtorEq] at hs
  case accept =>
    obtain ⟨rfl, rfl, rfl⟩ := hs
    refine h.acceptGoto (by simp [AcceptPc.Ended, hpc]) (fun k hk => ?_) (by simp [AcceptPc.held]) (fun _ => by rw [hpc]; rfl)
    obtain ⟨f, hf, hk⟩ := Option.bind_eq_some_iff.mp hk
    cases hp : p.main.passed .listen_fd_ with
    | true => exact Or.inl (h.listen hp f k hf hk)
    | false => exact Or.inr ⟨.listen_fd_, f, hf, hk, hp⟩
  case accepting on =>
    cases hfd : ans.fd with
    | none =>
      simp only [hfd, Option.some.injEq, Prod.mk.injEq] at hs
      obtain ⟨rfl, rfl, rfl⟩ := hs
      exact h.acceptGoto (by simp [AcceptPc.Ended, hpc]) trivial (by simp [AcceptPc.held]) (by simp [AcceptPc.early])
    | some fd =>
      simp only [hfd] at hs
      split at hs
      · simp only [Option.bind_eq_bind, Option.bind_eq_some_iff, Prod.exists, Option.some.injEq, Prod.mk.injEq] at hs
        obtain ⟨u, k, hg, rfl, rfl, rfl⟩ := hs
        exact h.accepted hpc hg (hnew fd hfd)
      · cases hs
  case assign g =>
    obtain ⟨rfl, rfl, rfl⟩ := hs
    exact h.assign hpc
  case spawnRx g =>
    obtain ⟨rfl, rfl, rfl⟩ := hs
    exact h.acceptSpawnRx hpc
  case spawnTx g =>
    obtain ⟨rfl, rfl, rfl⟩ := hs
    exact h.acceptSpawnTx hpc

/-- The rx thread goes on with what it holds. -/
theorem StopInv.rxGoto (h : StopInv t p) {pc : RxPc} (hlive : ¬ p.rx.Ended) (hok : RxOk t p pc)
    (hheld : ∀ g, pc.held = some g → p.rx.held = some g) :
    Local t p t { p with rx := pc } new ∧ StopInv t { p with rx := pc } := by
  have F : Frame t p t { p with rx := pc } := .of_passed (fun _ _ => id) (fun _ => id) id
  refine ⟨.of_numbers (Part.forall_numbers (fun _ _ => Part.member_mem (p := p)) (fun _ => Part.main_mem (p := p))
    (fun _ => Part.accept_mem (p := p)) (fun g hg => Part.rx_mem (hheld g hg)) fun _ => Part.tx_mem (p := p)), ?_⟩
  exact {
    main := h.main.keep rfl rfl rfl (fun _ _ => rfl) (fun _ _ => rfl) (fun _ => id) (Or.inl rfl) (Or.inr (Or.inl hlive)) (Or.inl rfl)
    accept := F.acceptOk rfl (fun _ _ => ⟨rfl, fun _ => id⟩) h.accept
    rx := by cases pc <;> exact hok
    tx := F.txOk rfl h.waits h.tx
    target := h.target
    passive := h.passive
    listen := h.listen }

theorem rxOk_after {g : Held} {r : Reading} {bytes : Bytes} (hk : Known t g) (hc : Covered t p g.sock) :
    RxOk t p (r.after g bytes) := by
  cases r with
  | length got =>
    simp only [Reading.after]
    split
    · split
      · exact ⟨hk, Or.inl hc⟩
      · exact ⟨hk, hc⟩
    · exact ⟨hk, hc⟩
  | packet len got =>
    simp only [Reading.after]
    split
    · exact ⟨hk, hc⟩
    · exact ⟨hk, Or.inl hc⟩

theorem StopInv.rxStep (h : StopInv t p) (hs : p.rxStep t i ans = some (u, q, es)) :
    Local t p u q none ∧ StopInv u q := by
  have hok := h.rx
  unfold Part.rxStep at hs
  cases hpc : p.rx <;> rw [hpc] at hok <;> simp only [hpc, Option.some.injEq, Prod.mk.injEq, reduceCtorEq] at hs
  case check g =>
    obtain ⟨rfl, rfl, rfl⟩ := hs
    split
    · exact h.rxGoto (by simp [RxPc.Ended, hpc]) trivial (by simp [RxPc.held])
    · rename_i hstop
      exact h.rxGoto (by simp [RxPc.Ended, hpc]) ⟨hok.1, hok.2.resolve_right hstop⟩ (by simp [RxPc.held, hpc])
  case recv g r =>
    obtain ⟨rfl, rfl, rfl⟩ := hs
    exact h.rxGoto (by simp [RxPc.Ended, hpc]) ⟨hok.1, hok.2, hok.1⟩ (by simp [RxPc.held, hpc])
  case recving g r on =>
    split at hs
    · simp only [Option.some.injEq, Prod.mk.injEq] at hs
      obtain ⟨rfl, rfl, rfl⟩ := hs
      split
      · exact h.rxGoto (by simp [RxPc.Ended, hpc]) trivial (by simp [RxPc.held])
      · refine h.rxGoto (by simp [RxPc.Ended, hpc]) (rxOk_after hok.1 hok.2.1) fun g' hg => ?_
        rw [Reading.held_after hg, hpc]
        rfl
    · cases hs

/-- The tx thread goes on with what it holds. -/
theorem StopInv.txGoto (h : StopInv t p) {pc : TxPc} (hlive : ¬ p.tx.Ended) (hok : TxOk t p pc)
    (hheld : ∀ g, pc.held = some g → p.tx.held = some g) :
    Local t p t { p with tx := pc } new ∧ StopInv t { p with tx := pc } := by
  have F : Frame t p t { p with tx := pc } := .of_passed (fun _ _ => id) (fun _ => id) id
  refine ⟨.of_numbers (Part.forall_numbers (fun _ _ => Part.member_mem (p := p)) (fun _ => Part.main_mem (p := p))
    (fun _ => Part.accept_mem (p := p)) (fun _ => Part.rx_mem (p := p)) fun g hg => Part.tx_mem (hheld g hg)), ?_⟩
  exact {
    main := h.main.keep rfl rfl rfl (fun _ _ => rfl) (fun _ _ => rfl) (fun _ => id) (Or.inl rfl) (Or.inl rfl) (Or.inr (Or.inl hlive))
    accept := F.acceptOk rfl (fun _ _ => ⟨rfl, fun _ => id⟩) h.accept
    rx := F.rxOk rfl h.rx
    tx := by cases pc <;> exact hok
    target := h.target
    passive := h.passive
    listen := h.listen }

/-- The queue is no concern of the others. -/
theorem StopInv.queue (h : Local t p t q new ∧ StopInv t q) (active : Bool) (queue : List Bytes) :
    Local t p t { q with tx_active_ := active, send_queue_ := queue } new ∧
      StopInv t { q with tx_active_ := active, send_queue_ := queue } := by
  obtain ⟨L, hq⟩ := h
  have F : Frame t q t { q with tx_active_ := active, send_queue_ := queue } := .of_passed (fun _ _ => id) (fun _ => id) id
  exact ⟨⟨L.fds, L.shut, L.numbers⟩,
    { main := hq.main.keep rfl rfl rfl (fun _ _ => rfl) (fun _ _ => rfl) (fun _ => id) (Or.inl rfl) (Or.inl rfl) (Or.inl rfl)
      accept := F.acceptOk rfl (fun _ _ => ⟨rfl, fun _ => id⟩) hq.accept
      rx := F.rxOk rfl hq.rx
      tx := F.txOk rfl hq.waits hq.tx
      target := hq.target
      passive := hq.passive
      listen := hq.listen }⟩

theorem txOk_afterSend {g : Held} {left : Nat} {next : Option Nat} (hk : Known t g) (hc : Covered t p g.sock) :
    TxOk t p (afterSend g left next) := by
  unfold afterSend
  split
  · exact ⟨hk, hc⟩
  · split
    · split <;> exact ⟨hk, hc⟩
    · exact ⟨hk, hc⟩

theorem StopInv.txStep (h : StopInv t p) (hs : p.txStep t i ans = some (u, q, es)) :
    Local t p u q none ∧ StopInv u q := by
  have hok := h.tx
  unfold Part.txStep at hs
  cases hpc : p.tx <;> rw [hpc] at hok <;> simp only [hpc, Option.some.injEq, Prod.mk.injEq, reduceCtorEq] at hs
  case check g =>
    obtain ⟨rfl, rfl, rfl⟩ := hs
    split
    · exact h.txGoto (by simp [TxPc.Ended, hpc]) trivial (by simp [TxPc.held])
    · exact h.txGoto (by simp [TxPc.Ended, hpc]) hok (by simp [TxPc.held, hpc])
  case dequeue g =>
    obtain ⟨rfl, rfl, rfl⟩ := hs
    unfold Part.dequeue
    split
    · exact h.txGoto (by simp [TxPc.Ended, hpc]) trivial (by simp [TxPc.held])
    · rename_i hstop
      split
      · exact h.txGoto (by simp [TxPc.Ended, hpc]) ⟨hok.1, hok.2, Or.inl (by simpa using hstop)⟩ (by simp [TxPc.held, hpc])
      · rename_i pkt queue _
        have hgo : Local t p t { p with tx := .send g 2 (some pkt.length) } none ∧
            StopInv t { p with tx := .send g 2 (some pkt.length) } :=
          h.txGoto (by simp [TxPc.Ended, hpc]) hok (by simp [TxPc.held, hpc])
        exact StopInv.queue hgo p.tx_active_ queue
  case send g left next =>
    obtain ⟨rfl, rfl, rfl⟩ := hs
    exact h.txGoto (by simp [TxPc.Ended, hpc]) ⟨hok.1, hok.2, hok.1⟩ (by simp [TxPc.held, hpc])
  case sending g left next on =>
    split at hs
    · simp only [Option.some.injEq, Prod.mk.injEq] at hs
      obtain ⟨rfl, rfl, rfl⟩ := hs
      split
      · exact h.txGoto (by simp [TxPc.Ended, hpc]) trivial (by simp [TxPc.held])
      · refine h.txGoto (by simp [TxPc.Ended, hpc]) (txOk_afterSend hok.1 hok.2.1) fun g' hg => ?_
        rw [held_afterSend hg, hpc]
        rfl
    · cases hs
  case cleanup =>
    obtain ⟨rfl, rfl, rfl⟩ := hs
    have hgo : Local t p t { p with tx := .done } none ∧ StopInv t { p with tx := .done } :=
      h.txGoto (by simp [TxPc.Ended, hpc]) trivial (by simp [TxPc.held])
    exact StopInv.queue hgo false []

theorem StopInv.put (h : StopInv t p) (pkt : Bytes) : Local t p t (p.put pkt) new ∧ StopInv t (p.put pkt) := by
  unfold Part.put
  split
  · exact StopInv.queue h.notify _ _
  · exact ⟨.of_numbers fun _ => id, h⟩

theorem StopInv.constructed (t : Table) (mode : Mode) : StopInv t (Part.new mode) := by
  have hu : (Part.new mode).Unstarted := ⟨rfl, rfl, rfl, rfl⟩
  refine .of_unstarted hu ?_ (fun _ => ?_) ?_ <;> cases mode <;> first | rfl | exact ⟨hu, by simp [Part.new]⟩

end Steps

/-! ### All participants -/

/-- No two participants keep the same number. -/
structure StopWorld (w : World) : Prop where
  inv : ∀ (i : Nat) p, w.parts[i]? = some p → StopInv w.table p
  apart : ∀ (i j : Nat) p q f, w.parts[i]? = some p → w.parts[j]? = some q → i ≠ j → some f ∈ p.numbers → some f ∉ q.numbers

section Runs
variable {w w' : World} {a : Act} {tr es : List Event}

/-- Another participant's step. -/
theorem StopInv.others {t u : Table} {p : Part} (h : StopInv t p) (hfds : ∀ f, some f ∈ p.numbers → u.fds f = t.fds f)
    (hshut : ∀ k ∈ t.shut, k ∈ u.shut) : StopInv u p := by
  have F : Frame t p u p := by
    refine ⟨hshut, fun m f k hm hf hp => Or.inr ⟨hm, ?_, hp⟩, fun f k hf hk => ?_, id⟩
    · exact (hfds f (Part.member_mem hm)).trans hf
    · rwa [hfds f hf] at hk
  exact {
    main := h.main.keep rfl rfl rfl (fun _ _ => rfl) hfds hshut (Or.inl rfl) (Or.inl rfl) (Or.inl rfl)
    accept := F.acceptOk rfl (fun g hg => ⟨hfds g.fd (Part.accept_mem (by rw [hg]; rfl)), fun _ => id⟩) h.accept
    rx := F.rxOk rfl h.rx
    tx := F.txOk rfl h.waits h.tx
    target := h.target
    passive := h.passive
    listen := fun hl f k hf hk => by
      rw [hfds f (Part.member_mem (m := .listen_fd_) hf)] at hk
      exact hshut k (h.listen hl f k hf hk) }

/-- A step of participant `i` that gives it the number `new` at most. -/
theorem StopWorld.moves (h : StopWorld w) {i : Nat} {p q : Part} {u : Table} {new : Option Nat} (hp : w.parts[i]? = some p)
    (hnew : ∀ fd ∈ new, ∀ p ∈ w.parts, some fd ∉ p.numbers) (hstep : Local w.table p u q new ∧ StopInv u q) :
    StopWorld { table := u, parts := w.parts.set i q } := by
  obtain ⟨L, hq⟩ := hstep
  have hfresh : ∀ j (x : Part) fd, w.parts[j]? = some x → some fd ∈ x.numbers → new ≠ some fd := fun j x fd hx hfd hn =>
    hnew fd hn x (List.mem_of_getElem? hx) hfd
  have hapart : ∀ j (x : Part) fd, j ≠ i → w.parts[j]? = some x → some fd ∈ x.numbers → some fd ∉ q.numbers := by
    intro j x fd hne hx hfd hmem
    rcases L.numbers fd hmem with hmem | hn
    · exact h.apart j i x p fd hx hp hne hfd hmem
    · exact hfresh j x fd hx hfd hn
  refine ⟨fun j x hx => ?_, fun j k x y fd hx hy hne hfd hmem => ?_⟩
  · rcases (getElem?_set_some hp).mp hx with ⟨rfl, rfl⟩ | ⟨hne, hx⟩
    · exact hq
    · refine (h.inv j x hx).others (fun fd hfd => ?_) L.shut
      exact L.fds fd (h.apart j i x p fd hx hp hne hfd) (hfresh j x fd hx hfd)
  · rcases (getElem?_set_some hp).mp hx with ⟨rfl, rfl⟩ | ⟨hj, hx'⟩ <;>
      rcases (getElem?_set_some hp).mp hy with ⟨rfl, rfl⟩ | ⟨hk, hy'⟩
    · exact hne rfl
    · exact hapart k y fd hk hy' hmem hfd
    · exact hapart j x fd hj hx' hfd hmem
    · exact h.apart j k x y fd hx' hy' hne hfd hmem

theorem StopWorld.step (h : StopWorld w) (hok : NoReuse w a) (hs : w.step a = some (w', es)) : StopWorld w' := by
  have hnone : ∀ fd ∈ (none : Option Nat), ∀ p ∈ w.parts, some fd ∉ p.numbers := by simp
  rcases step_takes hs with ⟨mode, rfl, rfl, -⟩ | ⟨i, p, u, q, hp, htakes, rfl⟩
  · have hempty : ∀ f, some f ∉ (Part.new mode).numbers := by
      cases mode <;> simp [Part.numbers, Part.new, MainPc.held, AcceptPc.held, RxPc.held, TxPc.held]
    refine ⟨fun j x hx => ?_, fun j k x y f hx hy hne hf hmem => ?_⟩
    · rcases getElem?_snoc_some.mp hx with ⟨rfl, rfl⟩ | hx
      · exact .constructed _ mode
      · exact h.inv j x hx
    · rcases getElem?_snoc_some.mp hx with ⟨rfl, rfl⟩ | hx
      · exact hempty f hf
      · rcases getElem?_snoc_some.mp hy with ⟨rfl, rfl⟩ | hy
        · exact hempty f hmem
        · exact h.apart j k x y f hx hy hne hf hmem
  · have hinv := h.inv i p hp
    cases htakes with
    | main hs => exact h.moves hp hok (hinv.mainStep hs)
    | accept hs => exact h.moves hp hok (hinv.acceptStep (fun f hf => hok f hf p (List.mem_of_getElem? hp)) hs)
    | rx hs => exact h.moves hp hnone (hinv.rxStep hs)
    | tx hs => exact h.moves hp hnone (hinv.txStep hs)
    | put pkt => exact h.moves hp hnone (hinv.put pkt)
    | wake => exact h.moves hp hnone hinv.notify

theorem run_stopWorld (h : World.machine.Run NoReuse tr w) : StopWorld w := by
  refine h.invariant (I := fun _ w => StopWorld w) (fun w hw => ?_) fun _ _ _ _ _ h hok hs => h.step hok hs
  subst hw
  exact ⟨fun i p hp => by simp at hp, fun i j p q f hp => by simp at hp⟩

/-! ### `stop` comes back -/

/-- In a join every member is passed, so that whatever a thread waits on was shut down. -/
theorem Covered.returns {t : Table} {p : Part} {k : Sock Nat} (h : Covered t p k) (hp : ∀ m, p.main.passed m = true) :
    k ∈ t.shut := by
  rcases h with h | ⟨m, -, -, -, hm⟩
  · exact h
  · rw [hp m] at hm
    cases hm

theorem goOn_some {i : Nat} {p : Part} {f : Table → Nat → Part → Result} (hp : w.parts[i]? = some p)
    (hf : (f w.table i p).isSome) : ∃ w' es, w.goOn i f = some (w', es) := by
  obtain ⟨⟨t, q, es⟩, hf⟩ := Option.isSome_iff_exists.mp hf
  exact ⟨_, _, by simp only [World.goOn, hp, Option.bind_eq_bind, Option.bind_some, hf]; rfl⟩

theorem canGo_accept (h : StopWorld w) {i : Nat} {p : Part} (hp : w.parts[i]? = some p)
    (hpassed : ∀ m, p.main.passed m = true) : p.accept.Ended ∨ CanGo w i := by
  have hok := (h.inv i p hp).accept
  have hgo : (p.acceptStep w.table i {}).isSome →
      (∀ on, p.accept = .accepting on → Returns w.table on) → CanGo w i := by
    intro hsome hret
    obtain ⟨w', es, hs⟩ := goOn_some (f := fun t i p => p.acceptStep t i {}) hp hsome
    refine ⟨.accept i {}, w', es, ⟨rfl, fun p' hp' => ?_⟩, hs⟩
    obtain rfl := Option.some.inj (hp.symm.trans hp')
    exact hret
  cases hpc : p.accept with
  | none => exact Or.inl (Or.inl rfl)
  | done => exact Or.inl (Or.inr rfl)
  | accepting on =>
    rw [hpc] at hok
    refine Or.inr (hgo (by simp [Part.acceptStep, hpc]) fun on' hon k hk => (hok k ?_).returns hpassed)
    rw [hpc] at hon
    cases hon
    exact hk
  | accept | assign g | spawnRx g | spawnTx g =>
    exact Or.inr (hgo (by simp [Part.acceptStep, hpc]) (by simp [hpc]))

theorem canGo_rx (h : StopWorld w) {i : Nat} {p : Part} (hp : w.parts[i]? = some p)
    (hpassed : ∀ m, p.main.passed m = true) : p.rx.Ended ∨ CanGo w i := by
  have hok := (h.inv i p hp).rx
  have hgo : (p.rxStep w.table i {}).isSome →
      (∀ g r on, p.rx = .recving g r on → Returns w.table on) → CanGo w i := by
    intro hsome hret
    obtain ⟨w', es, hs⟩ := goOn_some (f := fun t i p => p.rxStep t i {}) hp hsome
    refine ⟨.rx i {}, w', es, ⟨rfl, fun p' hp' => ?_⟩, hs⟩
    obtain rfl := Option.some.inj (hp.symm.trans hp')
    exact hret
  cases hpc : p.rx with
  | none => exact Or.inl (Or.inl rfl)
  | done => exact Or.inl (Or.inr rfl)
  | recving g r on =>
    rw [hpc] at hok
    refine Or.inr (hgo (by simp [Part.rxStep, hpc]) fun g' r' on' hon k hk => ?_)
    rw [hpc] at hon
    cases hon
    rw [hok.2.2 k hk]
    exact hok.2.1.returns hpassed
  | check g | recv g r => exact Or.inr (hgo (by simp [Part.rxStep, hpc]) (by simp [hpc]))

theorem canGo_tx (h : StopWorld w) {i : Nat} {p : Part} (hp : w.parts[i]? = some p)
    (hpassed : ∀ m, p.main.passed m = true) (hwait : ∀ g, p.tx ≠ .waiting g) : p.tx.Ended ∨ CanGo w i := by
  have hok := (h.inv i p hp).tx
  have hgo : (p.txStep w.table i {}).isSome →
      (∀ g left next on, p.tx = .sending g left next on → Returns w.table on) → CanGo w i := by
    intro hsome hret
    obtain ⟨w', es, hs⟩ := goOn_some (f := fun t i p => p.txStep t i {}) hp hsome
    refine ⟨.tx i {}, w', es, ⟨rfl, fun p' hp' => ?_⟩, hs⟩
    obtain rfl := Option.some.inj (hp.symm.trans hp')
    exact hret
  cases hpc : p.tx with
  | none => exact Or.inl (Or.inl rfl)
  | done => exact Or.inl (Or.inr rfl)
  | waiting g => exact absurd hpc (hwait g)
  | sending g left next on =>
    rw [hpc] at hok
    refine Or.inr (hgo (by simp [Part.txStep, hpc]) fun g' left' next' on' hon k hk => ?_)
    rw [hpc] at hon
    cases hon
    rw [hok.2.2 k hk]
    exact hok.2.1.returns hpassed
  | check g | dequeue g | send g left next | cleanup => exact Or.inr (hgo (by simp [Part.txStep, hpc]) (by simp [hpc]))

theorem neverStuck (h : World.machine.Run NoReuse tr w) : NeverStuck w := by
  have hw := run_stopWorld h
  refine ⟨fun i p hp hpc => ?_, fun i p hp hpc => ?_, fun i p hp hpc => ?_, fun i p hp hpc hstop => ?_⟩
  · exact canGo_accept hw hp fun m => by rw [hpc]; rfl
  · exact canGo_rx hw hp fun m => by rw [hpc]; rfl
  · have hmain := (hw.inv i p hp).main
    rw [hpc] at hmain
    exact canGo_tx hw hp (fun m => by rw [hpc]; rfl) ((hw.inv i p hp).not_waiting hmain.1 (by simp [hpc]))
  · have hmain := (hw.inv i p hp).main
    rw [hpc] at hmain
    exact hmain hstop

/-! ### Nothing starts again -/

/-- `stop` returned once; it may be called again. -/
def Stopped (p : Part) : Prop := p.stop_flag_ = true ∧ p.AllEnded ∧ (p.main = .idle ∨ p.main.stopping = true)

section Stopped
variable {t u : Table} {i : Nat} {p q : Part} {ans : Answer}

theorem Stopped.notify (h : Stopped p) : p.notify = p := by
  rcases notify_eq p with hn | ⟨g, htx, -⟩
  · exact hn
  · have := h.2.1.2.2
    simp [TxPc.Ended, htx] at this

theorem Stopped.mainStep (h : Stopped p) (hs : p.mainStep t i ans = some (u, q, es)) : Stopped q := by
  have hn := h.notify
  obtain ⟨hstop, hend, hmain⟩ := h
  unfold Part.mainStep at hs
  cases hpc : p.main with
  | idle | stopQueue | test m | shutdown m =>
    simp only [hpc, Option.some.injEq, Prod.mk.injEq, hn] at hs
    obtain ⟨-, rfl, -⟩ := hs
    refine ⟨by first | rfl | exact hstop, hend, Or.inr ?_⟩
    first | rfl | (dsimp only; split; exacts [rfl, by cases m <;> rfl])
  | close m stopping | reset m stopping =>
    cases stopping with
    | false => simp [hpc, MainPc.stopping] at hmain
    | true =>
      simp only [hpc, Option.some.injEq, Prod.mk.injEq] at hs
      obtain ⟨-, rfl, -⟩ := hs
      obtain ⟨-, hacc, hrx, htx, hstop', -⟩ := setMember_same p none m
      first
        | exact ⟨hstop, hend, Or.inr rfl⟩
        | exact ⟨hstop'.trans hstop, ⟨hacc ▸ hend.1, hrx ▸ hend.2.1, htx ▸ hend.2.2⟩, Or.inr (by cases m <;> rfl)⟩
  | joinAccept | joinRx | joinTx =>
    simp only [hpc] at hs
    split at hs
    · simp only [Option.some.injEq, Prod.mk.injEq] at hs
      obtain ⟨-, rfl, -⟩ := hs
      exact ⟨hstop, hend, by simp [MainPc.stopping]⟩
    · cases hs
  | _ => simp [hpc, MainPc.stopping] at hmain

theorem Stopped.acceptStep (h : Stopped p) : p.acceptStep t i ans = none := by
  rcases h.2.1.1 with hpc | hpc <;> simp [Part.acceptStep, hpc]

theorem Stopped.rxStep (h : Stopped p) : p.rxStep t i ans = none := by
  rcases h.2.1.2.1 with hpc | hpc <;> simp [Part.rxStep, hpc]

theorem Stopped.txStep (h : Stopped p) : p.txStep t i ans = none := by
  rcases h.2.1.2.2 with hpc | hpc <;> simp [Part.txStep, hpc]

theorem Stopped.put (h : Stopped p) (pkt : Bytes) : p.put pkt = p := by
  simp [Part.put, h.1]

end Stopped

theorem step_stopped {i : Nat} {p : Part} (hp : w.parts[i]? = some p) (h : Stopped p) (hs : w.step a = some (w', es)) :
    ∃ q, w'.parts[i]? = some q ∧ Stopped q := by
  rcases step_takes hs with ⟨mode, -, rfl, -⟩ | ⟨j, x, u, q, hx, htakes, rfl⟩
  · exact ⟨p, getElem?_snoc_some.mpr (Or.inr hp), h⟩
  · by_cases hji : j = i
    · subst hji
      obtain rfl := Option.some.inj (hx.symm.trans hp)
      refine ⟨q, (getElem?_set_some hx).mpr (Or.inl ⟨rfl, rfl⟩), ?_⟩
      cases htakes with
      | main hs => exact h.mainStep hs
      | accept hs =>
        rw [h.acceptStep] at hs
        cases hs
      | rx hs =>
        rw [h.rxStep] at hs
        cases hs
      | tx hs =>
        rw [h.txStep] at hs
        cases hs
      | put pkt =>
        rw [h.put]
        exact h
      | wake =>
        rw [h.notify]
        exact h
    · exact ⟨p, (getElem?_set_some hx).mpr (Or.inr ⟨Ne.symm hji, hp⟩), h⟩

theorem steps_stopped {ok : World → Act → Prop} {i : Nat} {p : Part} (hp : w.parts[i]? = some p) (h : Stopped p)
    (hs : World.machine.Steps ok w es w') : ∃ q, w'.parts[i]? = some q ∧ Stopped q := by
  induction hs with
  | refl => exact ⟨p, hp, h⟩
  | tail _ _ hstep ih =>
    obtain ⟨q, hq, hstopped⟩ := ih
    exact step_stopped hq hstopped hstep

/-- A participant that connects, reads, and is stopped while it waits for more, up to the join of its rx thread. -/
def waitsInJoin : List Act :=
  [Act.new .startPassive, .main 0 {}, .main 0 { fd := some 5 }, .main 0 {}, .main 0 {}, .main 0 {}, .main 0 {},
   .rx 0 {}, .rx 0 {}, .rx 0 { bytes := [0] }, .rx 0 {}] ++
  List.replicate 9 (Act.main 0 {})

end Runs
end AudioMeet.Threads
