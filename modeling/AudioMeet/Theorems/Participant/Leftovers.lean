import AudioMeet.Host
import AudioMeet.Theorems.Participant.Sockets

/-! What is left of a participant that nobody connected to: nothing, once its `stop` returned. -/

namespace AudioMeet.Threads
open Lib Machine

/-- What the thread that starts and stops the participant has done. -/
def Part.MainLone (p : Part) : MainPc → Prop
  | .socketListen => p.stop_flag_ = false ∧ ∀ m, p.member m = none
  | .bind | .listen | .inetPton | .socketTx | .connect _ | .closeTx _ | .setClient _ =>
    p.stop_flag_ = false ∧ p.client_fd_ = none
  | .close _ false | .reset _ false | .spawnTx _ | .spawnAccept => p.stop_flag_ = false
  | .spawnRx _ => False
  | .idle => p.stop_flag_ = true → (∀ m, p.member m = none) ∧ p.accept.Ended ∧ p.tx.Ended
  | .stopQueue => p.stop_flag_ = true
  | .test m | .shutdown m | .close m true | .reset m true =>
    p.stop_flag_ = true ∧ ∀ m', m'.index < m.index → p.member m' = none
  | .joinAccept => p.stop_flag_ = true ∧ ∀ m, p.member m = none
  | .joinRx | .joinTx => p.stop_flag_ = true ∧ (∀ m, p.member m = none) ∧ p.accept.Ended

/-- Nobody connected to participant `i`, and it knows the number of each socket that it opened. -/
structure Lone (t : Table) (i : Nat) (p : Part) : Prop where
  mode : p.mode ≠ .startPassive
  accept : p.accept.held = none
  rx : p.rx = .none
  sockets : ∀ f k, t.fds f = some k → k.owner = i → ∃ slot, p.owns slot = some f
  main : p.MainLone p.main

section Steps
variable {t u : Table} {i : Nat} {p q : Part} {ans : Answer} {es : List Event}

/-- The accept thread has no number. -/
theorem Lone.accepted (h : Lone t i p) : p.accept.unassigned = none := by
  have haccept := h.accept
  cases hpc : p.accept <;> rw [hpc] at haccept <;> first | rfl | cases haccept

/-- `stop` goes on to the next member. -/
theorem mainLone_afterMember {m : Member} (hstop : p.stop_flag_ = true)
    (hnone : ∀ m', m'.index ≤ m.index → p.member m' = none) : p.MainLone (Part.afterMember m) := by
  cases m with
  | listen_fd_ => exact ⟨hstop, fun m' hm' => hnone m' (Nat.le_of_lt_succ hm')⟩
  | client_fd_ => exact ⟨hstop, fun m' hm' => hnone m' (Nat.le_of_lt_succ hm')⟩
  | rx_fd_ => exact ⟨hstop, fun m' => hnone m' (by cases m' <;> decide)⟩

theorem Part.MainLone.keeps {pc : MainPc} (hmember : ∀ m, q.member m = p.member m) (hstop : q.stop_flag_ = p.stop_flag_)
    (hended : p.accept.Ended → q.accept.Ended) (htx : p.tx.Ended → q.tx.Ended) (h : p.MainLone pc) : q.MainLone pc := by
  have hnone : ∀ m, p.member m = none → q.member m = none := fun m hm => (hmember m).trans hm
  cases pc with
  | socketListen | joinAccept => exact ⟨hstop.trans h.1, fun m => hnone m (h.2 m)⟩
  | bind | listen | inetPton | socketTx | connect _ | closeTx _ | setClient _ =>
    exact ⟨hstop.trans h.1, hnone .client_fd_ h.2⟩
  | spawnTx _ | spawnAccept | stopQueue => exact hstop.trans h
  | spawnRx _ => exact h
  | idle =>
    intro hflag
    obtain ⟨hclosed, haccept, hsend⟩ := h (hstop.symm.trans hflag)
    exact ⟨fun m => hnone m (hclosed m), hended haccept, htx hsend⟩
  | test m | shutdown m => exact ⟨hstop.trans h.1, fun m' hlt => hnone m' (h.2 m' hlt)⟩
  | close m stopping | reset m stopping =>
    cases stopping with
    | false => exact hstop.trans h
    | true => exact ⟨hstop.trans h.1, fun m' hlt => hnone m' (h.2 m' hlt)⟩
  | joinRx | joinTx => exact ⟨hstop.trans h.1, fun m => hnone m (h.2.1 m), hended h.2.2⟩

/-- A change that takes away no number and starts no thread. -/
theorem Lone.keeps (h : Lone t i p) (hmode : q.mode = p.mode) (haccept : q.accept.held = none) (hrx : q.rx = p.rx)
    (hmember : ∀ m, q.member m = p.member m) (hmain : q.main = p.main) (hstop : q.stop_flag_ = p.stop_flag_)
    (hended : p.accept.Ended → q.accept.Ended) (htx : p.tx.Ended → q.tx.Ended) : Lone t i q where
  mode := fun hm => h.mode (hmode.symm.trans hm)
  accept := haccept
  rx := hrx.trans h.rx
  sockets f k hf hk := by
    obtain ⟨slot, hslot⟩ := h.sockets f k hf hk
    rcases owns_cases hslot with ⟨m, hm, hstale⟩ | hun | hacc
    · exact owns_member (m := m) ((hmember m).trans hm) (hmain ▸ hstale)
    · exact owns_main ((congrArg MainPc.unassigned hmain).trans hun)
    · rw [h.accepted] at hacc
      cases hacc
  main := hmain ▸ h.main.keeps hmember hstop hended htx

/-- A change of the tx thread, which did not end yet, or of the queue. -/
theorem Lone.sends (h : Lone t i p) {tx : TxPc} {active : Bool} {queue : List Bytes} (htx : p.tx.Ended → tx.Ended) :
    Lone t i { p with tx, tx_active_ := active, send_queue_ := queue } :=
  h.keeps rfl h.accept rfl (fun m => by cases m <;> rfl) rfl rfl id htx

theorem Lone.notify (h : Lone t i p) : Lone t i p.notify := by
  rcases notify_eq p with heq | ⟨g, htx, heq⟩
  · rwa [heq]
  · rw [heq]
    refine h.sends fun hended => ?_
    rw [htx] at hended
    rcases hended with hended | hended <;> cases hended

/-- A start that fails closes its listening socket. -/
theorem mainLone_failed (hmode : p.mode ≠ .startPassive) (hstop : p.stop_flag_ = false) : p.MainLone p.failed := by
  rw [Part.failed, if_neg hmode]
  exact hstop

/-- A start goes on, or fails. -/
theorem mainLone_tries {pc : MainPc} {ok : Bool} (hmode : p.mode ≠ .startPassive) (hstop : p.stop_flag_ = false)
    (hmain : p.MainLone pc) : p.MainLone (if ok then pc else p.failed) := by
  cases ok with
  | true => exact hmain
  | false => exact mainLone_failed hmode hstop

/-- What a step of the thread that starts and stops keeps, the numbers apart. -/
structure Goes (p q : Part) : Prop where
  mode : q.mode = p.mode
  accept : q.accept.held = none
  rx : q.rx = p.rx
  main : q.MainLone q.main
  stop : p.stop_flag_ = true → q.stop_flag_ = true

/-- Only the place in the program changes. -/
theorem Lone.goto (h : Lone t i p) {pc : MainPc} (hmain : p.MainLone pc) : Goes p { p with main := pc } :=
  ⟨rfl, h.accept, rfl, hmain, id⟩

theorem Lone.socketListen (h : Lone t i p) (hpc : p.main = .socketListen)
    (hs : Part.socketListen t i p ans = some (u, q, es)) : Goes p q := by
  obtain ⟨hstop, hnone⟩ : p.stop_flag_ = false ∧ ∀ m, p.member m = none := by
    have hmain := h.main
    rwa [hpc] at hmain
  unfold Part.socketListen at hs
  split at hs
  · cases hs
    exact h.goto fun hflag => absurd (hstop.symm.trans hflag) Bool.false_ne_true
  · obtain ⟨⟨u', k⟩, -, hs⟩ := Option.bind_eq_some_iff.mp hs
    cases hs
    exact ⟨rfl, h.accept, rfl, ⟨hstop, hnone .client_fd_⟩, id⟩

theorem Lone.socketTx (h : Lone t i p) (hpc : p.main = .socketTx)
    (hs : Part.socketTx t i p ans = some (u, q, es)) : Goes p q := by
  have hmain : p.stop_flag_ = false ∧ p.client_fd_ = none := by
    have hmain := h.main
    rwa [hpc] at hmain
  unfold Part.socketTx at hs
  split at hs
  · cases hs
    exact h.goto (mainLone_failed h.mode hmain.1)
  · obtain ⟨⟨u', k⟩, -, hs⟩ := Option.bind_eq_some_iff.mp hs
    cases hs
    exact h.goto hmain

theorem Lone.reset {m : Member} {stopping : Bool} (h : Lone t i p) (hpc : p.main = .reset m stopping) :
    Goes p { p.setMember none m with main := if stopping then Part.afterMember m else .idle } := by
  have hmain := h.main
  rw [hpc] at hmain
  obtain ⟨hmode, hacc, hrx, htx, hstop, -⟩ := setMember_same p none m
  refine ⟨hmode, hacc ▸ h.accept, hrx, ?_, fun htrue => hstop.trans htrue⟩
  cases stopping with
  | false => exact fun hflag => absurd ((hstop.trans hmain).symm.trans hflag) Bool.false_ne_true
  | true =>
    have hnone : ∀ m', m'.index ≤ m.index → (p.setMember none m).member m' = none := by
      intro m' hle
      rw [member_setMember]
      split
      · rfl
      · rename_i hne
        exact hmain.2 m' (lt_of_le_of_ne hle fun heq => hne (Member.eq_of_index heq))
    have hafter := mainLone_afterMember (hstop.trans hmain.1) hnone
    cases m <;> exact hafter

theorem Lone.goes (h : Lone t i p) (hs : p.mainStep t i ans = some (u, q, es)) : Goes p q := by
  have hmain := h.main
  unfold Part.mainStep at hs
  cases hpc : p.main <;> rw [hpc] at hmain <;> simp only [hpc, Option.some.injEq, Prod.mk.injEq] at hs
  case socketListen => exact h.socketListen hpc hs
  case socketTx => exact h.socketTx hpc hs
  case bind | inetPton =>
    obtain ⟨-, rfl, -⟩ := hs
    exact h.goto (mainLone_tries h.mode hmain.1 hmain)
  case listen =>
    obtain ⟨-, rfl, -⟩ := hs
    refine h.goto (mainLone_tries h.mode hmain.1 ?_)
    split
    · exact hmain
    · exact hmain.1
  case connect g =>
    obtain ⟨-, rfl, -⟩ := hs
    split
    · exact h.goto hmain
    · exact h.goto hmain
  case closeTx g =>
    obtain ⟨-, rfl, -⟩ := hs
    exact h.goto (mainLone_failed h.mode hmain.1)
  case setClient g =>
    obtain ⟨-, rfl, -⟩ := hs
    rw [if_neg h.mode]
    exact ⟨rfl, h.accept, rfl, hmain.1, id⟩
  case spawnRx g => exact hmain.elim
  case spawnTx g =>
    obtain ⟨-, rfl, -⟩ := hs
    have heq : p.start_tx_thread g = { p with tx_active_ := true, tx := .check g } := if_neg (by simp [show _ = false from hmain])
    rw [heq, if_neg h.mode]
    exact ⟨rfl, h.accept, rfl, hmain, id⟩
  case spawnAccept =>
    obtain ⟨-, rfl, -⟩ := hs
    exact ⟨rfl, rfl, rfl, fun hflag => absurd (hmain.symm.trans hflag) Bool.false_ne_true, id⟩
  case idle =>
    obtain ⟨-, rfl, -⟩ := hs
    exact ⟨rfl, h.accept, rfl, rfl, fun _ => rfl⟩
  case stopQueue =>
    obtain ⟨-, rfl, -⟩ := hs
    obtain ⟨-, hstop⟩ := notify_main p
    have hnotify := h.notify
    obtain ⟨tx, heq⟩ := notify_same p
    rw [heq] at hnotify ⊢
    exact ⟨rfl, h.accept, rfl, ⟨hmain, fun m' hlt => absurd hlt (Nat.not_lt_zero _)⟩, id⟩
  case test m =>
    obtain ⟨-, rfl, -⟩ := hs
    split
    · exact h.goto hmain
    · rename_i hnone
      refine h.goto (mainLone_afterMember hmain.1 fun m' hle => ?_)
      rcases Nat.lt_or_eq_of_le hle with hlt | heq
      · exact hmain.2 m' hlt
      · rw [Member.eq_of_index heq]
        simpa using hnone
  case shutdown m =>
    obtain ⟨-, rfl, -⟩ := hs
    exact h.goto hmain
  case close m stopping =>
    obtain ⟨-, rfl, -⟩ := hs
    refine h.goto ?_
    cases stopping <;> exact hmain
  case reset m stopping =>
    obtain ⟨-, rfl, -⟩ := hs
    exact h.reset hpc
  case joinAccept =>
    split at hs
    · rename_i hended
      cases hs
      exact h.goto ⟨hmain.1, hmain.2, hended⟩
    · cases hs
  case joinRx =>
    split at hs <;> cases hs
    exact h.goto hmain
  case joinTx =>
    split at hs
    · rename_i hended
      cases hs
      exact h.goto fun _ => ⟨hmain.2.1, hmain.2.2, hended⟩
    · cases hs

/-- A step of the thread that starts and stops. -/
theorem Lone.mainStep (h : Lone t i p) (hs : p.mainStep t i ans = some (u, q, es)) :
    Lone u i q ∧ (p.stop_flag_ = true → q.stop_flag_ = true) := by
  obtain ⟨hmode, haccept, hrx, hmain, hstop⟩ := h.goes hs
  have hold := h.main
  have hsockets : Sockets u i q := by
    refine Sockets.mainStep h.sockets (fun hpc => ?_) (fun g hpc => ?_) (fun _ => h.accepted) hs
    · rw [hpc] at hold
      exact hold.2 .listen_fd_
    · rw [hpc] at hold
      exact hold.2
  exact ⟨⟨fun hm => h.mode (hmode.symm.trans hm), haccept, hrx.trans h.rx, hsockets, hmain⟩, hstop⟩

theorem Lone.table (h : Lone t i p) (ht : ∀ f k, u.fds f = some k → k.owner = i → t.fds f = some k) : Lone u i p :=
  ⟨h.mode, h.accept, h.rx, Sockets.table h.sockets ht, h.main⟩

/-! ### The other threads -/

theorem Lone.acceptStep (h : Lone t i p) (hans : ans.fd = none) (hs : p.acceptStep t i ans = some (u, q, es)) :
    u = t ∧ Lone t i q ∧ q.stop_flag_ = p.stop_flag_ ∧ q.main = p.main := by
  have haccept := h.accept
  unfold Part.acceptStep at hs
  cases hpc : p.accept with
  | none | done => simp [hpc] at hs
  | accept =>
    simp only [hpc, Option.some.injEq, Prod.mk.injEq] at hs
    obtain ⟨rfl, rfl, -⟩ := hs
    refine ⟨rfl, h.keeps rfl rfl rfl (fun m => by cases m <;> rfl) rfl rfl (fun hended => ?_) id, rfl, rfl⟩
    rw [hpc] at hended
    rcases hended with hended | hended <;> cases hended
  | accepting on =>
    simp only [hpc, hans, Option.some.injEq, Prod.mk.injEq] at hs
    obtain ⟨rfl, rfl, -⟩ := hs
    exact ⟨rfl, h.keeps rfl rfl rfl (fun m => by cases m <;> rfl) rfl rfl (fun _ => Or.inr rfl) id, rfl, rfl⟩
  | assign g | spawnRx g | spawnTx g =>
    rw [hpc] at haccept
    cases haccept

theorem Lone.rxStep (h : Lone t i p) : p.rxStep t i ans = none := by
  simp [Part.rxStep, h.rx]

theorem Lone.txStep (h : Lone t i p) (hs : p.txStep t i ans = some (u, q, es)) :
    u = t ∧ Lone t i q ∧ q.stop_flag_ = p.stop_flag_ ∧ q.main = p.main := by
  obtain ⟨rfl, tx, active, queue, rfl⟩ := txStep_eq hs
  refine ⟨rfl, h.sends fun hended => ?_, rfl, rfl⟩
  rcases hended with hpc | hpc <;> simp [Part.txStep, hpc] at hs

theorem Lone.put (h : Lone t i p) (pkt : Bytes) :
    Lone t i (p.put pkt) ∧ (p.put pkt).stop_flag_ = p.stop_flag_ ∧ (p.put pkt).main = p.main := by
  obtain ⟨hmain, hstop⟩ := notify_main p
  unfold Part.put
  split
  · exact ⟨h.notify.sends id, hstop, hmain⟩
  · exact ⟨h, rfl, rfl⟩

end Steps

/-! ### All participants -/

section Worlds
variable {w w' : World} {a : Act} {i j : Nat} {p : Part} {es tr : List Event}

/-- Participant `i` is there, and nobody connected to it. -/
def LoneAt (w : World) (i : Nat) (p : Part) : Prop := w.parts[i]? = some p ∧ Lone w.table i p

/-- A step of the participant itself. -/
theorem Lone.takes {t u : Table} {q : Part} (h : Lone t i p) (hans : ∀ ans, a = .accept i ans → ans.fd = none)
    (htakes : Takes t i p a u q es) : Lone u i q ∧ (p.stop_flag_ = true → q.stop_flag_ = true) := by
  cases htakes with
  | main hs => exact h.mainStep hs
  | accept hs =>
    obtain ⟨rfl, hlone, hstop, -⟩ := h.acceptStep (hans _ rfl) hs
    exact ⟨hlone, fun htrue => hstop.trans htrue⟩
  | rx hs =>
    rw [h.rxStep] at hs
    cases hs
  | tx hs =>
    obtain ⟨rfl, hlone, hstop, -⟩ := h.txStep hs
    exact ⟨hlone, fun htrue => hstop.trans htrue⟩
  | put pkt => exact ⟨(h.put pkt).1, fun htrue => (h.put pkt).2.1.trans htrue⟩
  | wake => exact ⟨h.notify, fun htrue => (notify_main p).2.trans htrue⟩

theorem LoneAt.step (h : LoneAt w i p) (hok : Host.During i w a ∨ ∃ ans, a = .main i ans) (hs : w.step a = some (w', es)) :
    ∃ q, LoneAt w' i q ∧ (p.stop_flag_ = true → q.stop_flag_ = true) ∧ w'.parts.length = w.parts.length := by
  obtain ⟨hp, h⟩ := h
  rcases step_takes hs with ⟨mode, rfl, -, -⟩ | ⟨j, x, u, q, hx, htakes, rfl⟩
  · exact (hok.resolve_right (by rintro ⟨_, ⟨⟩⟩)).elim
  · by_cases hji : j = i
    · subst hji
      obtain rfl := Option.some.inj (hx.symm.trans hp)
      have hans : ∀ ans, a = .accept j ans → ans.fd = none := by
        intro ans ha
        subst ha
        exact hok.resolve_right (by rintro ⟨_, ⟨⟩⟩) rfl
      obtain ⟨hlone, hstop⟩ := h.takes hans htakes
      exact ⟨q, ⟨(getElem?_set_some hx).mpr (Or.inl ⟨rfl, rfl⟩), hlone⟩, hstop, List.length_set⟩
    · refine ⟨p, ⟨(getElem?_set_some hx).mpr (Or.inr ⟨Ne.symm hji, hp⟩), h.table fun n k hn hk => ?_⟩, id, List.length_set⟩
      exact (htakes.gives n k hn).resolve_right fun hj => hji (hj.symm.trans hk)

theorem LoneAt.passes (h : LoneAt w i p) (hp : Host.Passes i w w') :
    ∃ q, LoneAt w' i q ∧ (p.stop_flag_ = true → q.stop_flag_ = true) ∧ w'.parts.length = w.parts.length := by
  obtain ⟨es, hs⟩ := hp
  induction hs with
  | refl => exact ⟨p, h, id, rfl⟩
  | tail _ hok hstep ih =>
    obtain ⟨q, hq, hstop, hlen⟩ := ih
    obtain ⟨r, hr, hstop', hlen'⟩ := hq.step (Or.inl hok) hstep
    exact ⟨r, hr, fun htrue => hstop' (hstop htrue), hlen'.trans hlen⟩

theorem step_length (hs : w.step a = some (w', es)) (hnew : ∀ mode, a ≠ .new mode) :
    w'.parts.length = w.parts.length := by
  rcases step_takes hs with ⟨mode, rfl, -, -⟩ | ⟨j, x, u, q, -, -, rfl⟩
  · exact absurd rfl (hnew mode)
  · exact List.length_set

theorem passes_length (hp : Host.Passes i w w') : w'.parts.length = w.parts.length := by
  obtain ⟨es, hs⟩ := hp
  induction hs with
  | refl => rfl
  | tail _ hok hstep ih =>
    refine (step_length hstep ?_).trans ih
    rintro mode rfl
    exact hok

theorem passes_owned (h : w.Owned) (hp : Host.Passes i w w') : w'.Owned := by
  obtain ⟨es, hs⟩ := hp
  exact steps_owned h hs

/-- A start that returned, whether it failed or not. -/
theorem starts_lone {mode : Mode} {ok : Bool} (h : w.Owned) (hi : i = w.parts.length) (hmode : mode ≠ .startPassive)
    (hs : Host.Starts i mode ok w w') :
    ∃ p, LoneAt w' i p ∧ p.main = .idle ∧ w'.parts.length = w.parts.length + 1 ∧ w'.Owned := by
  obtain ⟨w₁, w₂, p, hpasses, hnew, hpasses', hp, hmain, -⟩ := hs
  have hlen := passes_length hpasses
  have howned := passes_owned h hpasses
  cases hnew
  have hlone : LoneAt { w₁ with parts := w₁.parts ++ [Part.new mode] } i (Part.new mode) := by
    refine ⟨getElem?_snoc_some.mpr (Or.inl ⟨hi.trans hlen.symm, rfl⟩), hmode, rfl, rfl, fun f k hf hk => ?_, ?_⟩
    · have hlt := howned f k hf
      omega
    · simp only [Part.new, if_neg hmode]
      exact ⟨rfl, fun m => by cases m <;> rfl⟩
  obtain ⟨q, hq, -, hlen'⟩ := hlone.passes hpasses'
  obtain rfl := Option.some.inj (hp.symm.trans hq.1)
  refine ⟨p, hq, hmain, ?_, passes_owned (howned.step (a := .new mode) rfl) hpasses'⟩
  rw [hlen', List.length_append, hlen]
  rfl

/-- A `stop` that returned. -/
theorem stops_lone (h : w.Owned) (hp : LoneAt w i p) (hmain : p.main = .idle) (hs : Host.Stops i w w') :
    ∃ q, LoneAt w' i q ∧ q.main = .idle ∧ q.stop_flag_ = true ∧ w'.parts.length = w.parts.length ∧ w'.Owned := by
  obtain ⟨w₁, q, hstep, hpasses, hq, hidle⟩ := hs
  obtain ⟨r, hr, -, hlen⟩ := hp.step (Or.inr ⟨_, rfl⟩) hstep
  have hstop : r.stop_flag_ = true := by
    have hstep' : w.goOn i (fun t i p => p.mainStep t i {}) = some (w₁, []) := hstep
    obtain ⟨x, u, r', hx, hgo, rfl⟩ := goOn_cases hstep'
    obtain rfl := Option.some.inj (hx.symm.trans hp.1)
    have hself := (getElem?_set_some (j := i) (x := r') hx).mpr (Or.inl ⟨rfl, rfl⟩)
    obtain rfl := Option.some.inj (hself.symm.trans hr.1)
    simp only [Part.mainStep, hmain, Option.some.injEq, Prod.mk.injEq] at hgo
    rw [← hgo.2.1]
  obtain ⟨q', hq', hkeeps, hlen'⟩ := hr.passes hpasses
  obtain rfl := Option.some.inj (hq.symm.trans hq'.1)
  exact ⟨q, hq', hidle, hkeeps hstop, hlen'.trans hlen, passes_owned (h.step hstep) hpasses⟩

/-- Once `stop` returned, no socket and no thread is left. -/
theorem LoneAt.nothing (h : LoneAt w i p) (hmain : p.main = .idle) (hstop : p.stop_flag_ = true) :
    p.AllEnded ∧ ∀ f k, w.table.fds f = some k → k.owner ≠ i := by
  have hidle := h.2.main
  rw [hmain] at hidle
  obtain ⟨hclosed, haccept, htx⟩ := hidle hstop
  refine ⟨⟨haccept, Or.inl h.2.rx, htx⟩, Sockets.none_open h.2.sockets hclosed ?_ h.2.accepted⟩
  rw [hmain]
  rfl

end Worlds
end AudioMeet.Threads
