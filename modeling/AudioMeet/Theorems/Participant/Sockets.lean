import AudioMeet.Theorems.Participant.Stopping

/-! Which sockets a participant has, and what a step does to the table: it gives a socket to the participant that
    takes the step, shuts one down, or closes one. -/

namespace AudioMeet.Threads
open Lib Machine

section Steps
variable {t u : Table} {i : Nat} {p q : Part} {ans : Answer} {es : List Event} {f : Nat}

/-! ### Which numbers a participant knows -/

theorem owns_member {m : Member} {f : Nat} (hm : p.member m = some f) (hstale : p.main.stale ≠ some m) :
    ∃ slot, p.owns slot = some f := ⟨.member m, by rw [Part.owns, if_neg hstale, hm]⟩

theorem owns_main (hf : p.main.unassigned = some f) : ∃ slot, p.owns slot = some f := ⟨.main, hf⟩

theorem owns_accepted (hf : p.accept.unassigned = some f) : ∃ slot, p.owns slot = some f := ⟨.accepted, hf⟩

/-- A slot is a member, the hand of the start, or the hand of the accept thread. -/
theorem owns_cases {slot : Slot} (hf : p.owns slot = some f) :
    (∃ m, p.member m = some f ∧ p.main.stale ≠ some m) ∨ p.main.unassigned = some f ∨ p.accept.unassigned = some f := by
  cases slot with
  | member m =>
    simp only [Part.owns] at hf
    split at hf
    · cases hf
    · exact Or.inl ⟨m, hf, ‹_›⟩
  | main => exact Or.inr (Or.inl hf)
  | accepted => exact Or.inr (Or.inr hf)

/-- Every number that `p` has in a slot is in one of `q`. -/
def Part.OwnedBy (p q : Part) : Prop := ∀ slot f, p.owns slot = some f → ∃ slot, q.owns slot = some f

theorem ownedBy_of_same (hmember : ∀ m, q.member m = p.member m) (hstale : ∀ m, q.main.stale = some m → p.main.stale = some m)
    (hun : p.main.unassigned ≠ none → q.main.unassigned = p.main.unassigned)
    (hacc : q.accept.unassigned = p.accept.unassigned) : p.OwnedBy q := by
  intro slot f hf
  rcases owns_cases hf with ⟨m, hm, hne⟩ | hmain | haccept
  · exact owns_member (m := m) ((hmember m).trans hm) fun heq => hne (hstale m heq)
  · exact owns_main ((hun (by rw [hmain]; simp)).trans hmain)
  · exact owns_accepted (hacc.trans haccept)

/-- The main thread goes on with the same numbers. -/
theorem ownedBy_goto {pc : MainPc} (hstale : pc.stale = none)
    (hun : p.main.unassigned ≠ none → pc.unassigned = p.main.unassigned) : p.OwnedBy { p with main := pc } :=
  ownedBy_of_same (fun m => by cases m <;> rfl) (fun m hm => by rw [hstale] at hm; cases hm) hun rfl

/-- Participant `i` knows the number of each socket that it has open. -/
def Sockets (t : Table) (i : Nat) (p : Part) : Prop :=
  ∀ f k, t.fds f = some k → k.owner = i → ∃ slot, p.owns slot = some f

theorem Sockets.table (h : Sockets t i p) (ht : ∀ f k, u.fds f = some k → k.owner = i → t.fds f = some k) : Sockets u i p :=
  fun f k hf hk => h f k (ht f k hf hk) hk

theorem Sockets.keep (h : Sockets t i p) (howned : p.OwnedBy q) : Sockets t i q := by
  intro f k hf hk
  obtain ⟨slot, hslot⟩ := h f k hf hk
  exact howned slot f hslot

/-- A socket that is new has its number in a slot. -/
theorem Sockets.give {fd : Nat} {k : Sock Nat} (h : Sockets t i p) (hg : t.give i fd = some (u, k))
    (hnew : ∃ slot, q.owns slot = some fd) (howned : p.OwnedBy q) : Sockets u i q := by
  intro f k' hf hk
  obtain ⟨-, -, -, hother⟩ := Descriptors.give_fds hg
  by_cases heq : f = fd
  · exact heq ▸ hnew
  · rw [hother f heq] at hf
    exact h.keep howned f k' hf hk

theorem Sockets.close {fd : Option Nat} (h : Sockets t i p)
    (howned : ∀ slot f, fd ≠ some f → p.owns slot = some f → ∃ slot, q.owns slot = some f) : Sockets (t.close fd) i q := by
  intro f k hf hk
  rw [Descriptors.fds_close] at hf
  split at hf
  · cases hf
  · rename_i hne
    obtain ⟨slot, hslot⟩ := h f k hf hk
    exact howned slot f hne hslot

/-- With no number left nothing is open. -/
theorem Sockets.none_open (h : Sockets t i p) (hmembers : ∀ m, p.member m = none) (hun : p.main.unassigned = none)
    (hacc : p.accept.unassigned = none) : ∀ f k, t.fds f = some k → k.owner ≠ i := by
  intro f k hf hk
  obtain ⟨slot, hslot⟩ := h f k hf hk
  rcases owns_cases hslot with ⟨m, hm, -⟩ | hmain | haccept
  · rw [hmembers m] at hm
    cases hm
  · rw [hun] at hmain
    cases hmain
  · rw [hacc] at haccept
    cases haccept

theorem stale_failed (p : Part) : p.failed.stale = none := by
  unfold Part.failed
  split <;> rfl

theorem Sockets.socketListen (h : Sockets t i p) (hpc : p.main = .socketListen) (hlisten : p.listen_fd_ = none)
    (hs : Part.socketListen t i p ans = some (u, q, es)) : Sockets u i q := by
  have hun : p.main.unassigned = none := by rw [hpc]; rfl
  unfold Part.socketListen at hs
  split at hs
  · obtain ⟨rfl, rfl, -⟩ : t = u ∧ { p with main := MainPc.idle } = q ∧ _ := by simpa using hs
    exact h.keep (ownedBy_goto rfl fun hne => absurd hun hne)
  · rename_i fd _
    obtain ⟨⟨u', k⟩, hgive, hs⟩ := Option.bind_eq_some_iff.mp hs
    cases hs
    refine h.give hgive (owns_member (m := .listen_fd_) rfl (by simp [MainPc.stale])) fun slot f hf => ?_
    rcases owns_cases hf with ⟨m, hm, -⟩ | hmain | hacc
    · refine owns_member (m := m) ?_ (by simp [MainPc.stale])
      cases m with
      | listen_fd_ => exact absurd (hlisten.symm.trans hm) (by simp)
      | client_fd_ | rx_fd_ => exact hm
    · rw [hun] at hmain
      cases hmain
    · exact owns_accepted hacc

theorem Sockets.socketTx (h : Sockets t i p) (hpc : p.main = .socketTx)
    (hs : Part.socketTx t i p ans = some (u, q, es)) : Sockets u i q := by
  have hun : p.main.unassigned = none := by rw [hpc]; rfl
  unfold Part.socketTx at hs
  split at hs
  · obtain ⟨rfl, rfl, -⟩ : t = u ∧ { p with main := p.failed } = q ∧ _ := by simpa using hs
    exact h.keep (ownedBy_goto (stale_failed p) fun hne => absurd hun hne)
  · rename_i fd _
    obtain ⟨⟨u', k⟩, hgive, hs⟩ := Option.bind_eq_some_iff.mp hs
    cases hs
    exact h.give hgive (owns_main rfl) (ownedBy_of_same (fun m => by cases m <;> rfl) (by simp [MainPc.stale])
      (fun hne => absurd hun hne) rfl)

theorem Sockets.closeTx {g : Held} (h : Sockets t i p) (hpc : p.main = .closeTx g) :
    Sockets (t.close (some g.fd)) i { p with main := p.failed } := by
  refine h.close fun slot f hne hf => ?_
  rcases owns_cases hf with ⟨m, hm, -⟩ | hun | hacc
  · exact owns_member (p := { p with main := p.failed }) (m := m) hm (by rw [stale_failed]; simp)
  · rw [hpc] at hun
    exact absurd hun hne
  · exact owns_accepted hacc

/-- The new socket goes from the hand of the start to `client_fd_`, which was -1. -/
theorem ownedBy_setClient {g : Held} {pc : MainPc} (hpc : p.main = .setClient g) (hclient : p.client_fd_ = none)
    (hstale : pc.stale = none) : p.OwnedBy { p with client_fd_ := some g.fd, main := pc } := by
  intro slot f hf
  rcases owns_cases hf with ⟨m, hm, -⟩ | hun | hacc
  · refine owns_member (m := m) ?_ (by rw [hstale]; simp)
    cases m with
    | listen_fd_ | rx_fd_ => exact hm
    | client_fd_ => exact absurd (hclient.symm.trans hm) (by simp)
  · rw [hpc] at hun
    exact owns_member (m := .client_fd_) hun (by rw [hstale]; simp)
  · exact owns_accepted hacc

theorem Sockets.closeMember {m : Member} {stopping : Bool} (h : Sockets t i p) (hpc : p.main = .close m stopping) :
    Sockets (t.close (p.member m)) i { p with main := .reset m stopping } := by
  refine h.close fun slot f hne hf => ?_
  rcases owns_cases hf with ⟨m', hm', -⟩ | hun | hacc
  · refine owns_member (p := { p with main := .reset m stopping }) (m := m') hm' fun hstale => ?_
    obtain rfl := Option.some.inj hstale
    exact hne hm'
  · rw [hpc] at hun
    cases hun
  · exact owns_accepted hacc

/-- The member was closed before. -/
theorem ownedBy_reset {m : Member} {stopping : Bool} (hpc : p.main = .reset m stopping) :
    p.OwnedBy { p.setMember none m with main := if stopping then Part.afterMember m else .idle } := by
  obtain ⟨-, hsame, -⟩ := setMember_same p none m
  intro slot f hf
  rcases owns_cases hf with ⟨m', hm', hstale⟩ | hun | hacc
  · rw [hpc] at hstale
    have hne : m' ≠ m := fun heq => hstale (heq ▸ rfl)
    refine owns_member (m := m') ((member_setMember p none m m').trans ((if_neg hne).trans hm')) ?_
    cases stopping <;> cases m <;> simp [MainPc.stale, Part.afterMember]
  · rw [hpc] at hun
    cases hun
  · exact owns_accepted ((congrArg AcceptPc.unassigned hsame).trans hacc)

theorem notify_same (p : Part) : ∃ tx, p.notify = { p with tx := tx } := by
  rcases notify_eq p with heq | ⟨g, -, heq⟩
  · exact ⟨p.tx, heq⟩
  · exact ⟨_, heq⟩

theorem start_tx_thread_same (p : Part) (g : Held) :
    (∀ m, (p.start_tx_thread g).member m = p.member m) ∧ (p.start_tx_thread g).main = p.main ∧
      (p.start_tx_thread g).accept = p.accept ∧ (p.start_tx_thread g).stop_flag_ = p.stop_flag_ := by
  unfold Part.start_tx_thread
  split
  · exact ⟨fun _ => rfl, rfl, rfl, rfl⟩
  · exact ⟨fun m => by cases m <;> rfl, rfl, rfl, rfl⟩

/-- A step of the thread that starts and stops loses no number, where it overwrites a member that is -1. -/
theorem Sockets.mainStep (h : Sockets t i p) (hlisten : p.main = .socketListen → p.listen_fd_ = none)
    (hclient : ∀ g, p.main = .setClient g → p.client_fd_ = none)
    (haccept : p.main = .spawnAccept → p.accept.unassigned = none) (hs : p.mainStep t i ans = some (u, q, es)) :
    Sockets u i q := by
  unfold Part.mainStep at hs
  cases hpc : p.main <;> simp only [hpc, Option.some.injEq, Prod.mk.injEq] at hs
  case socketListen => exact h.socketListen hpc (hlisten hpc) hs
  case socketTx => exact h.socketTx hpc hs
  case closeTx g =>
    obtain ⟨rfl, rfl, -⟩ := hs
    exact h.closeTx hpc
  case setClient g =>
    obtain ⟨rfl, rfl, -⟩ := hs
    exact h.keep (ownedBy_setClient hpc (hclient g hpc) (by split <;> rfl))
  case close m stopping =>
    obtain ⟨rfl, rfl, -⟩ := hs
    exact h.closeMember hpc
  case reset m stopping =>
    obtain ⟨rfl, rfl, -⟩ := hs
    exact h.keep (ownedBy_reset hpc)
  case shutdown m =>
    obtain ⟨rfl, rfl, -⟩ := hs
    refine (h.keep (ownedBy_goto rfl (by simp [hpc, MainPc.unassigned]))).table fun f k hf _ => ?_
    rwa [Descriptors.shutdown_fds] at hf
  case connect g =>
    obtain ⟨rfl, rfl, -⟩ := hs
    exact h.keep (ownedBy_goto (by split <;> rfl) fun _ => by rw [hpc]; split <;> rfl)
  case bind | listen | inetPton =>
    obtain ⟨rfl, rfl, -⟩ := hs
    refine h.keep (ownedBy_goto ?_ (by simp [hpc, MainPc.unassigned]))
    split
    · first | rfl | (split <;> rfl)
    · exact stale_failed p
  case test m =>
    obtain ⟨rfl, rfl, -⟩ := hs
    refine h.keep (ownedBy_goto ?_ (by simp [hpc, MainPc.unassigned]))
    split
    · rfl
    · cases m <;> rfl
  case spawnRx g | idle =>
    obtain ⟨rfl, rfl, -⟩ := hs
    exact h.keep (ownedBy_of_same (fun m => by cases m <;> rfl) (by simp [MainPc.stale]) (by simp [hpc, MainPc.unassigned]) rfl)
  case spawnTx g =>
    obtain ⟨rfl, rfl, -⟩ := hs
    obtain ⟨hmember, -, hacc, -⟩ := start_tx_thread_same p g
    refine h.keep (ownedBy_of_same hmember (fun m hm => ?_) (by simp [hpc, MainPc.unassigned]) (congrArg AcceptPc.unassigned hacc))
    dsimp only at hm
    split at hm <;> cases hm
  case spawnAccept =>
    obtain ⟨rfl, rfl, -⟩ := hs
    exact h.keep (ownedBy_of_same (fun m => by cases m <;> rfl) (by simp [MainPc.stale]) (by simp [hpc, MainPc.unassigned])
      (haccept hpc).symm)
  case stopQueue =>
    obtain ⟨rfl, rfl, -⟩ := hs
    obtain ⟨tx, heq⟩ := notify_same p
    rw [heq]
    exact h.keep (ownedBy_of_same (fun m => by cases m <;> rfl) (by simp [MainPc.stale]) (by simp [hpc, MainPc.unassigned]) rfl)
  case joinAccept | joinRx | joinTx =>
    split at hs <;> cases hs
    exact h.keep (ownedBy_goto rfl (by simp [hpc, MainPc.unassigned]))

/-! ### The other threads -/

/-- The accept thread assigns its descriptor to a member that was -1. -/
theorem Sockets.acceptStep (h : Sockets t i p)
    (hassign : ∀ g, p.accept = .assign g → p.member p.target = none ∧ p.main.stale ≠ some p.target)
    (hs : p.acceptStep t i ans = some (u, q, es)) : Sockets u i q := by
  unfold Part.acceptStep at hs
  cases hpc : p.accept <;> simp only [hpc, Option.some.injEq, Prod.mk.injEq, reduceCtorEq] at hs
  case accept =>
    obtain ⟨rfl, rfl, -⟩ := hs
    exact h.keep (ownedBy_of_same (fun m => by cases m <;> rfl) (fun _ => id) (fun _ => rfl) (by rw [hpc]; rfl))
  case accepting on =>
    split at hs
    · simp only [Option.some.injEq, Prod.mk.injEq] at hs
      obtain ⟨rfl, rfl, -⟩ := hs
      exact h.keep (ownedBy_of_same (fun m => by cases m <;> rfl) (fun _ => id) (fun _ => rfl) (by rw [hpc]; rfl))
    · rename_i fd _
      split at hs
      · obtain ⟨⟨u', k⟩, hgive, hs⟩ := Option.bind_eq_some_iff.mp hs
        cases hs
        refine h.give hgive (owns_accepted rfl) fun slot f hf => ?_
        rcases owns_cases hf with ⟨m, hm, hstale⟩ | hun | hacc
        · exact owns_member (m := m) hm hstale
        · exact owns_main hun
        · rw [hpc] at hacc
          cases hacc
      · cases hs
  case assign g =>
    obtain ⟨rfl, rfl, -⟩ := hs
    obtain ⟨hnone, hstale⟩ := hassign g hpc
    obtain ⟨-, -, -, -, -, hmain⟩ := setMember_same p (some g.fd) p.target
    have hset := member_setMember p (some g.fd) p.target
    refine h.keep fun slot f hf => ?_
    rcases owns_cases hf with ⟨m, hm, hne⟩ | hun | hacc
    · refine owns_member (m := m) ((hset m).trans ?_) (hmain ▸ hne)
      rw [if_neg, hm]
      rintro rfl
      rw [hnone] at hm
      cases hm
    · exact owns_main ((congrArg MainPc.unassigned hmain).trans hun)
    · rw [hpc] at hacc
      exact owns_member (m := p.target) ((hset p.target).trans ((if_pos rfl).trans hacc)) (hmain ▸ hstale)
  case spawnRx g =>
    obtain ⟨rfl, rfl, -⟩ := hs
    refine h.keep (ownedBy_of_same (fun m => by cases m <;> rfl) (fun _ => id) (fun _ => rfl) ?_)
    rw [hpc]
    dsimp only
    split <;> rfl
  case spawnTx g =>
    obtain ⟨rfl, rfl, -⟩ := hs
    obtain ⟨hmember, hmain, -, -⟩ := start_tx_thread_same p g
    refine h.keep (ownedBy_of_same hmember (fun m hm => ?_) (fun _ => congrArg MainPc.unassigned hmain) (by rw [hpc]; rfl))
    exact (congrArg MainPc.stale hmain).symm.trans hm

/-- The rx thread changes its place only. -/
theorem rxStep_eq (hs : p.rxStep t i ans = some (u, q, es)) : u = t ∧ ∃ rx, q = { p with rx := rx } := by
  unfold Part.rxStep at hs
  cases hpc : p.rx <;> simp only [hpc, Option.some.injEq, Prod.mk.injEq, reduceCtorEq] at hs
  case recving g r on =>
    split at hs <;> cases hs
    exact ⟨rfl, _, rfl⟩
  all_goals exact ⟨hs.1.symm, _, hs.2.1.symm⟩

/-- The tx thread changes its place and the queue only. -/
theorem txStep_eq (hs : p.txStep t i ans = some (u, q, es)) :
    u = t ∧ ∃ tx active queue, q = { p with tx := tx, tx_active_ := active, send_queue_ := queue } := by
  unfold Part.txStep at hs
  cases hpc : p.tx <;> simp only [hpc, Option.some.injEq, Prod.mk.injEq, reduceCtorEq] at hs
  case dequeue g =>
    obtain ⟨rfl, rfl, -⟩ := hs
    unfold Part.dequeue
    split
    · exact ⟨rfl, _, _, _, rfl⟩
    · split <;> exact ⟨rfl, _, _, _, rfl⟩
  case sending g left next on =>
    split at hs <;> cases hs
    exact ⟨rfl, _, _, _, rfl⟩
  all_goals exact ⟨hs.1.symm, _, _, _, hs.2.1.symm⟩

theorem put_eq (p : Part) (pkt : Bytes) : ∃ tx queue, p.put pkt = { p with tx := tx, send_queue_ := queue } := by
  unfold Part.put
  split
  · obtain ⟨tx, heq⟩ := notify_same p
    exact ⟨tx, _, by rw [heq]⟩
  · exact ⟨p.tx, p.send_queue_, rfl⟩

theorem Sockets.threads (h : Sockets t i p) (rx : RxPc) (tx : TxPc) (active : Bool) (queue : List Bytes) :
    Sockets t i { p with rx := rx, tx := tx, tx_active_ := active, send_queue_ := queue } :=
  h.keep (ownedBy_of_same (fun m => by cases m <;> rfl) (fun _ => id) (fun _ => rfl) rfl)

/-! ### The table -/

/-- The number that the next step closes. -/
def Part.closes (p : Part) : Option Nat :=
  match p.main with
  | .closeTx h => some h.fd
  | .close m _ => p.member m
  | _ => none

/-- What the main thread does to the table. -/
theorem mainStep_table (hs : p.mainStep t i ans = some (u, q, es)) :
    u = t ∨ (∃ fd k, t.give i fd = some (u, k)) ∨ (∃ fd, u = t.shutdown fd) ∨ u = t.close p.closes := by
  have hgive : ∀ {fd : Nat} {F : Table × Sock Nat → Result}, (t.give i fd).bind F = some (u, q, es) →
      (∀ r, F r = some (u, q, es) → u = r.1) → ∃ fd k, t.give i fd = some (u, k) := by
    intro fd F hs hF
    obtain ⟨⟨v, k⟩, hg, hs⟩ := Option.bind_eq_some_iff.mp hs
    exact ⟨fd, k, hF (v, k) hs ▸ hg⟩
  unfold Part.mainStep at hs
  unfold Part.closes
  cases hpc : p.main <;> simp only [hpc, Option.some.injEq, Prod.mk.injEq] at hs
  case socketListen | socketTx =>
    simp only [Part.socketListen, Part.socketTx] at hs
    split at hs
    · cases hs
      exact Or.inl rfl
    · exact Or.inr (Or.inl (hgive hs fun r hr => by cases hr; rfl))
  case closeTx g => exact Or.inr (Or.inr (Or.inr hs.1.symm))
  case close m stopping => exact Or.inr (Or.inr (Or.inr hs.1.symm))
  case shutdown m => exact Or.inr (Or.inr (Or.inl ⟨_, hs.1.symm⟩))
  case joinAccept | joinRx | joinTx =>
    split at hs <;> cases hs
    exact Or.inl rfl
  all_goals exact Or.inl hs.1.symm

/-- What the accept thread does to it. -/
theorem acceptStep_table (hs : p.acceptStep t i ans = some (u, q, es)) : u = t ∨ ∃ fd k, t.give i fd = some (u, k) := by
  unfold Part.acceptStep at hs
  cases hpc : p.accept <;> simp only [hpc, Option.some.injEq, Prod.mk.injEq, reduceCtorEq] at hs
  case accepting on =>
    split at hs
    · cases hs
      exact Or.inl rfl
    · split at hs
      · obtain ⟨⟨v, k⟩, hg, hs⟩ := Option.bind_eq_some_iff.mp hs
        cases hs
        exact Or.inr ⟨_, k, hg⟩
      · cases hs
  all_goals exact Or.inl hs.1.symm

/-- The sockets that are new are those of `j`. -/
def Gives (j : Nat) (t u : Table) : Prop := ∀ f k, u.fds f = some k → t.fds f = some k ∨ k.owner = j

theorem Gives.refl (j : Nat) (t : Table) : Gives j t t := fun _ _ => Or.inl

theorem Gives.give {j fd : Nat} {k : Sock Nat} (hg : t.give j fd = some (u, k)) : Gives j t u := by
  obtain ⟨hk, -, hfd, hother⟩ := Descriptors.give_fds hg
  intro f k' hf
  by_cases heq : f = fd
  · rw [heq, hfd] at hf
    exact Or.inr (Option.some.inj hf ▸ hk)
  · exact Or.inl (hother f heq ▸ hf)

theorem mainStep_gives (hs : p.mainStep t i ans = some (u, q, es)) : Gives i t u := by
  rcases mainStep_table hs with rfl | ⟨fd, k, hg⟩ | ⟨fd, rfl⟩ | rfl
  · exact .refl i _
  · exact .give hg
  · intro f k hf
    rw [Descriptors.shutdown_fds] at hf
    exact Or.inl hf
  · intro f k hf
    rw [Descriptors.fds_close] at hf
    split at hf
    · cases hf
    · exact Or.inl hf

theorem acceptStep_gives (hs : p.acceptStep t i ans = some (u, q, es)) : Gives i t u := by
  rcases acceptStep_table hs with rfl | ⟨fd, k, hg⟩
  · exact .refl i _
  · exact .give hg

theorem Takes.gives {a : Act} (h : Takes t i p a u q es) : Gives i t u := by
  cases h with
  | main hs => exact mainStep_gives hs
  | accept hs => exact acceptStep_gives hs
  | rx hs => exact (rxStep_eq hs).1 ▸ .refl i t
  | tx hs => exact (txStep_eq hs).1 ▸ .refl i t
  | put | wake => exact .refl i t

end Steps

/-! ### All participants -/

section Worlds
variable {w w' : World} {a : Act} {es tr : List Event}

/-- Every socket is that of a participant. -/
def World.Owned (w : World) : Prop := ∀ f k, w.table.fds f = some k → k.owner < w.parts.length

theorem World.Owned.step (h : w.Owned) (hs : w.step a = some (w', es)) : w'.Owned := by
  rcases step_takes hs with ⟨mode, -, rfl, -⟩ | ⟨j, x, u, q, hx, htakes, rfl⟩
  · intro n k hn
    exact (h n k hn).trans_le (by simp)
  · intro n k hn
    show k.owner < (w.parts.set j q).length
    rw [List.length_set]
    rcases htakes.gives n k hn with hn | hk
    · exact h n k hn
    · exact hk ▸ (List.getElem?_eq_some_iff.mp hx).1

theorem run_owned {ok : World → Act → Prop} (h : World.machine.Run ok tr w) : w.Owned := by
  refine h.invariant (I := fun _ w => w.Owned) (fun w hw => ?_) fun _ _ _ _ _ h _ hs => h.step hs
  subst hw
  intro f k hf
  cases hf

theorem steps_owned {ok : World → Act → Prop} (h : w.Owned) (hs : World.machine.Steps ok w es w') : w'.Owned := by
  induction hs with
  | refl => exact h
  | tail _ _ hstep ih => exact ih.step hstep

end Worlds
end AudioMeet.Threads
