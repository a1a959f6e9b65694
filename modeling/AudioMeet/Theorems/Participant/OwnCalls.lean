import AudioMeet.Lib.Lists
import AudioMeet.Participant.Threads

/-! Which socket a thread calls on. `stop` closes the descriptors before it joins the threads that hold their
    numbers; a thread calls on a socket of its own as long as it is not about to call when its number is closed. -/

namespace AudioMeet.Threads
open Lib Machine

/-- Every call is on the socket that the thread knows the descriptor as, and it is the participant's. -/
def OwnCalls (tr : List Event) : Prop := ∀ e ∈ tr, e.on = e.sock ∧ ∃ k, e.sock = some k ∧ k.owner = e.i

/-! ### What a thread holds -/

namespace MainPc

def held : MainPc → Option Held
  | .connect h | .closeTx h | .setClient h | .spawnRx h | .spawnTx h => some h
  | _ => none

/-- The new socket of a start before it is in `client_fd_`. -/
def unassigned : MainPc → Option Nat
  | .connect h | .closeTx h | .setClient h => some h.fd
  | _ => none

/-- The member that was closed and is not -1 yet. -/
def stale : MainPc → Option Member
  | .reset m _ => some m
  | _ => none

/-- Before the threads are there. -/
def starting : MainPc → Bool
  | .socketListen | .bind | .listen | .inetPton | .socketTx | .connect _ | .closeTx _ | .setClient _
  | .close _ false | .reset _ false => true
  | _ => false

/-- From the listening socket to the accept thread. -/
def listening : MainPc → Bool
  | .bind | .listen | .inetPton | .socketTx | .connect _ | .closeTx _ | .setClient _ | .spawnRx _ | .spawnTx _
  | .spawnAccept => true
  | _ => false

/-- Only a start that listens comes here. -/
def listens : MainPc → Bool
  | .socketListen | .bind | .listen | .spawnAccept => true
  | _ => false

def stopping : MainPc → Bool
  | .stopQueue | .test _ | .shutdown _ | .close _ true | .reset _ true | .joinAccept | .joinRx | .joinTx => true
  | _ => false

end MainPc

namespace AcceptPc

def held : AcceptPc → Option Held
  | .assign h | .spawnRx h | .spawnTx h => some h
  | _ => .none

def unassigned : AcceptPc → Option Nat
  | .assign h => some h.fd
  | _ => .none

end AcceptPc

namespace RxPc

def held : RxPc → Option Held
  | .check h | .recv h _ | .recving h _ _ => some h
  | _ => .none

/-- The descriptor that the next step calls on. -/
def calls : RxPc → Option Held
  | .recv h _ => some h
  | _ => .none

end RxPc

namespace TxPc

def held : TxPc → Option Held
  | .check h | .dequeue h | .waiting h | .send h _ _ | .sending h _ _ _ => some h
  | _ => .none

def calls : TxPc → Option Held
  | .send h _ _ => some h
  | _ => .none

end TxPc

/-- Where a participant keeps the number of an open socket. -/
inductive Slot
  | member (m : Member)
  | main
  | accepted

def Part.owns (p : Part) : Slot → Option Nat
  | .member m => if p.main.stale = some m then none else p.member m
  | .main => p.main.unassigned
  | .accepted => p.accept.unassigned

/-! ### The schedules -/

/-- `stop` closes no descriptor that a thread is about to call on. -/
def Part.ClosesQuietly (p : Part) : Prop :=
  match p.main with
  | .close m true => (m = .listen_fd_ → p.accept ≠ .accept) ∧
      ∀ f ∈ p.member m, (∀ h ∈ p.rx.calls, h.fd ≠ f) ∧ ∀ h ∈ p.tx.calls, h.fd ≠ f
  | _ => True

/-- No descriptor is closed that a thread is about to call on, and a call in flight on one that was closed is
    the last one before the thread looks at `stop_flag_`. -/
def LastUse (w : World) : Act → Prop
  | .main i _ => ∀ p ∈ w.parts[i]?, p.ClosesQuietly
  | .rx i ans =>
    match w.parts[i]?.map Part.rx with
    | some (.recving h r _) => w.table.fds h.fd = some h.sock ∨ ans.bytes = [] ∨ (r.after h ans.bytes).calls = none
    | _ => True
  | .tx i ans =>
    match w.parts[i]?.map Part.tx with
    | some (.sending h left next _) =>
      w.table.fds h.fd = some h.sock ∨ ans.sent = 0 ∨ (afterSend h (left - ans.sent) next).calls = none
    | _ => True
  | _ => True

instance (p : Part) : Decidable p.ClosesQuietly := by
  unfold Part.ClosesQuietly
  split <;> infer_instance

instance (w : World) : DecidablePred (LastUse w)
  | .main i ans => by
    unfold LastUse
    infer_instance
  | .rx i ans | .tx i ans => by
    unfold LastUse
    dsimp only
    split <;> infer_instance
  | .new _ | .accept _ _ | .put _ _ | .wake _ => .isTrue trivial

/-! ### The invariant -/

/-- `listen_fd_` is the number of the listening socket. -/
def Listening (t : Table) (i : Nat) (p : Part) : Prop :=
  ∃ f k, p.listen_fd_ = some f ∧ p.listener = some k ∧ t.fds f = some k ∧ k.owner = i

structure PartInv (t : Table) (i : Nat) (p : Part) : Prop where
  owns : ∀ slot f, p.owns slot = some f → ∃ k, t.fds f = some k ∧ k.owner = i
  inj : ∀ a b f, p.owns a = some f → p.owns b = some f → a = b
  main : ∀ h, p.main.held = some h → h.sock.owner = i ∧ t.fds h.fd = some h.sock
  accept : ∀ h, p.accept.held = some h → h.sock.owner = i ∧ (t.fds h.fd = some h.sock ∨ p.stop_flag_ = true)
  rx : ∀ h, p.rx.held = some h →
    h.sock.owner = i ∧ (t.fds h.fd = some h.sock ∨ (p.stop_flag_ = true ∧ p.rx.calls = none))
  tx : ∀ h, p.tx.held = some h →
    h.sock.owner = i ∧ (t.fds h.fd = some h.sock ∨ (p.stop_flag_ = true ∧ p.tx.calls = none))
  accepting : p.accept = .accept → Listening t i p ∧ p.main.stale ≠ some .listen_fd_
  listening : p.mode ≠ .startPassive → p.main.listening = true → Listening t i p
  listens : p.main.listens = true → p.mode ≠ .startPassive
  starting : p.main.starting = true → p.accept = .none ∧ p.rx = .none ∧ p.tx = .none
  stopping : p.main.stopping = true → p.stop_flag_ = true

section Steps
variable {t u : Table} {i : Nat} {p q : Part} {es : List Event}

/-- Once one of its threads is there, the start of a participant is over. -/
theorem PartInv.started (h : PartInv t i p) (hthere : p.accept ≠ .none ∨ p.rx ≠ .none ∨ p.tx ≠ .none) :
    p.main.starting = false := by
  by_contra hs
  obtain ⟨haccept, hrx, htx⟩ := h.starting (by simpa using hs)
  exact hthere.elim (· haccept) fun hthere => hthere.elim (· hrx) (· htx)

/-- What a participant whose start is over needs for `starting`. -/
theorem starting_of_over {P : Prop} (h : p.main.starting = false) : p.main.starting = true → P := fun hs => by
  rw [h] at hs
  cases hs

/-- Nothing is lost when other sockets come and go. -/
theorem PartInv.keep (h : PartInv t i p) (hk : Descriptors.Keeps i t u) : PartInv u i p where
  owns := fun slot f hf => (h.owns slot f hf).imp fun k hk' => ⟨hk f k hk'.1 hk'.2, hk'.2⟩
  inj := h.inj
  main := fun g hg => ⟨(h.main g hg).1, hk _ _ (h.main g hg).2 (h.main g hg).1⟩
  accept := fun g hg => ⟨(h.accept g hg).1, (h.accept g hg).2.imp_left fun hf => hk _ _ hf (h.accept g hg).1⟩
  rx := fun g hg => ⟨(h.rx g hg).1, (h.rx g hg).2.imp_left fun hf => hk _ _ hf (h.rx g hg).1⟩
  tx := fun g hg => ⟨(h.tx g hg).1, (h.tx g hg).2.imp_left fun hf => hk _ _ hf (h.tx g hg).1⟩
  accepting := by
    intro ha
    obtain ⟨⟨f, k, hf, hl, hfd, ho⟩, hs⟩ := h.accepting ha
    exact ⟨⟨f, k, hf, hl, hk f k hfd ho, ho⟩, hs⟩
  listening := by
    intro hm hl
    obtain ⟨f, k, hf, hl, hfd, ho⟩ := h.listening hm hl
    exact ⟨f, k, hf, hl, hk f k hfd ho, ho⟩
  listens := h.listens
  starting := h.starting
  stopping := h.stopping

/-! ### The thread that starts and stops -/

/-- The main thread goes on, and takes nothing over. -/
theorem PartInv.goto (h : PartInv t i p) {old pc : MainPc} (hpc : p.main = old) (hold : old.stale = none)
    (hstale : pc.stale = none) (hun : ∀ f, pc.unassigned = some f → old.unassigned = some f)
    (hheld : ∀ g, pc.held = some g → old.held = some g) (hlisten : pc.listening = true → old.listening = true)
    (hlistens : pc.listens = true → p.mode ≠ .startPassive) (hstart : pc.starting = true → old.starting = true)
    (hstop : pc.stopping = true → p.stop_flag_ = true) : PartInv t i { p with main := pc } := by
  subst hpc
  have howns : ∀ slot f, ({ p with main := pc } : Part).owns slot = some f → p.owns slot = some f := by
    rintro (m | _ | _) f hf
    · simpa [Part.owns, hold, hstale, Part.member] using hf
    · exact hun f hf
    · exact hf
  exact {
    owns := fun slot f hf => h.owns slot f (howns slot f hf)
    inj := fun a b f ha hb => h.inj a b f (howns a f ha) (howns b f hb)
    main := fun g hg => h.main g (hheld g hg)
    accept := h.accept
    rx := h.rx
    tx := h.tx
    accepting := fun ha => ⟨(h.accepting ha).1, by rw [hstale]; exact nofun⟩
    listening := fun hm hl => h.listening hm (hlisten hl)
    listens := hlistens
    starting := fun hs => h.starting (hstart hs)
    stopping := hstop }

/-- A start that failed closes its listening socket. -/
theorem PartInv.failed (h : PartInv t i p) (hstart : p.main.starting = true) (hstale : p.main.stale = none) :
    PartInv t i { p with main := p.failed } := by
  unfold Part.failed
  split
  · exact h.goto rfl hstale rfl nofun nofun nofun nofun nofun nofun
  · exact h.goto rfl hstale rfl nofun nofun nofun nofun (fun _ => hstart) nofun

/-- A new socket is the only one with its number. -/
theorem PartInv.owns_new {k : Sock Nat} {fd : Nat} (h : PartInv t i p) (hgive : t.give i fd = some (u, k)) {new : Slot}
    (howns : ∀ slot f, q.owns slot = some f → (slot = new ∧ f = fd) ∨ (slot ≠ new ∧ p.owns slot = some f)) :
    (∀ slot f, q.owns slot = some f → ∃ k, u.fds f = some k ∧ k.owner = i) ∧
      ∀ a b f, q.owns a = some f → q.owns b = some f → a = b := by
  obtain ⟨howner, hfree, hfd, -⟩ := Descriptors.give_fds hgive
  have hnew : ∀ slot, p.owns slot ≠ some fd := by
    intro slot hf
    obtain ⟨k', hk', -⟩ := h.owns slot fd hf
    rw [hfree] at hk'
    cases hk'
  constructor
  · intro slot f hf
    rcases howns slot f hf with ⟨-, rfl⟩ | ⟨-, hf⟩
    · exact ⟨k, hfd, howner⟩
    · exact (h.keep (Descriptors.keeps_give hgive i)).owns slot f hf
  · intro a b f ha hb
    rcases howns a f ha with ⟨rfl, hf⟩ | ⟨-, ha⟩ <;> rcases howns b f hb with ⟨rfl, hf'⟩ | ⟨-, hb⟩
    · rfl
    · exact absurd (hf ▸ hb) (hnew b)
    · exact absurd (hf' ▸ ha) (hnew a)
    · exact h.inj a b f ha hb

/-- `listen_fd_` is a new socket. -/
theorem PartInv.socketListen {k : Sock Nat} {fd : Nat} (h : PartInv t i p) (hpc : p.main = .socketListen)
    (hgive : t.give i fd = some (u, k)) :
    PartInv u i { p with listen_fd_ := some fd, listener := some k, main := .bind } := by
  obtain ⟨howner, -, hfd, -⟩ := Descriptors.give_fds hgive
  have hk := h.keep (Descriptors.keeps_give hgive i)
  obtain ⟨hacc, hrx, htx⟩ := h.starting (by rw [hpc]; rfl)
  have hlisten : Listening u i { p with listen_fd_ := some fd, listener := some k, main := .bind } :=
    ⟨fd, k, rfl, rfl, hfd, howner⟩
  have howns : ∀ slot f,
      ({ p with listen_fd_ := some fd, listener := some k, main := .bind } : Part).owns slot = some f →
      (slot = .member .listen_fd_ ∧ f = fd) ∨ (slot ≠ .member .listen_fd_ ∧ p.owns slot = some f) := by
    rintro (m | _ | _) f hf
    · cases m <;> simp_all [Part.owns, MainPc.stale, Part.member]
    · cases hf
    · exact Or.inr ⟨nofun, hf⟩
  exact {
    owns := (h.owns_new hgive howns).1
    inj := (h.owns_new hgive howns).2
    main := nofun
    accept := hk.accept
    rx := hk.rx
    tx := hk.tx
    accepting := fun _ => ⟨hlisten, nofun⟩
    listening := fun _ _ => hlisten
    listens := fun _ => h.listens (by rw [hpc]; rfl)
    starting := fun _ => ⟨hacc, hrx, htx⟩
    stopping := nofun }

/-- The socket to connect is a new one. -/
theorem PartInv.socketTx {k : Sock Nat} {fd : Nat} (h : PartInv t i p) (hpc : p.main = .socketTx)
    (hgive : t.give i fd = some (u, k)) : PartInv u i { p with main := .connect ⟨fd, k⟩ } := by
  obtain ⟨howner, -, hfd, -⟩ := Descriptors.give_fds hgive
  have hk := h.keep (Descriptors.keeps_give hgive i)
  have howns : ∀ slot f, ({ p with main := .connect ⟨fd, k⟩ } : Part).owns slot = some f →
      (slot = .main ∧ f = fd) ∨ (slot ≠ .main ∧ p.owns slot = some f) := by
    rintro (m | _ | _) f hf
    · exact Or.inr ⟨nofun, by simpa [Part.owns, hpc, MainPc.stale, Part.member] using hf⟩
    · exact Or.inl ⟨rfl, (Option.some.inj hf).symm⟩
    · exact Or.inr ⟨nofun, hf⟩
  exact {
    owns := (h.owns_new hgive howns).1
    inj := (h.owns_new hgive howns).2
    main := fun g hg => by
      obtain rfl := Option.some.inj hg
      exact ⟨howner, hfd⟩
    accept := hk.accept
    rx := hk.rx
    tx := hk.tx
    accepting := fun ha => ⟨(hk.accepting ha).1, nofun⟩
    listening := fun hm _ => hk.listening hm (by rw [hpc]; rfl)
    listens := nofun
    starting := fun _ => h.starting (by rw [hpc]; rfl)
    stopping := nofun }

/-- The socket that did not connect is closed. -/
theorem PartInv.closeTx {h' : Held} (h : PartInv t i p) (hpc : p.main = .closeTx h') :
    PartInv (t.close (some h'.fd)) i { p with main := p.failed } := by
  obtain ⟨hacc, hrx, htx⟩ := h.starting (by rw [hpc]; rfl)
  have hmine : p.owns .main = some h'.fd := by rw [Part.owns, hpc]; rfl
  have hkeep : ∀ slot f, slot ≠ .main → p.owns slot = some f → ∃ k, (t.close (some h'.fd)).fds f = some k ∧ k.owner = i := by
    intro slot f hne hf
    obtain ⟨k, hk, ho⟩ := h.owns slot f hf
    exact ⟨k, Descriptors.close_of_ne hk fun heq => hne (h.inj slot .main f hf (heq ▸ hmine)), ho⟩
  have hstale : ({ p with main := p.failed } : Part).main.stale = none := by
    simp only [Part.failed]
    split <;> rfl
  have hun : ({ p with main := p.failed } : Part).main.unassigned = none := by
    simp only [Part.failed]
    split <;> rfl
  have howns : ∀ slot f, ({ p with main := p.failed } : Part).owns slot = some f → slot ≠ .main ∧ p.owns slot = some f := by
    rintro (m | _ | _) f hf
    · refine ⟨nofun, ?_⟩
      rw [Part.owns, hstale] at hf
      simpa [Part.owns, hpc, MainPc.stale, Part.member] using hf
    · rw [Part.owns, hun] at hf
      cases hf
    · exact ⟨nofun, hf⟩
  have hmain : p.failed = .idle ∨ p.failed = .close .listen_fd_ false := by
    unfold Part.failed
    split
    · exact Or.inl rfl
    · exact Or.inr rfl
  exact {
    owns := fun slot f hf => hkeep slot f (howns slot f hf).1 (howns slot f hf).2
    inj := fun a b f ha hb => h.inj a b f (howns a f ha).2 (howns b f hb).2
    main := by rcases hmain with hm | hm <;> simp [hm, MainPc.held]
    accept := by simp [hacc, AcceptPc.held]
    rx := by simp [hrx, RxPc.held]
    tx := by simp [htx, TxPc.held]
    accepting := by simp [hacc]
    listening := by rcases hmain with hm | hm <;> simp [hm, MainPc.listening]
    listens := by rcases hmain with hm | hm <;> simp [hm, MainPc.listens]
    starting := fun _ => ⟨hacc, hrx, htx⟩
    stopping := by rcases hmain with hm | hm <;> simp [hm, MainPc.stopping] }

theorem PartInv.setClient {h' : Held} (h : PartInv t i p) (hpc : p.main = .setClient h') :
    PartInv t i { p with client_fd_ := some h'.fd
                         main := if p.mode = .startPassive then .spawnRx h' else .spawnTx h' } := by
  obtain ⟨hacc, hrx, htx⟩ := h.starting (by rw [hpc]; rfl)
  generalize hpc' : (if p.mode = .startPassive then MainPc.spawnRx h' else .spawnTx h') = pc
  have hcase : pc = .spawnRx h' ∨ pc = .spawnTx h' := by
    subst hpc'
    split
    · exact Or.inl rfl
    · exact Or.inr rfl
  -- the number moves from the local variable to `client_fd_`
  have howns : ∀ slot f, ({ p with client_fd_ := some h'.fd, main := pc } : Part).owns slot = some f →
      (slot = .member .client_fd_ ∧ p.owns .main = some f) ∨
        (slot ≠ .member .client_fd_ ∧ slot ≠ .main ∧ p.owns slot = some f) := by
    rintro (m | _ | _) f hf
    · rcases hcase with rfl | rfl <;> cases m <;>
        simp_all [Part.owns, MainPc.stale, MainPc.unassigned, Part.member]
    · rcases hcase with rfl | rfl <;> cases hf
    · exact Or.inr ⟨nofun, nofun, hf⟩
  exact {
    owns := fun slot f hf => by
      rcases howns slot f hf with ⟨-, hf⟩ | ⟨-, -, hf⟩
      · exact h.owns _ f hf
      · exact h.owns _ f hf
    inj := fun a b f ha hb => by
      rcases howns a f ha with ⟨rfl, hf⟩ | ⟨-, hna, ha⟩ <;> rcases howns b f hb with ⟨rfl, hf'⟩ | ⟨-, hnb, hb⟩
      · rfl
      · exact absurd (h.inj _ _ f hb hf) hnb
      · exact absurd (h.inj _ _ f ha hf') hna
      · exact h.inj a b f ha hb
    main := fun g hg => by
      have hg' : g = h' := by rcases hcase with rfl | rfl <;> exact (Option.some.inj hg).symm
      exact hg' ▸ h.main h' (by rw [hpc]; rfl)
    accept := h.accept
    rx := h.rx
    tx := h.tx
    accepting := fun ha => absurd (hacc.symm.trans ha) nofun
    listening := fun hm _ => h.listening hm (by rw [hpc]; rfl)
    listens := by rcases hcase with rfl | rfl <;> exact nofun
    starting := fun _ => ⟨hacc, hrx, htx⟩
    stopping := by rcases hcase with rfl | rfl <;> exact nofun }

/-- A thread is started on a socket that the main thread holds. -/
theorem PartInv.spawnRx {h' : Held} (h : PartInv t i p) (hpc : p.main = .spawnRx h') :
    PartInv t i { p with rx := .check h', main := .spawnTx h' } := by
  have hgo : PartInv t i { p with main := .spawnTx h' } :=
    h.goto hpc rfl rfl nofun (fun _ hg => hg) (fun _ => rfl) nofun nofun nofun
  exact { hgo with
    rx := fun g hg => by
      obtain rfl := Option.some.inj hg
      exact ⟨(hgo.main h' rfl).1, Or.inl (hgo.main h' rfl).2⟩
    starting := nofun }

theorem PartInv.start_tx_thread {h' : Held} (h : PartInv t i p) (hstart : p.main.starting = false)
    (hheld : h'.sock.owner = i ∧ (t.fds h'.fd = some h'.sock ∨ p.stop_flag_ = true)) :
    PartInv t i (p.start_tx_thread h') := by
  unfold Part.start_tx_thread
  split
  · exact h
  · rename_i hflag
    exact { h with
      tx := fun g hg => by
        obtain rfl := Option.some.inj hg
        exact ⟨hheld.1, Or.inl (hheld.2.resolve_right hflag)⟩
      starting := starting_of_over hstart }

theorem PartInv.spawnTx {h' : Held} (h : PartInv t i p) (hpc : p.main = .spawnTx h') :
    PartInv t i { p.start_tx_thread h' with
      main := if p.mode = .startPassive then .idle else .spawnAccept } := by
  have hheld := h.main h' (by rw [hpc]; rfl)
  have hgo := h.start_tx_thread (by rw [hpc]; rfl) ⟨hheld.1, Or.inl hheld.2⟩
  have hsame : (p.start_tx_thread h').main = p.main ∧ (p.start_tx_thread h').mode = p.mode := by
    unfold Part.start_tx_thread
    split <;> exact ⟨rfl, rfl⟩
  split
  · exact hgo.goto (hsame.1.trans hpc) rfl rfl nofun nofun nofun nofun nofun nofun
  · rename_i hmode
    refine hgo.goto (hsame.1.trans hpc) rfl rfl nofun nofun (fun _ => rfl) ?_ nofun nofun
    exact fun _ => hsame.2 ▸ hmode

theorem PartInv.spawnAccept (h : PartInv t i p) (hpc : p.main = .spawnAccept) :
    PartInv t i { p with accept := .accept, main := .idle } := by
  have hlisten : Listening t i p := h.listening (h.listens (by rw [hpc]; rfl)) (by rw [hpc]; rfl)
  have hgo : PartInv t i { p with main := .idle } :=
    h.goto hpc rfl rfl nofun nofun nofun nofun nofun nofun
  have howns : ∀ slot f, ({ p with accept := .accept, main := .idle } : Part).owns slot = some f →
      ({ p with main := .idle } : Part).owns slot = some f := by
    rintro (m | _ | _) f hf
    · exact hf
    · exact hf
    · cases hf
  exact { hgo with
    owns := fun slot f hf => hgo.owns slot f (howns slot f hf)
    inj := fun a b f ha hb => hgo.inj a b f (howns a f ha) (howns b f hb)
    accept := nofun
    accepting := fun _ => ⟨hlisten, nofun⟩
    starting := nofun }

/-- `stop_flag_` is set. -/
theorem PartInv.idle (h : PartInv t i p) (hpc : p.main = .idle) :
    PartInv t i { p with stop_flag_ := true, main := .stopQueue } := by
  have hflag : PartInv t i { p with stop_flag_ := true } := { h with
    accept := fun g hg => ⟨(h.accept g hg).1, (h.accept g hg).2.imp_right fun _ => rfl⟩
    rx := fun g hg => ⟨(h.rx g hg).1, (h.rx g hg).2.imp_right fun hc => ⟨rfl, hc.2⟩⟩
    tx := fun g hg => ⟨(h.tx g hg).1, (h.tx g hg).2.imp_right fun hc => ⟨rfl, hc.2⟩⟩
    stopping := fun _ => rfl }
  exact hflag.goto hpc rfl rfl nofun nofun nofun nofun nofun fun _ => rfl

/-- `notify` moves the tx thread on to its section and nothing else. -/
theorem PartInv.notify (h : PartInv t i p) : PartInv t i p.notify := by
  unfold Part.notify
  split
  · rename_i g hg
    exact { h with
      tx := fun g' hg' => by
        obtain rfl := Option.some.inj hg'
        have hold := h.tx g (by rw [hg]; rfl)
        exact ⟨hold.1, hold.2.imp_right fun hc => ⟨hc.1, rfl⟩⟩
      starting := starting_of_over (h.started (Or.inr (Or.inr (by rw [hg]; nofun)))) }
  · exact h

theorem PartInv.queue (h : PartInv t i p) (active : Bool) (queue : List Bytes) :
    PartInv t i { p with tx_active_ := active, send_queue_ := queue } := { h with }

theorem RxPc.held_of_calls {rx : RxPc} {g : Held} (h : rx.calls = some g) : rx.held = some g := by
  cases rx <;> first | exact h | cases h

theorem TxPc.held_of_calls {tx : TxPc} {g : Held} (h : tx.calls = some g) : tx.held = some g := by
  cases tx <;> first | exact h | cases h

/-- A descriptor that a thread holds, after another was closed that the thread is not about to call on. -/
theorem kept_close {fd : Option Nat} {g : Held} {flag : Bool} {calls : Option Held} (hflag : flag = true)
    (hcalls : calls = none ∨ calls = some g) (hquiet : ∀ f ∈ fd, ∀ h ∈ calls, h.fd ≠ f)
    (hold : t.fds g.fd = some g.sock ∨ (flag = true ∧ calls = none)) :
    (t.close fd).fds g.fd = some g.sock ∨ (flag = true ∧ calls = none) := by
  rcases hold with hold | hold
  · by_cases hfd : fd = some g.fd
    · rcases hcalls with hnone | hsome
      · exact Or.inr ⟨hflag, hnone⟩
      · exact absurd rfl (hquiet g.fd hfd g hsome)
    · exact Or.inl ((Descriptors.fds_close t fd g.fd).trans ((if_neg hfd).trans hold))
  · exact Or.inr hold

/-- `close` takes a number from the table that is one of the participant's; no thread is about to call on it. -/
theorem PartInv.close {m : Member} {stopping : Bool} (h : PartInv t i p) (hpc : p.main = .close m stopping)
    (hquiet : p.ClosesQuietly) :
    PartInv (t.close (p.member m)) i { p with main := .reset m stopping } := by
  have hmember : ∀ m', p.owns (.member m') = p.member m' := fun m' => by rw [Part.owns, hpc]; exact if_neg nofun
  have howns : ∀ slot f, ({ p with main := .reset m stopping } : Part).owns slot = some f →
      slot ≠ .member m ∧ p.owns slot = some f := by
    rintro (m' | _ | _) f hf
    · simp only [Part.owns, MainPc.stale, Option.some.injEq] at hf
      split at hf
      · cases hf
      · rename_i hne
        exact ⟨fun heq => hne (Slot.member.inj heq).symm, (hmember m').trans hf⟩
    · cases hf
    · exact ⟨nofun, hf⟩
  have hkept : ∀ slot f k, slot ≠ .member m → p.owns slot = some f → t.fds f = some k →
      (t.close (p.member m)).fds f = some k := by
    intro slot f k hne hf hk
    refine (Descriptors.fds_close t _ f).trans ((if_neg fun heq => hne ?_).trans hk)
    exact h.inj slot (.member m) f hf ((hmember m).trans heq)
  have howned : ∀ slot f, ({ p with main := .reset m stopping } : Part).owns slot = some f →
      ∃ k, (t.close (p.member m)).fds f = some k ∧ k.owner = i := by
    intro slot f hf
    obtain ⟨hne, hf⟩ := howns slot f hf
    obtain ⟨k, hk, ho⟩ := h.owns slot f hf
    exact ⟨k, hkept slot f k hne hf hk, ho⟩
  have hinj : ∀ a b f, ({ p with main := .reset m stopping } : Part).owns a = some f →
      ({ p with main := .reset m stopping } : Part).owns b = some f → a = b :=
    fun a b f ha hb => h.inj a b f (howns a f ha).2 (howns b f hb).2
  cases stopping with
  | false =>
    obtain ⟨hacc, hrx, htx⟩ := h.starting (by rw [hpc]; rfl)
    exact {
      owns := howned
      inj := hinj
      main := nofun
      accept := by simp [hacc, AcceptPc.held]
      rx := by simp [hrx, RxPc.held]
      tx := by simp [htx, TxPc.held]
      accepting := by simp [hacc]
      listening := nofun
      listens := nofun
      starting := fun _ => ⟨hacc, hrx, htx⟩
      stopping := nofun }
  | true =>
    have hflag : p.stop_flag_ = true := h.stopping (by rw [hpc]; rfl)
    simp only [Part.ClosesQuietly, hpc] at hquiet
    exact {
      owns := howned
      inj := hinj
      main := nofun
      accept := fun g hg => ⟨(h.accept g hg).1, Or.inr hflag⟩
      rx := fun g hg => by
        refine ⟨(h.rx g hg).1, kept_close hflag ?_ (fun f hf => (hquiet.2 f hf).1) (h.rx g hg).2⟩
        cases hc : p.rx.calls with
        | none => exact Or.inl rfl
        | some g' => exact Or.inr ((RxPc.held_of_calls hc).symm.trans hg)
      tx := fun g hg => by
        refine ⟨(h.tx g hg).1, kept_close hflag ?_ (fun f hf => (hquiet.2 f hf).2) (h.tx g hg).2⟩
        cases hc : p.tx.calls with
        | none => exact Or.inl rfl
        | some g' => exact Or.inr ((TxPc.held_of_calls hc).symm.trans hg)
      accepting := fun ha => by
        have hm : m ≠ .listen_fd_ := fun hm => hquiet.1 hm ha
        obtain ⟨⟨f, k, hf, hl, hk, ho⟩, -⟩ := h.accepting ha
        have hslot : p.owns (.member .listen_fd_) = some f := (hmember _).trans hf
        refine ⟨⟨f, k, hf, hl, hkept _ f k (fun heq => hm (Slot.member.inj heq).symm) hslot hk, ho⟩, ?_⟩
        exact fun heq => hm (Option.some.inj heq)
      listening := nofun
      listens := nofun
      starting := nofun
      stopping := fun _ => hflag }

theorem PartInv.reset {m : Member} {stopping : Bool} (h : PartInv t i p) (hpc : p.main = .reset m stopping) :
    PartInv t i { p.setMember none m with main := if stopping then Part.afterMember m else .idle } := by
  generalize hpc' : (if stopping then Part.afterMember m else MainPc.idle) = pc
  have hcase : pc.stale = none ∧ pc.unassigned = none ∧ pc.held = none ∧ pc.listening = false ∧ pc.listens = false ∧
      pc.starting = false ∧ (pc.stopping = true → stopping = true) := by
    subst hpc'
    cases stopping
    · exact ⟨rfl, rfl, rfl, rfl, rfl, rfl, nofun⟩
    · cases m <;> exact ⟨rfl, rfl, rfl, rfl, rfl, rfl, fun _ => rfl⟩
  obtain ⟨hstale, hun, hheld, hlisten, hlistens, hstart, hstop⟩ := hcase
  have hset : p.setMember none m = { p with
      listen_fd_ := if m = .listen_fd_ then none else p.listen_fd_
      client_fd_ := if m = .client_fd_ then none else p.client_fd_
      rx_fd_ := if m = .rx_fd_ then none else p.rx_fd_ } := by
    cases m <;> rfl
  rw [hset]
  have howns : ∀ slot f, Part.owns { p with
      listen_fd_ := if m = .listen_fd_ then none else p.listen_fd_
      client_fd_ := if m = .client_fd_ then none else p.client_fd_
      rx_fd_ := if m = .rx_fd_ then none else p.rx_fd_
      main := pc } slot = some f → p.owns slot = some f := by
    rintro (m' | _ | _) f hf
    · simp only [Part.owns, hpc, MainPc.stale, Part.member] at hf ⊢
      cases m <;> cases m' <;> simp_all
    · simp [Part.owns, hun] at hf
    · exact hf
  exact {
    owns := fun slot f hf => h.owns slot f (howns slot f hf)
    inj := fun a b f ha hb => h.inj a b f (howns a f ha) (howns b f hb)
    main := by simp [hheld]
    accept := h.accept
    rx := h.rx
    tx := h.tx
    accepting := fun ha => by
      obtain ⟨⟨f, k, hf, hl, hk, ho⟩, hs⟩ := h.accepting ha
      have hm : m ≠ .listen_fd_ := by
        rintro rfl
        exact hs (by rw [hpc]; rfl)
      exact ⟨⟨f, k, (if_neg hm).trans hf, hl, hk, ho⟩, by simp [hstale]⟩
    listening := by simp [hlisten]
    listens := by simp [hlistens]
    starting := by simp [hstart]
    stopping := fun hs => h.stopping (by rw [hpc, hstop hs]; rfl) }

/-- What a step of a thread of participant `i` does to all of them. -/
structure Kept (t u : Table) (i : Nat) (q : Part) (es : List Event) : Prop where
  inv : PartInv u i q
  others : ∀ j, j ≠ i → Descriptors.Keeps j t u
  own : ∀ e ∈ es, e.on = e.sock ∧ ∃ k, e.sock = some k ∧ k.owner = e.i

theorem PartInv.kept (h : PartInv t i q) : Kept t t i q [] := ⟨h, fun j _ => .refl j t, nofun⟩

theorem PartInv.mainStep {ans : Answer} (h : PartInv t i p) (hquiet : p.ClosesQuietly)
    (hs : p.mainStep t i ans = some (u, q, es)) : Kept t u i q es := by
  have hgive : ∀ {fd : Nat} {k : Sock Nat} {v : Table}, t.give i fd = some (v, k) → ∀ j, j ≠ i → Descriptors.Keeps j t v :=
    fun hg j _ => Descriptors.keeps_give hg j
  unfold Part.mainStep at hs
  cases hpc : p.main <;> simp only [hpc, Option.some.injEq, Prod.mk.injEq] at hs
  -- the three starts: the kernel gives the numbers of the sockets, and a call that fails leads to their closes
  case socketListen =>
    unfold Part.socketListen at hs
    cases hfd : ans.fd with
    | none =>
      simp only [hfd, Option.some.injEq, Prod.mk.injEq] at hs
      obtain ⟨rfl, rfl, rfl⟩ := hs
      exact PartInv.kept (h.goto hpc rfl rfl nofun nofun nofun nofun nofun nofun)
    | some fd =>
      simp only [hfd, Option.bind_eq_bind, Option.bind_eq_some_iff, Prod.exists, Option.some.injEq, Prod.mk.injEq] at hs
      obtain ⟨v, k, hg, rfl, rfl, rfl⟩ := hs
      exact ⟨h.socketListen hpc hg, hgive hg, nofun⟩
  case socketTx =>
    unfold Part.socketTx at hs
    cases hfd : ans.fd with
    | none =>
      simp only [hfd, Option.some.injEq, Prod.mk.injEq] at hs
      obtain ⟨rfl, rfl, rfl⟩ := hs
      exact (h.failed (by rw [hpc]; rfl) (by rw [hpc]; rfl)).kept
    | some fd =>
      simp only [hfd, Option.bind_eq_bind, Option.bind_eq_some_iff, Prod.exists, Option.some.injEq, Prod.mk.injEq] at hs
      obtain ⟨v, k, hg, rfl, rfl, rfl⟩ := hs
      exact ⟨h.socketTx hpc hg, hgive hg, nofun⟩
  case bind =>
    obtain ⟨rfl, rfl, rfl⟩ := hs
    split
    · exact PartInv.kept (h.goto hpc rfl rfl nofun nofun (fun _ => rfl) (fun _ => h.listens (by rw [hpc]; rfl))
        (fun _ => rfl) nofun)
    · exact PartInv.kept (h.failed (by rw [hpc]; rfl) (by rw [hpc]; rfl))
  case listen =>
    obtain ⟨rfl, rfl, rfl⟩ := hs
    split
    · split
      · exact PartInv.kept (h.goto hpc rfl rfl nofun nofun (fun _ => rfl) nofun (fun _ => rfl) nofun)
      · exact PartInv.kept (h.goto hpc rfl rfl nofun nofun (fun _ => rfl) (fun _ => h.listens (by rw [hpc]; rfl))
          nofun nofun)
    · exact PartInv.kept (h.failed (by rw [hpc]; rfl) (by rw [hpc]; rfl))
  case inetPton =>
    obtain ⟨rfl, rfl, rfl⟩ := hs
    split
    · exact PartInv.kept (h.goto hpc rfl rfl nofun nofun (fun _ => rfl) nofun (fun _ => rfl) nofun)
    · exact PartInv.kept (h.failed (by rw [hpc]; rfl) (by rw [hpc]; rfl))
  case connect g =>
    obtain ⟨rfl, rfl, rfl⟩ := hs
    split
    · exact PartInv.kept (h.goto hpc rfl rfl (fun _ hf => hf) (fun _ hg => hg) (fun _ => rfl) nofun (fun _ => rfl) nofun)
    · exact PartInv.kept (h.goto hpc rfl rfl (fun _ hf => hf) (fun _ hg => hg) (fun _ => rfl) nofun (fun _ => rfl) nofun)
  -- The number that is closed is the participant's own.
  case closeTx g =>
    obtain ⟨rfl, rfl, rfl⟩ := hs
    refine ⟨h.closeTx hpc, fun j hj => Descriptors.keeps_close (fun f hf => ?_) hj, nofun⟩
    obtain rfl := Option.some.inj hf
    exact h.owns .main g.fd (by rw [Part.owns, hpc]; rfl)
  case setClient g =>
    obtain ⟨rfl, rfl, rfl⟩ := hs
    exact PartInv.kept (h.setClient hpc)
  -- the threads, each with the number that it works on
  case spawnRx g =>
    obtain ⟨rfl, rfl, rfl⟩ := hs
    exact PartInv.kept (h.spawnRx hpc)
  case spawnTx g =>
    obtain ⟨rfl, rfl, rfl⟩ := hs
    exact PartInv.kept (h.spawnTx hpc)
  case spawnAccept =>
    obtain ⟨rfl, rfl, rfl⟩ := hs
    exact PartInv.kept (h.spawnAccept hpc)
  case idle =>
    obtain ⟨rfl, rfl, rfl⟩ := hs
    exact PartInv.kept (h.idle hpc)
  -- `stop`: the queue, then each descriptor by a shutdown, a close and a reset, then the joins
  case stopQueue =>
    obtain ⟨rfl, rfl, rfl⟩ := hs
    have hsame : p.notify.main = p.main ∧ p.notify.stop_flag_ = p.stop_flag_ := by
      unfold Part.notify
      split <;> exact ⟨rfl, rfl⟩
    have hflag : p.stop_flag_ = true := h.stopping (by rw [hpc]; rfl)
    exact PartInv.kept ((h.notify.queue false []).goto (hsame.1.trans hpc) rfl rfl nofun nofun nofun nofun nofun
      fun _ => hsame.2.trans hflag)
  case test m =>
    obtain ⟨rfl, rfl, rfl⟩ := hs
    have hflag : p.stop_flag_ = true := h.stopping (by rw [hpc]; rfl)
    split
    · exact PartInv.kept (h.goto hpc rfl rfl nofun nofun nofun nofun nofun fun _ => hflag)
    · cases m <;> exact PartInv.kept (h.goto hpc rfl rfl nofun nofun nofun nofun nofun fun _ => hflag)
  case shutdown m =>
    obtain ⟨rfl, rfl, rfl⟩ := hs
    have hkeep : ∀ j, Descriptors.Keeps j t (t.shutdown (p.member m)) := by
      intro j f k hf _
      rwa [Descriptors.shutdown_fds]
    have hflag : p.stop_flag_ = true := h.stopping (by rw [hpc]; rfl)
    refine ⟨PartInv.keep ?_ (hkeep i), fun j _ => hkeep j, nofun⟩
    exact h.goto hpc rfl rfl nofun nofun nofun nofun nofun fun _ => hflag
  case close m stopping =>
    obtain ⟨rfl, rfl, rfl⟩ := hs
    refine ⟨h.close hpc hquiet, fun j hj => Descriptors.keeps_close (fun f hf => ?_) hj, nofun⟩
    refine h.owns (.member m) f ?_
    rw [Part.owns, hpc]
    exact (if_neg nofun).trans hf
  case reset m stopping =>
    obtain ⟨rfl, rfl, rfl⟩ := hs
    exact PartInv.kept (h.reset hpc)
  case joinAccept =>
    split at hs
    · simp only [Option.some.injEq, Prod.mk.injEq] at hs
      obtain ⟨rfl, rfl, rfl⟩ := hs
      exact PartInv.kept (h.goto hpc rfl rfl nofun nofun nofun nofun nofun fun _ => h.stopping (by rw [hpc]; rfl))
    · cases hs
  case joinRx =>
    split at hs
    · simp only [Option.some.injEq, Prod.mk.injEq] at hs
      obtain ⟨rfl, rfl, rfl⟩ := hs
      exact PartInv.kept (h.goto hpc rfl rfl nofun nofun nofun nofun nofun fun _ => h.stopping (by rw [hpc]; rfl))
    · cases hs
  case joinTx =>
    split at hs
    · simp only [Option.some.injEq, Prod.mk.injEq] at hs
      obtain ⟨rfl, rfl, rfl⟩ := hs
      exact PartInv.kept (h.goto hpc rfl rfl nofun nofun nofun nofun nofun nofun)
    · cases hs

/-! ### The other threads -/

/-- The accept thread goes on, and takes nothing over. -/
theorem PartInv.acceptGoto (h : PartInv t i p) {old pc : AcceptPc} (hpc : p.accept = old) (hold : old ≠ .none)
    (hun : ∀ f, pc.unassigned = some f → old.unassigned = some f) (hheld : ∀ g, pc.held = some g → old.held = some g)
    (hne : pc ≠ .accept) : PartInv t i { p with accept := pc } := by
  subst hpc
  have howns : ∀ slot f, ({ p with accept := pc } : Part).owns slot = some f → p.owns slot = some f := by
    rintro (m | _ | _) f hf
    · exact hf
    · exact hf
    · exact hun f hf
  exact { h with
    owns := fun slot f hf => h.owns slot f (howns slot f hf)
    inj := fun a b f ha hb => h.inj a b f (howns a f ha) (howns b f hb)
    accept := fun g hg => h.accept g (hheld g hg)
    accepting := fun ha => absurd ha hne
    starting := starting_of_over (h.started (Or.inl hold)) }

/-- The accepted socket is a new one. -/
theorem PartInv.accepted {on : Option (Sock Nat)} {k : Sock Nat} {fd : Nat} (h : PartInv t i p)
    (hpc : p.accept = .accepting on) (hgive : t.give i fd = some (u, k)) :
    PartInv u i { p with accept := .assign ⟨fd, k⟩ } := by
  obtain ⟨howner, -, hfd, -⟩ := Descriptors.give_fds hgive
  have hk := h.keep (Descriptors.keeps_give hgive i)
  have howns : ∀ slot f, ({ p with accept := .assign ⟨fd, k⟩ } : Part).owns slot = some f →
      (slot = .accepted ∧ f = fd) ∨ (slot ≠ .accepted ∧ p.owns slot = some f) := by
    rintro (m | _ | _) f hf
    · exact Or.inr ⟨nofun, hf⟩
    · exact Or.inr ⟨nofun, hf⟩
    · exact Or.inl ⟨rfl, (Option.some.inj hf).symm⟩
  exact { hk with
    owns := (h.owns_new hgive howns).1
    inj := (h.owns_new hgive howns).2
    accept := fun g hg => by
      obtain rfl := Option.some.inj hg
      exact ⟨howner, Or.inl hfd⟩
    accepting := nofun
    starting := starting_of_over (h.started (Or.inl (by rw [hpc]; nofun))) }

/-- The number of the accepted socket moves to its member. -/
theorem PartInv.assign {g : Held} {m : Member} (h : PartInv t i p) (hpc : p.accept = .assign g) (hm : m ≠ .listen_fd_) :
    PartInv t i { p.setMember (some g.fd) m with accept := .spawnRx g } := by
  have hset : p.setMember (some g.fd) m = { p with
      client_fd_ := if m = .client_fd_ then some g.fd else p.client_fd_
      rx_fd_ := if m = .rx_fd_ then some g.fd else p.rx_fd_ } := by
    cases m
    · exact absurd rfl hm
    · rfl
    · rfl
  rw [hset]
  have howns : ∀ slot f, Part.owns { p with
      client_fd_ := if m = .client_fd_ then some g.fd else p.client_fd_
      rx_fd_ := if m = .rx_fd_ then some g.fd else p.rx_fd_
      accept := .spawnRx g } slot = some f →
      (slot = .member m ∧ p.owns .accepted = some f) ∨
        (slot ≠ .member m ∧ slot ≠ .accepted ∧ p.owns slot = some f) := by
    rintro (m' | _ | _) f hf
    · cases m <;> cases m' <;> simp_all [Part.owns, Part.member, AcceptPc.unassigned]
    · exact Or.inr ⟨nofun, nofun, hf⟩
    · cases hf
  exact { h with
    owns := fun slot f hf => by
      rcases howns slot f hf with ⟨-, hf⟩ | ⟨-, -, hf⟩
      · exact h.owns _ f hf
      · exact h.owns _ f hf
    inj := fun a b f ha hb => by
      rcases howns a f ha with ⟨rfl, hf⟩ | ⟨-, hna, ha⟩ <;> rcases howns b f hb with ⟨rfl, hf'⟩ | ⟨-, hnb, hb⟩
      · rfl
      · exact absurd (h.inj _ _ f hb hf) hnb
      · exact absurd (h.inj _ _ f ha hf') hna
      · exact h.inj a b f ha hb
    accept := fun g' hg => h.accept g' (by rw [hpc]; exact hg)
    accepting := nofun
    starting := starting_of_over (h.started (Or.inl (by rw [hpc]; nofun))) }

theorem PartInv.acceptStep {ans : Answer} (h : PartInv t i p) (hs : p.acceptStep t i ans = some (u, q, es)) :
    Kept t u i q es := by
  unfold Part.acceptStep at hs
  cases hpc : p.accept <;> simp only [hpc, Option.some.injEq, Prod.mk.injEq, reduceCtorEq] at hs
  case accept =>
    obtain ⟨rfl, rfl, rfl⟩ := hs
    refine ⟨h.acceptGoto hpc nofun nofun nofun nofun, fun j _ => .refl j t, ?_⟩
    obtain ⟨⟨f, k, hf, hl, hk, ho⟩, -⟩ := h.accepting hpc
    rintro e he
    obtain rfl := List.mem_singleton.mp he
    refine ⟨?_, k, hl, ho⟩
    rw [hf, hl]
    exact hk
  case accepting on =>
    cases hfd : ans.fd with
    | none =>
      simp only [hfd, Option.some.injEq, Prod.mk.injEq] at hs
      obtain ⟨rfl, rfl, rfl⟩ := hs
      exact PartInv.kept (h.acceptGoto hpc nofun nofun nofun nofun)
    | some fd =>
      simp only [hfd] at hs
      split at hs
      · simp only [Option.bind_eq_bind, Option.bind_eq_some_iff, Prod.exists, Option.some.injEq, Prod.mk.injEq] at hs
        obtain ⟨v, k, hg, rfl, rfl, rfl⟩ := hs
        exact ⟨h.accepted hpc hg, fun j _ => Descriptors.keeps_give hg j, nofun⟩
      · cases hs
  case assign g =>
    obtain ⟨rfl, rfl, rfl⟩ := hs
    refine PartInv.kept (h.assign hpc ?_)
    split <;> exact nofun
  case spawnRx g =>
    obtain ⟨rfl, rfl, rfl⟩ := hs
    have hheld := h.accept g (by rw [hpc]; rfl)
    have hgo : PartInv t i { p with accept := if p.mode = .startSplit then .done else .spawnTx g } := by
      split
      · exact h.acceptGoto hpc nofun nofun nofun nofun
      · exact h.acceptGoto hpc nofun nofun (fun _ hg => hg) nofun
    exact PartInv.kept { hgo with
      rx := fun g' hg => by
        obtain rfl := Option.some.inj hg
        exact ⟨hheld.1, hheld.2.imp_right fun hflag => ⟨hflag, rfl⟩⟩
      starting := starting_of_over (h.started (Or.inl (by rw [hpc]; nofun))) }
  case spawnTx g =>
    obtain ⟨rfl, rfl, rfl⟩ := hs
    have hstart : p.main.starting = false := h.started (Or.inl (by rw [hpc]; nofun))
    have hsame : (p.start_tx_thread g).accept = p.accept := by
      unfold Part.start_tx_thread
      split <;> rfl
    exact PartInv.kept ((h.start_tx_thread hstart (h.accept g (by rw [hpc]; rfl))).acceptGoto (hsame.trans hpc)
      nofun nofun nofun nofun)

/-- The rx thread goes on with the descriptor that it has. -/
theorem PartInv.rxGoto (h : PartInv t i p) {old pc : RxPc} {g : Held} (hpc : p.rx = old) (hold : old.held = some g)
    (hheld : ∀ g', pc.held = some g' → g' = g) (hcalls : pc.calls = none ∨ t.fds g.fd = some g.sock) :
    PartInv t i { p with rx := pc } := by
  subst hpc
  have hg := h.rx g hold
  exact { h with
    rx := fun g' hg' => by
      obtain rfl := hheld g' hg'
      refine ⟨hg.1, ?_⟩
      rcases hcalls with hnone | hfd
      · exact hg.2.imp_right fun hc => ⟨hc.1, hnone⟩
      · exact Or.inl hfd
    starting := fun hs => by
      rw [(h.starting hs).2.1] at hold
      cases hold }

theorem Reading.held_after {g g' : Held} {r : Reading} {bytes : Bytes} (h : (r.after g bytes).held = some g') : g' = g := by
  cases r with
  | length got =>
    simp only [Reading.after] at h
    split at h
    · split at h <;> exact (Option.some.inj h).symm
    · exact (Option.some.inj h).symm
  | packet len got =>
    simp only [Reading.after] at h
    split at h <;> exact (Option.some.inj h).symm

theorem PartInv.rxStep {ans : Answer} (h : PartInv t i p)
    (hlast : ∀ g r on, p.rx = .recving g r on →
      t.fds g.fd = some g.sock ∨ ans.bytes = [] ∨ (r.after g ans.bytes).calls = none)
    (hs : p.rxStep t i ans = some (u, q, es)) : Kept t u i q es := by
  unfold Part.rxStep at hs
  cases hpc : p.rx <;> simp only [hpc, Option.some.injEq, Prod.mk.injEq, reduceCtorEq] at hs
  case check g =>
    obtain ⟨rfl, rfl, rfl⟩ := hs
    split
    · exact PartInv.kept (h.rxGoto hpc rfl nofun (Or.inl rfl))
    · rename_i hflag
      refine PartInv.kept (h.rxGoto hpc rfl (fun _ hg => (Option.some.inj hg).symm) (Or.inr ?_))
      exact (h.rx g (by rw [hpc]; rfl)).2.resolve_right fun hc => hflag hc.1
  case recv g r =>
    obtain ⟨rfl, rfl, rfl⟩ := hs
    refine ⟨h.rxGoto hpc rfl (fun _ hg => (Option.some.inj hg).symm) (Or.inl rfl), fun j _ => .refl j t, ?_⟩
    have hheld := h.rx g (by rw [hpc]; rfl)
    rintro e he
    obtain rfl := List.mem_singleton.mp he
    refine ⟨hheld.2.resolve_right fun hc => ?_, g.sock, rfl, hheld.1⟩
    rw [hpc] at hc
    cases hc.2
  case recving g r on =>
    split at hs
    · simp only [Option.some.injEq, Prod.mk.injEq] at hs
      obtain ⟨rfl, rfl, rfl⟩ := hs
      split
      · exact PartInv.kept (h.rxGoto hpc rfl nofun (Or.inl rfl))
      · rename_i hbytes
        refine PartInv.kept (h.rxGoto hpc rfl (fun _ hg => Reading.held_after hg) ?_)
        rcases hlast g r on hpc with hfd | hnil | hcalls
        · exact Or.inr hfd
        · exact absurd hnil hbytes
        · exact Or.inl hcalls
    · cases hs

/-- The tx thread goes on with the descriptor that it has. -/
theorem PartInv.txGoto (h : PartInv t i p) {old pc : TxPc} {g : Held} (hpc : p.tx = old) (hold : old.held = some g)
    (hheld : ∀ g', pc.held = some g' → g' = g) (hcalls : pc.calls = none ∨ t.fds g.fd = some g.sock) :
    PartInv t i { p with tx := pc } := by
  subst hpc
  have hg := h.tx g hold
  exact { h with
    tx := fun g' hg' => by
      obtain rfl := hheld g' hg'
      refine ⟨hg.1, ?_⟩
      rcases hcalls with hnone | hfd
      · exact hg.2.imp_right fun hc => ⟨hc.1, hnone⟩
      · exact Or.inl hfd
    starting := fun hs => by
      rw [(h.starting hs).2.2] at hold
      cases hold }

theorem held_afterSend {g g' : Held} {left : Nat} {next : Option Nat} (h : (afterSend g left next).held = some g') :
    g' = g := by
  unfold afterSend at h
  split at h
  · exact (Option.some.inj h).symm
  · split at h
    · split at h <;> exact (Option.some.inj h).symm
    · exact (Option.some.inj h).symm

theorem PartInv.txStep {ans : Answer} (h : PartInv t i p)
    (hlast : ∀ g left next on, p.tx = .sending g left next on →
      t.fds g.fd = some g.sock ∨ ans.sent = 0 ∨ (afterSend g (left - ans.sent) next).calls = none)
    (hs : p.txStep t i ans = some (u, q, es)) : Kept t u i q es := by
  unfold Part.txStep at hs
  cases hpc : p.tx <;> simp only [hpc, Option.some.injEq, Prod.mk.injEq, reduceCtorEq] at hs
  case check g =>
    obtain ⟨rfl, rfl, rfl⟩ := hs
    split
    · exact PartInv.kept (h.txGoto hpc rfl nofun (Or.inl rfl))
    · exact PartInv.kept (h.txGoto hpc rfl (fun _ hg => (Option.some.inj hg).symm) (Or.inl rfl))
  case dequeue g =>
    obtain ⟨rfl, rfl, rfl⟩ := hs
    unfold Part.dequeue
    split
    · exact PartInv.kept (h.txGoto hpc rfl nofun (Or.inl rfl))
    · rename_i hflag
      split
      · exact PartInv.kept (h.txGoto hpc rfl (fun _ hg => (Option.some.inj hg).symm) (Or.inl rfl))
      · rename_i pkt queue _
        have hfd := (h.tx g (by rw [hpc]; rfl)).2.resolve_right fun hc => hflag hc.1
        have hgo : PartInv t i { p with tx := .send g 2 (some pkt.length) } :=
          h.txGoto hpc rfl (fun _ hg => (Option.some.inj hg).symm) (Or.inr hfd)
        exact PartInv.kept (hgo.queue p.tx_active_ queue)
  case send g left next =>
    obtain ⟨rfl, rfl, rfl⟩ := hs
    refine ⟨h.txGoto hpc rfl (fun _ hg => (Option.some.inj hg).symm) (Or.inl rfl), fun j _ => .refl j t, ?_⟩
    have hheld := h.tx g (by rw [hpc]; rfl)
    rintro e he
    obtain rfl := List.mem_singleton.mp he
    refine ⟨hheld.2.resolve_right fun hc => ?_, g.sock, rfl, hheld.1⟩
    rw [hpc] at hc
    cases hc.2
  case sending g left next on =>
    split at hs
    · simp only [Option.some.injEq, Prod.mk.injEq] at hs
      obtain ⟨rfl, rfl, rfl⟩ := hs
      split
      · exact PartInv.kept (h.txGoto hpc rfl nofun (Or.inl rfl))
      · rename_i hsent
        refine PartInv.kept (h.txGoto hpc rfl (fun _ hg => held_afterSend hg) ?_)
        rcases hlast g left next on hpc with hfd | hzero | hcalls
        · exact Or.inr hfd
        · exact absurd hzero hsent
        · exact Or.inl hcalls
    · cases hs
  case cleanup =>
    obtain ⟨rfl, rfl, rfl⟩ := hs
    exact PartInv.kept { h.queue false [] with
      tx := nofun
      starting := starting_of_over (h.started (Or.inr (Or.inr (by rw [hpc]; nofun)))) }

theorem PartInv.put (h : PartInv t i p) (pkt : Bytes) : PartInv t i (p.put pkt) := by
  unfold Part.put
  split
  · exact h.notify.queue _ _
  · exact h

theorem PartInv.new (t : Table) (i : Nat) (mode : Mode) : PartInv t i (Part.new mode) := by
  have howns : ∀ slot, (Part.new mode).owns slot = none := by
    rintro (m | _ | _)
    · cases mode <;> cases m <;> rfl
    · cases mode <;> rfl
    · rfl
  exact {
    owns := by simp [howns]
    inj := by simp [howns]
    main := by cases mode <;> exact nofun
    accept := nofun
    rx := nofun
    tx := nofun
    accepting := nofun
    listening := by cases mode <;> exact nofun
    listens := by cases mode <;> exact nofun
    starting := fun _ => ⟨rfl, rfl, rfl⟩
    stopping := by cases mode <;> exact nofun }

end Steps

/-! ### All participants -/

/-- What a step of participant `i` does to the table and to the participant. -/
inductive Takes (t : Table) (i : Nat) (p : Part) : Act → Table → Part → List Event → Prop
  | main {ans : Answer} {u : Table} {q : Part} {es : List Event} :
      p.mainStep t i ans = some (u, q, es) → Takes t i p (.main i ans) u q es
  | accept {ans : Answer} {u : Table} {q : Part} {es : List Event} :
      p.acceptStep t i ans = some (u, q, es) → Takes t i p (.accept i ans) u q es
  | rx {ans : Answer} {u : Table} {q : Part} {es : List Event} :
      p.rxStep t i ans = some (u, q, es) → Takes t i p (.rx i ans) u q es
  | tx {ans : Answer} {u : Table} {q : Part} {es : List Event} :
      p.txStep t i ans = some (u, q, es) → Takes t i p (.tx i ans) u q es
  | put (pkt : Bytes) : Takes t i p (.put i pkt) t (p.put pkt) []
  | wake : Takes t i p (.wake i) t p.notify []

def WorldInv (w : World) : Prop := ∀ (i : Nat) (p : Part), w.parts[i]? = some p → PartInv w.table i p

section Runs
variable {w w' : World} {a : Act} {tr es : List Event}

theorem goOn_cases {j : Nat} {f : Table → Nat → Part → Result} (hs : w.goOn j f = some (w', es)) :
    ∃ x u q, w.parts[j]? = some x ∧ f w.table j x = some (u, q, es) ∧
      w' = { table := u, parts := w.parts.set j q } := by
  simp only [World.goOn, Option.bind_eq_bind, Option.bind_eq_some_iff, Prod.exists, Option.some.injEq,
    Prod.mk.injEq] at hs
  obtain ⟨x, hx, u, q, es', hstep, rfl, rfl⟩ := hs
  exact ⟨x, u, q, hx, hstep, rfl⟩

/-- A participant is made, or one that is there takes a step. -/
theorem step_takes (hs : w.step a = some (w', es)) :
    (∃ mode, a = .new mode ∧ w' = { w with parts := w.parts ++ [Part.new mode] } ∧ es = []) ∨
      ∃ i x u q, w.parts[i]? = some x ∧ Takes w.table i x a u q es ∧ w' = { table := u, parts := w.parts.set i q } := by
  cases a <;> simp only [World.step] at hs
  case new mode =>
    cases hs
    exact Or.inl ⟨mode, rfl, rfl, rfl⟩
  case main i ans =>
    obtain ⟨x, u, q, hx, hgo, rfl⟩ := goOn_cases hs
    exact Or.inr ⟨i, x, u, q, hx, .main hgo, rfl⟩
  case accept i ans =>
    obtain ⟨x, u, q, hx, hgo, rfl⟩ := goOn_cases hs
    exact Or.inr ⟨i, x, u, q, hx, .accept hgo, rfl⟩
  case rx i ans =>
    obtain ⟨x, u, q, hx, hgo, rfl⟩ := goOn_cases hs
    exact Or.inr ⟨i, x, u, q, hx, .rx hgo, rfl⟩
  case tx i ans =>
    obtain ⟨x, u, q, hx, hgo, rfl⟩ := goOn_cases hs
    exact Or.inr ⟨i, x, u, q, hx, .tx hgo, rfl⟩
  case put i pkt =>
    obtain ⟨x, u, q, hx, hgo, rfl⟩ := goOn_cases hs
    cases hgo
    exact Or.inr ⟨i, x, w.table, x.put pkt, hx, .put pkt, rfl⟩
  case wake i =>
    obtain ⟨x, u, q, hx, hgo, rfl⟩ := goOn_cases hs
    cases hgo
    exact Or.inr ⟨i, x, w.table, x.notify, hx, .wake, rfl⟩

/-- A step of one participant keeps what holds of the others. -/
theorem WorldInv.step (h : WorldInv w) (hok : LastUse w a) (hs : w.step a = some (w', es)) :
    WorldInv w' ∧ ∀ e ∈ es, e.on = e.sock ∧ ∃ k, e.sock = some k ∧ k.owner = e.i := by
  rcases step_takes hs with ⟨mode, rfl, rfl, rfl⟩ | ⟨i, p, u, q, hp, htakes, rfl⟩
  · refine ⟨fun j x hx => ?_, nofun⟩
    rcases getElem?_snoc_some.mp hx with ⟨rfl, rfl⟩ | hx
    · exact .new _ _ mode
    · exact h j x hx
  · have hinv := h i p hp
    have hk : Kept w.table u i q es := by
      cases htakes with
      | main hs => exact hinv.mainStep (hok p hp) hs
      | accept hs => exact hinv.acceptStep hs
      | rx hs =>
        refine hinv.rxStep (fun g r on hpc => ?_) hs
        simpa [LastUse, hp, hpc] using hok
      | tx hs =>
        refine hinv.txStep (fun g left next on hpc => ?_) hs
        simpa [LastUse, hp, hpc] using hok
      | put pkt => exact (hinv.put pkt).kept
      | wake => exact hinv.notify.kept
    refine ⟨fun j x hx => ?_, hk.own⟩
    rcases (getElem?_set_some hp).mp hx with ⟨rfl, rfl⟩ | ⟨hne, hx⟩
    · exact hk.inv
    · exact (h j x hx).keep (hk.others j hne)

/-- As long as `stop` closes no descriptor that one of the threads is about to call on, and a call in flight on
    one that it closed is the last before `stop_flag_` is read again, every call is on the participant's own socket. -/
theorem calls_are_own (h : World.machine.Run LastUse tr w) : OwnCalls tr := by
  suffices hinv : WorldInv w ∧ OwnCalls tr from hinv.2
  refine h.invariant (I := fun tr w => WorldInv w ∧ OwnCalls tr) (fun w hw => ?_) ?_
  · subst hw
    refine ⟨fun i p hp => ?_, by simp [OwnCalls]⟩
    simp at hp
  · intro tr w a w' es hinv hok hs
    obtain ⟨hw, hes⟩ := hinv.1.step hok hs
    refine ⟨hw, fun e he => ?_⟩
    rcases List.mem_append.mp he with he | he
    · exact hinv.2 e he
    · exact hes e he

/-- A participant that connects, reads, and is stopped while it waits for more. -/
def readsAndStops : List Act :=
  [Act.new .startPassive, .main 0 {}, .main 0 { fd := some 5 }, .main 0 {}, .main 0 {}, .main 0 {}, .main 0 {},
   .rx 0 {}, .rx 0 {}, .rx 0 { bytes := [0] }, .rx 0 {}] ++
  List.replicate 7 (Act.main 0 {}) ++ [Act.rx 0 {}]

theorem calls_are_own_reads : ∃ tr w, World.machine.Run LastUse tr w ∧ tr.length = 2 ∧ OwnCalls tr := by
  have hmeets : World.machine.Meets LastUse {} readsAndStops := meets_of_checks (by decide +kernel)
  obtain ⟨tr, w, hrun, hlen⟩ := exists_run World.machine {} readsAndStops rfl hmeets (fun r => r.2.length == 2)
    (by decide +kernel)
  exact ⟨tr, w, hrun, beq_iff_eq.mp hlen, calls_are_own hrun⟩

/-- The tx thread has taken a packet when `stop` closes its descriptor; another participant's socket gets the
    number, and the packet. -/
def sendsToAnother : List Act :=
  [Act.new .startPassive, .main 0 {}, .main 0 { fd := some 5 }, .main 0 {}, .main 0 {}, .main 0 {}, .main 0 {},
   .put 0 [1], .tx 0 {}, .tx 0 {}] ++
  List.replicate 6 (Act.main 0 {}) ++ [Act.new .startPassive, .main 1 {}, .main 1 { fd := some 5 }, .tx 0 {}]

theorem sends_to_another : ¬ ∀ (tr : List Event) (w : World), World.machine.Run Any tr w → OwnCalls tr := by
  intro hall
  obtain ⟨tr, w, hrun, hs⟩ := exists_run World.machine {} sendsToAnother rfl (meets_any _ _ _)
    (fun r => r.2.any fun e => e.on != e.sock) (by decide +kernel)
  obtain ⟨e, he, hne⟩ := List.any_eq_true.mp hs
  exact bne_iff_ne.mp hne (hall tr w hrun e he).1

end Runs
end AudioMeet.Threads
