import AudioMeet.Lib.Machine

/-! Executions of a machine that never end, and what they come to when some of its actions are treated fairly: an
    action that stays enabled is taken at some time. -/

namespace AudioMeet.Lib.Machine
variable {σ α ε : Type} {S : Machine σ α ε}

/-- At each time one step is taken, or nothing happens. -/
structure Execution (S : Machine σ α ε) where
  state : Nat → σ
  act : Nat → Option α
  events : Nat → List ε
  init : S.init (state 0)
  step : ∀ n a, act n = some a → S.step (state n) a = some (state (n + 1), events n)
  idle : ∀ n, act n = none → state (n + 1) = state n ∧ events n = []

namespace Execution
variable {e : S.Execution} {mine ok : σ → α → Prop} {n m : Nat}

/-- The events before time `n`. -/
def history (e : S.Execution) (n : Nat) : List ε := (List.range n).flatMap e.events

theorem history_succ (e : S.Execution) (n : Nat) : e.history (n + 1) = e.history n ++ e.events n := by
  rw [history, List.range_succ, List.flatMap_append]
  simp [history]

theorem history_prefix (e : S.Execution) (h : n ≤ m) : e.history n <+: e.history m := by
  induction h with
  | refl => exact List.prefix_rfl
  | step _ ih => exact ih.trans ⟨_, (e.history_succ _).symm⟩

/-- What `f` is at time `n`, of the events so far and the state. -/
def now {β : Sort*} (e : S.Execution) (f : List ε → σ → β) (n : Nat) : β := f (e.history n) (e.state n)

/-- Every step meets the condition. -/
def Obeys (e : S.Execution) (ok : σ → α → Prop) : Prop := ∀ n a, e.act n = some a → ok (e.state n) a

theorem obeys_any (e : S.Execution) : e.Obeys Any := fun _ _ _ => trivial

/-- At each time the execution has run so far. -/
theorem run (hok : e.Obeys ok) (n : Nat) : S.Run ok (e.history n) (e.state n) := by
  induction n with
  | zero => exact .init e.init
  | succ n ih =>
    rw [history_succ]
    cases hact : e.act n with
    | none =>
      obtain ⟨hstate, hevents⟩ := e.idle n hact
      rw [hstate, hevents, List.append_nil]
      exact ih
    | some a => exact ih.step (hok n a hact) (e.step n a hact)

/-- One of the actions is taken after each time from which on one of them is always enabled. -/
def Fair (e : S.Execution) (mine : σ → α → Prop) : Prop :=
  ∀ n, (∀ m, n ≤ m → ∃ a, mine (e.state m) a ∧ S.step (e.state m) a ≠ none) →
    ∃ m a, n ≤ m ∧ mine (e.state m) a ∧ e.act m = some a

section Rank
variable {β : Type} {lower : β → β → Prop} {rank : List ε → σ → β} {I P : List ε → σ → Prop}

/-- While `P` does not hold an action of `mine` is enabled, every step keeps `I`, and every one that is not of `mine`
    lowers the rank or leaves it. -/
def Ranked (S : Machine σ α ε) (ok mine : σ → α → Prop) (lower : β → β → Prop) (rank : List ε → σ → β)
    (I P : List ε → σ → Prop) : Prop :=
  ∀ tr s, I tr s → P tr s ∨ ((∃ a, mine s a ∧ S.step s a ≠ none) ∧ ∀ a t es, ok s a → S.step s a = some (t, es) →
    I (tr ++ es) t ∧ (lower (rank (tr ++ es) t) (rank tr s) ∨ rank (tr ++ es) t = rank tr s ∧ ¬ mine s a))

/-- Nothing, or a step, takes `I` on; the rank stays or is lowered. -/
theorem Ranked.next (h : Ranked S ok mine lower rank I P) (hok : e.Obeys ok)
    (hi : e.now I n) (hp : ¬ e.now P n) :
    e.now I (n + 1) ∧ (lower (e.now rank (n + 1)) (e.now rank n) ∨
      e.now rank (n + 1) = e.now rank n ∧ ∀ a, e.act n = some a → ¬ mine (e.state n) a) := by
  obtain ⟨-, hall⟩ := (h _ _ hi).resolve_left hp
  simp only [now, history_succ]
  cases hact : e.act n with
  | none =>
    obtain ⟨hstate, hevents⟩ := e.idle n hact
    rw [hstate, hevents, List.append_nil]
    exact ⟨hi, Or.inr ⟨rfl, fun a ha => by cases ha⟩⟩
  | some a =>
    obtain ⟨hi', hrank⟩ := hall a _ _ (hok n a hact) (e.step n a hact)
    refine ⟨hi', hrank.imp_right fun ⟨heq, hmine⟩ => ⟨heq, fun b hb => ?_⟩⟩
    obtain rfl := Option.some.inj hb
    exact hmine

/-- The rule of the rank: an execution that is fair to `mine` comes to `P`. -/
theorem comes_to (hwf : WellFounded lower) (h : Ranked S ok mine lower rank I P) (hok : e.Obeys ok)
    (hfair : e.Fair mine) (hi : e.now I n) : ∃ m, n ≤ m ∧ e.now P m := by
  generalize hr : e.now rank n = r
  induction r using hwf.induction generalizing n with
  | _ r ih =>
    by_contra hnone
    simp only [not_exists, not_and] at hnone
    -- Otherwise the rank would stay, since nothing below it can be reached.
    have hstays : ∀ m, n ≤ m → e.now I m ∧ e.now rank m = r := by
      intro m hm
      induction hm with
      | refl => exact ⟨hi, hr⟩
      | @step m hm hold =>
        obtain ⟨hi', hlower | ⟨heq, -⟩⟩ := h.next hok hold.1 (hnone m hm)
        · obtain ⟨k, hk, hp⟩ := ih _ (hold.2 ▸ hlower) hi' rfl
          exact absurd hp (hnone k (Nat.le_trans (Nat.le_succ_of_le hm) hk))
        · exact ⟨hi', heq.trans hold.2⟩
    obtain ⟨m, a, hm, hmine, hact⟩ := hfair n fun m hm => ((h _ _ (hstays m hm).1).resolve_left (hnone m hm)).1
    obtain ⟨hi', hlower | ⟨-, hother⟩⟩ := h.next hok (hstays m hm).1 (hnone m hm)
    · obtain ⟨k, hk, hp⟩ := ih _ ((hstays m hm).2 ▸ hlower) hi' rfl
      exact absurd hp (hnone k (Nat.le_trans (Nat.le_succ_of_le hm) hk))
    · exact hother a hact hmine

end Rank

/-! ### The execution that replays a list of actions and then rests -/

section Replay

variable {s t : σ} {as : List α} {a : α} {tr : List ε}

/-- The state after `n` actions of the replay, or after the last one. -/
def stateAt (S : Machine σ α ε) (s : σ) : List α → Nat → σ
  | _, 0 => s
  | [], _ + 1 => s
  | a :: as, n + 1 =>
    match S.step s a with
    | some (t, _) => stateAt S t as n
    | none => s

theorem exec_cons (h : S.exec s (a :: as) = some (t, tr)) :
    ∃ u es es', S.step s a = some (u, es) ∧ S.exec u as = some (t, es') ∧ tr = es ++ es' := by
  simp only [exec, Option.bind_eq_bind, Option.bind_eq_some_iff, Prod.exists] at h
  obtain ⟨u, es, hstep, v, es', hrest, heq⟩ := h
  obtain ⟨rfl, rfl⟩ := Prod.mk.inj (Option.some.inj heq)
  exact ⟨u, es, es', hstep, hrest, rfl⟩

theorem step_stateAt : ∀ {as : List α} {s : σ} {n : Nat} {tr : List ε}, S.exec s as = some (t, tr) →
    as[n]? = some a → ∃ es, S.step (stateAt S s as n) a = some (stateAt S s as (n + 1), es)
  | [], _, _, _, _, ha => by cases ha
  | b :: as, s, n, tr, h, ha => by
    obtain ⟨u, es, es', hstep, hrest, -⟩ := exec_cons h
    cases n with
    | zero =>
      obtain rfl := Option.some.inj ha
      refine ⟨es, ?_⟩
      rw [stateAt, stateAt, hstep]
      cases as <;> rfl
    | succ n =>
      obtain ⟨es₂, hnext⟩ := step_stateAt hrest ha
      refine ⟨es₂, ?_⟩
      simp only [stateAt, hstep]
      exact hnext

theorem stateAt_last : ∀ {as : List α} {s : σ} {n : Nat} {tr : List ε}, S.exec s as = some (t, tr) →
    as.length ≤ n → stateAt S s as n = t
  | [], s, n, tr, h, _ => by
    obtain ⟨rfl, -⟩ := Prod.mk.inj (Option.some.inj h)
    cases n <;> rfl
  | a :: as, s, n + 1, tr, h, hn => by
    obtain ⟨u, es, es', hstep, hrest, -⟩ := exec_cons h
    simp only [stateAt, hstep]
    exact stateAt_last hrest (Nat.le_of_succ_le_succ hn)

theorem meets_stateAt : ∀ {as : List α} {s : σ} {n : Nat}, S.Meets ok s as → (∃ r, S.exec s as = some r) →
    as[n]? = some a → ok (stateAt S s as n) a
  | [], _, _, _, _, ha => by cases ha
  | b :: as, s, n, hok, ⟨(t, tr), h⟩, ha => by
    obtain ⟨u, es, es', hstep, hrest, -⟩ := exec_cons h
    cases n with
    | zero =>
      obtain rfl := Option.some.inj ha
      exact hok.1
    | succ n =>
      simp only [stateAt, hstep]
      exact meets_stateAt (hok.2 u es hstep) ⟨_, hrest⟩ ha

/-- What is seen of the replay at time `n`. -/
def eventsAt (S : Machine σ α ε) (s : σ) (as : List α) (n : Nat) : List ε :=
  (as[n]?.bind (S.step (stateAt S s as n))).elim [] Prod.snd

theorem flatMap_eventsAt : ∀ {as : List α} {s : σ} {tr : List ε}, S.exec s as = some (t, tr) →
    (List.range as.length).flatMap (eventsAt S s as) = tr
  | [], s, tr, h => by
    obtain ⟨-, rfl⟩ := Prod.mk.inj (Option.some.inj h)
    rfl
  | a :: as, s, tr, h => by
    obtain ⟨u, es, es', hstep, hrest, rfl⟩ := exec_cons h
    have hfirst : eventsAt S s (a :: as) 0 = es := by
      simp only [eventsAt, stateAt, List.getElem?_cons_zero, Option.bind_some, hstep, Option.elim_some]
    have hnext : ∀ n, eventsAt S s (a :: as) (n + 1) = eventsAt S u as n := fun n => by
      simp only [eventsAt, stateAt, List.getElem?_cons_succ, hstep]
    rw [List.length_cons, List.range_succ_eq_map, List.flatMap_cons, List.flatMap_map, hfirst]
    simp only [hnext, flatMap_eventsAt hrest]

/-- A replay from an initial state is the beginning of an execution, which rests after it. -/
theorem exists_execution (S : Machine σ α ε) (as : List α) (hinit : S.init s) (hok : S.Meets ok s as)
    (h : S.exec s as = some (t, tr)) :
    ∃ e : S.Execution, e.Obeys ok ∧ (∀ n, e.state n = stateAt S s as n) ∧ (∀ n, as.length ≤ n → e.state n = t) ∧
      e.history as.length = tr := by
  have hidle : ∀ n, as[n]? = none → stateAt S s as (n + 1) = stateAt S s as n := fun n hn => by
    have hle := List.getElem?_eq_none_iff.mp hn
    rw [stateAt_last h hle, stateAt_last h (Nat.le_succ_of_le hle)]
  refine ⟨⟨stateAt S s as, (as[·]?), eventsAt S s as, ?_, ?_, ?_⟩, fun n a ha => meets_stateAt hok ⟨_, h⟩ ha,
    fun _ => rfl, fun n hn => stateAt_last h hn, flatMap_eventsAt h⟩
  · cases as <;> exact hinit
  · intro n a ha
    obtain ⟨es, hstep⟩ := step_stateAt h ha
    rw [eventsAt, ha, Option.bind_some, hstep]
    rfl
  · intro n hn
    rw [eventsAt, hn]
    exact ⟨hidle n hn, rfl⟩

/-- An execution that rests where none of the actions is enabled is fair to them. -/
theorem fair_of_rest (hrest : ∃ n, ∀ m, n ≤ m → ∀ a, mine (e.state m) a → S.step (e.state m) a = none) :
    e.Fair mine := by
  obtain ⟨n, hnone⟩ := hrest
  intro k hk
  obtain ⟨a, hmine, hstep⟩ := hk (n + k) (Nat.le_add_left k n)
  exact absurd (hnone _ (Nat.le_add_right n k) a hmine) hstep

end Replay
end Execution
end AudioMeet.Lib.Machine
