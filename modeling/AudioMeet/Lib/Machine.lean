import Mathlib.Logic.Basic
import Mathlib.Data.List.Basic
import Mathlib.Order.RelClasses

/-! Machines that take labelled steps. A step is a guarded function: it answers the next state and what
    an observer sees of the step, or nothing when the action is not enabled. A run carries the
    observations of its steps, so that a property may speak of the history of a state.

    Every run is relative to a condition on its steps (`ok`): an assumption on the environment, or the
    schedules that a result is about. -/

namespace AudioMeet.Lib

/-- A machine of states `σ`, actions `α` and observed events `ε`. -/
structure Machine (σ α ε : Type) where
  init : σ → Prop
  step : σ → α → Option (σ × List ε)

namespace Machine
variable {σ α ε : Type} {S : Machine σ α ε} {ok ok' : σ → α → Prop} {tr es : List ε} {s t : σ}

/-- No condition on the steps. -/
def Any : σ → α → Prop := fun _ _ => True

/-- `S.Run ok tr s`: some run whose steps all meet `ok` ends in `s`, and its events are `tr`. -/
inductive Run (S : Machine σ α ε) (ok : σ → α → Prop) : List ε → σ → Prop
  | init {s : σ} : S.init s → S.Run ok [] s
  | step {tr es : List ε} {s t : σ} {a : α} :
      S.Run ok tr s → ok s a → S.step s a = some (t, es) → S.Run ok (tr ++ es) t

/-- `S.Steps ok s tr t`: steps that all meet `ok` lead from `s` to `t` with the events `tr`. -/
inductive Steps (S : Machine σ α ε) (ok : σ → α → Prop) (s : σ) : List ε → σ → Prop
  | refl : S.Steps ok s [] s
  | tail {tr es : List ε} {t u : σ} {a : α} :
      S.Steps ok s tr t → ok t a → S.step t a = some (u, es) → S.Steps ok s (tr ++ es) u

namespace Run

/-- A run that meets a condition meets every weaker one. -/
theorem mono (h : S.Run ok tr s) (himp : ∀ s a, ok s a → ok' s a) : S.Run ok' tr s := by
  induction h with
  | init hs => exact .init hs
  | step _ hok hstep ih => exact ih.step (himp _ _ hok) hstep

/-- What holds of the initial states and is kept by every step holds along every run. -/
theorem invariant {I : List ε → σ → Prop} (hinit : ∀ s, S.init s → I [] s)
    (hstep : ∀ tr s a t es, I tr s → ok s a → S.step s a = some (t, es) → I (tr ++ es) t)
    (h : S.Run ok tr s) : I tr s := by
  induction h with
  | init hs => exact hinit _ hs
  | step _ hok hs ih => exact hstep _ _ _ _ _ ih hok hs

theorem steps (h : S.Run ok tr s) (hs : S.Steps ok s es t) : S.Run ok (tr ++ es) t := by
  induction hs with
  | refl => simpa using h
  | tail _ hok hstep ih => simpa using ih.step hok hstep

/-- Where every step shows one event, a run stops after any part of its events. -/
theorem split (hone : ∀ s a t es, S.step s a = some (t, es) → ∃ e, es = [e]) (h : S.Run ok tr t) :
    ∀ before after : List ε, tr = before ++ after → ∃ s, S.Run ok before s ∧ S.Steps ok s after t := by
  induction h with
  | init hs =>
    intro before after heq
    obtain ⟨rfl, rfl⟩ := List.append_eq_nil_iff.mp heq.symm
    exact ⟨_, .init hs, .refl⟩
  | step hrun hok hstep ih =>
    intro before after heq
    obtain ⟨e, rfl⟩ := hone _ _ _ _ hstep
    rcases List.eq_nil_or_concat after with rfl | ⟨mid, e', rfl⟩
    · rw [List.append_nil] at heq
      exact ⟨_, heq ▸ hrun.step hok hstep, .refl⟩
    · rw [List.concat_eq_append, ← List.append_assoc] at heq
      obtain ⟨heq, he⟩ := List.append_inj' heq rfl
      obtain ⟨s, hbefore, hmid⟩ := ih _ _ heq
      rw [List.concat_eq_append, ← he]
      exact ⟨s, hbefore, hmid.tail hok hstep⟩

/-- Where every step shows one event, the last event is of the last step. -/
theorem last (hone : ∀ s a t es, S.step s a = some (t, es) → ∃ e, es = [e]) {e : ε} (h : S.Run ok (tr ++ [e]) t) :
    ∃ s a, S.Run ok tr s ∧ ok s a ∧ S.step s a = some (t, [e]) := by
  generalize heq : tr ++ [e] = es at h
  cases h with
  | init hs => simp at heq
  | step hrun hok hstep =>
    obtain ⟨e', rfl⟩ := hone _ _ _ _ hstep
    obtain ⟨rfl, he⟩ := List.append_inj' heq rfl
    exact ⟨_, _, hrun, hok, he ▸ hstep⟩

end Run

namespace Steps

theorem mono (h : S.Steps ok s tr t) (himp : ∀ s a, ok s a → ok' s a) : S.Steps ok' s tr t := by
  induction h with
  | refl => exact .refl
  | tail _ hok hstep ih => exact ih.tail (himp _ _ hok) hstep

theorem single {a : α} (hok : ok s a) (h : S.step s a = some (t, es)) : S.Steps ok s es t := by
  simpa using (Steps.refl (S := S) (s := s)).tail hok h

theorem trans {u : σ} {es' : List ε} (h₁ : S.Steps ok s es t) (h₂ : S.Steps ok t es' u) :
    S.Steps ok s (es ++ es') u := by
  induction h₂ with
  | refl => simpa using h₁
  | tail _ hok hstep ih => simpa using ih.tail hok hstep

end Steps

/-! ### Replaying a list of actions -/

/-- Replays the actions from `s`; nothing when one of them is not enabled. -/
def exec (S : Machine σ α ε) (s : σ) : List α → Option (σ × List ε)
  | [] => some (s, [])
  | a :: as => do
    let (t, es) ← S.step s a
    let (u, es') ← S.exec t as
    return (u, es ++ es')

/-- Every action of a replay meets the condition in the state it is taken in. -/
def Meets (S : Machine σ α ε) (ok : σ → α → Prop) (s : σ) : List α → Prop
  | [] => True
  | a :: as => ok s a ∧ ∀ t es, S.step s a = some (t, es) → S.Meets ok t as

theorem steps_of_exec {as : List α} (hok : S.Meets ok s as) (h : S.exec s as = some (t, es)) :
    S.Steps ok s es t := by
  induction as generalizing s es with
  | nil =>
    simp only [exec, Option.some.injEq, Prod.mk.injEq] at h
    obtain ⟨rfl, rfl⟩ := h
    exact .refl
  | cons a as ih =>
    simp only [exec, Option.bind_eq_bind, Option.bind_eq_some_iff, Prod.exists, pure, Option.some.injEq,
      Prod.mk.injEq] at h
    obtain ⟨u, es₁, hstep, v, es₂, hrest, rfl, rfl⟩ := h
    exact (Steps.single hok.1 hstep).trans (ih (hok.2 u es₁ hstep) hrest)

/-- Runs the test of `Meets` along a replay. -/
def checks (S : Machine σ α ε) (ok : σ → α → Prop) [∀ s, DecidablePred (ok s)] (s : σ) : List α → Bool
  | [] => true
  | a :: as => decide (ok s a) && (S.step s a).all fun r => S.checks ok r.1 as

theorem meets_of_checks [∀ s, DecidablePred (ok s)] {as : List α} (h : S.checks ok s as = true) : S.Meets ok s as := by
  induction as generalizing s with
  | nil => trivial
  | cons a as ih =>
    simp only [checks, Bool.and_eq_true, decide_eq_true_eq] at h
    refine ⟨h.1, fun t es hs => ih ?_⟩
    simpa [hs] using h.2

theorem meets_any (S : Machine σ α ε) : ∀ (as : List α) (s : σ), S.Meets Any s as
  | [], _ => trivial
  | _ :: as, _ => ⟨trivial, fun t _ _ => S.meets_any as t⟩

/-- A replay from an initial state is a run. -/
theorem run_of_exec {as : List α} (hinit : S.init s) (hok : S.Meets ok s as)
    (h : S.exec s as = some (t, es)) : S.Run ok es t := by
  simpa using (Run.init hinit).steps (steps_of_exec hok h)

/-- A replay whose end passes a test shows a run whose end passes it. -/
theorem exists_run (S : Machine σ α ε) (s : σ) (as : List α) (hinit : S.init s) (hok : S.Meets ok s as) (p : σ × List ε → Bool)
    (h : (S.exec s as).any p = true) : ∃ tr t, S.Run ok tr t ∧ p (t, tr) = true := by
  obtain ⟨⟨t, tr⟩, hexec, hp⟩ := (Option.any_eq_true p _).mp h
  exact ⟨tr, t, run_of_exec hinit hok hexec, hp⟩

/-! ### What every run comes to -/

/-- Whichever enabled steps are taken from `s`, after the events `tr`, at some time `P` holds. -/
inductive Inevitably (S : Machine σ α ε) (ok : σ → α → Prop) (P : List ε → σ → Prop) : List ε → σ → Prop
  | now {tr : List ε} {s : σ} : P tr s → S.Inevitably ok P tr s
  | later {tr : List ε} {s : σ} : (∃ a t es, ok s a ∧ S.step s a = some (t, es)) →
      (∀ a t es, ok s a → S.step s a = some (t, es) → S.Inevitably ok P (tr ++ es) t) → S.Inevitably ok P tr s

namespace Inevitably
variable {P Q I : List ε → σ → Prop}

theorem mono (h : S.Inevitably ok P tr s) (himp : ∀ tr s, P tr s → Q tr s) : S.Inevitably ok Q tr s := by
  induction h with
  | now hp => exact .now (himp _ _ hp)
  | later hex _ ih => exact .later hex ih

/-- While `P` does not hold some step is enabled, and every step keeps `I` and lowers the rank. -/
theorem of_rank {β : Type} {lower : β → β → Prop} (hwf : WellFounded lower) (rank : σ → β)
    (hstep : ∀ tr s, I tr s → P tr s ∨ ((∃ a t es, ok s a ∧ S.step s a = some (t, es)) ∧
      ∀ a t es, ok s a → S.step s a = some (t, es) → I (tr ++ es) t ∧ lower (rank t) (rank s)))
    (h : I tr s) : S.Inevitably ok P tr s := by
  generalize hr : rank s = r
  induction r using hwf.induction generalizing tr s with
  | _ r ih =>
    rcases hstep tr s h with hp | ⟨hex, hall⟩
    · exact .now hp
    · refine .later hex fun a t es hok hs => ?_
      obtain ⟨hi, hlower⟩ := hall a t es hok hs
      exact ih _ (hr ▸ hlower) hi rfl

/-- The rule for a rank of two numbers, the second of which counts while the first stays. -/
theorem of_ranks (first second : σ → Nat)
    (hstep : ∀ tr s, I tr s → P tr s ∨ ((∃ a t es, ok s a ∧ S.step s a = some (t, es)) ∧
      ∀ a t es, ok s a → S.step s a = some (t, es) →
        I (tr ++ es) t ∧ (first t < first s ∨ first t = first s ∧ second t < second s)))
    (h : I tr s) : S.Inevitably ok P tr s := by
  refine of_rank (WellFounded.prod_lex Nat.lt_wfRel.wf Nat.lt_wfRel.wf) (fun s => (first s, second s)) ?_ h
  intro tr s h
  refine (hstep tr s h).imp_right fun ⟨hex, hall⟩ => ⟨hex, fun a t es hok hs => ?_⟩
  obtain ⟨hi, hlower⟩ := hall a t es hok hs
  exact ⟨hi, Prod.lex_def.mpr hlower⟩

/-- What is inevitable is reached by some steps. -/
theorem steps (h : S.Inevitably ok P tr s) : ∃ es t, S.Steps ok s es t ∧ P (tr ++ es) t := by
  induction h with
  | now hp => exact ⟨[], _, .refl, by simpa using hp⟩
  | later hex _ ih =>
    obtain ⟨a, t, es, hok, hs⟩ := hex
    obtain ⟨es', u, hsteps, hp⟩ := ih a t es hok hs
    exact ⟨es ++ es', u, (Steps.single hok hs).trans hsteps, by simpa using hp⟩

end Inevitably

/-! ### Simulation -/

/-- Each step of `S` is a stretch of steps of `T` between related states, and `T` sees of it what
    `view` keeps of the events of `S`. -/
structure Simulates {σ' α' ε' : Type} (S : Machine σ α ε) (ok : σ → α → Prop) (T : Machine σ' α' ε')
    (ok' : σ' → α' → Prop) (view : ε → List ε') (R : σ → σ' → Prop) : Prop where
  init : ∀ s, S.init s → ∃ x, T.init x ∧ R s x
  step : ∀ s a t es x, R s x → ok s a → S.step s a = some (t, es) →
    ∃ y, T.Steps ok' x (es.flatMap view) y ∧ R t y

/-- A simulation carries every run of `S` to a run of `T`. -/
theorem Simulates.run {σ' α' ε' : Type} {T : Machine σ' α' ε'} {ok' : σ' → α' → Prop} {view : ε → List ε'}
    {R : σ → σ' → Prop} (h : Simulates S ok T ok' view R) (hr : S.Run ok tr s) :
    ∃ x, T.Run ok' (tr.flatMap view) x ∧ R s x := by
  induction hr with
  | init hs =>
    obtain ⟨x, hx, hR⟩ := h.init _ hs
    exact ⟨x, .init hx, hR⟩
  | step _ hok hstep ih =>
    obtain ⟨x, hx, hR⟩ := ih
    obtain ⟨y, hy, hR'⟩ := h.step _ _ _ _ x hR hok hstep
    refine ⟨y, ?_, hR'⟩
    rw [List.flatMap_append]
    exact hx.steps hy

end Machine
end AudioMeet.Lib
