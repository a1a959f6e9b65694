import AudioMeet.Lib.Machine
import Mathlib.Data.List.Induction
import Mathlib.Data.List.Nodup

/-! Linearizable objects. The calls on an object overlap, each from the moment it is invoked to the moment it
    returns. They are linearizable when each takes effect at once at some moment in between, so that the
    answers are those of a sequence of operations one after the other. -/

namespace AudioMeet.Lib

/-- What an operation on an object may do at once, by the state before, the operation, its answer and the state
    after. -/
abbrev Atomic (τ ω ρ : Type) := τ → ω → ρ → τ → Prop

/-- What happens to call `k`. Its caller sees that it is invoked and that it returns. -/
inductive Moment (κ ω ρ : Type)
  | invoked (k : κ) (op : ω)
  | took (k : κ) (op : ω) (r : ρ)
  | returned (k : κ) (r : ρ)
deriving DecidableEq

/-- Where a call stands. -/
inductive Phase (ω ρ : Type)
  | absent
  | pending (op : ω)
  | effected (op : ω) (r : ρ)
  | over (op : ω) (r : ρ)
deriving DecidableEq

namespace Linearizable
variable {κ ω ρ τ : Type} {obj : Atomic τ ω ρ} {x y z : τ} {ops ops' : List (κ × ω × ρ)} {k : κ} {op : ω} {r : ρ}

/-- The operations, one after the other, lead from `x` to `y` with their answers. -/
inductive Legal (obj : Atomic τ ω ρ) (x : τ) : List (κ × ω × ρ) → τ → Prop
  | nil : Legal obj x [] x
  | snoc {ops : List (κ × ω × ρ)} {y z : τ} {k : κ} {op : ω} {r : ρ} :
      Legal obj x ops y → obj y op r z → Legal obj x (ops ++ [(k, op, r)]) z

/-- Where one object can do all that another does, it can do so in the same orders. -/
theorem Legal.simulates {σ : Type} {obj' : Atomic σ ω ρ} {R : τ → σ → Prop}
    (hR : ∀ y y' op r z, R y y' → obj y op r z → ∃ z', obj' y' op r z' ∧ R z z') {x' : σ} (hx : R x x')
    (h : Legal obj x ops y) : ∃ y', Legal obj' x' ops y' ∧ R y y' := by
  induction h with
  | nil => exact ⟨x', .nil, hx⟩
  | snoc _ hobj ih =>
    obtain ⟨y', hlegal, hy⟩ := ih
    obtain ⟨z', hobj', hz⟩ := hR _ _ _ _ _ hy hobj
    exact ⟨z', hlegal.snoc hobj', hz⟩

/-- The moments of a call that stands there, in their order. -/
def moments (k : κ) : Phase ω ρ → List (Moment κ ω ρ)
  | .absent => []
  | .pending op => [.invoked k op]
  | .effected op r => [.invoked k op, .took k op r]
  | .over op r => [.invoked k op, .took k op r, .returned k r]

def call : Moment κ ω ρ → κ
  | .invoked k _ | .took k _ _ | .returned k _ => k

def point : Moment κ ω ρ → Option (κ × ω × ρ)
  | .took k op r => some (k, op, r)
  | _ => none

/-- The operations in the order in which they took effect. -/
def points (tr : List (Moment κ ω ρ)) : List (κ × ω × ρ) := tr.filterMap point

@[simp] theorem points_append (tr es : List (Moment κ ω ρ)) : points (tr ++ es) = points tr ++ points es :=
  List.filterMap_append

theorem mem_points {tr : List (Moment κ ω ρ)} : (k, op, r) ∈ points tr ↔ .took k op r ∈ tr := by
  simp only [points, List.mem_filterMap]
  constructor
  · rintro ⟨e, he, hp⟩
    cases e <;> cases hp
    exact he
  · exact fun h => ⟨_, h, rfl⟩

theorem mem_map_points {tr : List (Moment κ ω ρ)} : k ∈ (points tr).map Prod.fst ↔ ∃ op r, .took k op r ∈ tr := by
  simp [← mem_points]

@[simp] theorem points_invoked (k : κ) (op : ω) : points [(.invoked k op : Moment κ ω ρ)] = [] := rfl

@[simp] theorem points_took (k : κ) (op : ω) (r : ρ) : points [.took k op r] = [(k, op, r)] := rfl

@[simp] theorem points_returned (k : κ) (r : ρ) : points [(.returned k r : Moment κ ω ρ)] = [] := rfl

/-- The operations `ops`, one after the other from `x` to `y`, are an order of the calls in the history `tr`. -/
structure Linearizes (obj : Atomic τ ω ρ) (x : τ) (tr : List (Moment κ ω ρ)) (ops : List (κ × ω × ρ)) (y : τ) : Prop where
  legal : Legal obj x ops y
  /-- No call takes effect twice. -/
  once : (ops.map Prod.fst).Nodup
  /-- Only what was asked for takes effect. -/
  asked : ∀ k op r, (k, op, r) ∈ ops → .invoked k op ∈ tr
  /-- A call that returned took effect, and it returned the answer of its operation. -/
  answered : ∀ k r, .returned k r ∈ tr → ∃ op, (k, op, r) ∈ ops
  /-- The order respects time: at every moment, the calls that have returned come before a place in it, and those
      that have yet to begin come after. -/
  in_time : ∀ before after, tr = before ++ after → ∃ earlier later, ops = earlier ++ later ∧
    (∀ k r, .returned k r ∈ before → k ∈ earlier.map Prod.fst) ∧
    ∀ k op, .invoked k op ∈ after → k ∉ earlier.map Prod.fst

theorem Linearizes.simulates {σ : Type} {obj' : Atomic σ ω ρ} {R : τ → σ → Prop} {tr : List (Moment κ ω ρ)}
    (hR : ∀ y y' op r z, R y y' → obj y op r z → ∃ z', obj' y' op r z' ∧ R z z') {x' : σ} (hx : R x x')
    (h : Linearizes obj x tr ops y) : ∃ y', Linearizes obj' x' tr ops y' ∧ R y y' := by
  obtain ⟨y', hlegal, hy⟩ := h.legal.simulates hR hx
  exact ⟨y', { h with legal := hlegal }, hy⟩

variable [DecidableEq κ] {tr : List (Moment κ ω ρ)} {phase : κ → Phase ω ρ}

/-- The moments of one call. -/
def ofCall (k : κ) (tr : List (Moment κ ω ρ)) : List (Moment κ ω ρ) := tr.filter (call · = k)

/-- Each call had the moments of its phase. -/
def Tells (tr : List (Moment κ ω ρ)) (phase : κ → Phase ω ρ) : Prop := ∀ k, ofCall k tr = moments k (phase k)

theorem mem_ofCall {e : Moment κ ω ρ} : e ∈ ofCall k tr ↔ e ∈ tr ∧ call e = k := by
  simp [ofCall]

namespace Tells

/-- A call that took effect was asked for it. -/
theorem invoked (h : Tells tr phase) (ht : .took k op r ∈ tr) : .invoked k op ∈ tr := by
  have hm : .took k op r ∈ moments k (phase k) := h k ▸ mem_ofCall.mpr ⟨ht, rfl⟩
  have hi : .invoked k op ∈ ofCall k tr := by
    rw [h k]
    cases hp : phase k <;> rw [hp] at hm <;> simp_all [moments]
  exact (mem_ofCall.mp hi).1

/-- A call that returned took effect. -/
theorem took (h : Tells tr phase) (hr : .returned k r ∈ tr) : ∃ op, .took k op r ∈ tr := by
  have hm : .returned k r ∈ moments k (phase k) := h k ▸ mem_ofCall.mpr ⟨hr, rfl⟩
  cases hp : phase k <;> rw [hp] at hm <;> simp only [moments, List.mem_cons, List.not_mem_nil, reduceCtorEq, or_false,
    false_or, Moment.returned.injEq, true_and] at hm
  next op r' =>
    have ht : .took k op r ∈ ofCall k tr := by
      rw [h k, hp, hm]
      simp [moments]
    exact ⟨op, (mem_ofCall.mp ht).1⟩

/-- At any earlier time each call had the moments of an earlier phase. -/
theorem before {before after : List (Moment κ ω ρ)} (h : Tells (before ++ after) phase) :
    ∃ phase', Tells before phase' := by
  have hk : ∀ k, ∃ p, ofCall k before = moments k p := by
    intro k
    have hle : ofCall k before <+: moments k (phase k) :=
      ⟨ofCall k after, by rw [← h k, ofCall, ofCall, ofCall, List.filter_append]⟩
    revert hle
    cases phase k <;> simp only [moments, List.prefix_cons_iff, List.prefix_nil]
    · exact fun h => ⟨.absent, h⟩
    · rintro (h | ⟨_, h, rfl⟩)
      · exact ⟨.absent, h⟩
      · exact ⟨.pending _, h⟩
    · rintro (h | ⟨_, h, rfl | ⟨_, rfl, rfl⟩⟩)
      · exact ⟨.absent, h⟩
      · exact ⟨.pending _, h⟩
      · exact ⟨.effected _ _, h⟩
    · rintro (h | ⟨_, h, rfl | ⟨_, rfl, rfl | ⟨_, rfl, rfl⟩⟩⟩)
      · exact ⟨.absent, h⟩
      · exact ⟨.pending _, h⟩
      · exact ⟨.effected _ _, h⟩
      · exact ⟨.over _ _, h⟩
  exact ⟨fun k => (hk k).choose, fun k => (hk k).choose_spec⟩

/-- Nothing happens to a call before it is invoked. -/
theorem fresh {before after : List (Moment κ ω ρ)} (h : Tells (before ++ after) phase) (hi : .invoked k op ∈ after) :
    ofCall k before = [] := by
  have heq : ofCall k before ++ ofCall k after = moments k (phase k) := by
    rw [← h k, ofCall, ofCall, ofCall, List.filter_append]
  have hmem : .invoked k op ∈ ofCall k after := mem_ofCall.mpr ⟨hi, rfl⟩
  rcases hb : ofCall k before with _ | ⟨e, rest⟩
  · rfl
  · -- Only the first moment of a call is of this kind.
    rw [hb, List.cons_append] at heq
    have htail : .invoked k op ∈ (moments k (phase k)).tail := by
      rw [← heq]
      exact List.mem_append_right rest hmem
    cases hp : phase k <;> rw [hp] at htail <;> simp [moments] at htail

theorem points_nodup (h : Tells tr phase) : ((points tr).map Prod.fst).Nodup := by
  induction tr using List.reverseRecOn generalizing phase with
  | nil => exact List.nodup_nil
  | append_singleton tr e ih =>
    obtain ⟨phase', h'⟩ := h.before
    have hnodup := ih h'
    cases e with
    | invoked k op => simpa using hnodup
    | returned k r => simpa using hnodup
    | took k op r =>
      -- The call has no other point: its moments end with this one.
      have hk : ofCall k tr ++ [.took k op r] = moments k (phase k) := by
        rw [← h k, ofCall, ofCall, List.filter_append]
        simp [call]
      have hnew : k ∉ (points tr).map Prod.fst := by
        rw [mem_map_points]
        rintro ⟨op', r', ht⟩
        have hm : .took k op' r' ∈ (moments k (phase k)).dropLast := by
          rw [← hk, List.dropLast_concat]
          exact mem_ofCall.mpr ⟨ht, rfl⟩
        have hlast : (moments k (phase k)).getLast? = some (.took k op r) := by rw [← hk, List.getLast?_concat]
        cases hp : phase k <;> rw [hp] at hm hlast <;> simp [moments] at hm hlast
      rw [points_append, points_took, List.map_append]
      refine List.nodup_append.mpr ⟨hnodup, List.nodup_singleton k, fun j hj i hi heq => ?_⟩
      obtain rfl : i = k := List.mem_singleton.mp hi
      exact hnew (heq ▸ hj)

/-- The points of a history are an order of its calls, if they are legal one after the other. -/
theorem linearizes (h : Tells tr phase) (hlegal : Legal obj x (points tr) y) : Linearizes obj x tr (points tr) y where
  legal := hlegal
  once := h.points_nodup
  asked _ _ _ hmem := h.invoked (mem_points.mp hmem)
  answered k r hr := by
    obtain ⟨op, ht⟩ := h.took hr
    exact ⟨op, mem_points.mpr ht⟩
  in_time before after heq := by
    subst heq
    obtain ⟨phase', h'⟩ := h.before
    refine ⟨points before, points after, points_append before after, fun k r hr => ?_, fun k op hi hmem => ?_⟩
    · obtain ⟨op, ht⟩ := h'.took hr
      exact mem_map_points.mpr ⟨op, r, ht⟩
    · obtain ⟨op', r', ht⟩ := mem_map_points.mp hmem
      have hnone : .took k op' r' ∈ ofCall k before := mem_ofCall.mpr ⟨ht, rfl⟩
      rw [h.fresh hi] at hnone
      cases hnone

end Tells

/-! ### The rule -/

/-- What may happen at once to calls that stand at `phase` and to the object in state `x`. -/
inductive Advances (obj : Atomic τ ω ρ) (x : τ) (phase : κ → Phase ω ρ) :
    List (Moment κ ω ρ) → (κ → Phase ω ρ) → τ → Prop
  | stays : Advances obj x phase [] phase x
  | invoked {k : κ} {op : ω} : phase k = .absent →
      Advances obj x phase [.invoked k op] (Function.update phase k (.pending op)) x
  | took {k : κ} {op : ω} {r : ρ} {y : τ} : phase k = .pending op → obj x op r y →
      Advances obj x phase [.took k op r] (Function.update phase k (.effected op r)) y
  | returned {k : κ} {op : ω} {r : ρ} : phase k = .effected op r →
      Advances obj x phase [.returned k r] (Function.update phase k (.over op r)) x

theorem Tells.snoc {e : Moment κ ω ρ} {p : Phase ω ρ} (h : Tells tr phase)
    (hp : moments (call e) (phase (call e)) ++ [e] = moments (call e) p) :
    Tells (tr ++ [e]) (Function.update phase (call e) p) := by
  intro k
  rw [ofCall, List.filter_append, ← ofCall, h k]
  by_cases hk : call e = k
  · subst hk
    rw [Function.update_self, ← hp]
    simp
  · rw [Function.update_of_ne (Ne.symm hk)]
    simp [hk]

theorem Advances.tells {es : List (Moment κ ω ρ)} {phase' : κ → Phase ω ρ} (h : Advances obj x phase es phase' y)
    (ht : Tells tr phase) : Tells (tr ++ es) phase' := by
  cases h with
  | stays => simpa using ht
  | invoked hk => exact ht.snoc (by simp [call, hk, moments])
  | took hk => exact ht.snoc (by simp [call, hk, moments])
  | returned hk => exact ht.snoc (by simp [call, hk, moments])

theorem Advances.legal {es : List (Moment κ ω ρ)} {phase' : κ → Phase ω ρ} (h : Advances obj y phase es phase' z)
    (hl : Legal obj x ops y) : Legal obj x (ops ++ points es) z := by
  cases h with
  | took _ hobj => exact hl.snoc hobj
  | stays | invoked | returned =>
    rw [show points _ = [] from rfl, List.append_nil]
    exact hl

end Linearizable

open Linearizable in
/-- Every step of `S` is a moment of one call or none, and the effects are those of `obj`. -/
structure Linearizer {σ α κ ω ρ τ : Type} [DecidableEq κ] (S : Machine σ α (Moment κ ω ρ)) (ok : σ → α → Prop)
    (obj : Atomic τ ω ρ) (start : τ → Prop) (phase : σ → κ → Phase ω ρ) (R : σ → τ → Prop) : Prop where
  init : ∀ s, S.init s → (∀ k, phase s k = .absent) ∧ ∃ x, start x ∧ R s x
  step : ∀ s a t es x, R s x → ok s a → S.step s a = some (t, es) →
    ∃ y, Advances obj x (phase s) es (phase t) y ∧ R t y

open Linearizable in
/-- Every run of `S` is linearizable, in the order in which its calls take effect. -/
theorem Linearizer.run {σ α κ ω ρ τ : Type} [DecidableEq κ] {S : Machine σ α (Moment κ ω ρ)} {ok : σ → α → Prop}
    {obj : Atomic τ ω ρ} {start : τ → Prop} {phase : σ → κ → Phase ω ρ} {R : σ → τ → Prop}
    (h : Linearizer S ok obj start phase R) {tr : List (Moment κ ω ρ)} {s : σ} (hrun : S.Run ok tr s) :
    ∃ x y, start x ∧ Linearizes obj x tr (points tr) y ∧ R s y := by
  have hinv : Tells tr (phase s) ∧ ∃ x y, start x ∧ Legal obj x (points tr) y ∧ R s y := by
    refine hrun.invariant (I := fun tr s => Tells tr (phase s) ∧ ∃ x y, start x ∧ Legal obj x (points tr) y ∧ R s y) ?_ ?_
    · intro s hs
      obtain ⟨hphase, x, hx, hR⟩ := h.init s hs
      exact ⟨fun k => by rw [hphase k]; rfl, x, x, hx, .nil, hR⟩
    · rintro tr s a t es ⟨htells, x, y, hx, hlegal, hR⟩ hok hstep
      obtain ⟨z, hadv, hR'⟩ := h.step s a t es y hR hok hstep
      exact ⟨hadv.tells htells, x, z, hx, points_append tr es ▸ hadv.legal hlegal, hR'⟩
  obtain ⟨htells, x, y, hx, hlegal, hR⟩ := hinv
  exact ⟨x, y, hx, htells.linearizes hlegal, hR⟩

end AudioMeet.Lib
