import AudioMeet.Lib.Machine
import Mathlib.Logic.Function.Basic

/-! Systems with parts, each of which is a machine of its own. -/

namespace AudioMeet.Lib
namespace Machine
variable {σ α ε ι : Type} {S : Machine σ α ε} {part : ι → Option σ} {events : ι → List ε} {j : ι} {x y : σ} {es : List ε}

/-- What happened to each part is a run of it, and nothing happened to a part that there is not. -/
def Family (S : Machine σ α ε) (part : ι → Option σ) (events : ι → List ε) : Prop :=
  ∀ k, (part k).elim (events k = []) (S.Run Any (events k))

theorem Family.run (h : S.Family part events) {k : ι} (hx : part k = some x) : S.Run Any (events k) x := by
  have hk := h k
  rwa [hx] at hk

theorem Family.silent (h : S.Family part events) {k : ι} (hx : part k = none) : events k = [] := by
  have hk := h k
  rwa [hx] at hk

theorem family_none : S.Family (fun _ : ι => none) (fun _ => []) := fun _ => rfl

section Update
variable [DecidableEq ι]

/-- One part goes on. -/
theorem Family.step (h : S.Family part events) {a : α} (hx : part j = some x) (hs : S.step x a = some (y, es)) :
    S.Family (Function.update part j (some y)) (Function.update events j (events j ++ es)) := by
  intro k
  by_cases hkj : k = j
  · subst hkj
    rw [Function.update_self, Function.update_self]
    exact (h.run hx).step trivial hs
  · rw [Function.update_of_ne hkj, Function.update_of_ne hkj]
    exact h k

/-- A part comes in. -/
theorem Family.add (h : S.Family part events) (hx : part j = none) (hinit : S.init y) :
    S.Family (Function.update part j (some y)) events := by
  intro k
  by_cases hkj : k = j
  · subst hkj
    rw [Function.update_self, h.silent hx]
    exact .init hinit
  · rw [Function.update_of_ne hkj]
    exact h k

end Update
end Machine
end AudioMeet.Lib
