import Mathlib.Logic.Basic
import Mathlib.Data.List.Basic

/-! Computations that record what they do and may stop without a result, and when one of them follows a computation
    that fails with an error. -/

namespace AudioMeet.Lib

/-- The record of a computation, and its result; nothing where it stopped. -/
structure Traced (ε α : Type) where
  trace : List ε
  result : Option α

namespace Traced
variable {ε α β γ δ σ : Type}

instance : Monad (Traced ε) where
  pure a := ⟨[], some a⟩
  bind x f :=
    match x.result with
    | some a => ⟨x.trace ++ (f a).trace, (f a).result⟩
    | none => ⟨x.trace, none⟩

/-- Records `e`, and goes on with `a`. -/
def record (e : ε) (a : α) : Traced ε α := ⟨[e], some a⟩

def stop : Traced ε α := ⟨[], none⟩

/-- How `x` ends when it follows `y`: with a result of the same meaning, or stopped where `y` fails with `err`. -/
inductive Ends (err : σ) (R : α → β → Prop) : Option α → Except σ β → Prop
  | result {a : α} {b : β} : R a b → Ends err R (some a) (.ok b)
  | stopped : Ends err R none (.error err)

theorem Ends.eq {err : σ} {r : Option α} {y : Except σ α} (h : Ends err (fun a b => a = b) r y) :
    y = r.elim (.error err) .ok := by
  cases h with
  | result heq => rw [heq]; rfl
  | stopped => rfl

/-- Whatever `x` records is good, and it ends as `y` does. -/
structure Follows (good : ε → Prop) (err : σ) (R : α → β → Prop) (x : Traced ε α) (y : Except σ β) : Prop where
  trace : ∀ e ∈ x.trace, good e
  ends : Ends err R x.result y

namespace Follows
variable {good : ε → Prop} {err : σ} {R : α → β → Prop} {R' : γ → δ → Prop} {x : Traced ε α} {y : Except σ β}
  {f : α → Traced ε γ} {g : β → Except σ δ}

theorem pure {a : α} {b : β} (h : R a b) : Follows good err R (Pure.pure a) (.ok b) := ⟨nofun, .result h⟩

theorem stop : Follows good err R Traced.stop (.error err) := ⟨nofun, .stopped⟩

theorem bind (h : Follows good err R x y) (hf : ∀ a b, R a b → Follows good err R' (f a) (g b)) :
    Follows good err R' (x >>= f) (y >>= g) := by
  obtain ⟨trace, result⟩ := x
  obtain ⟨htrace, hends⟩ := h
  cases hends with
  | stopped => exact ⟨htrace, .stopped⟩
  | @result a b hab =>
    obtain ⟨htrace', hends'⟩ := hf a b hab
    exact ⟨fun e he => (List.mem_append.mp he).elim (htrace e) (htrace' e), hends'⟩

/-- A step that only the computation on the left takes. -/
theorem step {e : ε} {a : α} {y : Except σ δ} (he : good e) (h : Follows good err R' (f a) y) :
    Follows good err R' (record e a >>= f) y :=
  ⟨fun e' he' => (List.mem_cons.mp he').elim (fun heq => heq ▸ he) (h.trace e'), h.ends⟩

/-- The last step. -/
theorem last {e : ε} {a : α} {b : β} (he : good e) (h : R a b) : Follows good err R (record e a) (.ok b) :=
  ⟨fun _ he' => List.mem_singleton.mp he' ▸ he, .result h⟩

theorem ite {c c' : Prop} [Decidable c] [Decidable c'] {x x' : Traced ε α} {y y' : Except σ β} (hc : c ↔ c')
    (h : c → c' → Follows good err R x y) (h' : ¬ c → ¬ c' → Follows good err R x' y') :
    Follows good err R (if c then x else x') (if c' then y else y') := by
  by_cases hp : c
  · rw [if_pos hp, if_pos (hc.mp hp)]
    exact h hp (hc.mp hp)
  · rw [if_neg hp, if_neg (mt hc.mpr hp)]
    exact h' hp (mt hc.mpr hp)

end Follows
end Traced
end AudioMeet.Lib
