import AudioMeet.Lib.Machine
import AudioMeet.Lib.SharedMutex
import Mathlib.Logic.Relation

/-! Threads that block each other. The program of a thread is the tree of what it does that other threads can notice.
    A thread waits for a resource while another holds it; where every program takes its resources in the order of a
    rank, threads never wait for each other in a circle. -/

namespace AudioMeet.Lib

/-- Programs over a memory `σ`, resources `ρ`, kinds of thread `κ`, and answers `α` from outside. -/
inductive Prog (σ ρ κ α : Type)
  | done
  /-- goes on as a thread of kind `k` starts -/
  | goto (k : κ)
  | lock (mode : LockMode) (r : ρ) (next : Prog σ ρ κ α)
  /-- lets go of the resource that was locked last -/
  | unlock (next : Prog σ ρ κ α)
  /-- waits until nobody holds the resource -/
  | await (r : ρ) (next : Prog σ ρ κ α)
  /-- changes the memory, and goes on by what it was before -/
  | act (f : σ → σ) (next : σ → Prog σ ρ κ α)
  | ask (next : α → Prog σ ρ κ α)
  | spawn (k : κ) (next : Prog σ ρ κ α)

namespace Prog
variable {σ ρ κ α : Type}

/-- The scope of a lock, with the value that it leaves. -/
def guarded {β : Type} (mode : LockMode) (r : ρ) (body : (β → Prog σ ρ κ α) → Prog σ ρ κ α) (next : β → Prog σ ρ κ α) :
    Prog σ ρ κ α :=
  .lock mode r (body fun x => .unlock (next x))

/-- A loop over the elements of a list. -/
def each {β : Type} (xs : List β) (body : β → Prog σ ρ κ α → Prog σ ρ κ α) (next : Prog σ ρ κ α) : Prog σ ρ κ α :=
  xs.foldr body next

/-- The resource that the program stands before, and how it asks for it. -/
def wants : Prog σ ρ κ α → Option (ρ × LockMode)
  | .lock mode r _ => some (r, mode)
  | .await r _ => some (r, .exclusive)
  | _ => none

/-- `held` are all ranked below `n`. -/
def Below (rank : ρ → Nat) (held : List ρ) (n : Nat) : Prop := ∀ r ∈ held, rank r < n

/-- The program, which starts with `held`, asks only for resources that are ranked above all that it holds. -/
def Ordered (rank : ρ → Nat) (own : κ → List ρ) : List ρ → Prog σ ρ κ α → Prop
  | _, .done => True
  | held, .goto k => held = own k
  | held, .lock _ r next => Below rank held (rank r) ∧ Ordered rank own (r :: held) next
  | held, .unlock next => Ordered rank own held.tail next
  | held, .await r next => Below rank held (rank r) ∧ Ordered rank own held next
  | held, .act _ next => ∀ s, Ordered rank own held (next s)
  | held, .ask next => ∀ ans, Ordered rank own held (next ans)
  | held, .spawn _ next => Ordered rank own held next

section Rules
variable {rank : ρ → Nat} {own : κ → List ρ} {held : List ρ} {n : Nat} {r : ρ} {next : Prog σ ρ κ α}

theorem Below.mono {m : Nat} (h : Below rank held n) (hle : n ≤ m) : Below rank held m :=
  fun r hr => Nat.lt_of_lt_of_le (h r hr) hle

theorem Below.cons (h : Below rank held n) (hr : rank r < n) : Below rank (r :: held) n := by
  intro x hx
  rcases List.mem_cons.mp hx with rfl | hx
  · exact hr
  · exact h x hx

theorem below_nil : Below rank [] n := by simp [Below]

theorem ordered_spawn {k : κ} {next : Prog σ ρ κ α} :
    Ordered rank own held (spawn k next) ↔ Ordered rank own held next := Iff.rfl

theorem ordered_guarded {β : Type} {mode : LockMode} {body : (β → Prog σ ρ κ α) → Prog σ ρ κ α} {next : β → Prog σ ρ κ α}
    (hb : Below rank held (rank r))
    (hbody : ∀ next, (∀ x, Ordered rank own (r :: held) (next x)) → Ordered rank own (r :: held) (body next))
    (hnext : ∀ x, Ordered rank own held (next x)) : Ordered rank own held (guarded mode r body next) :=
  ⟨hb, hbody _ hnext⟩

theorem ordered_each {β : Type} {xs : List β} {body : β → Prog σ ρ κ α → Prog σ ρ κ α}
    (hbody : ∀ x next, Ordered rank own held next → Ordered rank own held (body x next))
    (hnext : Ordered rank own held next) : Ordered rank own held (each xs body next) := by
  induction xs with
  | nil => exact hnext
  | cons x xs ih => exact hbody x _ ih

end Rules
end Prog

/-! ### Threads at work -/

/-- The programs of all threads. A thread holds what is its `own` from its start to its end. -/
structure Programs (σ ρ κ α : Type) where
  memory : σ
  code : κ → Prog σ ρ κ α
  own : κ → List ρ
  /-- the threads that start at any time -/
  arrives : κ → Bool

structure Worker (σ ρ κ α : Type) where
  kind : κ
  /-- the resource that was locked last comes first -/
  held : List (ρ × LockMode)
  rest : Prog σ ρ κ α

/-- The worker keeps a resource from a thread that asks for it in this way. -/
def Worker.Blocks {σ ρ κ α : Type} (w : Worker σ ρ κ α) (x : ρ × LockMode) : Prop :=
  ∃ y ∈ w.held, y.1 = x.1 ∧ (y.2 = .exclusive ∨ x.2 = .exclusive)

structure Pool (σ ρ κ α : Type) where
  memory : σ
  workers : List (Worker σ ρ κ α) := []

inductive PoolAct (κ α : Type)
  | arrive (k : κ)
  | go (i : Nat) (ans : α)

namespace Pool
variable {σ ρ κ α : Type}

/-- Thread `i` waits for a resource that thread `j` holds. -/
def WaitsFor (s : Pool σ ρ κ α) (i j : Nat) : Prop :=
  ∃ w w' x, s.workers[i]? = some w ∧ s.workers[j]? = some w' ∧ w.rest.wants = some x ∧ w'.Blocks x

def hire (P : Programs σ ρ κ α) (k : κ) : Worker σ ρ κ α :=
  { kind := k, held := (P.own k).map (·, .exclusive), rest := P.code k }

def put (s : Pool σ ρ κ α) (i : Nat) (w : Worker σ ρ κ α) : Pool σ ρ κ α := { s with workers := s.workers.set i w }

section Steps
variable [DecidableEq ρ]

instance (w : Worker σ ρ κ α) (x : ρ × LockMode) : Decidable (w.Blocks x) :=
  inferInstanceAs (Decidable (∃ y ∈ w.held, y.1 = x.1 ∧ (y.2 = .exclusive ∨ x.2 = .exclusive)))

def waits (s : Pool σ ρ κ α) (i j : Nat) : Bool :=
  s.workers[i]?.any fun w => s.workers[j]?.any fun w' => w.rest.wants.any fun x => w'.Blocks x

theorem waits_iff {s : Pool σ ρ κ α} {i j : Nat} : s.waits i j = true ↔ s.WaitsFor i j := by
  simp only [waits, WaitsFor, Option.any_eq_true, decide_eq_true_eq]
  constructor
  · rintro ⟨w, hw, w', hw', x, hx, hblocks⟩
    exact ⟨w, w', x, hw, hw', hx, hblocks⟩
  · rintro ⟨w, w', x, hw, hw', hx, hblocks⟩
    exact ⟨w, hw, w', hw', x, hx, hblocks⟩

instance (s : Pool σ ρ κ α) (i j : Nat) : Decidable (s.WaitsFor i j) := decidable_of_iff _ waits_iff

def Free (s : Pool σ ρ κ α) (x : ρ × LockMode) : Prop := ∀ w ∈ s.workers, ¬ w.Blocks x

instance (s : Pool σ ρ κ α) (x : ρ × LockMode) : Decidable (s.Free x) :=
  inferInstanceAs (Decidable (∀ w ∈ s.workers, ¬ w.Blocks x))

/-- The next step of the worker at `i`; nothing when it has to wait. -/
def goOn (P : Programs σ ρ κ α) (s : Pool σ ρ κ α) (i : Nat) (w : Worker σ ρ κ α) (ans : α) :
    Prog σ ρ κ α → Option (Pool σ ρ κ α)
  | .done => some (s.put i { w with held := w.held.filter (·.1 ∉ P.own w.kind) })
  | .goto k => some (s.put i { w with kind := k, rest := P.code k })
  | .lock mode r next =>
    if s.Free (r, mode) then some (s.put i { w with held := (r, mode) :: w.held, rest := next }) else none
  | .unlock next => some (s.put i { w with held := w.held.tail, rest := next })
  | .await r next => if s.Free (r, .exclusive) then some (s.put i { w with rest := next }) else none
  | .act f next => some { s.put i { w with rest := next s.memory } with memory := f s.memory }
  | .ask next => some (s.put i { w with rest := next ans })
  | .spawn k next => some { s with workers := s.workers.set i { w with rest := next } ++ [hire P k] }

def step (P : Programs σ ρ κ α) (s : Pool σ ρ κ α) : PoolAct κ α → Option (Pool σ ρ κ α × List Empty)
  | .arrive k => if P.arrives k then some ({ s with workers := s.workers ++ [hire P k] }, []) else none
  | .go i ans => do
    let w ← s.workers[i]?
    return (← s.goOn P i w ans w.rest, [])

def machine (P : Programs σ ρ κ α) : Machine (Pool σ ρ κ α) (PoolAct κ α) Empty where
  init s := s = { memory := P.memory }
  step := step P

end Steps

/-! ### No circles -/

section Order
variable {P : Programs σ ρ κ α} {rank : ρ → Nat} {s t : Pool σ ρ κ α}

/-- Every worker goes on in the order of the rank. -/
def InOrder (P : Programs σ ρ κ α) (rank : ρ → Nat) (s : Pool σ ρ κ α) : Prop :=
  ∀ w ∈ s.workers, w.rest.Ordered rank P.own (w.held.map Prod.fst)

theorem InOrder.set (h : s.InOrder P rank) {i : Nat} {w : Worker σ ρ κ α}
    (hw : w.rest.Ordered rank P.own (w.held.map Prod.fst)) (ht : t.workers = s.workers.set i w) : t.InOrder P rank := by
  intro x hx
  rcases List.mem_or_eq_of_mem_set (ht ▸ hx) with hx | rfl
  · exact h x hx
  · exact hw

theorem ordered_hire (hcode : ∀ k, (P.code k).Ordered rank P.own (P.own k)) (k : κ) :
    (hire P k).rest.Ordered rank P.own ((hire P k).held.map Prod.fst) := by
  have hown : (hire P k).held.map Prod.fst = P.own k := (List.map_map ..).trans (List.map_id _)
  rw [hown]
  exact hcode k

theorem below_wants {own : κ → List ρ} {held : List ρ} {p : Prog σ ρ κ α} {x : ρ × LockMode}
    (h : p.Ordered rank own held) (hx : p.wants = some x) : Prog.Below rank held (rank x.1) := by
  cases p with
  | lock mode r next =>
    obtain rfl := Option.some.inj hx
    exact h.1
  | await r next =>
    obtain rfl := Option.some.inj hx
    exact h.1
  | _ => cases hx

/-- Along a chain of waiting threads the rank of what they wait for goes up. -/
theorem InOrder.rank_lt (h : s.InOrder P rank) {i j : Nat} (hchain : Relation.TransGen s.WaitsFor i j) {w' : Worker σ ρ κ α}
    {y : ρ × LockMode} (hw' : s.workers[j]? = some w') (hy : w'.rest.wants = some y) :
    ∃ w x, s.workers[i]? = some w ∧ w.rest.wants = some x ∧ rank x.1 < rank y.1 := by
  have hone : ∀ {i j : Nat} {w' : Worker σ ρ κ α} {y : ρ × LockMode}, s.WaitsFor i j → s.workers[j]? = some w' →
      w'.rest.wants = some y → ∃ w x, s.workers[i]? = some w ∧ w.rest.wants = some x ∧ rank x.1 < rank y.1 := by
    rintro i j w' y ⟨w, w₁, x, hw, hw₁, hx, z, hz, hzx, -⟩ hw' hy
    obtain rfl := Option.some.inj (hw₁.symm.trans hw')
    have hbelow := below_wants (h _ (List.mem_of_getElem? hw')) hy
    exact ⟨w, x, hw, hx, hzx ▸ hbelow z.1 (List.mem_map_of_mem hz)⟩
  induction hchain generalizing w' y with
  | single hwaits => exact hone hwaits hw' hy
  | tail _ hwaits ih =>
    obtain ⟨w, x, hw, hx, hlt⟩ := hone hwaits hw' hy
    obtain ⟨w₀, x₀, hw₀, hx₀, hlt₀⟩ := ih hw hx
    exact ⟨w₀, x₀, hw₀, hx₀, hlt₀.trans hlt⟩

/-- No threads wait for each other in a circle. -/
theorem InOrder.no_circle (h : s.InOrder P rank) (i : Nat) : ¬ Relation.TransGen s.WaitsFor i i := by
  intro hchain
  obtain ⟨w, y, hw, hy⟩ : ∃ w y, s.workers[i]? = some w ∧ w.rest.wants = some y := by
    obtain ⟨j, ⟨w, w', x, hw, -, hx, -⟩, -⟩ := Relation.TransGen.head'_iff.mp hchain
    exact ⟨w, x, hw, hx⟩
  obtain ⟨w', x, hw', hx, hlt⟩ := h.rank_lt hchain hw hy
  obtain rfl := Option.some.inj (hw.symm.trans hw')
  obtain rfl := Option.some.inj (hy.symm.trans hx)
  exact hlt.false

variable [DecidableEq ρ]

theorem InOrder.goes (hcode : ∀ k, (P.code k).Ordered rank P.own (P.own k)) (h : s.InOrder P rank) {i : Nat}
    {w : Worker σ ρ κ α} {ans : α} (hw : w.rest.Ordered rank P.own (w.held.map Prod.fst))
    (hgo : s.goOn P i w ans w.rest = some t) : t.InOrder P rank := by
  cases hrest : w.rest with
  | done =>
    rw [hrest] at hgo
    obtain rfl := Option.some.inj hgo
    exact h.set (by rw [hrest]; trivial) rfl
  | goto k =>
    rw [hrest] at hgo hw
    obtain rfl := Option.some.inj hgo
    refine h.set ?_ rfl
    show (P.code k).Ordered rank P.own (w.held.map Prod.fst)
    rw [show w.held.map Prod.fst = P.own k from hw]
    exact hcode k
  | lock mode r next =>
    rw [hrest] at hgo hw
    simp only [goOn, Option.ite_none_right_eq_some, Option.some.injEq] at hgo
    obtain ⟨-, rfl⟩ := hgo
    exact h.set (w := { w with held := (r, mode) :: w.held, rest := next }) hw.2 rfl
  | unlock next =>
    rw [hrest] at hgo hw
    obtain rfl := Option.some.inj hgo
    refine h.set ?_ rfl
    show next.Ordered rank P.own (w.held.tail.map Prod.fst)
    rw [List.map_tail]
    exact hw
  | await r next =>
    rw [hrest] at hgo hw
    simp only [goOn, Option.ite_none_right_eq_some, Option.some.injEq] at hgo
    obtain ⟨-, rfl⟩ := hgo
    exact h.set hw.2 rfl
  | act f next =>
    rw [hrest] at hgo hw
    obtain rfl := Option.some.inj hgo
    exact h.set (hw s.memory) rfl
  | ask next =>
    rw [hrest] at hgo hw
    obtain rfl := Option.some.inj hgo
    exact h.set (hw ans) rfl
  | spawn k next =>
    rw [hrest] at hgo hw
    obtain rfl := Option.some.inj hgo
    have hset : ({ s with workers := s.workers.set i { w with rest := next } } : Pool σ ρ κ α).InOrder P rank := h.set hw rfl
    intro x hx
    rcases List.mem_append.mp hx with hx | hx
    · exact hset x hx
    · rw [List.mem_singleton.mp hx]
      exact ordered_hire hcode k

theorem run_inOrder (hcode : ∀ k, (P.code k).Ordered rank P.own (P.own k)) {ok : Pool σ ρ κ α → PoolAct κ α → Prop}
    {tr : List Empty} (h : (machine P).Run ok tr s) : s.InOrder P rank := by
  refine h.invariant (I := fun _ s => s.InOrder P rank) (fun s hs => ?_) fun tr s a t es hinv _ hs => ?_
  · subst hs
    simp [InOrder]
  · cases a with
    | arrive k =>
      simp only [machine, step, Option.ite_none_right_eq_some, Option.some.injEq, Prod.mk.injEq] at hs
      obtain ⟨-, rfl, -⟩ := hs
      intro x hx
      rcases List.mem_append.mp hx with hx | hx
      · exact hinv x hx
      · rw [List.mem_singleton.mp hx]
        exact ordered_hire hcode k
    | go i ans =>
      simp only [machine, step, Option.bind_eq_bind, Option.pure_def, Option.bind_eq_some_iff, Option.some.injEq,
        Prod.mk.injEq] at hs
      obtain ⟨w, hw, u, hgo, rfl, -⟩ := hs
      exact hinv.goes hcode (hinv w (List.mem_of_getElem? hw)) hgo

end Order
end Pool
end AudioMeet.Lib
