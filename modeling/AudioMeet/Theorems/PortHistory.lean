import AudioMeet.Lib.Cyclic
import AudioMeet.Lib.Lists
import AudioMeet.Lib.Machine
import AudioMeet.Theorems.PortAllocator

/-! The port pool over any history of calls: what is handed out and not yet released is not handed out
    again, and the cursor goes around the pool, so that no free port is passed over for a whole round. -/

namespace AudioMeet.PortAllocator
open Lib Machine

/-- A call of the pool. `allocate` probes no port twice, so that the answers of `is_port_available` in a
    call are a function of the port. -/
inductive PoolCall
  | allocate (is_port_available : UInt16 → Bool)
  | release (port : UInt16)

/-- A call that returned, with what it returned. -/
inductive PoolEvent
  | allocated (is_port_available : UInt16 → Bool) (result : Option Nat)
  | released (port : UInt16)

/-- The pool of `--port-range-start` and `--port-range-size` under calls in any order; each holds `mutex_`. -/
def pool (base count : UInt16) : Machine PortAllocator PoolCall PoolEvent where
  init a := a = new base count
  step
    | a, .allocate avail => some ((a.allocate avail).1, [.allocated avail (a.allocate avail).2])
    | a, .release port => some (a.release port, [.released port])

/-- `v` was returned by a call of `allocate` in the history. -/
def HandedOut (tr : List PoolEvent) (v : Nat) : Prop := ∃ avail, .allocated avail (some v) ∈ tr

/-- `v` was returned by `allocate`, and has not been released since. -/
def Outstanding (tr : List PoolEvent) (v : Nat) : Prop :=
  ∃ before avail after, tr = before ++ .allocated avail (some v) :: after ∧
    ∀ port, PoolEvent.released port ∈ after → port.toNat ≠ v

/-- The first index, in cyclic order from `next_`, that is unused and whose port is available. -/
structure FirstFree (a : PortAllocator) (avail : UInt16 → Bool) (i : Nat) : Prop where
  lt : i < a.count_
  unused : a.used_[i]? = some false
  available : avail (UInt16.ofNat (a.base_ + i)) = true
  first : ∀ k, k < a.count_ → a.used_[k]? = some false → avail (UInt16.ofNat (a.base_ + k)) = true →
    Cyclic.offset a.count_ a.next_ i ≤ Cyclic.offset a.count_ a.next_ k

/-- After the events `before`, every call of `allocate` in `es` finds `v` unused and available, until one
    has handed it out. -/
def StaysFree (before es : List PoolEvent) (v : Nat) : Prop :=
  ∀ l avail result l', es = l ++ .allocated avail result :: l' → ¬ HandedOut l v →
    ¬ Outstanding (before ++ l) v ∧ avail (UInt16.ofNat v) = true

/-- Between two allocations of one index, every other index that stays free is handed out. -/
def RoundRobin (base count : UInt16) (tr : List PoolEvent) : Prop :=
  ∀ before mid after avail avail' i k,
    tr = before ++ .allocated avail (some (base.toNat + i)) ::
      (mid ++ .allocated avail' (some (base.toNat + i)) :: after) →
    k < count.toNat → k ≠ i →
    StaysFree (before ++ [.allocated avail (some (base.toNat + i))])
      (mid ++ [.allocated avail' (some (base.toNat + i))]) (base.toNat + k) →
    HandedOut mid (base.toNat + k)

/-! ### Histories -/

theorem outstanding_snoc {tr : List PoolEvent} {e : PoolEvent} {v : Nat} : Outstanding (tr ++ [e]) v ↔
    (∃ avail, e = .allocated avail (some v)) ∨ (Outstanding tr v ∧ ∀ port, e = .released port → port.toNat ≠ v) := by
  constructor
  · rintro ⟨before, avail, after, heq, hkept⟩
    rcases List.eq_nil_or_concat after with rfl | ⟨after, e', rfl⟩
    · obtain ⟨-, he⟩ := List.append_inj' heq rfl
      exact Or.inl ⟨avail, List.singleton_inj.mp he⟩
    · rw [List.concat_eq_append] at heq hkept
      rw [← List.cons_append, ← List.append_assoc] at heq
      obtain ⟨rfl, he⟩ := List.append_inj' heq rfl
      obtain rfl := List.singleton_inj.mp he
      refine Or.inr ⟨⟨before, avail, after, rfl, fun port hp => hkept port (by simp [hp])⟩, ?_⟩
      rintro port rfl
      exact hkept port (by simp)
  · rintro (⟨avail, rfl⟩ | ⟨⟨before, avail, after, rfl, hkept⟩, hlast⟩)
    · exact ⟨tr, avail, [], rfl, by simp⟩
    · refine ⟨before, avail, after ++ [e], by simp, fun port hp => ?_⟩
      rcases List.mem_append.mp hp with hp | hp
      · exact hkept port hp
      · exact hlast port (List.mem_singleton.mp hp).symm

theorem not_outstanding_nil (v : Nat) : ¬ Outstanding [] v := by
  rintro ⟨before, avail, after, heq, -⟩
  simp at heq

theorem handedOut_append {tr es : List PoolEvent} {v : Nat} : HandedOut (tr ++ es) v ↔ HandedOut tr v ∨ HandedOut es v := by
  simp only [HandedOut, List.mem_append, exists_or]

theorem StaysFree.left {before es es' : List PoolEvent} {v : Nat} (h : StaysFree before (es ++ es') v) : StaysFree before es v := by
  intro l avail result l' heq
  exact h l avail result (l' ++ es') (by simp [heq])

/-! ### One call -/

variable {a b : PortAllocator} {avail : UInt16 → Bool} {base count : UInt16} {tr : List PoolEvent}

theorem isFree_iff {i : Nat} : a.isFree avail i = true ↔
    a.used_[i]? = some false ∧ avail (UInt16.ofNat (a.base_ + i)) = true := by
  simp [isFree]

/-- `allocate` is the cyclic search from the cursor. -/
theorem allocate_eq_scan : a.allocate avail =
    match Cyclic.scan a.count_ a.next_ (a.isFree avail) with
    | some i => (a.take i, some (a.base_ + i))
    | none => (a, none) := by
  simp only [allocate, Cyclic.scan, probe]
  cases (List.range a.count_).find? fun j => a.isFree avail ((a.next_ + j) % a.count_) <;> rfl

theorem scan_of_some {v : Nat} (h : (a.allocate avail).2 = some v) :
    ∃ i, Cyclic.scan a.count_ a.next_ (a.isFree avail) = some i ∧ v = a.base_ + i ∧ (a.allocate avail).1 = a.take i := by
  rw [allocate_eq_scan] at h ⊢
  cases hscan : Cyclic.scan a.count_ a.next_ (a.isFree avail) with
  | none => rw [hscan] at h; cases h
  | some i =>
    rw [hscan] at h
    exact ⟨i, rfl, (Option.some.inj h).symm, rfl⟩

theorem scan_of_none (h : (a.allocate avail).2 = none) :
    Cyclic.scan a.count_ a.next_ (a.isFree avail) = none ∧ (a.allocate avail).1 = a := by
  rw [allocate_eq_scan] at h ⊢
  cases hscan : Cyclic.scan a.count_ a.next_ (a.isFree avail) with
  | none => exact ⟨rfl, rfl⟩
  | some i => rw [hscan] at h; cases h

/-- The places of an empty pool are none. -/
theorem scan_empty (h : a.count_ = 0) : Cyclic.scan a.count_ a.next_ (a.isFree avail) = none := by
  rw [h]
  rfl

theorem pos_of_scan {i : Nat} (h : Cyclic.scan a.count_ a.next_ (a.isFree avail) = some i) : a.next_ < a.count_ := by
  rcases Nat.eq_zero_or_pos a.count_ with h0 | hpos
  · rw [scan_empty h0] at h
    cases h
  · exact a.next_lt hpos

theorem firstFree_of_scan {i : Nat} (h : Cyclic.scan a.count_ a.next_ (a.isFree avail) = some i) : a.FirstFree avail i := by
  obtain ⟨hi, hfree, hfirst⟩ := (Cyclic.scan_eq_some (pos_of_scan h)).mp h
  obtain ⟨hunused, havail⟩ := isFree_iff.mp hfree
  exact ⟨hi, hunused, havail, fun k hk hunused' havail' => hfirst k hk (isFree_iff.mpr ⟨hunused', havail'⟩)⟩

theorem used_or_unused {i : Nat} (hi : i < a.count_) : a.used_[i]? = some true ∨ a.used_[i]? = some false := by
  have hlt : i < a.used_.length := a.length_used ▸ hi
  rw [List.getElem?_eq_getElem hlt]
  cases a.used_[i] <;> simp

/-- Nothing is returned exactly if every index is used or probed unavailable. -/
theorem allocate_eq_none_iff : (a.allocate avail).2 = none ↔
    ∀ i, i < a.count_ → a.used_[i]? = some true ∨ avail (UInt16.ofNat (a.base_ + i)) = false := by
  have hfree : ∀ i, i < a.count_ → (a.isFree avail i = false ↔
      a.used_[i]? = some true ∨ avail (UInt16.ofNat (a.base_ + i)) = false) := by
    intro i hi
    rcases used_or_unused hi with h | h <;> simp [isFree, h]
  rcases Nat.eq_zero_or_pos a.count_ with h0 | hpos
  · rw [allocate_eq_scan, scan_empty h0, h0]
    simp
  · rw [allocate_eq_scan]
    constructor
    · intro h i hi
      cases hscan : Cyclic.scan a.count_ a.next_ (a.isFree avail) with
      | none => exact (hfree i hi).mp ((Cyclic.scan_eq_none (a.next_lt hpos)).mp hscan i hi)
      | some i => rw [hscan] at h; cases h
    · intro h
      rw [(Cyclic.scan_eq_none (a.next_lt hpos)).mpr fun i hi => (hfree i hi).mpr (h i hi)]

/-! ### Histories of calls -/

/-- `used_` tells what is outstanding. -/
structure PoolInv (base count : UInt16) (tr : List PoolEvent) (a : PortAllocator) : Prop where
  base_ : a.base_ = base.toNat
  count_ : a.count_ = count.toNat
  used : ∀ i, i < count.toNat → (a.used_[i]? = some true ↔ Outstanding tr (base.toNat + i))

theorem PoolInv.take (h : PoolInv base count tr a) {i : Nat} (hi : i < count.toNat) :
    PoolInv base count (tr ++ [.allocated avail (some (base.toNat + i))]) (a.take i) := by
  refine ⟨h.base_, h.count_, fun k hk => ?_⟩
  have hlen : i < a.used_.length := by rw [a.length_used, h.count_]; exact hi
  rw [outstanding_snoc, ← h.used k hk]
  simp only [PortAllocator.take, List.getElem?_set]
  by_cases heq : i = k
  · subst heq
    rw [if_pos rfl, if_pos hlen]
    exact ⟨fun _ => Or.inl ⟨avail, rfl⟩, fun _ => rfl⟩
  · rw [if_neg heq]
    constructor
    · exact fun hused => Or.inr ⟨hused, by simp⟩
    · rintro (⟨avail', he⟩ | ⟨hused, -⟩)
      · injection he with _ hv
        have := Option.some.inj hv
        omega
      · exact hused

theorem PoolInv.refuse (h : PoolInv base count tr a) : PoolInv base count (tr ++ [.allocated avail none]) a := by
  refine ⟨h.base_, h.count_, fun k hk => ?_⟩
  rw [outstanding_snoc, ← h.used k hk]
  simp

theorem PoolInv.release (h : PoolInv base count tr a) (port : UInt16) :
    PoolInv base count (tr ++ [.released port]) (a.release port) := by
  have hlen := a.length_used
  have hb := h.base_
  have hc := h.count_
  have hout : ∀ k, Outstanding (tr ++ [.released port]) (base.toNat + k) ↔
      Outstanding tr (base.toNat + k) ∧ port.toNat ≠ base.toNat + k := by
    intro k
    rw [outstanding_snoc]
    simp
  unfold PortAllocator.release
  split
  · refine ⟨hb, hc, fun k hk => ?_⟩
    rw [hout, ← h.used k hk]
    exact ⟨fun hused => ⟨hused, by omega⟩, And.left⟩
  · refine ⟨hb, hc, fun k hk => ?_⟩
    rw [hout, ← h.used k hk]
    simp only [List.getElem?_set]
    by_cases heq : port.toNat - a.base_ = k
    · have hport : port.toNat = base.toNat + k := by omega
      rw [if_pos heq, if_pos (by omega)]
      simp [hport]
    · have hport : port.toNat ≠ base.toNat + k := by omega
      rw [if_neg heq]
      exact ⟨fun hused => ⟨hused, hport⟩, And.left⟩

theorem poolInv_of_run (h : (pool base count).Run Any tr a) : PoolInv base count tr a := by
  refine h.invariant (I := PoolInv base count) ?_ ?_
  · rintro a rfl
    refine ⟨rfl, rfl, fun i hi => ?_⟩
    simp [new, hi, not_outstanding_nil]
  · intro tr a call b es hinv _ hstep
    cases call with
    | allocate avail =>
      obtain ⟨rfl, rfl⟩ := Prod.mk.inj (Option.some.inj hstep)
      cases hr : (a.allocate avail).2 with
      | none =>
        rw [(scan_of_none hr).2]
        exact hinv.refuse
      | some v =>
        obtain ⟨i, hscan, rfl, hb⟩ := scan_of_some hr
        have hi := (firstFree_of_scan hscan).lt
        rw [hb, hinv.base_]
        exact hinv.take (hinv.count_ ▸ hi)
    | release port =>
      obtain ⟨rfl, rfl⟩ := Prod.mk.inj (Option.some.inj hstep)
      exact hinv.release port

theorem PoolInv.isFree (h : PoolInv base count tr a) {k : Nat} (hk : k < count.toNat)
    (hnot : ¬ Outstanding tr (base.toNat + k)) (havail : avail (UInt16.ofNat (base.toNat + k)) = true) :
    a.isFree avail k = true := by
  rw [isFree_iff, h.base_]
  refine ⟨(used_or_unused (h.count_ ▸ hk)).resolve_left ?_, havail⟩
  rwa [h.used k hk]

theorem pool_one : ∀ a call b es, (pool base count).step a call = some (b, es) → ∃ e, es = [e] := by
  intro a call b es hstep
  cases call <;> obtain ⟨-, rfl⟩ := Prod.mk.inj (Option.some.inj hstep) <;> exact ⟨_, rfl⟩

/-- A call of `allocate` found what its event shows. -/
theorem of_allocated {call : PoolCall} {r : Option Nat}
    (h : (pool base count).step a call = some (b, [.allocated avail r])) : a.allocate avail = (b, r) := by
  cases call with
  | allocate avail' =>
    obtain ⟨rfl, he⟩ := Prod.mk.inj (Option.some.inj h)
    injection List.singleton_inj.mp he with ha hr
    rw [← ha, ← hr]
  | release port =>
    obtain ⟨-, he⟩ := Prod.mk.inj (Option.some.inj h)
    injection List.singleton_inj.mp he

/-- After index `i` was handed out, the cursor does not go past an index that stays free, as long as that
    is not handed out. -/
theorem notPast_of_steps {before es : List PoolEvent} {i k : Nat} {c : PortAllocator}
    (hrun : (pool base count).Run Any before a) (hnext : a.next_ = (i + 1) % count.toNat) (hi : i < count.toNat)
    (hk : k < count.toNat) (h : (pool base count).Steps Any a es c) (hfree : StaysFree before es (base.toNat + k))
    (hnot : ¬ HandedOut es (base.toNat + k)) :
    Cyclic.NotPast count.toNat ((i + 1) % count.toNat) k c.next_ := by
  induction h with
  | refl =>
    rw [hnext]
    exact Cyclic.NotPast.start (Cyclic.succ_lt hi)
  | @tail es es₁ c d call hsteps _ hstep ih =>
    rw [handedOut_append, not_or] at hnot
    have hpast := ih hfree.left hnot.1
    have hinv := poolInv_of_run (hrun.steps hsteps)
    cases call with
    | release port =>
      obtain ⟨rfl, -⟩ := Prod.mk.inj (Option.some.inj hstep)
      unfold PortAllocator.release
      split <;> exact hpast
    | allocate avail =>
      obtain ⟨rfl, rfl⟩ := Prod.mk.inj (Option.some.inj hstep)
      cases hr : (c.allocate avail).2 with
      | none =>
        rw [(scan_of_none hr).2]
        exact hpast
      | some v =>
        obtain ⟨x, hscan, rfl, hd⟩ := scan_of_some hr
        obtain ⟨hnout, havail⟩ := hfree es avail _ [] rfl hnot.1
        have hkfree := hinv.isFree hk hnout havail
        have hne : x ≠ k := by
          rintro rfl
          exact hnot.2 ⟨avail, by rw [hr, hinv.base_]; exact List.mem_singleton_self _⟩
        rw [hinv.count_] at hscan
        have hafter := (hpast.scan (Cyclic.succ_lt hi) hk hkfree hscan hne).2
        rw [hd]
        show Cyclic.NotPast _ _ _ ((x + 1) % c.count_)
        rwa [hinv.count_]

theorem roundRobin_of_run (h : (pool base count).Run Any tr a) : RoundRobin base count tr := by
  intro before mid after avail avail' i k heq hk hne hfree
  by_contra hnot
  -- The run at the second allocation of `i`, and at the first.
  obtain ⟨d, hsecond, -⟩ := h.split pool_one (before ++ .allocated avail (some (base.toNat + i)) ::
    mid ++ [.allocated avail' (some (base.toNat + i))]) after (by simp [heq])
  obtain ⟨c, call', hc, -, hcd⟩ := hsecond.last pool_one
  obtain ⟨b, hb, hbc⟩ := hc.split pool_one (before ++ [.allocated avail (some (base.toNat + i))]) mid (by simp)
  obtain ⟨a₀, call, ha₀, -, hab⟩ := hb.last pool_one
  -- The cursor stands behind `i` after the first.
  have hinv₀ := poolInv_of_run ha₀
  have hfirst := of_allocated hab
  obtain ⟨x, hscan, hx, htake⟩ := scan_of_some (congrArg Prod.snd hfirst)
  obtain rfl : i = x := by have := hinv₀.base_; omega
  have hi : i < count.toNat := hinv₀.count_ ▸ (firstFree_of_scan hscan).lt
  have hnext : b.next_ = (i + 1) % count.toNat := by
    rw [← hinv₀.count_, show b = a₀.take i from (congrArg Prod.fst hfirst).symm.trans htake]
    rfl
  have hpast := notPast_of_steps hb hnext hi hk hbc hfree.left hnot
  -- The second passes over `k`, which is free.
  have hinv := poolInv_of_run hc
  obtain ⟨hnout, havail⟩ := hfree mid avail' _ [] rfl hnot
  have hkfree := hinv.isFree hk (by simpa using hnout) havail
  obtain ⟨y, hscan', hy, -⟩ := scan_of_some (congrArg Prod.snd (of_allocated hcd))
  obtain rfl : i = y := by have := hinv.base_; omega
  rw [hinv.count_] at hscan'
  have hbefore := (hpast.scan (Cyclic.succ_lt hi) hk hkfree hscan' (Ne.symm hne)).1
  rw [Cyclic.offset_last hi] at hbefore
  have hlast := Cyclic.offset_lt_last hi hk hne
  omega

/-- What a call of `allocate` does after the history `tr`. -/
structure AllocateLaw (tr : List PoolEvent) (a : PortAllocator) (avail : UInt16 → Bool) : Prop where
  none_iff : (a.allocate avail).2 = none ↔
    ∀ i, i < a.count_ → a.used_[i]? = some true ∨ avail (UInt16.ofNat (a.base_ + i)) = false
  unchanged : (a.allocate avail).2 = none → (a.allocate avail).1 = a
  found : ∀ v, (a.allocate avail).2 = some v → ¬ Outstanding tr v ∧ ∃ i, a.FirstFree avail i ∧ v = a.base_ + i ∧
    (a.allocate avail).1.base_ = a.base_ ∧ (a.allocate avail).1.count_ = a.count_ ∧
    (a.allocate avail).1.used_ = a.used_.set i true ∧ (a.allocate avail).1.next_ = (i + 1) % a.count_

/-- What holds of the pool after the history `tr`. -/
structure PoolLaw (base count : UInt16) (tr : List PoolEvent) (a : PortAllocator) : Prop where
  range : a.base_ = base.toNat ∧ a.count_ = count.toNat
  cursor : 0 < a.count_ → a.next_ < a.count_
  used : ∀ i, i < count.toNat → (a.used_[i]? = some true ↔ Outstanding tr (base.toNat + i))
  allocate : ∀ avail, AllocateLaw tr a avail
  fair : RoundRobin base count tr

theorem PoolInv.allocateLaw (h : PoolInv base count tr a) (avail : UInt16 → Bool) : AllocateLaw tr a avail := by
  refine ⟨allocate_eq_none_iff, fun hr => (scan_of_none hr).2, fun v hr => ?_⟩
  obtain ⟨i, hscan, rfl, hb⟩ := scan_of_some hr
  have hfirst := firstFree_of_scan hscan
  refine ⟨?_, i, hfirst, rfl, ?_⟩
  · rw [h.base_, ← h.used i (h.count_ ▸ hfirst.lt), hfirst.unused]
    simp
  · rw [hb]
    exact ⟨rfl, rfl, rfl, rfl⟩

/-- Every history of calls of the port pool. -/
theorem pool_law (h : (pool base count).Run Any tr a) : PoolLaw base count tr a where
  range := ⟨(poolInv_of_run h).base_, (poolInv_of_run h).count_⟩
  cursor := a.next_lt
  used := (poolInv_of_run h).used
  allocate := (poolInv_of_run h).allocateLaw
  fair := roundRobin_of_run h

/-- What the calls of `allocate` returned. -/
def results (tr : List PoolEvent) : List (Option Nat) :=
  tr.filterMap fun
    | .allocated _ result => some result
    | .released _ => none

/-- A pool of two ports: the first is released and handed out again, and then there is none. -/
theorem pool_law_reuse : ∃ tr a, (pool 10000 2).Run Any tr a ∧
    results tr = [some 10000, some 10001, some 10000, none] ∧ PoolLaw 10000 2 tr a := by
  obtain ⟨tr, a, hrun, hp⟩ := exists_run (pool 10000 2) (new 10000 2)
    [.allocate fun _ => true, .allocate (· != 10000), .release 10000, .allocate fun _ => true, .allocate fun _ => true]
    rfl (meets_any _ _ _) (fun r => results r.2 == [some 10000, some 10001, some 10000, none]) (by decide +kernel)
  exact ⟨tr, a, hrun, beq_iff_eq.mp hp, pool_law hrun⟩

end AudioMeet.PortAllocator
