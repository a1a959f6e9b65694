import AudioMeet.Lib.Fair
import AudioMeet.Theorems.Participant.Joins

/-! `stop` returns. Once `stop_flag_` is set, the thread that stops and the threads that it joins have a bounded number
    of statements left, each of which some step of theirs takes away. -/

namespace AudioMeet.Threads
open Lib Machine

/-! ### What is left to do -/

/-- The statements left of `stop`. -/
def MainPc.left : MainPc → Nat
  | .stopQueue => 17
  | .test m => 16 - 4 * m.index
  | .shutdown m => 15 - 4 * m.index
  | .close m _ => 14 - 4 * m.index
  | .reset m _ => 13 - 4 * m.index
  | .joinAccept => 3
  | .joinRx => 2
  | .joinTx => 1
  | _ => 0

def AcceptPc.left : AcceptPc → Nat
  | .none | .done => 0
  | .spawnTx _ => 1
  | .spawnRx _ => 2
  | .assign _ => 3
  | .accepting _ => 4
  | .accept => 5

/-- A length may be read of a packet of 65535 bytes. -/
def Reading.left : Reading → Nat
  | .length got => 2 - got.length + 65536
  | .packet len got => len - got.length

/-- Each call of `recv` gives a byte at least, and the loop ends with the packet that it is in. -/
def RxPc.left : RxPc → Nat
  | .none | .done => 0
  | .check _ => 1
  | .recving _ r _ => 2 * r.left + 2
  | .recv _ r => 2 * r.left + 3

def TxPc.left : TxPc → Nat
  | .none | .done => 0
  | .cleanup => 1
  | .check _ | .dequeue _ => 2
  | .waiting _ => 3
  | .sending _ left next _ => 2 * left + 2 * next.getD 0 + 3
  | .send _ left next => 2 * left + 2 * next.getD 0 + 4

/-- A step of the accept thread may start the rx thread. -/
def Part.left (p : Part) : Nat := p.main.left + 2 * p.accept.left + p.rx.left + p.tx.left

/-! ### Every step takes one away -/

section Steps
variable {t u : Table} {i : Nat} {p q : Part} {ans : Answer} {es : List Event}

theorem left_notify (p : Part) : p.notify.tx.left ≤ p.tx.left := by
  rcases notify_eq p with hn | ⟨h, htx, hn⟩ <;> rw [hn]
  rw [htx]
  exact Nat.le_succ 2

theorem left_afterMember (m : Member) :
    (Part.afterMember m).left < 13 - 4 * m.index ∧ (Part.afterMember m).stopping = true := by
  cases m <;> decide

/-- Each statement of `stop` brings it nearer to its end. -/
theorem mainStep_left (hstop : p.main.stopping = true) (hs : p.mainStep t i ans = some (u, q, es)) :
    q.left < p.left ∧ (q.main.stopping = true ∨ q.main = .idle) ∧ q.stop_flag_ = p.stop_flag_ := by
  unfold Part.mainStep at hs
  cases hpc : p.main with
  | stopQueue =>
    simp only [hpc, Option.some.injEq, Prod.mk.injEq] at hs
    obtain ⟨-, rfl, -⟩ := hs
    have htx := left_notify p
    have hsame : p.notify.accept = p.accept ∧ p.notify.rx = p.rx ∧ p.notify.stop_flag_ = p.stop_flag_ := by
      rcases notify_eq p with hn | ⟨h, -, hn⟩ <;> rw [hn] <;> exact ⟨rfl, rfl, rfl⟩
    refine ⟨?_, Or.inl rfl, hsame.2.2⟩
    simp only [Part.left, hpc, hsame.1, hsame.2.1, MainPc.left, Member.index]
    omega
  | test m =>
    simp only [hpc, Option.some.injEq, Prod.mk.injEq] at hs
    obtain ⟨-, rfl, -⟩ := hs
    obtain ⟨hlt, hafter⟩ := left_afterMember m
    dsimp only [Part.left]
    rw [hpc]
    split
    · refine ⟨?_, Or.inl rfl, rfl⟩
      cases m <;> simp only [MainPc.left, Member.index] <;> omega
    · refine ⟨?_, Or.inl hafter, rfl⟩
      cases m <;> simp only [MainPc.left, Member.index] at hlt ⊢ <;> omega
  | shutdown m =>
    simp only [hpc, Option.some.injEq, Prod.mk.injEq] at hs
    obtain ⟨-, rfl, -⟩ := hs
    refine ⟨?_, Or.inl rfl, rfl⟩
    cases m <;> simp only [Part.left, hpc, MainPc.left, Member.index] <;> omega
  | close m stopping =>
    cases stopping with
    | false => simp [hpc, MainPc.stopping] at hstop
    | true =>
      simp only [hpc, Option.some.injEq, Prod.mk.injEq] at hs
      obtain ⟨-, rfl, -⟩ := hs
      refine ⟨?_, Or.inl rfl, rfl⟩
      cases m <;> simp only [Part.left, hpc, MainPc.left, Member.index] <;> omega
  | reset m stopping =>
    cases stopping with
    | false => simp [hpc, MainPc.stopping] at hstop
    | true =>
      simp only [hpc, if_true, Option.some.injEq, Prod.mk.injEq] at hs
      obtain ⟨-, rfl, -⟩ := hs
      obtain ⟨-, hacc, hrx, htx, hflag, -⟩ := setMember_same p none m
      obtain ⟨hlt, hafter⟩ := left_afterMember m
      refine ⟨?_, Or.inl hafter, hflag⟩
      have hmain : p.main.left = 13 - 4 * m.index := by rw [hpc, MainPc.left]
      simp only [Part.left, hacc, hrx, htx, hmain]
      omega
  | joinAccept | joinRx | joinTx =>
    simp only [hpc] at hs
    split at hs
    · simp only [Option.some.injEq, Prod.mk.injEq] at hs
      obtain ⟨-, rfl, -⟩ := hs
      refine ⟨?_, by simp [MainPc.stopping], rfl⟩
      simp only [Part.left, hpc, MainPc.left]
      omega
    · cases hs
  | _ => simp [hpc, MainPc.stopping] at hstop

theorem acceptStep_left (hflag : p.stop_flag_ = true) (hs : p.acceptStep t i ans = some (u, q, es)) :
    q.left < p.left ∧ q.main = p.main ∧ q.stop_flag_ = true := by
  unfold Part.acceptStep at hs
  cases hpc : p.accept with
  | none | done => simp [hpc] at hs
  | accept =>
    simp only [hpc, Option.some.injEq, Prod.mk.injEq] at hs
    obtain ⟨-, rfl, -⟩ := hs
    refine ⟨?_, rfl, hflag⟩
    simp only [Part.left, hpc, AcceptPc.left]
    omega
  | accepting on =>
    simp only [hpc] at hs
    split at hs
    · simp only [Option.some.injEq, Prod.mk.injEq] at hs
      obtain ⟨-, rfl, -⟩ := hs
      refine ⟨?_, rfl, hflag⟩
      simp only [Part.left, hpc, AcceptPc.left]
      omega
    · split at hs
      · simp only [Option.bind_eq_bind, Option.bind_eq_some_iff, Prod.exists, Option.some.injEq, Prod.mk.injEq] at hs
        obtain ⟨_, _, -, -, rfl, -⟩ := hs
        refine ⟨?_, rfl, hflag⟩
        simp only [Part.left, hpc, AcceptPc.left]
        omega
      · cases hs
  | assign h =>
    simp only [hpc, Option.some.injEq, Prod.mk.injEq] at hs
    obtain ⟨-, rfl, -⟩ := hs
    obtain ⟨-, hacc, hrx, htx, hflag', hmain⟩ :=
      setMember_same p (some h.fd) (if p.mode = .startSplit then .rx_fd_ else .client_fd_)
    refine ⟨?_, hmain, hflag'.trans hflag⟩
    simp only [Part.left, hpc, hmain, hrx, htx, AcceptPc.left]
    omega
  | spawnRx h =>
    simp only [hpc, Option.some.injEq, Prod.mk.injEq] at hs
    obtain ⟨-, rfl, -⟩ := hs
    refine ⟨?_, rfl, hflag⟩
    simp only [Part.left, hpc, RxPc.left]
    split <;> simp only [AcceptPc.left] <;> omega
  | spawnTx h =>
    simp only [hpc, Option.some.injEq, Prod.mk.injEq, Part.start_tx_thread, hflag, if_true] at hs
    obtain ⟨-, rfl, -⟩ := hs
    refine ⟨?_, rfl, rfl⟩
    simp only [Part.left, hpc, AcceptPc.left]
    omega

/-- A call of `recv` that gives bytes leaves fewer to read, and the last one ends the loop. -/
theorem left_after {h : Held} {r : Reading} {bytes : Bytes} (hne : bytes ≠ []) (hle : bytes.length ≤ r.wanted) :
    (r.after h bytes).left < 2 * r.left + 2 := by
  have hpos := List.length_pos_iff.mpr hne
  cases r with
  | length got =>
    simp only [Reading.wanted] at hle
    simp only [Reading.after, Reading.left]
    have hlen : (got ++ bytes).length = got.length + bytes.length := List.length_append
    split
    · split
      · simp only [RxPc.left]
        omega
      · rename_i b₀ b₁ _ _ _
        have hbound := (ofBe16 b₀ b₁).toNat_lt
        simp only [RxPc.left, Reading.left, List.length_nil]
        omega
    · simp only [RxPc.left, Reading.left]
      omega
  | packet len got =>
    simp only [Reading.wanted] at hle
    simp only [Reading.after, Reading.left]
    have hlen : (got ++ bytes).length = got.length + bytes.length := List.length_append
    split
    · simp only [RxPc.left, Reading.left]
      omega
    · simp only [RxPc.left]
      omega

theorem rxStep_left (hflag : p.stop_flag_ = true) (hs : p.rxStep t i ans = some (u, q, es)) :
    q.left < p.left ∧ q.main = p.main ∧ q.stop_flag_ = true := by
  unfold Part.rxStep at hs
  cases hpc : p.rx with
  | none | done => simp [hpc] at hs
  | check h =>
    simp only [hpc, hflag, if_true, Option.some.injEq, Prod.mk.injEq] at hs
    obtain ⟨-, rfl, -⟩ := hs
    refine ⟨?_, rfl, rfl⟩
    simp only [Part.left, hpc, RxPc.left]
    omega
  | recv h r =>
    simp only [hpc, Option.some.injEq, Prod.mk.injEq] at hs
    obtain ⟨-, rfl, -⟩ := hs
    refine ⟨?_, rfl, hflag⟩
    simp only [Part.left, hpc, RxPc.left]
    omega
  | recving h r on =>
    simp only [hpc] at hs
    split at hs
    · rename_i hbytes
      simp only [Option.some.injEq, Prod.mk.injEq] at hs
      obtain ⟨-, rfl, -⟩ := hs
      refine ⟨?_, rfl, hflag⟩
      simp only [Part.left, hpc]
      split
      · simp only [RxPc.left]
        omega
      · rename_i hne
        have hlt : (r.after h ans.bytes).left < (RxPc.recving h r on).left := left_after hne hbytes.1
        omega
    · cases hs

theorem left_afterSend {h : Held} {left sent : Nat} {next : Option Nat} (hpos : 0 < sent) (hle : sent ≤ left) :
    (afterSend h (left - sent) next).left < 2 * left + 2 * next.getD 0 + 3 := by
  unfold afterSend
  split
  · simp only [TxPc.left]
    omega
  · cases next with
    | none =>
      simp only [TxPc.left]
      omega
    | some size =>
      dsimp only
      split
      · simp only [TxPc.left]
        omega
      · simp only [TxPc.left, Option.getD_some, Option.getD_none]
        omega

theorem txStep_left (hflag : p.stop_flag_ = true) (hs : p.txStep t i ans = some (u, q, es)) :
    q.left < p.left ∧ q.main = p.main ∧ q.stop_flag_ = true := by
  unfold Part.txStep at hs
  cases hpc : p.tx with
  | none | waiting _ | done => simp [hpc] at hs
  | check h =>
    simp only [hpc, hflag, if_true, Option.some.injEq, Prod.mk.injEq] at hs
    obtain ⟨-, rfl, -⟩ := hs
    refine ⟨?_, rfl, rfl⟩
    simp only [Part.left, hpc, TxPc.left]
    omega
  | dequeue h =>
    simp only [hpc, Part.dequeue, hflag, if_true, Option.some.injEq, Prod.mk.injEq] at hs
    obtain ⟨-, rfl, -⟩ := hs
    refine ⟨?_, rfl, rfl⟩
    simp only [Part.left, hpc, TxPc.left]
    omega
  | send h left next =>
    simp only [hpc, Option.some.injEq, Prod.mk.injEq] at hs
    obtain ⟨-, rfl, -⟩ := hs
    refine ⟨?_, rfl, hflag⟩
    simp only [Part.left, hpc, TxPc.left]
    omega
  | sending h left next on =>
    simp only [hpc] at hs
    split at hs
    · rename_i hsent
      simp only [Option.some.injEq, Prod.mk.injEq] at hs
      obtain ⟨-, rfl, -⟩ := hs
      refine ⟨?_, rfl, hflag⟩
      simp only [Part.left, hpc]
      split
      · simp only [TxPc.left]
        omega
      · rename_i hne
        have hlt : (afterSend h (left - ans.sent) next).left < (TxPc.sending h left next on).left :=
          left_afterSend (Nat.pos_of_ne_zero hne) hsent.1
        omega
    · cases hs
  | cleanup =>
    simp only [hpc, Option.some.injEq, Prod.mk.injEq] at hs
    obtain ⟨-, rfl, -⟩ := hs
    refine ⟨?_, rfl, hflag⟩
    simp only [Part.left, hpc, TxPc.left]
    omega

/-- A step of participant `i` while it is stopped takes away from what is left, unless it is nothing to its threads. -/
theorem takes_left {a : Act} (hflag : p.stop_flag_ = true) (hstop : p.main.stopping = true) (h : Takes t i p a u q es) :
    (q.main.stopping = true ∨ q.main = .idle) ∧ q.stop_flag_ = true ∧
      (q.left < p.left ∨ q.left = p.left ∧ ∃ pkt, a = .put i pkt ∨ a = .wake i) := by
  cases h with
  | main hs =>
    obtain ⟨hlt, hmain, hsame⟩ := mainStep_left hstop hs
    exact ⟨hmain, hsame.trans hflag, Or.inl hlt⟩
  | accept hs =>
    obtain ⟨hlt, hmain, hsame⟩ := acceptStep_left hflag hs
    exact ⟨Or.inl (hmain ▸ hstop), hsame, Or.inl hlt⟩
  | rx hs =>
    obtain ⟨hlt, hmain, hsame⟩ := rxStep_left hflag hs
    exact ⟨Or.inl (hmain ▸ hstop), hsame, Or.inl hlt⟩
  | tx hs =>
    obtain ⟨hlt, hmain, hsame⟩ := txStep_left hflag hs
    exact ⟨Or.inl (hmain ▸ hstop), hsame, Or.inl hlt⟩
  | put pkt =>
    have hput : p.put pkt = p := by simp [Part.put, hflag]
    rw [hput]
    exact ⟨Or.inl hstop, hflag, Or.inr ⟨rfl, pkt, Or.inl rfl⟩⟩
  | wake =>
    obtain ⟨hmain, hsame⟩ := notify_main p
    refine ⟨Or.inl (hmain ▸ hstop), hsame.trans hflag, ?_⟩
    rcases notify_eq p with hn | ⟨h, htx, hn⟩
    · exact Or.inr ⟨by rw [hn], [], Or.inr rfl⟩
    · refine Or.inl ?_
      rw [hn]
      simp only [Part.left, htx, TxPc.left]
      omega

end Steps

/-! ### Executions -/

section Executions
variable {w : World} {tr : List Event} {i n : Nat} {p : Part}

/-- `stop` runs on participant `i`. -/
def Stopping (w : World) (i : Nat) : Prop :=
  ∃ p, w.parts[i]? = some p ∧ p.main.stopping = true ∧ p.stop_flag_ = true

/-- A step of a running `stop` of participant `i`, or of another thread of it that no call holds up. -/
def ThreadsOf (i : Nat) (w : World) (a : Act) : Prop := ((∃ ans, a = .main i ans) ∧ Stopping w i) ∨ GoesOn w i a

/-- `stop` returned, and no thread of the participant is left. -/
def Returned (w : World) (i : Nat) : Prop := ∃ p, w.parts[i]? = some p ∧ p.main = .idle ∧ p.AllEnded

def leftAt (i : Nat) (w : World) : Nat := ((w.parts[i]?).map Part.left).getD 0

/-- While `stop` runs, it or a thread that it waits for can go on. -/
theorem stopping_enabled (h : World.machine.Run NoReuse tr w) (hp : w.parts[i]? = some p)
    (hstop : p.main.stopping = true) (hflag : p.stop_flag_ = true) : ∃ a, ThreadsOf i w a ∧ w.step a ≠ none := by
  have hmain : (p.mainStep w.table i {}).isSome → ∃ a, ThreadsOf i w a ∧ w.step a ≠ none := fun hsome => by
    obtain ⟨w', es, hs⟩ := goOn_some (f := fun t i p => p.mainStep t i {}) hp hsome
    refine ⟨.main i {}, Or.inl ⟨⟨_, rfl⟩, p, hp, hstop, hflag⟩, ?_⟩
    rw [show w.step (.main i {}) = some (w', es) from hs]
    exact Option.some_ne_none _
  have hgo : CanGo w i → ∃ a, ThreadsOf i w a ∧ w.step a ≠ none := fun ⟨a, w', es, ha, hs⟩ =>
    ⟨a, Or.inr ha, by rw [hs]; exact Option.some_ne_none _⟩
  have hns := neverStuck h
  cases hpc : p.main with
  | joinAccept =>
    rcases hns.joinAccept i p hp hpc with hend | hcan
    · exact hmain (by simpa [Part.mainStep, hpc, AcceptPc.Ended] using hend)
    · exact hgo hcan
  | joinRx =>
    rcases hns.joinRx i p hp hpc with hend | hcan
    · exact hmain (by simpa [Part.mainStep, hpc, RxPc.Ended] using hend)
    · exact hgo hcan
  | joinTx =>
    rcases hns.joinTx i p hp hpc with hend | hcan
    · exact hmain (by simpa [Part.mainStep, hpc, TxPc.Ended] using hend)
    · exact hgo hcan
  | stopQueue | test m | shutdown m | close m stopping | reset m stopping => exact hmain (by simp [Part.mainStep, hpc])
  | _ => simp [hpc, MainPc.stopping] at hstop

theorem stopping_ranked (i : Nat) : Execution.Ranked World.machine NoReuse (ThreadsOf i) (· < ·) (fun _ => leftAt i)
    (fun tr w => World.machine.Run NoReuse tr w ∧ (Stopping w i ∨ Returned w i)) (fun _ w => Returned w i) := by
  rintro tr w ⟨hrun, hcase⟩
  rcases hcase.symm with hret | ⟨p, hp, hstop, hflag⟩
  · exact Or.inl hret
  refine Or.inr ⟨stopping_enabled hrun hp hstop hflag, fun a w' es hok hs => ?_⟩
  have hrun' := hrun.step hok hs
  have hleft : leftAt i w = p.left := by rw [leftAt, hp]; rfl
  -- A step that leaves the participant alone is none of its threads'.
  have hother : w'.parts[i]? = some p → ¬ ThreadsOf i w a →
      (World.machine.Run NoReuse (tr ++ es) w' ∧ (Stopping w' i ∨ Returned w' i)) ∧
        (leftAt i w' < leftAt i w ∨ leftAt i w' = leftAt i w ∧ ¬ ThreadsOf i w a) := fun hp' hnot =>
    ⟨⟨hrun', Or.inl ⟨p, hp', hstop, hflag⟩⟩, Or.inr ⟨by rw [leftAt, leftAt, hp', hp], hnot⟩⟩
  rcases step_takes hs with ⟨mode, rfl, rfl, -⟩ | ⟨j, x, u, q, hx, htakes, rfl⟩
  · refine hother (getElem?_snoc_some.mpr (Or.inr hp)) ?_
    rintro (⟨⟨ans, ha⟩, -⟩ | ha)
    · cases ha
    · exact ha
  · by_cases hji : j = i
    · subst hji
      obtain rfl := Option.some.inj (hx.symm.trans hp)
      have hq : (w.parts.set j q)[j]? = some q := (getElem?_set_some hx).mpr (Or.inl ⟨rfl, rfl⟩)
      have hleft' : leftAt j { table := u, parts := w.parts.set j q } = q.left := by rw [leftAt, hq]; rfl
      obtain ⟨hmain, hflag', hlt⟩ := takes_left hflag hstop htakes
      refine ⟨⟨hrun', ?_⟩, ?_⟩
      · refine hmain.imp (fun hstop' => ⟨q, hq, hstop', hflag'⟩) fun hidle => ⟨q, hq, hidle, ?_⟩
        exact (neverStuck hrun').returned j q hq hidle hflag'
      · dsimp only
        rw [hleft, hleft']
        refine hlt.imp_right fun ⟨heq, pkt, ha⟩ => ⟨heq, ?_⟩
        rintro (⟨⟨ans, ha'⟩, -⟩ | ha') <;> rcases ha with rfl | rfl
        · cases ha'
        · cases ha'
        · exact ha'
        · exact ha'
    · refine hother ((getElem?_set_some hx).mpr (Or.inr ⟨Ne.symm hji, hp⟩)) ?_
      rintro (⟨⟨ans, rfl⟩, -⟩ | ha)
      · cases htakes
        exact hji rfl
      · cases htakes with
        | main _ => exact ha
        | accept _ => exact hji ha.1
        | rx _ => exact hji ha.1
        | tx _ => exact hji ha.1
        | put _ => exact ha
        | wake => exact ha

/-- A participant that is stopped while it waits for more to read, up to the end of its threads and of `stop`. -/
def stopsReading : List Act := waitsInJoin ++ [.rx 0 {}, .main 0 {}, .tx 0 {}, .tx 0 {}, .main 0 {}]

end Executions
end AudioMeet.Threads
