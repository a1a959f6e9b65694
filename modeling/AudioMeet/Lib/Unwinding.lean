import AudioMeet.Lib.Machine

/-! Two runs of a machine that an observer cannot tell apart. The observer sees some of the actions and a part of
    the events. Two replays from states that look alike, with the same actions to see, stay alike and show the
    same, whatever the hidden actions are. -/

namespace AudioMeet.Lib.Machine
variable {σ α ε ε' : Type} {S : Machine σ α ε} {ok : σ → α → Prop} {s t u v : σ} {es es' : List ε} {as bs : List α}

theorem exec_cons {a : α} (h : S.exec s (a :: as) = some (u, es)) :
    ∃ t es₁ es₂, S.step s a = some (t, es₁) ∧ S.exec t as = some (u, es₂) ∧ es = es₁ ++ es₂ := by
  simp only [exec, Option.bind_eq_bind, Option.bind_eq_some_iff, Prod.exists, pure, Option.some.injEq,
    Prod.mk.injEq] at h
  obtain ⟨t, es₁, hstep, v, es₂, hrest, rfl, rfl⟩ := h
  exact ⟨t, es₁, es₂, hstep, hrest, rfl⟩

theorem exec_append (h : S.exec s (as ++ bs) = some (u, es)) :
    ∃ t es₁ es₂, S.exec s as = some (t, es₁) ∧ S.exec t bs = some (u, es₂) ∧ es = es₁ ++ es₂ := by
  induction as generalizing s es with
  | nil => exact ⟨s, [], es, rfl, h, rfl⟩
  | cons a as ih =>
    obtain ⟨r, es₁, es₂, hstep, hrest, rfl⟩ := exec_cons h
    obtain ⟨t, es₃, es₄, has, hbs, rfl⟩ := ih hrest
    refine ⟨t, es₁ ++ es₃, es₄, ?_, hbs, (List.append_assoc ..).symm⟩
    simp [exec, hstep, has]

theorem meets_append (hok : S.Meets ok s (as ++ bs)) (h : S.exec s as = some (t, es)) :
    S.Meets ok s as ∧ S.Meets ok t bs := by
  induction as generalizing s es with
  | nil =>
    cases h
    exact ⟨trivial, hok⟩
  | cons a as ih =>
    obtain ⟨r, es₁, es₂, hstep, hrest, rfl⟩ := exec_cons h
    refine ⟨⟨hok.1, fun r' es' hstep' => ?_⟩, (ih (hok.2 r es₁ hstep) hrest).2⟩
    cases hstep.symm.trans hstep'
    exact (ih (hok.2 r es₁ hstep) hrest).1

/-- What makes states look alike to an observer that sees the actions `low`, and `view` of the events. -/
structure Unwinding (S : Machine σ α ε) (ok : σ → α → Prop) (low : α → Bool) (view : ε → List ε') (R : σ → σ → Prop) :
    Prop where
  symm : ∀ s u, R s u → R u s
  hidden : ∀ s u a t es, R s u → ok s a → low a = false → S.step s a = some (t, es) → R t u ∧ es.flatMap view = []
  seen : ∀ s u a t es v es', R s u → ok s a → ok u a → low a = true → S.step s a = some (t, es) →
    S.step u a = some (v, es') → R t v ∧ es.flatMap view = es'.flatMap view

namespace Unwinding
variable {low : α → Bool} {view : ε → List ε'} {R : σ → σ → Prop}

/-- Hidden actions change nothing that the observer sees. -/
theorem exec_hidden (h : Unwinding S ok low view R) (has : ∀ a ∈ as, low a = false) (hR : R s u) (hok : S.Meets ok s as)
    (he : S.exec s as = some (t, es)) : R t u ∧ es.flatMap view = [] := by
  induction as generalizing s es with
  | nil =>
    cases he
    exact ⟨hR, rfl⟩
  | cons a as ih =>
    obtain ⟨r, es₁, es₂, hstep, hrest, rfl⟩ := exec_cons he
    obtain ⟨hR', hes⟩ := h.hidden s u a r es₁ hR hok.1 (has a List.mem_cons_self) hstep
    obtain ⟨hR'', hes'⟩ := ih (fun b hb => has b (List.mem_cons_of_mem _ hb)) hR' (hok.2 r es₁ hstep) hrest
    exact ⟨hR'', by rw [List.flatMap_append, hes, hes']; rfl⟩

/-- Two replays with the same actions to see look the same. -/
theorem exec (h : Unwinding S ok low view R) (hlow : as.filter low = bs.filter low) (hR : R s u)
    (hok : S.Meets ok s as) (hok' : S.Meets ok u bs) (he : S.exec s as = some (t, es))
    (he' : S.exec u bs = some (v, es')) : R t v ∧ es.flatMap view = es'.flatMap view := by
  induction as generalizing s u es es' bs with
  | nil =>
    have hbs : ∀ b ∈ bs, low b = false := by
      have := List.filter_eq_nil_iff.mp hlow.symm
      exact fun b hb => by simpa using this b hb
    cases he
    obtain ⟨hR', hes⟩ := h.exec_hidden hbs (h.symm _ _ hR) hok' he'
    exact ⟨h.symm _ _ hR', hes.symm⟩
  | cons a as ih =>
    obtain ⟨r, es₁, es₂, hstep, hrest, rfl⟩ := exec_cons he
    rcases hla : low a with _ | _
    · rw [List.filter_cons_of_neg (by simp [hla])] at hlow
      obtain ⟨hR', hes⟩ := h.hidden s u a r es₁ hR hok.1 hla hstep
      obtain ⟨hR'', hes'⟩ := ih hlow hR' (hok.2 r es₁ hstep) hok' hrest he'
      exact ⟨hR'', by rw [List.flatMap_append, hes, List.nil_append, hes']⟩
    · -- The other replay takes the same action behind some hidden ones.
      rw [List.filter_cons_of_pos hla] at hlow
      obtain ⟨pre, post, rfl, hpre, -, hpost⟩ := List.filter_eq_cons_iff.mp hlow.symm
      obtain ⟨u', es₃, es₄, hexec, hexec', rfl⟩ := exec_append he'
      obtain ⟨hmeets, hmeets'⟩ := meets_append hok' hexec
      obtain ⟨hR', hes⟩ := h.exec_hidden (fun b hb => by simpa using hpre b hb) (h.symm _ _ hR) hmeets hexec
      obtain ⟨r', es₅, es₆, hstep', hrest', rfl⟩ := exec_cons hexec'
      obtain ⟨hR'', hes'⟩ := h.seen s u' a r es₁ r' es₅ (h.symm _ _ hR') hok.1 hmeets'.1 hla hstep hstep'
      obtain ⟨hR₃, hes''⟩ := ih hpost.symm hR'' (hok.2 r es₁ hstep) (hmeets'.2 r' es₅ hstep') hrest hrest'
      exact ⟨hR₃, by simp only [List.flatMap_append, hes, hes', hes'', List.nil_append]⟩

end Unwinding
end AudioMeet.Lib.Machine
