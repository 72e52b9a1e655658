import SpaceTerm.PaneRun.Settles

/-! # The bounds of the run table -/

namespace SpaceTerm.PaneRun.RunTable

inductive Step (t : RunTable) : RunTable → Prop
  | reserve {t'} (admission) (h : t.admitRun admission = .ok t') : Step t t'
  | answer (run start n) : Step t (t.admitted run start n)
  | refuse (run) : Step t (t.refused run)
  | observe (pane o) : Step t (t.observeMarker pane o)
  | endSession (pane) : Step t (t.sessionEnded pane)
  | takeOver (pane) : Step t (t.takenOver pane)
  | acknowledge (client run) : Step t (t.acknowledge client run)
  | forget (client) : Step t (t.forget client)

structure Bounds (t : RunTable) : Prop where
  total : t.receipts.length ≤ maxTotal
  panes (pane : Id) : t.receipts.countP (·.admission.pane == pane) ≤ maxPerPane
  pending (pane : Id) : t.receipts.countP (fun e => e.admission.pane == pane && e.pending) ≤ 1

variable {t t' : RunTable}

/-- A call that admits no run drops entries or changes them in place: an entry stays in its Pane, and settled. -/
theorem Bounds.of_le (h : t.Bounds) (hle : ∀ p : Entry → Bool, (∀ e' e : Entry, e'.admission.pane = e.admission.pane →
      (e'.pending = true → e.pending = true) → p e' = true → p e = true) →
    t'.receipts.countP p ≤ t.receipts.countP p) : t'.Bounds where
  total := by simpa using (hle (fun _ => true) (by simp)).trans (by simpa using h.total)
  panes pane := (hle _ fun _ _ hp _ => by simp [hp]).trans (h.panes pane)
  pending pane := (hle _ fun _ _ hp hk => by simpa [hp] using fun h hp => ⟨h, hk hp⟩).trans (h.pending pane)

theorem Bounds.changePending (h : t.Bounds) (pane : Id) {f : Entry → Entry} (hf : ∀ e, (f e).admission = e.admission) :
    Bounds ⟨changePending pane f t.receipts⟩ := by
  refine h.of_le fun p hp => ?_
  dsimp only
  generalize t.receipts = l
  fun_induction RunTable.changePending pane f l with
  | case1 => exact le_rfl
  | case2 e l he =>
    have := hp (f e) e (by rw [hf]) fun _ => he.2
    simp only [List.countP_cons]
    grind
  | case3 e l _ ih => simpa [List.countP_cons] using ih

theorem Bounds.reserve {admission : Admission} (h : t.Bounds) (ha : t.admitRun admission = .ok t') : t'.Bounds := by
  unfold admitRun check at ha
  split at ha
  · cases ha
  next hc =>
  split at hc
  · cases hc
  next hnone =>
  split at hc
  · cases hc
  next hroom =>
  split at ha
  · cases ha
  cases ha
  have hperm := List.perm_orderedInsert (fun a b : Entry => a.admission.run ≤ b.admission.run) { admission } t.receipts
  rw [← List.countP_eq_length_filter] at hroom
  refine ⟨?_, fun pane => ?_, fun pane => ?_⟩
  · rw [hperm.length_eq, List.length_cons]
    omega
  · rw [hperm.countP_eq, List.countP_cons]
    have := h.panes pane
    grind
  · rw [hperm.countP_eq, List.countP_cons]
    have := h.pending pane
    by_cases hp : admission.pane = pane
    · rw [List.countP_eq_zero.mpr fun e he hpe => hnone (List.any_eq_true.mpr ⟨e, he, hp ▸ hpe⟩)]
      split <;> omega
    · simpa [hp] using this

theorem Step.bounds (h : t.Bounds) (hs : t.Step t') : t'.Bounds := by
  cases hs with
  | reserve _ ha => exact h.reserve ha
  | answer run start n =>
    refine h.of_le fun p hp => ?_
    rw [admitted, List.countP_map]
    refine List.countP_mono_left fun e _ he => hp _ e ?_ ?_ he
    · dsimp only
      split <;> rfl
    · dsimp only
      split <;> exact id
  | refuse | acknowledge | forget => exact h.of_le fun p _ => List.filter_sublist.countP_le
  | observe pane o =>
    refine h.changePending pane fun e => ?_
    unfold Entry.observe Entry.settle Entry.doubting
    grind
  | endSession pane | takeOver pane => exact h.changePending pane fun e => rfl

/-- Whatever the order of the calls, a Pane has one pending run and 8 receipts at most, and the table 128. -/
theorem bounds_run (h : Relation.ReflTransGen Step {} t) : t.Bounds := by
  induction h with
  | refl => exact ⟨by simp, by simp, by simp⟩
  | tail _ hs ih => exact hs.bounds ih

/-- A run is admitted and its session ends. -/
theorem bounds_run_sample : ∃ t : RunTable, t.receipts.length = 1 ∧ t.Bounds :=
  ⟨_, rfl, bounds_run (.tail (.tail .refl (.reserve Followed.sample rfl)) (.endSession 1))⟩

end SpaceTerm.PaneRun.RunTable
