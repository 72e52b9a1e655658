import SpaceTerm.Layout.Tab

/-! # Every Tab is well formed

Each call keeps the layout, the Panes' map, the focus history, focus and zoom in agreement. A parked
Pane returns to a layout that may have changed, so its own part of the invariant says what the layouts
it holds are made of. -/

namespace SpaceTerm.Layout
open Lib

variable {F T : Type}

theorem ok_bind {ε α β : Type} {x : Except ε α} {f : α → Except ε β} {b : β}
    (h : (x >>= f) = .ok b) : ∃ a, x = .ok a ∧ f a = .ok b := by
  cases x with
  | error e => cases h
  | ok a => exact ⟨a, rfl, h⟩

namespace Tab

structure WellFormed (tab : Tab F T) : Prop where
  leaves : tab.root.leaves.Nodup
  keys : ∀ id, id ∈ tab.panes.keys ↔ id ∈ tab.root.leaves
  splits : tab.root.splits.Nodup
  splitBound : ∀ id ∈ tab.root.splits, id.get < tab.nextSplitId
  paneBound : ∀ id ∈ tab.panes.keys, id.get < tab.nextPaneId
  history : tab.focusHistory.Perm tab.root.leaves
  focused : tab.focusedPaneId ∈ tab.panes.keys
  rootPane : tab.rootPaneId ∈ tab.panes.keys
  zoomed : ∀ id, tab.zoomState = .zoomed id → id = tab.focusedPaneId ∧ 1 < tab.paneCount

theorem new_wellFormed (id : Nat) (minimumPaneSize : PaneSize F) (createInitialPane : PaneId → T) :
    (new id minimumPaneSize createInitialPane).WellFormed := by
  refine ⟨?_, ?_, ?_, ?_, ?_, .refl _, ?_, ?_, nofun⟩ <;>
    simp [new, PaneNode.leaves, PaneNode.splits, FMap.insert, FMap.empty]

/-- What a call does to a Tab: it stays well formed, a Pane that was not in it is a new one, and no
identity is given twice. -/
structure Step (tab tab' : Tab F T) : Prop where
  wellFormed : tab'.WellFormed
  fresh : ∀ id ∈ tab'.root.leaves, id ∈ tab.root.leaves ∨ tab.nextPaneId ≤ id.get
  nextPane : tab.nextPaneId ≤ tab'.nextPaneId
  nextSplit : tab.nextSplitId ≤ tab'.nextSplitId

theorem Step.trans {tab tab' tab'' : Tab F T} (h : Step tab tab') (h' : Step tab' tab'') : Step tab tab'' where
  wellFormed := h'.wellFormed
  fresh id hi := by
    rcases h'.fresh id hi with hi | hi
    · exact h.fresh id hi
    · exact .inr (h.nextPane.trans hi)
  nextPane := h.nextPane.trans h'.nextPane
  nextSplit := h.nextSplit.trans h'.nextSplit

namespace WellFormed
variable {tab tab' : Tab F T}

theorem paneCount_eq (h : tab.WellFormed) : tab.paneCount = tab.root.leaves.length := by
  have hke : tab.panes.keys = tab.root.leaves.toFinset := by
    ext id
    rw [h.keys, List.mem_toFinset]
  rw [paneCount, hke, List.toFinset_card_of_nodup h.leaves]

theorem step (h : tab'.WellFormed) (hr : tab'.root = tab.root) (hp : tab'.nextPaneId = tab.nextPaneId)
    (hs : tab'.nextSplitId = tab.nextSplitId) : Step tab tab' :=
  ⟨h, fun _ hi => .inl (hr ▸ hi), hp.ge, hs.ge⟩

theorem refl (h : tab.WellFormed) : Step tab tab := h.step rfl rfl rfl

variable {root : PaneNode F}

theorem relayout (h : tab.WellFormed) {next : Nat}
    (hleaves : root.leaves.Perm tab.root.leaves) (hsplits : root.splits.Nodup)
    (hb : ∀ id ∈ root.splits, id.get < next) (hne : tab.nextSplitId ≤ next) :
    Step tab { tab with root := root, nextSplitId := next } where
  wellFormed :=
    { leaves := hleaves.nodup_iff.mpr h.leaves
      keys := fun id => (h.keys id).trans hleaves.mem_iff.symm
      splits := hsplits
      splitBound := hb
      paneBound := h.paneBound
      history := h.history.trans hleaves.symm
      focused := h.focused
      rootPane := h.rootPane
      zoomed := h.zoomed }
  fresh _ hi := .inl (hleaves.mem_iff.mp hi)
  nextPane := le_rfl
  nextSplit := hne

theorem unzoom (h : tab.WellFormed) : WellFormed { tab with zoomState := .restored } :=
  { h with zoomed := fun _ hi => by cases hi }

variable {id : PaneId}

theorem applyFocused (h : tab.WellFormed) (hi : id ∈ tab.panes.keys) : (tab.applyFocusedPane id).WellFormed where
  leaves := h.leaves
  keys := h.keys
  splits := h.splits
  splitBound := h.splitBound
  paneBound := h.paneBound
  history := h.history
  focused := hi
  rootPane := h.rootPane
  zoomed id' hz := by
    simp only [applyFocusedPane] at hz
    split at hz
    · next zoomed hw => exact ⟨(ZoomState.zoomed.inj hz).symm, (h.zoomed zoomed hw).2⟩
    · cases hz

theorem refocus (h : tab.WellFormed) (hi : id ∈ tab.panes.keys) :
    WellFormed { tab with focusHistory := tab.focusHistory.filter (· ≠ id) ++ [id] } := by
  refine { h with history := ?_ }
  have hmem : id ∈ tab.focusHistory := h.history.mem_iff.mpr ((h.keys id).mp hi)
  have hno : tab.focusHistory.Nodup := h.history.nodup_iff.mpr h.leaves
  have he : tab.focusHistory.filter (· ≠ id) = tab.focusHistory.erase id := by
    rw [hno.erase_eq_filter]
    exact List.filter_congr fun id' _ => by simp [bne, beq_eq_decide]
  rw [he]
  exact (List.perm_append_singleton _ _).trans ((List.perm_cons_erase hmem).symm.trans h.history)

theorem rezoom (h : WellFormed { tab with zoomState := .restored })
    (hz : ∀ id, tab.zoomState = .zoomed id → id = tab.focusedPaneId ∧ 1 < tab.paneCount) :
    tab.WellFormed :=
  { h with zoomed := hz }

theorem setFocused (h : tab.WellFormed) (hi : id ∈ tab.panes.keys) : (tab.setFocusedPane id).WellFormed :=
  (h.refocus hi).applyFocused hi

/-! ## Focus and zoom -/

theorem focusPane (h : tab.WellFormed) (ho : tab.focusPane id = .ok tab') : Step tab tab' := by
  unfold Tab.focusPane at ho
  split at ho
  · next hi =>
    cases ho
    exact (h.setFocused ((h.keys id).mpr (PaneNode.containsPane_iff.mp hi))).step rfl rfl rfl
  · cases ho

theorem focusPaneInDirection [Scalar F] (h : tab.WellFormed) {direction : FocusDirection}
    (hs : tab.focusPaneInDirection direction = some (id, tab')) : Step tab tab' := by
  obtain ⟨id', hi, he⟩ := Option.map_eq_some_iff.mp hs
  obtain rfl : tab.setFocusedPane id' = tab' := congrArg Prod.snd he
  exact (h.setFocused ((h.keys id').mpr (PaneNode.paneInDirection_mem hi))).step rfl rfl rfl

theorem focusPaneInHistory (h : tab.WellFormed) {step : FocusHistoryStep}
    (hs : tab.focusPaneInHistory step = some (id, tab')) : Step tab tab' := by
  unfold Tab.focusPaneInHistory at hs
  split at hs
  · cases hs
  simp only [Option.bind_eq_bind, Option.bind_eq_some_iff, Option.pure_def, Option.some.injEq, Prod.mk.injEq] at hs
  obtain ⟨current, -, id', hget, -, rfl⟩ := hs
  have hmem := h.history.mem_iff.mp (List.mem_of_getElem? hget)
  exact (h.applyFocused ((h.keys id').mpr hmem)).step rfl rfl rfl

theorem toggleZoom (h : tab.WellFormed) {state : ZoomState} (hs : tab.toggleZoom = some (state, tab')) :
    Step tab tab' := by
  unfold Tab.toggleZoom at hs
  split at hs
  · cases hs
  next hc =>
  obtain rfl := congrArg Prod.snd (Option.some.inj hs)
  refine WellFormed.step { h with zoomed := ?_ } rfl rfl rfl
  intro id hi
  refine ⟨?_, not_le.mp hc⟩
  dsimp only at hi
  split at hi
  · exact (ZoomState.zoomed.inj hi).symm
  · cases hi

theorem restoredHistory_spec (tab : Tab F T) (history start : List PaneId) (hs : start.Nodup) :
    let restored := history.foldl (fun restored id =>
      if id ∈ tab.panes.keys ∧ id ∉ restored then restored ++ [id] else restored) start
    restored.Nodup ∧ ∀ id, id ∈ restored ↔ id ∈ start ∨ (id ∈ history ∧ id ∈ tab.panes.keys) := by
  induction history generalizing start with
  | nil => simp [hs]
  | cons next history ih =>
    rw [List.foldl_cons]
    split
    · next hne =>
      obtain ⟨hno, hmem⟩ := ih (start ++ [next]) (by
        rw [List.nodup_append]
        simp only [hs, List.nodup_cons, List.not_mem_nil, not_false_eq_true, List.nodup_nil, and_self,
          List.mem_singleton, true_and]
        rintro id hi _ rfl rfl
        exact hne.2 hi)
      refine ⟨hno, fun id => (hmem id).trans ?_⟩
      grind
    · next hne =>
      obtain ⟨hno, hmem⟩ := ih start hs
      refine ⟨hno, fun id => (hmem id).trans ?_⟩
      grind

theorem restoredHistory_perm (h : tab.WellFormed) (history : List PaneId) :
    (tab.restoredHistory history).Perm tab.root.leaves := by
  have hno : tab.focusHistory.Nodup := h.history.nodup_iff.mpr h.leaves
  obtain ⟨hr, hmem⟩ := restoredHistory_spec tab history _ (hno.filter (· ∉ history))
  refine (List.perm_ext_iff_of_nodup hr h.leaves).mpr fun id => (hmem id).trans ?_
  rw [h.keys, List.mem_filter, h.history.mem_iff]
  by_cases hi : id ∈ history <;> simp [hi]

theorem restoreFocus (h : tab.WellFormed) (history : List PaneId) (focused : Option PaneId) (zoomed : Bool) :
    Step tab (tab.restoreFocus history focused zoomed) := by
  have hp := h.restoredHistory_perm history
  have hf : (focused.filter (· ∈ tab.panes.keys)).getD tab.rootPaneId ∈ tab.panes.keys := by
    cases hke : focused.filter (· ∈ tab.panes.keys) with
    | none => exact h.rootPane
    | some id => simpa using (Option.filter_eq_some_iff.mp hke).2
  have hmem := hp.mem_iff.mpr ((h.keys _).mp hf)
  refine WellFormed.step
    { h with
      history := ?_
      focused := hf
      zoomed := ?_ } rfl rfl rfl
  · simp only [Tab.restoreFocus]
    rw [if_pos hmem]
    exact hp
  · intro id hi
    simp only [Tab.restoreFocus] at hi
    split at hi
    · next hz => exact ⟨(ZoomState.zoomed.inj hi).symm, hz.2.2⟩
    · cases hi

/-! ## Layouts -/

variable {splitId : SplitId}

theorem resizeSplit [Scalar F] (h : tab.WellFormed) {available : PaneSize F} {dividerSize requested ratio : F}
    (ho : tab.resizeSplit splitId available dividerSize requested = .ok (ratio, tab')) : Step tab tab' := by
  obtain ⟨⟨⟩, -, ho⟩ := ok_bind ho
  split at ho
  · cases ho
  obtain ⟨⟨lowest, highest⟩, -, ho⟩ := ok_bind ho
  dsimp only at ho
  split at ho
  · cases ho
  next root hr =>
  cases ho
  obtain ⟨hleaves, hsplits⟩ := PaneNode.setRatio_spec hr
  exact h.relayout (.of_eq hleaves) (hsplits ▸ h.splits) (hsplits ▸ h.splitBound) le_rfl

theorem fitSplitRatios [Scalar F] (h : tab.WellFormed) (available : PaneSize F) (dividerSize : F) :
    Step tab (tab.fitSplitRatios available dividerSize) := by
  unfold Tab.fitSplitRatios
  split
  · obtain ⟨hleaves, hsplits⟩ := PaneNode.fitRatios_spec tab.minimumPaneSize dividerSize available tab.root
    exact h.relayout (.of_eq hleaves) (hsplits ▸ h.splits) (hsplits ▸ h.splitBound) le_rfl
  · exact h.refl

variable {id target : PaneId} {changed : Bool}

theorem swapPanes (h : tab.WellFormed) (ho : tab.swapPanes id target = .ok (changed, tab')) : Step tab tab' := by
  unfold Tab.swapPanes at ho
  split_ifs at ho with hi ht hs
  · cases ho
    exact h.refl
  cases ho
  simp only [Bool.not_eq_false, PaneNode.containsPane_iff] at hi ht
  have hsplits := tab.root.exchangePanes_splits id target
  have hsw := h.relayout (PaneNode.exchangePanes_perm h.leaves hi ht) (hsplits ▸ h.splits)
    (hsplits ▸ h.splitBound) le_rfl
  exact hsw.trans ((hsw.wellFormed.unzoom.setFocused ((h.keys id).mpr hi)).step rfl rfl rfl)

variable {edge : PaneEdge}

theorem movedRoot_spec [Scalar F]
    (hmo : tab.movedRoot id target edge = some root) : ∃ splitId, root.leaves.Perm tab.root.leaves ∧
      (splitId :: root.splits).Perm (⟨tab.nextSplitId⟩ :: tab.root.splits) := by
  obtain ⟨removal, hre, hmo⟩ := Option.bind_eq_some_iff.mp hmo
  obtain ⟨remaining, hr, hs⟩ := Option.bind_eq_some_iff.mp hmo
  obtain ⟨replacement, fallback⟩ := removal
  obtain rfl : replacement = some remaining := hr
  obtain ⟨hleaves, hsplits⟩ := PaneNode.withSplit_spec hs
  cases PaneNode.withoutPane_spec hre with
  | rest splitId hl hsp _ =>
    refine ⟨splitId, hleaves.trans hl.symm, ?_⟩
    exact ((hsplits.cons splitId).trans (.swap _ _ _)).trans (hsp.symm.cons _)

/-- The source's two unreachable cases: a Pane with another target leaves it in the layout. -/
theorem movedRoot_isSome [Scalar F] (edge : PaneEdge) (hi : id ∈ tab.root.leaves)
    (ht : target ∈ tab.root.leaves) (hne : id ≠ target) :
    ∃ root, tab.movedRoot id target edge = some root := by
  obtain ⟨removal, hr⟩ := PaneNode.withoutPane_isSome hi
  unfold movedRoot
  rw [hr]
  cases PaneNode.withoutPane_spec hr with
  | last hleaves _ _ =>
    rw [hleaves, List.mem_singleton] at ht
    exact absurd ht.symm hne
  | rest splitId hleaves _ _ =>
    rcases List.mem_cons.mp (hleaves.mem_iff.mp ht) with he | hrest
    · exact absurd he.symm hne
    · exact PaneNode.withSplit_isSome id ⟨tab.nextSplitId⟩ edge hrest

theorem splits_cons (h : tab.WellFormed) : (⟨tab.nextSplitId⟩ :: tab.root.splits : List SplitId).Nodup :=
  List.nodup_cons.mpr ⟨fun hmem => (h.splitBound _ hmem).ne rfl, h.splits⟩

theorem splitBound_cons (h : tab.WellFormed) {next : Nat} (hne : checkedSucc tab.nextSplitId = some next) :
    tab.nextSplitId ≤ next ∧ ∀ id ∈ (⟨tab.nextSplitId⟩ :: tab.root.splits : List SplitId), id.get < next := by
  unfold checkedSucc at hne
  split at hne
  · cases hne
    refine ⟨Nat.le_succ _, fun id hi => ?_⟩
    rcases List.mem_cons.mp hi with rfl | hi
    · exact Nat.lt_succ_self _
    · exact (h.splitBound id hi).trans (Nat.lt_succ_self _)
  · cases hne

theorem moveBeside [Scalar F] (h : tab.WellFormed)
    (hi : id ∈ tab.root.leaves) (ho : tab.moveBeside id target edge = .ok (changed, tab')) :
    Step tab tab' := by
  unfold Tab.moveBeside at ho
  split at ho
  · cases ho
    exact h.refl
  split at ho
  · cases ho
  next next hne =>
  split at ho
  · cases ho
    exact h.refl
  next root hr =>
  split at ho
  · cases ho
    exact h.refl
  cases ho
  obtain ⟨splitId, hleaves, hsplits⟩ := movedRoot_spec hr
  obtain ⟨hl, hb⟩ := h.splitBound_cons hne
  have hno := hsplits.nodup_iff.mpr h.splits_cons
  have hmo := h.relayout hleaves (List.nodup_cons.mp hno).2
    (fun id hi => hb id (hsplits.mem_iff.mp (List.mem_cons_of_mem _ hi))) hl
  exact hmo.trans ((hmo.wellFormed.unzoom.setFocused ((h.keys id).mpr hi)).step rfl rfl rfl)

theorem movePane [Scalar F] (h : tab.WellFormed) {targetSize : PaneSize F} {dividerSize : F}
    (ho : tab.movePane id target edge targetSize dividerSize = .ok (changed, tab')) : Step tab tab' := by
  unfold Tab.movePane at ho
  split at ho
  · next hi =>
    obtain ⟨⟨⟩, -, ho⟩ := ok_bind ho
    exact h.moveBeside (PaneNode.containsPane_iff.mp hi) ho
  · cases ho

theorem build_spec [Scalar F] {arrangement : PaneArrangement F} {panes panes' : List PaneId}
    {next next' : Nat} (hp : panes.Nodup)
    (ho : build arrangement (panes, next) = .ok (root, panes', next')) :
    panes'.Nodup ∧ panes'.Perm (root.leaves ++ panes) ∧ next ≤ next' ∧ root.splits.Nodup ∧
      ∀ id ∈ root.splits, next ≤ id.get ∧ id.get < next' := by
  induction arrangement generalizing panes panes' next next' root with
  | pane id =>
    simp only [build] at ho
    split at ho
    · cases ho
    next hi =>
    cases ho
    exact ⟨List.nodup_cons.mpr ⟨hi, hp⟩, .refl _, le_rfl, List.nodup_nil, nofun⟩
  | split axis ratio first second ihFirst ihSecond =>
    simp only [build] at ho
    split at ho
    · cases ho
    split at ho
    · cases ho
    next after ha =>
    obtain ⟨⟨first', placed, after'⟩, hf, ho⟩ := ok_bind ho
    obtain ⟨⟨second', placed', after''⟩, hs, ho⟩ := ok_bind ho
    cases ho
    obtain ⟨hpl, hpe, hl, hsplits, hr⟩ := ihFirst hp hf
    obtain ⟨hpl', hpe', hl', hsplits', hr'⟩ := ihSecond hpl hs
    have hsu : after = next + 1 := by
      unfold checkedSucc at ha
      split at ha
      · exact (Option.some.inj ha).symm
      · cases ha
    refine ⟨hpl', ?_, by omega, ?_, ?_⟩
    · refine hpe'.trans ((hpe.append_left _).trans ?_)
      rw [PaneNode.leaves, List.append_assoc, ← List.append_assoc, ← List.append_assoc]
      exact List.perm_append_comm.append_right _
    · rw [PaneNode.splits, List.nodup_cons, List.nodup_append]
      refine ⟨fun hmem => ?_, hsplits, hsplits', ?_⟩
      · rcases List.mem_append.mp hmem with hmem | hmem
        · have := hr _ hmem
          simp only at this
          omega
        · have := hr' _ hmem
          simp only at this
          omega
      · rintro id hi _ hi' rfl
        have := hr id hi
        have := hr' id hi'
        omega
    · intro id hi
      rcases List.mem_cons.mp hi with rfl | hi
      · simp only
        omega
      rcases List.mem_append.mp hi with hi | hi
      · have := hr id hi
        omega
      · have := hr' id hi
        omega

theorem restoreArrangement [Scalar F] (h : tab.WellFormed) {arrangement : PaneArrangement F}
    (ho : tab.restoreArrangement arrangement = .ok tab') : Step tab tab' := by
  obtain ⟨⟨root, panes, next⟩, hb, ho⟩ := ok_bind ho
  dsimp only at ho
  split at ho
  · cases ho
  next hc =>
  cases ho
  obtain ⟨hp, hpe, hl, hsplits, hr⟩ := build_spec List.nodup_nil hb
  rw [List.append_nil] at hpe
  simp only [not_or, not_exists, not_and, not_not] at hc
  have hleaves : tab.root.leaves.Perm panes := by
    refine (List.subperm_of_subset h.leaves fun id hi => ?_).perm_of_length_le ?_
    · exact hc.2 id ((h.keys id).mpr hi)
    · rw [hc.1, h.paneCount_eq]
  exact h.relayout (hpe.symm.trans hleaves.symm) hsplits (fun id hi => (hr id hi).2) hl

/-! ## Panes that come and go -/

theorem add (h : tab.WellFormed) {id rootPaneId : PaneId} {pane : T}
    {nextPaneId nextSplitId : Nat} (hi : id ∉ tab.root.leaves) (hleaves : root.leaves.Perm (id :: tab.root.leaves))
    (hsplits : root.splits.Nodup) (hb : ∀ id ∈ root.splits, id.get < nextSplitId)
    (hp : id.get < nextPaneId) (hne : tab.nextPaneId ≤ nextPaneId)
    (hr : rootPaneId = id ∨ rootPaneId ∈ tab.panes.keys) : WellFormed { tab with
      root := root
      panes := tab.panes.insert id pane
      rootPaneId := rootPaneId
      nextPaneId := nextPaneId
      nextSplitId := nextSplitId
      focusHistory := id :: tab.focusHistory } where
  leaves := hleaves.nodup_iff.mpr (List.nodup_cons.mpr ⟨hi, h.leaves⟩)
  keys id' := by
    rw [hleaves.mem_iff, List.mem_cons, ← h.keys]
    exact Finset.mem_insert
  splits := hsplits
  splitBound := hb
  paneBound id' hi' := by
    rcases Finset.mem_insert.mp hi' with rfl | hi'
    · exact hp
    · exact (h.paneBound id' hi').trans_le hne
  history := (h.history.cons id).trans hleaves.symm
  focused := Finset.mem_insert_of_mem h.focused
  rootPane := Finset.mem_insert.mpr hr
  zoomed id' hz := by
    obtain ⟨hf, hc⟩ := h.zoomed id' hz
    exact ⟨hf, hc.trans_le (Finset.card_le_card (Finset.subset_insert _ _))⟩

theorem nextSplitIds_spec {paneId : PaneId}
    {nextPaneId nextSplitId : Nat} (ho : tab.nextSplitIds = .ok (paneId, splitId, nextPaneId, nextSplitId)) :
    paneId = ⟨tab.nextPaneId⟩ ∧ splitId = ⟨tab.nextSplitId⟩ ∧ nextPaneId = tab.nextPaneId + 1 ∧
      checkedSucc tab.nextSplitId = some nextSplitId := by
  unfold nextSplitIds at ho
  split at ho
  · cases ho
  next hp =>
  split at ho
  · cases ho
  next hs =>
  cases ho
  unfold checkedSucc at hp
  split at hp
  · exact ⟨rfl, rfl, (Option.some.inj hp).symm, hs⟩
  · cases hp

theorem insertPane [Scalar F] (h : tab.WellFormed) {source id : PaneId}
    {createPane : PaneId → T} (ho : tab.insertPane source edge createPane = .ok (id, tab')) :
    Step tab tab' := by
  obtain ⟨⟨paneId, splitId, nextPaneId, nextSplitId⟩, hid, ho⟩ := ok_bind ho
  obtain ⟨rfl, rfl, rfl, hne⟩ := nextSplitIds_spec hid
  dsimp only at ho
  split at ho
  · cases ho
  next root hr =>
  cases ho
  obtain ⟨hleaves, hsplits⟩ := PaneNode.withSplit_spec hr
  obtain ⟨hl, hb⟩ := h.splitBound_cons hne
  have hf : (⟨tab.nextPaneId⟩ : PaneId) ∉ tab.root.leaves := fun hmem =>
    (h.paneBound _ ((h.keys _).mpr hmem)).ne rfl
  refine ⟨h.add hf hleaves (hsplits.nodup_iff.mpr h.splits_cons)
    (fun id hi => hb id (hsplits.mem_iff.mp hi)) (Nat.lt_succ_self _) (Nat.le_succ _) (.inr h.rootPane),
    fun id hi => ?_, Nat.le_succ _, hl⟩
  rcases List.mem_cons.mp (hleaves.mem_iff.mp hi) with rfl | hi
  · exact .inr le_rfl
  · exact .inl hi

theorem lose (h : tab.WellFormed) {id focused : PaneId}
    (hleaves : tab.root.leaves.Perm (id :: root.leaves)) (hsplits : tab.root.splits.Perm (splitId :: root.splits))
    (hfo : focused ∈ root.leaves) : WellFormed { tab with
      panes := tab.panes.erase id
      root := root
      rootPaneId := if tab.rootPaneId = id then root.firstPaneId else tab.rootPaneId
      focusHistory := tab.focusHistory.filter (· ≠ id)
      focusedPaneId := focused
      zoomState := .restored } := by
  obtain ⟨hi, hno⟩ := List.nodup_cons.mp (hleaves.nodup_iff.mp h.leaves)
  have hke (id' : PaneId) : id' ∈ (tab.panes.erase id).keys ↔ id' ∈ root.leaves := by
    rw [show (tab.panes.erase id).keys = tab.panes.keys.erase id from rfl, Finset.mem_erase, h.keys,
      hleaves.mem_iff, List.mem_cons]
    grind
  exact {
    leaves := hno
    keys := hke
    splits := (List.nodup_cons.mp (hsplits.nodup_iff.mp h.splits)).2
    splitBound := fun s hs => h.splitBound s (hsplits.mem_iff.mpr (List.mem_cons_of_mem _ hs))
    paneBound := fun id' hi' => h.paneBound id' (Finset.mem_of_mem_erase hi')
    history := by
      have hf : (id :: root.leaves).filter (· ≠ id) = root.leaves := by
        rw [List.filter_cons_of_neg (by simp), List.filter_eq_self]
        intro id' hi'
        simpa using fun he : id' = id => hi (he ▸ hi')
      exact hf ▸ (h.history.trans hleaves).filter _
    focused := (hke _).mpr hfo
    rootPane := by
      rw [hke]
      split
      · exact root.firstPaneId_mem
      next hr =>
      rcases List.mem_cons.mp (hleaves.mem_iff.mp ((h.keys _).mp h.rootPane)) with he | hmem
      · exact absurd he hr
      · exact hmem
    zoomed := fun _ hz => by cases hz }

theorem paneCount_pos (h : tab.WellFormed) : 0 < tab.paneCount := Finset.card_pos.mpr ⟨_, h.focused⟩

theorem unzoomClosed (h : WellFormed { tab with zoomState := .restored }) (id : PaneId)
    (hz : ∀ id', tab.zoomState = .zoomed id' → id' = tab.focusedPaneId) :
    Step tab (tab.unzoomClosed id) := by
  unfold Tab.unzoomClosed
  split
  · exact h.step rfl rfl rfl
  next hma =>
  refine WellFormed.step (h.rezoom fun id' hi' => ⟨hz id' hi', ?_⟩) rfl rfl rfl
  have hp : 0 < tab.paneCount := h.paneCount_pos
  have hne : tab.paneCount ≠ 1 := fun he => hma (.inl he)
  omega

theorem removed (h : tab.WellFormed) {id fallback : PaneId}
    (hr : PaneNode.Removes id tab.root ⟨some root, fallback⟩) : Step tab (tab.removed id root fallback) := by
  cases hr with
  | rest splitId hleaves hsplits hfallback =>
    -- Whatever the focus does, the layout is the remaining one and no identity is given.
    have hst {mid : Tab F T} (hc : Step mid (mid.unzoomClosed id)) (hro : mid.root = root)
        (hp : mid.nextPaneId = tab.nextPaneId) (hs : mid.nextSplitId = tab.nextSplitId) :
        Step tab (mid.unzoomClosed id) := by
      refine ⟨hc.wellFormed, fun id' hi' => ?_, hp ▸ hc.nextPane, hs ▸ hc.nextSplit⟩
      rcases hc.fresh id' hi' with hi' | hi'
      · exact .inl (hleaves.mem_iff.mpr (List.mem_cons_of_mem _ (hro ▸ hi')))
      · exact .inr (hp ▸ hi')
    unfold Tab.removed
    dsimp only
    by_cases hf : tab.focusedPaneId = id
    · rw [if_pos hf]
      have hl := h.lose hleaves hsplits hfallback
      refine hst (unzoomClosed (hl.refocus hl.focused) id fun id' hi' => ?_) rfl rfl rfl
      simp only [setFocusedPane, applyFocusedPane] at hi'
      split at hi'
      · exact (ZoomState.zoomed.inj hi').symm
      · cases hi'
    rw [if_neg hf]
    have hmem : tab.focusedPaneId ∈ root.leaves := by
      rcases List.mem_cons.mp (hleaves.mem_iff.mp ((h.keys _).mp h.focused)) with he | hmem
      · exact absurd he hf
      · exact hmem
    exact hst (unzoomClosed (h.lose hleaves hsplits hmem) id fun id' hi' => (h.zoomed id' hi').1)
      rfl rfl rfl

theorem unzoomClosed_root (tab : Tab F T) (id : PaneId) : (tab.unzoomClosed id).root = tab.root := by
  unfold Tab.unzoomClosed
  split <;> rfl

theorem removed_root (tab : Tab F T) (id : PaneId) (root : PaneNode F) (fallback : PaneId) :
    (tab.removed id root fallback).root = root := by
  unfold Tab.removed
  dsimp only
  rw [unzoomClosed_root]
  split <;> rfl

theorem closePane (h : tab.WellFormed) {outcome : ClosePaneOutcome T}
    (ho : tab.closePane id = .ok (outcome, tab')) : Step tab tab' ∧ ∀ closed focused pane,
      outcome = .paneClosed closed focused pane → tab.root.leaves.Perm (id :: tab'.root.leaves) := by
  unfold Tab.closePane at ho
  split at ho
  · cases ho
  next removal hr =>
  obtain ⟨replacement, fallback⟩ := removal
  split at ho
  · cases ho
    exact ⟨h.refl, fun _ _ _ hout => by cases hout⟩
  split at ho
  · next root pane hro hp =>
    cases ho
    obtain rfl : replacement = some root := hro
    have hre := PaneNode.withoutPane_spec hr
    refine ⟨h.removed hre, fun _ _ _ _ => ?_⟩
    rw [removed_root]
    cases hre with
    | rest _ hleaves _ _ => exact hleaves
  · cases ho

end WellFormed

/-! ## Parked Panes -/

/-- A parked Pane can return: it is in neither the Tab nor another layout's Splits, and the layouts it
holds differ by it alone. -/
structure Returns (tab : Tab F T) (parked : ParkedPane F T) : Prop where
  absent : parked.id ∉ tab.root.leaves
  bound : parked.id.get < tab.nextPaneId
  leaves : parked.original.leaves.Perm (parked.id :: parked.remaining.leaves)
  splits : parked.original.splits.Nodup
  splitBound : ∀ id ∈ parked.original.splits, id.get < tab.nextSplitId

variable {tab tab' : Tab F T}

theorem Returns.step {parked : ParkedPane F T} (h : tab.Returns parked)
    (hs : Step tab tab') : tab'.Returns parked where
  absent hmem := by
    rcases hs.fresh _ hmem with hmem | hl
    · exact h.absent hmem
    · exact absurd h.bound (not_lt.mpr hl)
  bound := h.bound.trans_le hs.nextPane
  leaves := h.leaves
  splits := h.splits
  splitBound id hi := (h.splitBound id hi).trans_le hs.nextSplit

theorem WellFormed.parkPane (h : tab.WellFormed) {id : PaneId}
    {parked : Option (ParkedPane F T)} (ho : tab.parkPane id = .ok (parked, tab')) :
    Step tab tab' ∧ ∀ p ∈ parked, p.id ∈ tab.root.leaves ∧ tab'.Returns p := by
  obtain ⟨⟨outcome, closed⟩, hc, ho⟩ := ok_bind ho
  obtain ⟨hst, hleaves⟩ := h.closePane hc
  cases outcome with
  | paneClosed closedId focused pane =>
    cases ho
    refine ⟨hst, fun p hp => ?_⟩
    cases hp
    have hpe := hleaves _ _ _ rfl
    have hi : id ∈ tab.root.leaves := hpe.mem_iff.mpr List.mem_cons_self
    exact ⟨hi,
      { absent := (List.nodup_cons.mp (hpe.nodup_iff.mp h.leaves)).1
        bound := (h.paneBound id ((h.keys id).mpr hi)).trans_le hst.nextPane
        leaves := hpe
        splits := h.splits
        splitBound := fun s hs => (h.splitBound s hs).trans_le hst.nextSplit }⟩
  | closeTab tabId =>
    cases ho
    exact ⟨hst, fun p hp => by cases hp⟩

theorem WellFormed.restoreParkedPane [Scalar F] (h : tab.WellFormed)
    {parked : ParkedPane F T} (hp : tab.Returns parked) {source id : PaneId} {edge : PaneEdge}
    (ho : tab.restoreParkedPane parked source edge = .ok (id, tab')) :
    tab'.WellFormed ∧ (∀ id ∈ tab'.root.leaves, id = parked.id ∨ id ∈ tab.root.leaves) ∧
      tab'.nextPaneId = tab.nextPaneId ∧ tab.nextSplitId ≤ tab'.nextSplitId := by
  obtain ⟨⟨root, next⟩, hr, ho⟩ := ok_bind ho
  cases ho
  obtain ⟨hleaves, hsplits, hb, hl⟩ : root.leaves.Perm (parked.id :: tab.root.leaves) ∧
      root.splits.Nodup ∧ (∀ id ∈ root.splits, id.get < next) ∧ tab.nextSplitId ≤ next := by
    unfold restoredRoot at hr
    split at hr
    · next hs =>
      cases hr
      rw [(PaneNode.same_spec hs).1]
      exact ⟨hp.leaves, hp.splits, hp.splitBound, le_rfl⟩
    split at hr
    · cases hr
    next next hne =>
    split at hr
    · cases hr
    next root hsp =>
    cases hr
    obtain ⟨hleaves, hsplits⟩ := PaneNode.withSplit_spec hsp
    obtain ⟨hl, hb⟩ := h.splitBound_cons hne
    exact ⟨hleaves, hsplits.nodup_iff.mpr h.splits_cons, fun id hi => hb id (hsplits.mem_iff.mp hi), hl⟩
  refine ⟨h.add hp.absent hleaves hsplits hb hp.bound le_rfl ?_,
    fun id hi => List.mem_cons.mp (hleaves.mem_iff.mp hi), rfl, hl⟩
  split
  · exact .inl rfl
  · exact .inr h.rootPane

end Tab

/-! ## Runs of calls -/

namespace Desk

structure Inv (desk : Desk F T) : Prop where
  tab : desk.tab.WellFormed
  parked : ∀ p ∈ desk.parked, desk.tab.Returns p
  distinct : (desk.parked.map (·.id)).Nodup

namespace Inv
variable {desk : Desk F T}

theorem step (h : desk.Inv) {tab : Tab F T} (hs : Tab.Step desk.tab tab) : Inv { desk with tab := tab } :=
  ⟨hs.wellFormed, fun p hp => (h.parked p hp).step hs, h.distinct⟩

theorem fewer (h : desk.Inv) (index : Nat) : Inv { desk with parked := desk.parked.eraseIdx index } :=
  ⟨h.tab, fun p hp => h.parked p (List.mem_of_mem_eraseIdx hp),
    h.distinct.sublist ((List.eraseIdx_sublist _ _).map _)⟩

theorem after {α : Type} (h : desk.Inv) {result : Except (PaneError F) (α × Tab F T)}
    (hs : ∀ value tab, result = .ok (value, tab) → Tab.Step desk.tab tab) : (desk.after result).Inv := by
  unfold Desk.after
  split
  · next value tab => exact h.step (hs value tab rfl)
  · exact h

theorem moved {α : Type} (h : desk.Inv) {result : Option (α × Tab F T)}
    (hs : ∀ value tab, result = some (value, tab) → Tab.Step desk.tab tab) : (desk.moved result).Inv := by
  unfold Desk.moved
  split
  · next value tab => exact h.step (hs value tab rfl)
  · exact h

theorem after_map (h : desk.Inv) {result : Except (PaneError F) (Tab F T)}
    (hs : ∀ tab, result = .ok tab → Tab.Step desk.tab tab) : (desk.after (result.map ((), ·))).Inv := by
  cases result with
  | ok tab => exact h.step (hs tab rfl)
  | error e => exact h

theorem parkPane (h : desk.Inv) {id : PaneId} {parked : Option (ParkedPane F T)} {tab : Tab F T}
    (ho : desk.tab.parkPane id = .ok (parked, tab)) :
    Inv { tab := tab, parked := desk.parked ++ parked.toList } := by
  obtain ⟨hs, hpa⟩ := h.tab.parkPane ho
  refine ⟨hs.wellFormed, fun p hp => ?_, ?_⟩
  · rcases List.mem_append.mp hp with hp | hp
    · exact (h.parked p hp).step hs
    · exact (hpa p (Option.mem_toList.mp hp)).2
  rw [List.map_append, List.nodup_append]
  refine ⟨h.distinct, ?_, ?_⟩
  · cases parked <;> simp
  rintro _ hi _ hi' rfl
  obtain ⟨p, hp, rfl⟩ := List.mem_map.mp hi
  obtain ⟨p', hp', he⟩ := List.mem_map.mp hi'
  exact (h.parked p hp).absent (he ▸ (hpa p' (Option.mem_toList.mp hp')).1)

theorem restoreParkedPane [Scalar F] (h : desk.Inv) {index : Nat} {parked : ParkedPane F T} (source : PaneId)
    (edge : PaneEdge) (hin : desk.parked[index]? = some parked) :
    (Desk.after { desk with parked := desk.parked.eraseIdx index }
      (desk.tab.restoreParkedPane parked source edge)).Inv := by
  unfold Desk.after
  split
  · next id tab ho =>
    have hmem := List.mem_of_getElem? hin
    obtain ⟨hw, hleaves, hpa, hsp⟩ := h.tab.restoreParkedPane (h.parked parked hmem) ho
    refine ⟨hw, fun p hp => ?_, (h.fewer index).distinct⟩
    have hr := h.parked p (List.mem_of_mem_eraseIdx hp)
    have hne : p.id ≠ parked.id := by
      intro he
      obtain ⟨index', hother, hin'⟩ := List.mem_eraseIdx_iff_getElem?.mp hp
      have hid : (desk.parked.map (·.id))[index']? = (desk.parked.map (·.id))[index]? := by
        rw [List.getElem?_map, List.getElem?_map, hin, hin', Option.map_some, Option.map_some, he]
      have hl : index' < (desk.parked.map (·.id)).length := by
        rw [List.length_map]
        exact (List.getElem?_eq_some_iff.mp hin').1
      exact hother ((List.getElem?_inj hl h.distinct).mp hid)
    exact
      { absent := fun hi => (hleaves p.id hi).elim hne hr.absent
        bound := hpa ▸ hr.bound
        leaves := hr.leaves
        splits := hr.splits
        splitBound := fun s hs => (hr.splitBound s hs).trans_le hsp }
  · exact h.fewer index

theorem call [Scalar F] (h : desk.Inv) (call : Call F T) : (desk.call call).Inv := by
  cases call with
  | insertPane source edge createPane => exact h.after fun _ _ ho => h.tab.insertPane ho
  | movePane id target edge targetSize dividerSize => exact h.after fun _ _ ho => h.tab.movePane ho
  | swapPanes id target => exact h.after fun _ _ ho => h.tab.swapPanes ho
  | closePane id => exact h.after fun _ _ ho => (h.tab.closePane ho).1
  | parkPane id =>
    simp only [Desk.call]
    split
    · next ho => exact h.parkPane ho
    · exact h
  | restoreParkedPane index source edge =>
    simp only [Desk.call]
    split
    · next hi => exact h.restoreParkedPane source edge hi
    · exact h
  | dropParked index => exact h.fewer index
  | restoreArrangement arrangement =>
    exact h.after_map fun _ ho => h.tab.restoreArrangement ho
  | restoreFocus history focused zoomed => exact h.step (h.tab.restoreFocus history focused zoomed)
  | focusPane id => exact h.after_map fun _ ho => h.tab.focusPane ho
  | focusPaneInDirection direction => exact h.moved fun _ _ hs => h.tab.focusPaneInDirection hs
  | focusPaneInHistory step => exact h.moved fun _ _ hs => h.tab.focusPaneInHistory hs
  | toggleZoom => exact h.moved fun _ _ hs => h.tab.toggleZoom hs
  | fitSplitRatios available dividerSize => exact h.step (h.tab.fitSplitRatios available dividerSize)
  | resizeSplit splitId available dividerSize requested =>
    exact h.after fun _ _ ho => h.tab.resizeSplit ho
  | setMinimumPaneSize size => exact h.step (Tab.WellFormed.step { h.tab with } rfl rfl rfl)

theorem calls [Scalar F] (h : desk.Inv) (calls : List (Call F T)) : (desk.calls calls).Inv := by
  induction calls generalizing desk with
  | nil => exact h
  | cons call calls ih => exact ih (h.call call)

end Inv

/-- Whatever is called on a new Tab, its Panes, layout, focus and zoom agree. -/
theorem calls_wellFormed [Scalar F] (id : Nat) (minimumPaneSize : PaneSize F) (createInitialPane : PaneId → T)
    (calls : List (Call F T)) :
    (Desk.calls { tab := Tab.new id minimumPaneSize createInitialPane } calls).tab.WellFormed := by
  have hnew : Inv { tab := Tab.new id minimumPaneSize createInitialPane } :=
    ⟨Tab.new_wellFormed id minimumPaneSize createInitialPane, nofun, List.nodup_nil⟩
  exact (hnew.calls calls).tab

-- A Pane parked beside the first returns below a third that came meanwhile.
example : (Desk.calls { tab := Tab.new (F := ℚ) 7 ⟨100, 50⟩ fun _ => () }
    [.insertPane ⟨1⟩ .right fun _ => (), .parkPane ⟨2⟩, .insertPane ⟨1⟩ .left fun _ => (),
      .restoreParkedPane 0 ⟨3⟩ .bottom]).tab.root.leaves = [⟨3⟩, ⟨2⟩, ⟨1⟩] := by
  decide +kernel

end Desk
end SpaceTerm.Layout
