import SpaceTerm.Hierarchy.Host

/-! # The invariant of the server is what `State::validate` checks

Each loop of `State::validate` gets one lemma. The identities seen so far are the visited ones in
reverse, so that the loops over Panes, Tabs and Workspaces compose by rewriting. -/

namespace SpaceTerm.Hierarchy
open Lib

/-! ### The loops of `State::validate` -/

namespace State
variable {ids : List Id}

variable {seen : List Id} {id : Id}

theorem insertId_eq (h : IdsOk (ids ++ id :: seen)) : insertId seen id = some (id :: seen) := by
  have hno := (List.nodup_append.mp h.nodup).2.1
  have hze : ¬id = 0 := fun hz => h.nonzero (by rw [← hz]; simp)
  have hs := (List.nodup_cons.mp hno).1
  rw [insertId, if_neg]
  rw [Bool.or_eq_true, beq_iff_eq, List.contains_iff_mem]
  exact not_or.mpr ⟨hze, hs⟩

theorem insertId_some (h : insertId seen id = some ids) : id ≠ 0 ∧ id ∉ seen ∧ ids = id :: seen := by
  rw [insertId] at h
  split at h
  · cases h
  rename_i hnew
  rw [Bool.or_eq_true, beq_iff_eq, List.contains_iff_mem, not_or] at hnew
  exact ⟨hnew.1, hnew.2, by simpa using h.symm⟩

theorem idsOk_of_checked {w : Workspace} {t : Tab} {p : Pane} (hta : w.tabs = [t])
    (hpa : t.panes = [p]) (h : (checkWorkspaces [] [w]).isSome) : IdsOk (allIds [w]) := by
  obtain ⟨ids, h⟩ := Option.isSome_iff_exists.mp h
  simp only [checkWorkspaces, hta, checkTabs, hpa, checkPanes, Option.bind_eq_bind,
    Option.bind_eq_some_iff, Option.ite_none_right_eq_some] at h
  obtain ⟨_, hw, -, _, ⟨_, ht, -, _, ⟨_, hp, -, -⟩, -⟩, -⟩ := h
  obtain ⟨hw0, -, rfl⟩ := insertId_some hw
  obtain ⟨ht0, htw, rfl⟩ := insertId_some ht
  obtain ⟨hp0, hpw, -⟩ := insertId_some hp
  simp only [List.mem_cons, List.not_mem_nil, or_false, not_or] at htw hpw
  have ha : allIds [w] = [w.id, t.id, p.id] := by
    simp [allIds, Workspace.ids, Tab.ids, hta, hpa]
  rw [ha]
  refine ⟨?_, ?_⟩
  · simp only [List.nodup_cons, List.mem_cons, List.not_mem_nil, or_false, not_or, not_false_eq_true,
      List.nodup_nil, and_true]
    exact ⟨⟨Ne.symm htw, Ne.symm hpw.2⟩, Ne.symm hpw.1⟩
  · simp only [List.mem_cons, List.not_mem_nil, or_false, not_or]
    exact ⟨Ne.symm hw0, Ne.symm ht0, Ne.symm hp0⟩

theorem paneOk_of {preceding : List Id} {p : Pane} (h : PaneFacts p)
    (hs : ∀ source ∈ p.source, source ∈ preceding) : paneOk preceding p := by
  have hs' : p.source.all preceding.contains := by
    cases hp : p.source with
    | none => rfl
    | some source => simpa using hs source hp
  have ho : !(p.observers.names.isEmpty && p.observers.others != 0) := by
    cases hnames : p.observers.names with
    | nil => simp [h.others hnames]
    | cons _ _ => rfl
  simp only [paneOk, hs', ho, h.observers, h.presentation, h.starting, h.confirmed, Bool.and_self, decide_true]

theorem checkPanes_eq {seen preceding : List Id} {ps : List Pane}
    (h : IdsOk ((ps.map (·.id)).reverse ++ seen)) (hs : Sourced preceding ps)
    (hf : ∀ p ∈ ps, PaneFacts p) :
    checkPanes seen preceding ps = some ((ps.map (·.id)).reverse ++ seen) := by
  induction ps generalizing seen preceding with
  | nil => rfl
  | cons p ps ih =>
    simp only [List.map_cons, List.reverse_cons, List.append_assoc, List.singleton_append] at h ⊢
    have hp := paneOk_of (hf p List.mem_cons_self) hs.1
    have hrest : Sourced (preceding ++ [p.id]) ps := hs.2.mono (by simp)
    simp only [checkPanes, insertId_eq h, Option.bind_eq_bind, Option.bind_some, hp, if_true]
    exact ih h hrest fun q hq => hf q (List.mem_cons_of_mem _ hq)

theorem any_of_head? {α : Type} {f : α → Id} {xs : List α} {a : Id}
    (h : (xs.map f).head? = some a) : xs.any (f · == a) := by
  cases xs with
  | nil => simp at h
  | cons x xs => simp_all

theorem tabOk_of {t : Tab} (h : TabOk t) : tabOk t := by
  have hw : !(t.worktreeRepository.isSome && t.worktree.isNone) := by
    cases hr : t.worktreeRepository with
    | none => rfl
    | some _ => simpa using h.within (by simp [hr])
  simp only [tabOk, h.worktree, h.repository, hw, any_of_head? h.root, Bool.and_self]

theorem checkTabs_eq {ts : List Tab} (h : IdsOk ((ts.flatMap Tab.ids).reverse ++ seen)) (ho : ∀ t ∈ ts, TabOk t) :
    checkTabs seen ts = some ((ts.flatMap Tab.ids).reverse ++ seen) := by
  induction ts generalizing seen with
  | nil => rfl
  | cons t ts ih =>
    have ht := ho t List.mem_cons_self
    simp only [List.flatMap_cons, Tab.ids, List.cons_append, List.reverse_cons, List.reverse_append,
      List.append_assoc] at h ⊢
    have hp : IdsOk ((t.panes.map (·.id)).reverse ++ t.id :: seen) :=
      h.suffix (List.suffix_append _ _)
    simp only [checkTabs, insertId_eq hp, Option.bind_eq_bind, Option.bind_some, tabOk_of ht,
      if_true, checkPanes_eq hp ht.sourced ht.panes]
    exact ih h fun u hu => ho u (List.mem_cons_of_mem _ hu)

theorem workspaceOk_of {w : Workspace} (h : WorkspaceOk w) (hna : validName w.name) : workspaceOk w := by
  unfold validName at hna
  simp only [workspaceOk, hna, any_of_head? h.root, h.pinned, Bool.and_self]

theorem checkWorkspaces_eq (h : IdsOk ((allIds ws).reverse ++ seen)) (ho : ∀ w ∈ ws, WorkspaceOk w)
    (hna : ∀ w ∈ ws, validName w.name) :
    checkWorkspaces seen ws = some ((allIds ws).reverse ++ seen) := by
  induction ws generalizing seen with
  | nil => rfl
  | cons w ws ih =>
    have hw := ho w List.mem_cons_self
    simp only [allIds, List.flatMap_cons, Workspace.ids, List.cons_append, List.reverse_cons,
      List.reverse_append, List.append_assoc] at h ih ⊢
    have ht : IdsOk ((w.tabs.flatMap Tab.ids).reverse ++ w.id :: seen) :=
      h.suffix (List.suffix_append _ _)
    simp only [checkWorkspaces, insertId_eq ht, Option.bind_eq_bind, Option.bind_some,
      workspaceOk_of hw (hna w List.mem_cons_self), if_true, checkTabs_eq ht hw.tabs]
    exact ih h (fun v hv => ho v (List.mem_cons_of_mem _ hv))
      fun v hv => hna v (List.mem_cons_of_mem _ hv)

theorem checkPending_of {retired : Nat} (index : Nat) {os : List RetainedOutcome}
    (hs : os.map (·.sequence) = List.range' (retired + index + 1) os.length)
    (hr : retired + index + os.length < u64Max)
    (hok : ∀ o ∈ os, o.mutation.isBounded ∧ (o.outcome = .pending → o.mutation.isWorktree)) :
    checkPending retired index os := by
  induction os generalizing index with
  | nil => rfl
  | cons o os ih =>
    simp only [List.map_cons, List.length_cons, List.range'_succ, List.cons.injEq] at hs
    rw [List.length_cons] at hr
    obtain ⟨hb, hpending⟩ := hok o List.mem_cons_self
    have hw : !(o.outcome == .pending && !o.mutation.isWorktree) := by
      by_cases ho : o.outcome = .pending
      · simp [hpending ho]
      · simp [ho]
    have hrest := ih (index + 1) hs.2 (by omega)
      fun o' ho' => hok o' (List.mem_cons_of_mem _ ho')
    simp only [checkPending, hw, hb, hrest, Bool.and_true, Bool.true_and, Bool.and_eq_true,
      decide_eq_true_eq, beq_iff_eq, bne_iff_ne]
    omega

theorem checkDevices_of {ds : List DeviceOutcomes} (hl : LogOk ds) (hse : ∀ d ∈ ds, d.device ∉ seen)
    (hro : ∀ d ∈ ds, d.retired + d.pending.length < u64Max)
    (ho : ∀ d ∈ ds, ∀ o ∈ d.pending, o.mutation.isBounded ∧ (o.outcome = .pending → o.mutation.isWorktree)) :
    checkDevices seen ds := by
  induction ds generalizing seen with
  | nil => rfl
  | cons d ds ih =>
    have hmem : d ∈ d :: ds := List.mem_cons_self
    have hno := List.nodup_cons.mp hl.nodup
    have hpending := checkPending_of 0 (hl.contiguous d hmem) (hro d hmem) (ho d hmem)
    have hr : d.retired ≠ u64Max := by
      have := hro d hmem
      omega
    have hse' : ∀ e ∈ ds, e.device ∉ d.device :: seen := by
      intro e he hi
      rcases List.mem_cons.mp hi with hs | hi
      · exact hno.1 (List.mem_map.mpr ⟨e, he, hs⟩)
      · exact hse e (List.mem_cons_of_mem _ he) hi
    have hrest := ih ⟨hno.2, fun e he => hl.contiguous e (List.mem_cons_of_mem _ he)⟩ hse'
      (fun e he => hro e (List.mem_cons_of_mem _ he)) fun e he => ho e (List.mem_cons_of_mem _ he)
    simp [checkDevices, hse d hmem, hr, hpending, hrest]

end State

/-! ### `State::validate` accepts every state of the invariant -/

namespace Inv
variable {s : State}

theorem checkSessionEnds (h : Inv s) : s.checkSessionEnds := by
  unfold State.checkSessionEnds
  cases he : s.sessionEnds with
  | none => rfl
  | some ends =>
    have ho := h.ends ends he
    have hd : (ends.sessions.map (·.id)).dedup.length = ends.sessions.length := by
      rw [ho.nodup.dedup, List.length_map]
    have hno : ends.sessions.all fun p => p.id != 0 && p.session != some 0 := by
      rw [List.all_eq_true]
      intro p hp
      rw [Bool.and_eq_true, bne_iff_ne, bne_iff_ne]
      exact ho.nonzero p hp
    simp only [ho.boot, ho.sessionCount, ho.controlCount, hd, hno, BEq.rfl, decide_true, Bool.and_self]

theorem checkNames (h : Inv s) : s.checkNames := by
  have hl : s.names.length = s.inventory.workspaces.length := by
    simpa using congrArg List.length h.names
  have ho : ∀ w ∈ s.inventory.workspaces, (s.names.filter (·.workspace == w.id)).length = 1 := by
    intro w hw
    have hmem : w.id ∈ s.names.map (·.workspace) := h.names ▸ List.mem_map_of_mem hw
    have hc := List.count_eq_one_of_mem h.nodup_names hmem
    rwa [List.count, List.countP_map, List.countP_eq_length_filter] at hc
  have hh : s.inventory.workspaces.isEmpty || s.homeDirectory.isSome := by
    by_cases hempty : s.inventory.workspaces = []
    · simp [hempty]
    · simp [h.homed hempty]
  have hnames : ∀ n ∈ s.names, s.inventory.workspaces.any (·.id == n.workspace) ∧ n.custom.all validName := by
    intro n hn
    have hmem : n.workspace ∈ s.inventory.workspaces.map (·.id) := h.names ▸ List.mem_map_of_mem hn
    refine ⟨by simpa using hmem, ?_⟩
    cases hcu : n.custom with
    | none => rfl
    | some custom => exact h.customs n hn custom hcu
  simp only [State.checkNames, hl, hh, BEq.rfl, Bool.and_true, Bool.true_and,
    Bool.and_eq_true, List.all_eq_true, beq_iff_eq]
  exact ⟨ho, hnames⟩

theorem checkLimits (h : Inv s) : s.checkLimits := by
  have hf : s.sequenceFloor ≠ u64Max := h.devices.floor.ne
  simp only [State.checkLimits, h.home, h.workspaceCount, h.tabCount, h.paneCount,
    h.devices.deviceCount, h.devices.retained, bne_iff_ne.mpr hf, decide_true, Bool.and_self]

theorem validate (h : Inv s) : s.validate := by
  have hi : IdsOk ((allIds s.inventory.workspaces).reverse ++ []) := by
    rw [List.append_nil]
    exact ⟨List.nodup_reverse.mpr h.ids.nodup, fun hz => h.ids.nonzero (List.mem_reverse.mp hz)⟩
  have hd : State.checkDevices [] s.devices := State.checkDevices_of h.devices.log
    (fun _ _ => List.not_mem_nil) h.devices.room h.devices.outcomes
  simp only [State.validate, h.checkSessionEnds, h.checkNames, h.checkLimits, hd,
    State.checkWorkspaces_eq hi h.workspaces h.named, Option.isSome_some, Bool.and_self]

end Inv

/-! ### Every run of the server -/

namespace State
variable {s s' : State}

theorem addWorktreeTab_close {creator : Option Id} {workspace tab : Id}
    {root path startingDirectory : PathBuf} {fresh : Nat → Option Id}
    (h : s.addWorktreeTab creator workspace root path startingDirectory fresh = .ok (s', tab)) :
    s'.inventory.close = s.inventory.close := by
  unfold addWorktreeTab at h
  split at h
  · cases h
  split at h
  · cases h
  · split at h <;> cases h
    rfl

theorem repairDirectory_close {id : Id} {path : PathBuf} (h : s.repairDirectory id path = .ok s') :
    s'.inventory.close = s.inventory.close := by
  unfold repairDirectory at h
  split at h
  · cases h
  dsimp only at h
  split at h <;> cases h
  rfl

theorem confirmDirectory_close (s : State) (id : Id) (path : PathBuf) :
    (s.confirmDirectory id path).inventory.close = s.inventory.close := by
  unfold confirmDirectory
  split
  · rfl
  · split <;> rfl

theorem beginBoot_close (s : State) (boot : Id) : (s.beginBoot boot).inventory.close = s.inventory.close := by
  unfold beginBoot
  split <;> rfl

end State

/-- What holds between two operations: no live facts are kept. -/
structure Kept (s : State) : Prop extends Inv s where
  quiet : s.inventory.close = none

namespace Kept
variable {s s' : State}

theorem getD {x : Except Refusal State} (h : Kept s) (hx : ∀ s', x = .ok s' → Kept s') :
    Kept (x.toOption.getD s) := by
  cases x with
  | error _ => exact h
  | ok s' => exact hx s' rfl

theorem withDevices (h : Kept s) {devices : List DeviceOutcomes}
    (hd : DevicesOk { s with devices }) : Kept { s with devices } :=
  ⟨⟨h.toOrganized.congr rfl rfl rfl, hd, h.ends⟩, h.quiet⟩

theorem acknowledge (h : Kept s) {device : Id} {sequence : Nat}
    (ha : s.acknowledge device sequence = .ok s') : Kept s' := by
  have hd := h.devices.acknowledge ha
  unfold State.acknowledge at ha
  split at ha
  · cases ha
    exact h
  rename_i d _
  cases hr : d.retire sequence with
  | error _ => simp [hr] at ha
  | ok d' =>
    rw [hr] at ha
    cases ha
    exact h.withDevices hd

theorem forget (h : Kept s) (device : Id) : Kept (s.forget device).1 := by
  have hd := h.devices.forget device
  unfold State.forget at hd ⊢
  split
  · exact h
  rename_i hs
  rw [if_neg hs] at hd
  exact h.withDevices hd

theorem finishWorktree (h : Kept s) {device : Id} {sequence : Nat} {outcome : Outcome}
    (hf : s.finishWorktree device sequence outcome = .ok s') : Kept s' := by
  have hd := h.devices.finishWorktree hf
  unfold State.finishWorktree at hf
  split at hf
  · cases hf
  dsimp only at hf
  split at hf
  · cases hf
  · cases hf
    exact h.withDevices hd

theorem validName_defaultName : validName defaultName := by decide +kernel

theorem first {directory : PathBuf} {fresh : Nat → Option Id}
    (h : State.first directory fresh = some s) : Kept s := by
  simp only [State.first, Option.bind_eq_bind, Option.bind_eq_some_iff] at h
  obtain ⟨workspace, -, tab, -, pane, -, h⟩ := h
  obtain ⟨hv, hs⟩ := Option.ite_none_right_eq_some.mp h
  cases hs
  simp only [State.validate, Bool.and_eq_true] at hv
  obtain ⟨⟨⟨-, hl⟩, hi⟩, -⟩ := hv
  have hd : validPath directory := by
    simp only [State.checkLimits, Bool.and_eq_true] at hl
    exact hl.1.1.1.1.1.1
  have ht : TabOk (.created tab (.created pane none .right directory none) .following none none) :=
    .created (.created hd) rfl rfl rfl (by simp)
  refine ⟨⟨⟨⟨hd, fun _ => rfl, rfl, by simp, ?_, ?_, ?_, ?_, ?_⟩, ?_⟩, ?_, by simp⟩, rfl⟩
  · intro w hw
    obtain rfl := List.mem_singleton.mp hw
    exact ⟨rfl, rfl, by simpa [Workspace.created] using ht⟩
  · exact State.idsOk_of_checked rfl rfl hi
  · exact Nat.le_of_ble_eq_true rfl
  · simp [State.tabCount, Workspace.created, maxTabs]
  · simp [State.paneCount, Workspace.created, Tab.created, maxPanes]
  · intro w hw
    obtain rfl := List.mem_singleton.mp hw
    exact validName_defaultName
  · exact Inv.empty.devices.congr rfl rfl

/-- One operation keeps the invariant, whether or not it returns `Ok`. -/
theorem step {op : HostOp} (h : Kept s) (hs : HostOp.Step s op s') : Kept s' := by
  obtain ⟨hal, rfl⟩ := hs
  cases op with
  | apply live device sequence mutation directory validatePin fresh =>
    obtain ⟨hl, hd, hf⟩ := hal
    dsimp only [HostOp.run]
    split
    · rename_i next outcome ha
      have hne := h.toInv.apply h.quiet hl hd hf ha
      exact ⟨⟨hne.toOrganized.congr rfl rfl rfl, hne.devices.congr rfl rfl, hne.ends⟩, rfl⟩
    · exact h
  | acknowledge device sequence => exact h.getD fun _ => h.acknowledge
  | forget device => exact h.forget device
  | finishWorktree device sequence outcome => exact h.getD fun _ => h.finishWorktree
  | addWorktreeTab creator workspace root path startingDirectory fresh =>
    obtain ⟨hro, hp, hst, hf⟩ := hal
    dsimp only [HostOp.run]
    split
    · rename_i next tab ha
      refine ⟨h.toInv.addWorktreeTab hro hp hst hf ha, ?_⟩
      rw [State.addWorktreeTab_close ha]
      exact h.quiet
    · exact h
  | removePane pane =>
    exact ⟨⟨h.toOrganized.removePane pane, h.devices.congr rfl rfl, h.ends⟩, h.quiet⟩
  | repairDirectory pane path =>
    refine h.getD fun next hr => ⟨h.toInv.repairDirectory hal hr, ?_⟩
    rw [State.repairDirectory_close hr]
    exact h.quiet
  | confirmDirectory pane path =>
    refine ⟨h.toInv.confirmDirectory pane hal, ?_⟩
    show (s.confirmDirectory pane path).inventory.close = none
    rw [State.confirmDirectory_close]
    exact h.quiet
  | beginBoot boot =>
    refine ⟨h.toInv.beginBoot boot, ?_⟩
    show (s.beginBoot boot).inventory.close = none
    rw [State.beginBoot_close]
    exact h.quiet

end Kept

/-- Every state the server keeps validates, as long as its callers pass paths that are valid, identities
that are fresh and live facts of the state they ask about (`HostOp.Allowed`). -/
theorem kept_states_validate {s₀ s : State} {ops : List HostOp}
    (hstart : s₀ = .empty ∨ ∃ directory fresh, State.first directory fresh = some s₀)
    (hrun : Run HostOp.Step s₀ ops s) : s.validate := by
  have hke : Kept s₀ := by
    rcases hstart with rfl | ⟨directory, fresh, hf⟩
    · exact ⟨.empty, rfl⟩
    · exact .first hf
  exact (hrun.invariant hke Kept.step).validate

def threeIds : Nat → Option Id
  | 0 => some 1
  | 1 => some 2
  | 2 => some 3
  | _ => none

theorem fresh_threeIds : Fresh threeIds [] := by
  constructor
  · intro i a h
    match i, h with
    | 0, h | 1, h | 2, h =>
      cases h
      exact ⟨by decide, List.not_mem_nil⟩
  intro i j a hi hj
  match i, j, hi, hj with
  | 0, 0, _, _ | 1, 1, _, _ | 2, 2, _, _ => rfl
  | 0, 1, hi, hj | 0, 2, hi, hj | 1, 0, hi, hj | 1, 2, hi, hj | 2, 0, hi, hj | 2, 1, hi, hj =>
    exact absurd (hi.trans hj.symm) (by decide)

/-- A device's first edit of an empty server: a Workspace without a name. -/
def createFirst : HostOp :=
  .apply none 9 1 (.createWorkspace [] none .creator) ⟨[47]⟩ (fun _ => true) threeIds

theorem kept_states_validate_create_first :
    (createFirst.run .empty).inventory.workspaces.length = 1 ∧ (createFirst.run .empty).validate := by
  have ha : createFirst.Allowed .empty := ⟨by simp, by decide, fresh_threeIds⟩
  have hr : Run HostOp.Step .empty [createFirst] (createFirst.run .empty) :=
    .single ⟨ha, rfl⟩
  exact ⟨by decide +kernel, kept_states_validate (.inl rfl) hr⟩

end SpaceTerm.Hierarchy
