import SpaceTerm.Layout.TabInv

/-! # What a drop does

`resolve_drop` of `domain/tab.rs`, which tells what releasing a dragged Pane over another one does, and
`move_pane` and `swap_panes`, which do it. -/

namespace SpaceTerm.Layout

inductive PaneDrop
  | edge (edge : PaneEdge)
  | swap
  deriving DecidableEq

variable {F T : Type}

/-- The Panes of a layout in its Splits, without the identities and the ratios of the Splits. -/
inductive Places
  | pane (id : PaneId)
  | split (axis : SplitAxis) (first second : Places)
  deriving DecidableEq

def PaneNode.places : PaneNode F → Places
  | leaf id => .pane id
  | split _ axis _ first second => .split axis first.places second.places

theorem PaneNode.hasArrangementOf_iff (node other : PaneNode F) :
    node.hasArrangementOf other = true ↔ node.places = other.places := by
  induction node generalizing other with
  | leaf id => cases other <;> simp [hasArrangementOf, places]
  | split splitId axis ratio first second ihf ihs =>
    cases other with
    | leaf => simp [hasArrangementOf, places]
    | split => simp [hasArrangementOf, places, ihf, ihs, and_assoc]

namespace Tab
variable [Scalar F]

def canReceive (tab : Tab F T) (target : PaneId) (edge : PaneEdge) (incoming targetSize : PaneSize F)
    (dividerSize : F) : Bool :=
  tab.root.containsPane target && (validateDividerSize dividerSize).isOk &&
    (do ensureSpace targetSize (← combinedMinimum tab.minimumPaneSize incoming edge.axis dividerSize)).isOk

def resolveDrop (tab : Tab F T) (id target : PaneId) (drop : PaneDrop) (targetSize : PaneSize F)
    (dividerSize : F) : Option PaneDrop :=
  if id = target || !tab.root.containsPane id || !tab.root.containsPane target then none
  else match drop with
    | .swap => some .swap
    | .edge edge => do
      let moved ← tab.movedRoot id target edge
      if moved.hasArrangementOf tab.root then none
      else if moved.hasArrangementOf (tab.root.exchangePanes id target) then some .swap
      else if tab.canReceive target edge tab.minimumPaneSize targetSize dividerSize then some drop
      else none

/-- Room for one more Pane is what `validate_split` asks for. -/
theorem canReceive_iff (tab : Tab F T) (target : PaneId) (edge : PaneEdge) (size : PaneSize F) (divider : F) :
    tab.canReceive target edge tab.minimumPaneSize size divider = true ↔
      tab.validateSplit target edge.axis size divider = .ok () := by
  have isOk_iff : ∀ x : Except (PaneError F) Unit, x.isOk = true ↔ x = .ok () := by
    intro x
    cases x <;> simp [Except.isOk, Except.toBool]
  unfold canReceive validateSplit
  cases tab.root.containsPane target with
  | false => simp [bind, Except.bind]
  | true =>
    cases validateDividerSize divider with
    | error e => simp [bind, Except.bind, Except.isOk, Except.toBool]
    | ok => exact isOk_iff _

section Drops
variable {tab : Tab F T} {id target : PaneId}

/-- `move_pane` to another Pane's edge, by the layout it would leave. -/
theorem movePane_cases (hi : id ∈ tab.root.leaves) (hne : id ≠ target) (hnext : tab.nextSplitId < maxId)
    {edge : PaneEdge} {moved : PaneNode F} (hm : tab.movedRoot id target edge = some moved)
    (size : PaneSize F) (divider : F) :
    (∃ e, tab.validateSplit target edge.axis size divider = .error e ∧
      tab.movePane id target edge size divider = .error e) ∨
    tab.validateSplit target edge.axis size divider = .ok () ∧
      if moved.places = tab.root.places then tab.movePane id target edge size divider = .ok (false, tab)
      else ∃ after, tab.movePane id target edge size divider = .ok (true, after) ∧ after.root = moved := by
  rw [movePane, if_pos (PaneNode.containsPane_iff.mpr hi)]
  cases tab.validateSplit target edge.axis size divider with
  | error e => exact .inl ⟨e, rfl, rfl⟩
  | ok =>
    refine .inr ⟨rfl, ?_⟩
    simp only [bind, Except.bind, moveBeside, if_neg hne, checkedSucc, if_pos hnext, hm,
      PaneNode.hasArrangementOf_iff]
    split_ifs with hsame
    · rfl
    · exact ⟨_, rfl, rfl⟩

omit [Scalar F] in
theorem swapPanes_eq (hi : id ∈ tab.root.leaves) (ht : target ∈ tab.root.leaves) (hne : id ≠ target) :
    ∃ after, tab.swapPanes id target = .ok (true, after) ∧ after.root = tab.root.exchangePanes id target := by
  rw [swapPanes, if_neg (by simp [hi]), if_neg (by simp [ht]), if_neg hne]
  exact ⟨_, rfl, rfl⟩

/-- `resolve_drop` tells what the move it stands for does, unless the identities of Splits are
exhausted. -/
theorem resolveDrop_exact (hi : id ∈ tab.root.leaves) (ht : target ∈ tab.root.leaves) (hne : id ≠ target)
    (hnext : tab.nextSplitId < maxId) (drop : PaneDrop) (size : PaneSize F) (divider : F) :
    match drop, tab.resolveDrop id target drop size divider with
    | .edge edge, some (.edge edge') => edge' = edge ∧ ∃ after,
        tab.movePane id target edge size divider = .ok (true, after) ∧ after.root.places ≠ tab.root.places
    | .edge edge, some .swap => ∃ after moved, tab.swapPanes id target = .ok (true, after) ∧
        tab.movedRoot id target edge = some moved ∧ after.root.places = moved.places ∧
        ∀ changed result, tab.movePane id target edge size divider = .ok (changed, result) →
          result.root.places = after.root.places
    | .edge edge, none => ∀ changed result,
        tab.movePane id target edge size divider = .ok (changed, result) → changed = false ∧ result = tab
    | .swap, resolved => resolved = some .swap ∧ ∃ after, tab.swapPanes id target = .ok (true, after) := by
  obtain ⟨after, hs, hroot⟩ := swapPanes_eq hi ht hne
  have hguard : (id = target || !tab.root.containsPane id || !tab.root.containsPane target) = false := by
    simp [hne, hi, ht]
  unfold resolveDrop
  rw [hguard, if_neg Bool.false_ne_true]
  cases drop with
  | swap => exact ⟨rfl, after, hs⟩
  | edge edge =>
    obtain ⟨moved, hm⟩ := WellFormed.movedRoot_isSome edge hi ht hne
    have hcases := movePane_cases hi hne hnext hm size divider
    have hroom := tab.canReceive_iff target edge size divider
    simp only [hm, Option.bind_eq_bind, Option.bind_some, PaneNode.hasArrangementOf_iff]
    -- the tests of the source, in its order
    by_cases hsame : moved.places = tab.root.places
    · simp only [if_pos hsame] at hcases ⊢
      intro changed result hr
      rcases hcases with ⟨e, -, he⟩ | ⟨-, ho⟩
      · cases he.symm.trans hr
      · cases ho.symm.trans hr
        exact ⟨rfl, rfl⟩
    simp only [if_neg hsame] at hcases ⊢
    by_cases hswap : moved.places = (tab.root.exchangePanes id target).places
    · rw [if_pos hswap]
      refine ⟨after, moved, hs, hm, by rw [hroot, hswap], fun changed result hr => ?_⟩
      rcases hcases with ⟨e, -, he⟩ | ⟨-, moved', ho, hmoved⟩
      · cases he.symm.trans hr
      · cases ho.symm.trans hr
        rw [hmoved, hswap, hroot]
    rw [if_neg hswap]
    rcases hcases with ⟨e, hv, he⟩ | ⟨hv, after', ho, hmoved⟩
    · rw [if_neg fun h => nomatch hv.symm.trans (hroom.mp h)]
      intro changed result hr
      cases he.symm.trans hr
    · rw [if_pos (hroom.mpr hv)]
      exact ⟨rfl, after', ho, hmoved ▸ hsame⟩

end Drops

/-- Two Panes side by side, with `next` as the next Split. -/
def besides (next : Nat) : Tab ℚ Unit :=
  { (Desk.calls { tab := Tab.new (F := ℚ) 7 ⟨100, 50⟩ fun _ => () } [.insertPane ⟨1⟩ .right fun _ => ()]).tab with
    nextSplitId := next }

theorem resolveDrop_exact_besides : (besides 2).resolveDrop ⟨1⟩ ⟨2⟩ (.edge .left) ⟨10, 10⟩ 0 = none ∧
    ∀ changed result, (besides 2).movePane ⟨1⟩ ⟨2⟩ .left ⟨10, 10⟩ 0 = .ok (changed, result) →
      changed = false ∧ result = besides 2 := by
  have hn : (besides 2).resolveDrop ⟨1⟩ ⟨2⟩ (.edge .left) ⟨10, 10⟩ 0 = none := by decide +kernel
  have h := @resolveDrop_exact ℚ Unit _ (besides 2) ⟨1⟩ ⟨2⟩ (by decide +kernel) (by decide +kernel) (by decide)
    (by decide) (.edge .left) ⟨10, 10⟩ 0
  rw [hn] at h
  exact ⟨hn, h⟩

theorem resolveDrop_exhausted : (besides maxId).WellFormed ∧
    (besides maxId).resolveDrop ⟨1⟩ ⟨2⟩ (.edge .top) ⟨200, 200⟩ 0 = some (.edge .top) ∧
    ((besides maxId).movePane ⟨1⟩ ⟨2⟩ .top ⟨200, 200⟩ 0).isOk = false := by
  have hw : (besides 2).WellFormed := Desk.calls_wellFormed ..
  exact ⟨{ hw with splitBound := by decide +kernel }, by decide +kernel, by decide +kernel⟩

end Tab
end SpaceTerm.Layout
