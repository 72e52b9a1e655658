import SpaceTerm.Layout.Closing
import SpaceTerm.Lib.LeafTree

/-! # The algebra of layouts

Splitting a leaf is undone by removing the new one, a removal keeps the order of the other Panes and
every Split that still has two sides, and a parked Pane that returns to an unchanged layout finds its
old place. The last needs that the layout equals itself, which a ratio that is not a number would
prevent: no call brings one in. -/

namespace SpaceTerm.Layout
open Lib

variable {F T : Type}

/-- What the source relies on of `f32`: only a value that is not a number differs from itself, and a clamp
that returns gives its argument or one of the bounds it was compared with. -/
class Scalar.Exact (F : Type) [Scalar F] : Prop where
  eq_half : Scalar.eq (Scalar.half : F) Scalar.half = true
  eq_of_isFinite {a : F} : Scalar.isFinite a = true → Scalar.eq a a = true
  eq_clamp {a : F} (lowest highest : F) : Scalar.eq a a = true →
    Scalar.eq (Scalar.clamp a lowest highest) (Scalar.clamp a lowest highest) = true

namespace PaneNode
variable {node node' : PaneNode F} {target new : PaneId} {splitId : SplitId} {edge : PaneEdge}

/-! ## Splitting and removing -/

theorem withoutPane_eq_none (h : target ∉ node.leaves) : node.withoutPane target = none := by
  induction node with
  | leaf id =>
    have hne : id ≠ target := fun he => h (he ▸ List.mem_singleton_self _)
    rw [withoutPane, if_neg hne]
  | split id axis ratio first second ihFirst ihSecond =>
    rw [leaves, List.mem_append, not_or] at h
    rw [withoutPane, ihFirst h.1, ihSecond h.2]
    rfl

theorem withoutPane_withSplit [Scalar F] (hnew : new ∉ node.leaves)
    (h : node.withSplit target new splitId edge = some node') :
    ∃ fallback, node'.withoutPane new = some ⟨some node, fallback⟩ := by
  induction node generalizing node' with
  | leaf id =>
    have hne : id ≠ new := fun he => hnew (he ▸ List.mem_singleton_self _)
    rw [withSplit] at h
    split at h
    · cases hl : edge.leads with
      | true =>
        obtain rfl := Option.some.inj (by simpa [hl] using h)
        exact ⟨id, by simp [withoutPane, firstPaneId]⟩
      | false =>
        obtain rfl := Option.some.inj (by simpa [hl] using h)
        exact ⟨id, by simp [withoutPane, lastPaneId, hne]⟩
    · cases h
  | split id axis ratio first second ihFirst ihSecond =>
    rw [leaves, List.mem_append, not_or] at hnew
    rw [withSplit] at h
    split at h
    · next first' hf =>
      cases h
      obtain ⟨fallback, hr⟩ := ihFirst hnew.1 hf
      exact ⟨fallback, by rw [withoutPane, hr]⟩
    · obtain ⟨second', hs, rfl⟩ := Option.map_eq_some_iff.mp h
      obtain ⟨fallback, hr⟩ := ihSecond hnew.2 hs
      exact ⟨fallback, by rw [withoutPane, withoutPane_eq_none hnew.1, hr]; rfl⟩

/-- How a leaf leaves a layout: the other side of its Split takes the Split's place. -/
inductive Cut (target : PaneId) : PaneNode F → Option (PaneNode F) → Prop
  | leaf : Cut target (leaf target) none
  | first {id axis ratio first first' second} (h : Cut target first (some first')) :
    Cut target (split id axis ratio first second) (some (split id axis ratio first' second))
  | ofFirst {id axis ratio first second} (h : Cut target first none) :
    Cut target (split id axis ratio first second) (some second)
  | second {id axis ratio first second second'} (h : Cut target second (some second')) :
    Cut target (split id axis ratio first second) (some (split id axis ratio first second'))
  | ofSecond {id axis ratio first second} (h : Cut target second none) :
    Cut target (split id axis ratio first second) (some first)

theorem withoutPane_cut {removal : PaneRemoval F} (h : node.withoutPane target = some removal) :
    Cut target node removal.replacement := by
  induction node generalizing removal with
  | leaf id =>
    rw [withoutPane] at h
    split at h
    · next hi =>
      cases h
      rw [hi]
      exact .leaf
    · cases h
  | split id axis ratio first second ihFirst ihSecond =>
    rw [withoutPane] at h
    split at h
    · next hf =>
      cases h
      exact .first (ihFirst hf)
    · next hf =>
      cases h
      exact .ofFirst (ihFirst hf)
    · obtain ⟨⟨replacement, fallback⟩, hs, rfl⟩ := Option.map_eq_some_iff.mp h
      have hc := ihSecond hs
      cases replacement with
      | some second' => exact .second hc
      | none => exact .ofSecond hc

def tree : PaneNode F → LeafTree (SplitId × SplitAxis × F) PaneId
  | leaf id => .leaf id
  | split id axis ratio first second => .node (id, axis, ratio) first.tree second.tree

theorem leaves_tree (node : PaneNode F) : node.tree.leaves = node.leaves := by
  induction node with
  | leaf id => rfl
  | split id axis ratio first second ihFirst ihSecond => rw [tree, LeafTree.leaves, ihFirst, ihSecond, leaves]

namespace Cut
variable {result : Option (PaneNode F)}

theorem mem (h : Cut target node result) : target ∈ node.leaves := by
  induction h with
  | leaf => exact List.mem_singleton_self _
  | first _ ih | ofFirst _ ih => exact List.mem_append_left _ ih
  | second _ ih | ofSecond _ ih => exact List.mem_append_right _ ih

theorem restrict_other {side : PaneNode F} (h : target ∉ side.leaves) :
    side.tree.restrict (· ≠ target) = some side.tree := by
  refine LeafTree.restrict_all fun id hi => ?_
  rw [leaves_tree] at hi
  simpa using fun he : id = target => h (he ▸ hi)

theorem restrict (h : Cut target node result) (hno : node.leaves.Nodup) :
    node.tree.restrict (· ≠ target) = result.map tree := by
  induction h with
  | leaf => simp [tree, LeafTree.restrict]
  | first h ih | ofFirst h ih =>
    obtain ⟨hf, -, hd⟩ := List.nodup_append'.mp hno
    rw [tree, LeafTree.restrict, ih hf, restrict_other fun hi => hd h.mem hi]
    rfl
  | second h ih | ofSecond h ih =>
    obtain ⟨-, hs, hd⟩ := List.nodup_append'.mp hno
    rw [tree, LeafTree.restrict, ih hs, restrict_other fun hi => hd hi h.mem]
    rfl

end Cut

/-! ## Layouts that equal themselves -/

section Exact
variable [Scalar F]

theorem same_split {id : SplitId} {axis : SplitAxis} {ratio : F} {first second : PaneNode F} :
    (split id axis ratio first second).same (split id axis ratio first second) = true ↔
      Scalar.eq ratio ratio = true ∧ first.same first = true ∧ second.same second = true := by
  simp [same, and_assoc]

theorem Cut.same {rest : PaneNode F} (h : Cut target node (some rest)) (hn : node.same node = true) :
    rest.same rest = true := by
  generalize hr : some rest = result at h
  induction h generalizing rest with
  | leaf => cases hr
  | first _ ih =>
    cases hr
    obtain ⟨he, hf, hs⟩ := same_split.mp hn
    exact same_split.mpr ⟨he, ih hf rfl, hs⟩
  | second _ ih =>
    cases hr
    obtain ⟨he, hf, hs⟩ := same_split.mp hn
    exact same_split.mpr ⟨he, hf, ih hs rfl⟩
  | ofFirst =>
    cases hr
    exact (same_split.mp hn).2.2
  | ofSecond =>
    cases hr
    exact (same_split.mp hn).2.1

theorem exchangePanes_same {a b : PaneId} (hn : node.same node = true) :
    (node.exchangePanes a b).same (node.exchangePanes a b) = true := by
  induction node with
  | leaf id => simp [exchangePanes, same]
  | split id axis ratio first second ihFirst ihSecond =>
    obtain ⟨he, hf, hs⟩ := same_split.mp hn
    exact same_split.mpr ⟨he, ihFirst hf, ihSecond hs⟩

theorem setRatio_same {target : SplitId} {value : F} (hv : Scalar.eq value value = true)
    (h : node.setRatio target value = some node') (hn : node.same node = true) :
    node'.same node' = true := by
  induction node generalizing node' with
  | leaf id => cases h
  | split id axis ratio first second ihFirst ihSecond =>
    obtain ⟨he, hf, hs⟩ := same_split.mp hn
    rw [setRatio] at h
    split at h
    · cases h
      exact same_split.mpr ⟨hv, hf, hs⟩
    split at h
    · next first' hr =>
      cases h
      exact same_split.mpr ⟨he, ihFirst hr hf, hs⟩
    · obtain ⟨second', hr, rfl⟩ := Option.map_eq_some_iff.mp h
      exact same_split.mpr ⟨he, hf, ihSecond hr hs⟩

variable [Scalar.Exact F]

theorem withSplit_same (h : node.withSplit target new splitId edge = some node')
    (hn : node.same node = true) : node'.same node' = true := by
  induction node generalizing node' with
  | leaf id =>
    rw [withSplit] at h
    split at h
    · cases h
      exact same_split.mpr ⟨Scalar.Exact.eq_half, by simp [same], by simp [same]⟩
    · cases h
  | split id axis ratio first second ihFirst ihSecond =>
    obtain ⟨he, hf, hs⟩ := same_split.mp hn
    rw [withSplit] at h
    split at h
    · next first' hr =>
      cases h
      exact same_split.mpr ⟨he, ihFirst hr hf, hs⟩
    · obtain ⟨second', hr, rfl⟩ := Option.map_eq_some_iff.mp h
      exact same_split.mpr ⟨he, hf, ihSecond hr hs⟩

theorem fitRatios_same (minimum : PaneSize F) (dividerSize : F) (available : PaneSize F)
    (hn : node.same node = true) :
    (node.fitRatios minimum dividerSize available).same (node.fitRatios minimum dividerSize available) = true := by
  induction node generalizing available with
  | leaf id => exact hn
  | split id axis ratio first second ihFirst ihSecond =>
    obtain ⟨he, hf, hs⟩ := same_split.mp hn
    rw [fitRatios]
    split
    · next firstMinimum secondMinimum _ _ =>
      split
      · exact hn
      have hr : ∀ ratio' sizes, fittedRatio available firstMinimum secondMinimum axis ratio dividerSize =
          (ratio', sizes) → Scalar.eq ratio' ratio' = true := by
        intro ratio' sizes hfit
        obtain rfl := congrArg Prod.fst hfit
        dsimp only [fittedRatio]
        split
        · exact Scalar.Exact.eq_clamp _ _ he
        · exact he
      split
      · next hfit => exact same_split.mpr ⟨hr _ _ hfit, ihFirst _ hf, ihSecond _ hs⟩
      · next hfit => exact same_split.mpr ⟨hr _ _ hfit, hf, hs⟩
    · exact hn

end Exact
end PaneNode

/-! ## Parking and returning -/

namespace Tab
variable [Scalar F] {tab tab' : Tab F T} {id target : PaneId} {edge : PaneEdge}

/-- A layout that equals itself. -/
def Exact (tab : Tab F T) : Prop := tab.root.same tab.root = true

theorem closePane_exact {outcome : ClosePaneOutcome T} (h : tab.closePane id = .ok (outcome, tab'))
    (he : tab.Exact) : tab'.Exact := by
  unfold closePane at h
  split at h
  · cases h
  next removal hr =>
  split at h
  · cases h
    exact he
  split at h
  · next root pane hro hp =>
    cases h
    unfold Exact
    rw [WellFormed.removed_root]
    exact PaneNode.Cut.same (hro ▸ PaneNode.withoutPane_cut hr) he
  · cases h

theorem movedRoot_exact [Scalar.Exact F] {root : PaneNode F} (h : tab.movedRoot id target edge = some root)
    (he : tab.Exact) : root.same root = true := by
  obtain ⟨removal, hr, h⟩ := Option.bind_eq_some_iff.mp h
  obtain ⟨remaining, hre, hs⟩ := Option.bind_eq_some_iff.mp h
  exact PaneNode.withSplit_same hs (PaneNode.Cut.same (hre ▸ PaneNode.withoutPane_cut hr) he)

theorem build_same [Scalar.Exact F] {arrangement : PaneArrangement F} {placed placed' : List PaneId × Nat}
    {root : PaneNode F} (h : build arrangement placed = .ok (root, placed')) : root.same root = true := by
  induction arrangement generalizing placed placed' root with
  | pane id =>
    simp only [build] at h
    split at h
    · cases h
    · cases h
      simp [PaneNode.same]
  | split axis ratio first second ihFirst ihSecond =>
    simp only [build] at h
    split at h
    · cases h
    next hratio =>
    split at h
    · cases h
    obtain ⟨⟨first', placed⟩, hf, h⟩ := ok_bind h
    obtain ⟨⟨second', placed'⟩, hs, h⟩ := ok_bind h
    cases h
    refine PaneNode.same_split.mpr ⟨Scalar.Exact.eq_of_isFinite ?_, ihFirst hf, ihSecond hs⟩
    simp only [Bool.or_eq_true, not_or] at hratio
    simpa using hratio.1.1

section Calls
variable [Scalar.Exact F]

theorem insertPane_exact {source : PaneId} {createPane : PaneId → T}
    (h : tab.insertPane source edge createPane = .ok (id, tab')) (he : tab.Exact) : tab'.Exact := by
  obtain ⟨⟨paneId, splitId, nextPaneId, nextSplitId⟩, -, h⟩ := ok_bind h
  dsimp only at h
  split at h
  · cases h
  · next root hr =>
    cases h
    exact PaneNode.withSplit_same hr he

theorem movePane_exact {targetSize : PaneSize F} {dividerSize : F} {changed : Bool}
    (h : tab.movePane id target edge targetSize dividerSize = .ok (changed, tab')) (he : tab.Exact) :
    tab'.Exact := by
  unfold movePane at h
  split at h
  · obtain ⟨⟨⟩, -, h⟩ := ok_bind h
    unfold moveBeside at h
    split at h
    · cases h
      exact he
    split at h
    · cases h
    split at h
    · cases h
      exact he
    next root hr =>
    split at h
    · cases h
      exact he
    · cases h
      exact movedRoot_exact hr he
  · cases h

theorem restoreParkedPane_exact {parked : ParkedPane F T} {source restored : PaneId}
    (h : tab.restoreParkedPane parked source edge = .ok (restored, tab')) (he : tab.Exact)
    (ho : parked.original.same parked.original = true) : tab'.Exact := by
  obtain ⟨⟨root, next⟩, hr, h⟩ := ok_bind h
  cases h
  unfold restoredRoot at hr
  split at hr
  · cases hr
    exact ho
  split at hr
  · cases hr
  split at hr
  · cases hr
  · next hs =>
    cases hr
    exact PaneNode.withSplit_same hs he

theorem restoreArrangement_exact {arrangement : PaneArrangement F}
    (h : tab.restoreArrangement arrangement = .ok tab') : tab'.Exact := by
  obtain ⟨⟨root, panes, next⟩, hb, h⟩ := ok_bind h
  dsimp only at h
  split at h
  · cases h
  · cases h
    exact build_same hb

theorem resizeSplit_exact {splitId : SplitId} {available : PaneSize F} {dividerSize requested ratio : F}
    (h : tab.resizeSplit splitId available dividerSize requested = .ok (ratio, tab')) (he : tab.Exact) :
    tab'.Exact := by
  obtain ⟨⟨⟩, -, h⟩ := ok_bind h
  split at h
  · cases h
  next hfin =>
  obtain ⟨⟨lowest, highest⟩, -, h⟩ := ok_bind h
  dsimp only at h
  split at h
  · cases h
  · next root hr =>
    cases h
    have hfin : Scalar.isFinite requested = true := by simpa using hfin
    exact PaneNode.setRatio_same
      (Scalar.Exact.eq_clamp _ _ (Scalar.Exact.eq_of_isFinite hfin)) hr he

end Calls

theorem park_restores {parked : ParkedPane F T} {later : Tab F T} (he : tab.Exact)
    (h : tab.parkPane id = .ok (some parked, tab')) (hr : later.root = tab'.root)
    (hp : later.panes = tab'.panes) (hi : later.rootPaneId = tab'.rootPaneId) (source : PaneId)
    (edge : PaneEdge) : ∃ back, later.restoreParkedPane parked source edge = .ok (id, back) ∧
      back.root = tab.root ∧ back.rootPaneId = tab.rootPaneId ∧ back.panes = tab.panes := by
  obtain ⟨focused, pane, hc, rfl⟩ := parkPane_closed h
  have hs : later.root.same tab'.root = true := by
    rw [hr]
    exact closePane_exact hc he
  obtain ⟨-, hget, root, fallback, -, rfl⟩ := closePane_removed hc
  obtain ⟨mid, hmid, hpanes, hroot, -⟩ := removed_eq tab id root fallback
  rw [restoreParkedPane, restoredRoot, if_pos hs]
  refine ⟨_, rfl, rfl, ?_, ?_⟩
  · dsimp only
    rw [hi, hmid, unzoomClosed_rootPaneId, hroot]
    by_cases hw : tab.rootPaneId = id
    · simp [hw]
    · simp [hw]
  · dsimp only
    rw [hp, hmid, unzoomClosed_panes, hpanes]
    refine FMap.ext fun k => ?_
    rw [FMap.get_insert, FMap.get_erase]
    split
    · next hk => rw [hk, hget]
    · rfl

end Tab

namespace Desk
variable [Scalar F] {desk : Desk F T}

structure Exact (desk : Desk F T) : Prop where
  tab : desk.tab.Exact
  parked : ∀ p ∈ desk.parked, p.original.same p.original = true

namespace Exact

theorem after {α : Type} (h : desk.Exact) {result : Except (PaneError F) (α × Tab F T)}
    (hr : ∀ value tab, result = .ok (value, tab) → tab.Exact) : (desk.after result).Exact := by
  unfold Desk.after
  split
  · next value tab => exact ⟨hr value tab rfl, h.parked⟩
  · exact h

theorem moved {α : Type} (h : desk.Exact) {result : Option (α × Tab F T)}
    (hr : ∀ value tab, result = some (value, tab) → tab.root = desk.tab.root) : (desk.moved result).Exact := by
  unfold Desk.moved
  split
  · next value tab => exact ⟨show tab.root.same tab.root = true from hr value tab rfl ▸ h.tab, h.parked⟩
  · exact h

theorem call [Scalar.Exact F] (h : desk.Exact) (call : Call F T) : (desk.call call).Exact := by
  cases call with
  | insertPane source edge createPane => exact h.after fun _ _ ho => Tab.insertPane_exact ho h.tab
  | movePane id target edge targetSize dividerSize => exact h.after fun _ _ ho => Tab.movePane_exact ho h.tab
  | swapPanes id target =>
    refine h.after fun changed tab ho => ?_
    unfold Tab.swapPanes at ho
    split_ifs at ho
    · cases ho
      exact h.tab
    · cases ho
      exact PaneNode.exchangePanes_same h.tab
  | closePane id => exact h.after fun _ _ ho => Tab.closePane_exact ho h.tab
  | parkPane id =>
    simp only [Desk.call]
    split
    · next parked tab ho =>
      obtain ⟨⟨outcome, closed⟩, hc, hp⟩ := ok_bind ho
      have ht := Tab.closePane_exact hc h.tab
      cases outcome with
      | paneClosed closedId focused pane =>
        cases hp
        refine ⟨ht, fun p hp => ?_⟩
        rcases List.mem_append.mp hp with hp | hp
        · exact h.parked p hp
        · obtain rfl := List.mem_singleton.mp hp
          exact h.tab
      | closeTab tabId =>
        cases hp
        exact ⟨ht, fun p hp => h.parked p (by simpa using hp)⟩
    · exact h
  | restoreParkedPane index source edge =>
    simp only [Desk.call]
    have hf : Exact { desk with parked := desk.parked.eraseIdx index } :=
      ⟨h.tab, fun p hp => h.parked p (List.mem_of_mem_eraseIdx hp)⟩
    split
    · next parked hi =>
      exact hf.after fun _ _ ho =>
        Tab.restoreParkedPane_exact ho h.tab (h.parked parked (List.mem_of_getElem? hi))
    · exact h
  | dropParked index => exact ⟨h.tab, fun p hp => h.parked p (List.mem_of_mem_eraseIdx hp)⟩
  | restoreArrangement arrangement =>
    refine h.after fun value tab ho => ?_
    cases hr : desk.tab.restoreArrangement arrangement with
    | error e =>
      rw [hr] at ho
      cases ho
    | ok tab' =>
      rw [hr] at ho
      cases ho
      exact Tab.restoreArrangement_exact hr
  | restoreFocus history focused zoomed => exact ⟨h.tab, h.parked⟩
  | focusPane id =>
    refine h.after fun value tab ho => ?_
    unfold Tab.focusPane at ho
    split at ho
    · cases ho
      exact h.tab
    · cases ho
  | focusPaneInDirection direction =>
    refine h.moved fun id tab ho => ?_
    obtain ⟨id', -, he⟩ := Option.map_eq_some_iff.mp ho
    obtain rfl : desk.tab.setFocusedPane id' = tab := congrArg Prod.snd he
    rfl
  | focusPaneInHistory step =>
    refine h.moved fun id tab ho => ?_
    unfold Tab.focusPaneInHistory at ho
    split at ho
    · cases ho
    simp only [Option.bind_eq_bind, Option.bind_eq_some_iff, Option.pure_def, Option.some.injEq,
      Prod.mk.injEq] at ho
    obtain ⟨current, -, id', -, -, rfl⟩ := ho
    rfl
  | toggleZoom =>
    refine h.moved fun state tab ho => ?_
    unfold Tab.toggleZoom at ho
    split at ho
    · cases ho
    · cases ho
      rfl
  | fitSplitRatios available dividerSize =>
    refine ⟨?_, h.parked⟩
    simp only [Desk.call]
    unfold Tab.fitSplitRatios
    split
    · exact PaneNode.fitRatios_same _ _ _ h.tab
    · exact h.tab
  | resizeSplit splitId available dividerSize requested =>
    exact h.after fun _ _ ho => Tab.resizeSplit_exact ho h.tab
  | setMinimumPaneSize size => exact ⟨h.tab, h.parked⟩

theorem calls [Scalar.Exact F] (h : desk.Exact) (calls : List (Call F T)) : (desk.calls calls).Exact := by
  induction calls generalizing desk with
  | nil => exact h
  | cons call calls ih => exact ih (h.call call)

end Exact

theorem calls_exact [Scalar.Exact F] (id : Nat) (minimumPaneSize : PaneSize F)
    (createInitialPane : PaneId → T) (calls : List (Call F T)) :
    (Desk.calls { tab := Tab.new id minimumPaneSize createInitialPane } calls).tab.Exact := by
  have hnew : Exact { tab := Tab.new id minimumPaneSize createInitialPane } :=
    ⟨by simp [Tab.Exact, Tab.new, PaneNode.same], nofun⟩
  exact (hnew.calls calls).tab

end Desk

structure Algebra (F T : Type) [Scalar F] : Prop where
  split_remove (node : PaneNode F) (target new : PaneId) (splitId : SplitId) (edge : PaneEdge)
    (hno : node.leaves.Nodup) (ht : target ∈ node.leaves) (hnew : new ∉ node.leaves) :
    ∃ node' fallback, node.withSplit target new splitId edge = some node' ∧
      node'.withoutPane new = some ⟨some node, fallback⟩
  /-- A removal keeps the order of the others, and every Split that keeps a Pane on either side with its
  identity, axis and ratio and with what is left of its sides: the rest is the restriction. -/
  remove (node : PaneNode F) (target : PaneId) (hno : node.leaves.Nodup) (ht : target ∈ node.leaves) :
    ∃ removal, node.withoutPane target = some removal ∧
      removal.replacement.elim [] PaneNode.leaves = node.leaves.filter (· ≠ target) ∧
      removal.replacement.map PaneNode.tree = node.tree.restrict (· ≠ target)
  move (tab : Tab F T) (id target : PaneId) (edge : PaneEdge) (hi : id ∈ tab.root.leaves)
    (ht : target ∈ tab.root.leaves) (hne : id ≠ target) :
    ∃ root, tab.movedRoot id target edge = some root ∧ root.leaves.Perm tab.root.leaves
  /-- A Pane parked from any Tab that calls lead to, and restored while its layout, Root Pane and Panes are
  as the park left them, gives back the layout, the Root Pane and the Panes. -/
  park (tabId : Nat) (minimumPaneSize : PaneSize F) (createInitialPane : PaneId → T)
    (calls : List (Call F T)) (id : PaneId) (parked : ParkedPane F T) (tab' later : Tab F T)
    (source : PaneId) (edge : PaneEdge) :
    let tab := (Desk.calls { tab := Tab.new tabId minimumPaneSize createInitialPane } calls).tab
    tab.parkPane id = .ok (some parked, tab') → later.root = tab'.root → later.panes = tab'.panes →
      later.rootPaneId = tab'.rootPaneId →
      ∃ back, later.restoreParkedPane parked source edge = .ok (id, back) ∧
        back.root = tab.root ∧ back.rootPaneId = tab.rootPaneId ∧ back.panes = tab.panes

theorem layout_algebra [Scalar F] [Scalar.Exact F] : Algebra F T where
  split_remove node target new splitId edge _ ht hnew := by
    obtain ⟨node', hs⟩ := PaneNode.withSplit_isSome new splitId edge ht
    obtain ⟨fallback, hr⟩ := PaneNode.withoutPane_withSplit hnew hs
    exact ⟨node', fallback, hs, hr⟩
  remove node target hno ht := by
    obtain ⟨removal, hr⟩ := PaneNode.withoutPane_isSome ht
    have hc := (PaneNode.withoutPane_cut hr).restrict hno
    refine ⟨removal, hr, ?_, hc.symm⟩
    rw [← PaneNode.leaves_tree node, ← LeafTree.leaves_restrict, hc]
    cases removal.replacement with
    | none => rfl
    | some rest => exact (PaneNode.leaves_tree rest).symm
  move tab id target edge hi ht hne := by
    obtain ⟨root, hr⟩ := Tab.WellFormed.movedRoot_isSome edge hi ht hne
    obtain ⟨_, hp, -⟩ := Tab.WellFormed.movedRoot_spec hr
    exact ⟨root, hr, hp⟩
  park tabId minimumPaneSize createInitialPane calls id parked tab' later source edge h hr hp hi :=
    Tab.park_restores (Desk.calls_exact tabId minimumPaneSize createInitialPane calls) h hr hp hi source edge

instance : Scalar.Exact ℚ where
  eq_half := by simp [Scalar.eq]
  eq_of_isFinite _ := by simp [Scalar.eq]
  eq_clamp _ _ _ := by simp [Scalar.eq]

theorem layout_algebra_pair : ∃ removal, (PaneNode.split ⟨1⟩ .horizontal (1 / 2 : ℚ) (.leaf ⟨1⟩)
    (.leaf ⟨2⟩)).withoutPane ⟨2⟩ = some removal ∧ removal.replacement.elim [] PaneNode.leaves = [⟨1⟩] := by
  obtain ⟨removal, hr, hl, -⟩ := (layout_algebra (F := ℚ) (T := Unit)).remove
    (.split ⟨1⟩ .horizontal (1 / 2) (.leaf ⟨1⟩) (.leaf ⟨2⟩)) ⟨2⟩ (by decide) (by decide)
  exact ⟨removal, hr, hl⟩

end SpaceTerm.Layout
