import Mathlib.Algebra.Order.BigOperators.Group.List
import SpaceTerm.ClientView.Layout
import SpaceTerm.Hierarchy.Validated

/-! # Reconciling a saved layout with the server's Panes

`Layout::reconcile`: the saved tree without the Panes that are gone, each new Pane placed beside its
source, flattened again. -/

namespace SpaceTerm

def Hierarchy.Side.axis : Hierarchy.Side → Hierarchy.Axis
  | .right | .left => .right
  | .down | .up => .down

/-- Whether the Pane comes first in its Split, on the left or on top. -/
def Hierarchy.Side.leads : Hierarchy.Side → Bool
  | .left | .up => true
  | .right | .down => false

namespace ClientView
open Lib Hierarchy

namespace Tree

def contains : Tree → Id → Bool
  | .leaf pane, id => pane == id
  | .node _ a b, id => contains a id || contains b id

def first : Tree → Id
  | .leaf id => id
  | .node _ a _ => first a

def insert (tree : Tree) (source id : Id) (side : Side) : Tree :=
  match tree with
  | .leaf pane =>
    if pane = source then
      let (first, second) := if side.leads then (id, source) else (source, id)
      .node (side.axis, F32.half) (.leaf first) (.leaf second)
    else .leaf pane
  | .node label a b => .node label (insert a source id side) (insert b source id side)

def flatten (nodes : List LayoutNode) : Tree → List LayoutNode × Nat
  | .leaf id => ((nodes ++ [LayoutNode.pane id]).set nodes.length (.pane id), nodes.length)
  | .node (axis, ratio) a b =>
    let index := nodes.length
    let (nodes, first) := flatten (nodes ++ [.pane (Tree.first (.node (axis, ratio) a b))]) a
    let (nodes, second) := flatten nodes b
    (nodes.set index (.split axis ratio first second), index)

end Tree

namespace Layout

def place (tab : Tab) (tree : Option Tree) (pane : Pane) : Option Tree :=
  match tree with
  | some tree =>
    if tree.contains pane.id then some tree
    else
      let source := (pane.source.filter tree.contains).getD
        (if tree.contains tab.rootPane then tab.rootPane else tree.first)
      some (tree.insert source pane.id pane.side)
  | none => some (.leaf pane.id)

def reconcile (layout : Layout) (tab : Tab) : Layout :=
  let tree := if layout.validate then layout.tree fun id => tab.panes.any (·.id == id) else none
  match tab.panes.foldl (place tab) tree with
  | some tree => ⟨(Tree.flatten [] tree).1⟩
  | none => ⟨[]⟩

end Layout

/-! ## Trees -/

namespace Tree
variable {t : Tree} {id source : Id}

theorem contains_iff : t.contains id = true ↔ id ∈ t.leaves := by
  induction t with
  | leaf pane =>
    rw [contains, beq_iff_eq, LeafTree.leaves, List.mem_singleton]
    exact eq_comm
  | node label a b iha ihb =>
    rw [contains, Bool.or_eq_true, iha, ihb, LeafTree.leaves, List.mem_append]

theorem first_mem (t : Tree) : first t ∈ t.leaves := by
  induction t with
  | leaf pane => exact List.mem_singleton_self _
  | node label a b iha _ => exact List.mem_append_left _ iha

theorem insert_eq (t : Tree) (source id : Id) (side : Side) :
    t.insert source id side = t.beside (side.axis, F32.half) source id side.leads := by
  induction t with
  | leaf pane =>
    rw [insert, LeafTree.beside]
    cases side.leads with
    | true | false => rfl
  | node label a b iha ihb => rw [insert, LeafTree.beside, iha, ihb]

/-! ## The flat form of a tree -/

def flat (index : Nat) : Tree → List LayoutNode
  | .leaf id => [.pane id]
  | .node (axis, ratio) a b =>
    .split axis ratio (index + 1) (index + 1 + a.size) :: (flat (index + 1) a ++ flat (index + 1 + a.size) b)

theorem length_flat (index : Nat) (t : Tree) : (flat index t).length = t.size := by
  induction t generalizing index with
  | leaf id => rfl
  | node label a b iha ihb =>
    rw [flat, List.length_cons, List.length_append, iha, ihb, LeafTree.size]
    omega

theorem flatten_eq (nodes : List LayoutNode) (t : Tree) :
    flatten nodes t = (nodes ++ flat nodes.length t, nodes.length) := by
  induction t generalizing nodes with
  | leaf id => simp [flatten, flat]
  | node label a b iha ihb =>
    obtain ⟨axis, ratio⟩ := label
    rw [flatten]
    simp only [iha, ihb, List.length_append, List.length_singleton, length_flat]
    rw [flat, Prod.mk.injEq]
    refine ⟨?_, rfl⟩
    rw [List.append_assoc, List.append_assoc, List.set_append_right _ _ (Nat.le_refl _), Nat.sub_self]
    rfl

theorem pane_flat (index : Nat) (t : Tree) : (flat index t).filterMap LayoutNode.pane? = t.leaves := by
  induction t generalizing index with
  | leaf id => rfl
  | node label a b iha ihb =>
    rw [flat, List.filterMap_cons_none rfl, List.filterMap_append, iha, ihb, LeafTree.leaves]

theorem children_flat (index : Nat) (t : Tree) :
    ((flat index t).flatMap LayoutNode.children).Perm (List.range' (index + 1) (t.size - 1)) := by
  induction t generalizing index with
  | leaf id => exact .refl _
  | node label a b iha ihb =>
    obtain ⟨axis, ratio⟩ := label
    obtain ⟨m, hm⟩ := Nat.exists_eq_succ_of_ne_zero (Nat.pos_iff_ne_zero.mp a.size_pos)
    obtain ⟨n, hn⟩ := Nat.exists_eq_succ_of_ne_zero (Nat.pos_iff_ne_zero.mp b.size_pos)
    have hr : List.range' (index + 1) (1 + a.size + b.size - 1) =
        (index + 1) :: (List.range' (index + 1 + 1) (a.size - 1) ++
          (index + 1 + a.size) :: List.range' (index + 1 + a.size + 1) (b.size - 1)) := by
      have hs : 1 + a.size + b.size - 1 = a.size + b.size := by omega
      rw [hs, ← List.range'_append_1, hm, hn]
      rfl
    rw [flat, List.flatMap_cons, List.flatMap_append, LeafTree.size, hr]
    show List.Perm ((index + 1) :: (index + 1 + a.size) :: _) _
    refine List.Perm.cons _ (((iha (index + 1)).append (ihb (index + 1 + a.size))).cons _ |>.trans ?_)
    exact List.perm_middle.symm

theorem splits_flat {length : Nat} (index : Nat) {t : Tree} (hr : ∀ label ∈ t.labels, label.2.isRatio = true)
    (hle : index + t.size ≤ length) : SplitsFrom length index (flat index t) := by
  induction t generalizing index with
  | leaf id => exact splitsFrom_pane.mpr splitsFrom_nil
  | node label a b iha ihb =>
    obtain ⟨axis, ratio⟩ := label
    rw [LeafTree.size] at hle
    have ha := a.size_pos
    have hb := b.size_pos
    refine splitsFrom_split.mpr ⟨⟨hr _ (List.mem_cons_self ..), by omega, by omega, by omega⟩, ?_⟩
    refine splitsFrom_append (iha (index + 1) (fun label hl => hr label ?_) (by omega)) ?_
    · exact List.mem_cons_of_mem _ (List.mem_append_left _ hl)
    · rw [length_flat]
      refine ihb (index + 1 + a.size) (fun label hl => hr label ?_) (by omega)
      exact List.mem_cons_of_mem _ (List.mem_append_right _ hl)

theorem reads_flat (before after : List LayoutNode) (t : Tree) :
    ∃ indexes, Reads ⟨before ++ flat before.length t ++ after⟩ before.length t indexes := by
  induction t generalizing before after with
  | leaf id => exact ⟨_, .pane (by simp [flat])⟩
  | node label a b iha ihb =>
    obtain ⟨axis, ratio⟩ := label
    have hno : before ++ flat before.length (.node (axis, ratio) a b) ++ after =
        before ++ .split axis ratio (before.length + 1) (before.length + 1 + a.size) ::
          (flat (before.length + 1) a ++ flat (before.length + 1 + a.size) b ++ after) := by
      rw [flat, List.append_assoc, List.cons_append]
    obtain ⟨as, ha⟩ := iha (before ++ [.split axis ratio (before.length + 1) (before.length + 1 + a.size)])
      (flat (before.length + 1 + a.size) b ++ after)
    obtain ⟨bs, hb⟩ := ihb (before ++
      .split axis ratio (before.length + 1) (before.length + 1 + a.size) :: flat (before.length + 1) a) after
    have hbe : (before ++ .split axis ratio (before.length + 1) (before.length + 1 + a.size) ::
        flat (before.length + 1) a).length = before.length + 1 + a.size := by
      rw [List.length_append, List.length_cons, length_flat]
      omega
    rw [hbe] at hb
    rw [List.length_append, List.length_singleton] at ha
    have hh : (before ++ .split axis ratio (before.length + 1) (before.length + 1 + a.size) ::
        (flat (before.length + 1) a ++ flat (before.length + 1 + a.size) b ++ after))[before.length]? =
          some (.split axis ratio (before.length + 1) (before.length + 1 + a.size)) := by
      rw [List.getElem?_append_right (Nat.le_refl _), Nat.sub_self]
      rfl
    rw [hno]
    refine ⟨before.length :: (as ++ bs), .split hh (by omega) (by omega) ?_ ?_⟩
    · simpa using ha
    · simpa using hb

theorem valid_flat {t : Tree} (hno : t.leaves.Nodup) (hle : t.leaves.length ≤ maxPanes)
    (hr : ∀ label ∈ t.labels, label.2.isRatio = true) : Valid ⟨flat 0 t⟩ := by
  have hs := t.size_eq
  have hpo := t.size_pos
  have hp := children_flat 0 t
  have hc : ∀ k, ((flat 0 t).flatMap LayoutNode.children).count k =
      (List.range' 1 (t.size - 1)).count k := fun k => hp.count_eq k
  refine ⟨fun h => ?_, ?_, ?_, ?_, ?_, fun k hk hlt => ?_⟩
  · have hl := length_flat 0 t
    rw [show flat 0 t = [] from h, List.length_nil] at hl
    omega
  · show (flat 0 t).length ≤ _
    rw [length_flat]
    omega
  · rw [pane_flat]
    exact hno
  · show SplitsFrom (flat 0 t).length 0 (flat 0 t)
    rw [length_flat]
    exact splits_flat 0 hr (by omega)
  · rw [hc]
    refine List.count_eq_zero_of_not_mem fun hmem => ?_
    rw [List.mem_range'_1] at hmem
    omega
  · rw [hc]
    refine List.count_eq_one_of_mem List.nodup_range' (List.mem_range'_1.mpr ?_)
    rw [show (flat 0 t).length = t.size from length_flat 0 t] at hlt
    omega

end Tree

/-! ## Tabs that `State::validate` accepts -/

/-- What reconciling needs of a Tab: it has Panes, not too many, with different identities. -/
structure Arranged (tab : Tab) : Prop where
  nonempty : tab.panes ≠ []
  nodup : (tab.panes.map (·.id)).Nodup
  bounded : tab.panes.length ≤ maxPanes

section Validated

theorem checkPanes_nodup {ids ids' preceding : List Id} {panes : List Pane}
    (h : State.checkPanes ids preceding panes = some ids') :
    (panes.map (·.id)).Nodup ∧ ∀ pane ∈ panes, pane.id ∉ ids := by
  induction panes generalizing ids preceding with
  | nil => exact ⟨List.nodup_nil, fun _ h => nomatch h⟩
  | cons pane panes ih =>
    simp only [State.checkPanes, Option.bind_eq_bind, Option.bind_eq_some_iff, Option.ite_none_right_eq_some] at h
    obtain ⟨seen, hi, -, hrest⟩ := h
    obtain ⟨-, hnew, rfl⟩ := State.insertId_some hi
    obtain ⟨hno, ho⟩ := ih hrest
    refine ⟨List.nodup_cons.mpr ⟨fun hmem => ?_, hno⟩, fun other hother => ?_⟩
    · obtain ⟨other, hother, he⟩ := List.mem_map.mp hmem
      exact ho other hother (he ▸ List.mem_cons_self ..)
    · rcases List.mem_cons.mp hother with rfl | hother
      · exact hnew
      · exact fun hmem => ho other hother (List.mem_cons_of_mem _ hmem)

variable {tab : Tab}

theorem checkTabs_tab {ids ids' : List Id} {tabs : List Tab} (h : State.checkTabs ids tabs = some ids') (ht : tab ∈ tabs) : tab.panes ≠ [] ∧ (tab.panes.map (·.id)).Nodup := by
  induction tabs generalizing ids with
  | nil => cases ht
  | cons other tabs ih =>
    simp only [State.checkTabs, Option.bind_eq_bind, Option.bind_eq_some_iff, Option.ite_none_right_eq_some] at h
    obtain ⟨seen, -, ho, seen', hp, hrest⟩ := h
    rcases List.mem_cons.mp ht with rfl | ht
    · refine ⟨fun hempty => ?_, (checkPanes_nodup hp).1⟩
      simp [State.tabOk, hempty] at ho
    · exact ih hrest ht

theorem checkWorkspaces_tab {ids ids' : List Id} {workspaces : List Workspace}
    (h : State.checkWorkspaces ids workspaces = some ids') {workspace : Workspace}
    (hw : workspace ∈ workspaces) (ht : tab ∈ workspace.tabs) :
    tab.panes ≠ [] ∧ (tab.panes.map (·.id)).Nodup := by
  induction workspaces generalizing ids with
  | nil => cases hw
  | cons other workspaces ih =>
    simp only [State.checkWorkspaces, Option.bind_eq_bind, Option.bind_eq_some_iff,
      Option.ite_none_right_eq_some] at h
    obtain ⟨seen, -, -, seen', hta, hrest⟩ := h
    rcases List.mem_cons.mp hw with rfl | hw
    · exact checkTabs_tab hta ht
    · exact ih hrest hw

theorem arranged_of_validate {s : State} (h : s.validate = true) {workspace : Workspace}
    (hw : workspace ∈ s.inventory.workspaces) (ht : tab ∈ workspace.tabs) :
    Arranged tab := by
  simp only [State.validate, Bool.and_eq_true] at h
  obtain ⟨⟨⟨-, hl⟩, hwo⟩, -⟩ := h
  obtain ⟨ids, hi⟩ := Option.isSome_iff_exists.mp hwo
  obtain ⟨hnon, hno⟩ := checkWorkspaces_tab hi hw ht
  simp only [State.checkLimits, Bool.and_eq_true, decide_eq_true_eq] at hl
  refine ⟨hnon, hno, le_trans ?_ hl.1.1.1.2⟩
  exact List.le_sum_of_mem (List.mem_map.mpr ⟨tab, List.mem_flatMap.mpr ⟨workspace, hw, ht⟩, rfl⟩)

end Validated

/-! ## Placing the Panes -/

namespace Layout
variable {tab : Tab} {pane : Pane} {panes : List Pane}

structure Sound (t : Tree) : Prop where
  nodup : t.leaves.Nodup
  ratios : ∀ label ∈ t.labels, label.2.isRatio = true

theorem place_some (tab : Tab) (pane : Pane) (t : Tree) :
    (pane.id ∈ t.leaves ∧ place tab (some t) pane = some t) ∨
      (pane.id ∉ t.leaves ∧ ∃ source ∈ t.leaves,
        place tab (some t) pane = some (t.beside (pane.side.axis, F32.half) source pane.id pane.side.leads)) := by
  unfold place
  dsimp only
  split
  case isTrue h => exact .inl ⟨Tree.contains_iff.mp h, rfl⟩
  case isFalse h =>
    refine .inr ⟨fun hmem => h (Tree.contains_iff.mpr hmem), _, ?_, by rw [Tree.insert_eq]⟩
    cases hs : pane.source.filter t.contains with
    | some source => exact Tree.contains_iff.mp (Option.filter_eq_some_iff.mp hs).2
    | none =>
      rw [Option.getD_none]
      split
      case isTrue hr => exact Tree.contains_iff.mp hr
      · exact Tree.first_mem t

def placed (tree : Option Tree) : List Id := tree.elim [] LeafTree.leaves

variable {tree : Option Tree}

theorem place_sound (tab : Tab) (pane : Pane) (h : ∀ t, tree = some t → Sound t) :
    ∀ t, place tab tree pane = some t → Sound t := by
  intro t ht
  cases tree with
  | none =>
    cases ht
    exact ⟨List.nodup_singleton _, fun _ h => nomatch h⟩
  | some u =>
    obtain ⟨hno, hr⟩ := h u rfl
    rcases place_some tab pane u with ⟨-, he⟩ | ⟨hnew, source, hs, he⟩
    · rw [he] at ht
      cases ht
      exact ⟨hno, hr⟩
    rw [he] at ht
    cases ht
    refine ⟨(LeafTree.leaves_beside_once hno hs).nodup_iff.mpr
      (List.nodup_cons.mpr ⟨hnew, hno⟩), fun label hl => ?_⟩
    rcases LeafTree.labels_beside hl with rfl | hl
    · exact F32.half_isRatio
    · exact hr label hl

theorem mem_place (h : ∀ t, tree = some t → Sound t) (id : Id) :
    id ∈ placed (place tab tree pane) ↔ id = pane.id ∨ id ∈ placed tree := by
  cases tree with
  | none => simp [place, placed, LeafTree.leaves]
  | some u =>
    rcases place_some tab pane u with ⟨hmem, he⟩ | ⟨-, source, hs, he⟩
    · rw [he]
      refine ⟨.inr, ?_⟩
      rintro (rfl | hi)
      · exact hmem
      · exact hi
    · rw [he]
      show id ∈ (u.beside _ _ _ _).leaves ↔ id = pane.id ∨ id ∈ u.leaves
      rw [(LeafTree.leaves_beside_once (h u rfl).nodup hs).mem_iff, List.mem_cons]

theorem place_isSome (tree : Option Tree) : (place tab tree pane).isSome = true := by
  unfold place
  split
  · dsimp only
    split
    · rfl
    · rfl
  · rfl

theorem place_restrict {keep : Id → Bool} (h : keep pane.id = true → pane.id ∈ placed tree) :
    (place tab tree pane).bind (LeafTree.restrict keep) = tree.bind (LeafTree.restrict keep) := by
  cases tree with
  | none =>
    have hke : keep pane.id = false := by
      by_contra hke
      exact absurd (h (Bool.not_eq_false _ ▸ hke)) List.not_mem_nil
    show LeafTree.restrict keep (.leaf pane.id) = none
    rw [LeafTree.restrict, hke]
    rfl
  | some u =>
    rcases place_some tab pane u with ⟨-, he⟩ | ⟨hnew, source, -, he⟩
    · rw [he]
    have hke : keep pane.id = false := by
      by_contra hke
      exact hnew (h (Bool.not_eq_false _ ▸ hke))
    rw [he]
    exact LeafTree.restrict_beside hke u

theorem place_all (tab : Tab) (panes : List Pane) (h : ∀ t, tree = some t → Sound t) :
    (∀ t, panes.foldl (place tab) tree = some t → Sound t) ∧
      ∀ id, id ∈ placed (panes.foldl (place tab) tree) ↔ id ∈ panes.map (·.id) ∨ id ∈ placed tree := by
  induction panes generalizing tree with
  | nil => exact ⟨h, fun id => by simp⟩
  | cons pane panes ih =>
    obtain ⟨hs, hmem⟩ := ih (place_sound tab pane h)
    refine ⟨hs, fun id => ?_⟩
    rw [List.foldl_cons, hmem, mem_place h, List.map_cons, List.mem_cons]
    tauto

theorem place_all_restrict (tab : Tab) (hs : ∀ t, tree = some t → Sound t) {keep : Id → Bool}
    (h : ∀ pane ∈ panes, keep pane.id = true → pane.id ∈ placed tree) :
    (panes.foldl (place tab) tree).bind (LeafTree.restrict keep) = tree.bind (LeafTree.restrict keep) := by
  induction panes generalizing tree with
  | nil => rfl
  | cons pane panes ih =>
    rw [List.foldl_cons, ih (place_sound _ _ hs) fun other hother hke => ?_,
      place_restrict (h pane (List.mem_cons_self ..))]
    exact (mem_place hs _).mpr (.inr (h other (List.mem_cons_of_mem _ hother) hke))

theorem place_all_isSome (tab : Tab) (hp : panes ≠ []) (tree : Option Tree) :
    (panes.foldl (place tab) tree).isSome = true := by
  induction panes generalizing tree with
  | nil => exact absurd rfl hp
  | cons pane panes ih =>
    rw [List.foldl_cons]
    cases panes with
    | nil => exact place_isSome tree
    | cons other panes => exact ih (List.cons_ne_nil _ _) _

theorem place_all_same {t : Tree} (h : ∀ pane ∈ panes, pane.id ∈ t.leaves) :
    panes.foldl (place tab) (some t) = some t := by
  induction panes with
  | nil => rfl
  | cons pane panes ih =>
    rw [List.foldl_cons]
    rcases place_some tab pane t with ⟨-, he⟩ | ⟨hnew, -⟩
    · rw [he]
      exact ih fun other hother => h other (List.mem_cons_of_mem _ hother)
    · exact absurd (h pane (List.mem_cons_self ..)) hnew

/-! ## Reconciling -/

/-- The tree that `reconcile` begins with. -/
def survivors (layout : Layout) (tab : Tab) : Option Tree :=
  if layout.validate then layout.tree fun id => tab.panes.any (·.id == id) else none

theorem any_id (id : Id) : tab.panes.any (·.id == id) = true ↔ id ∈ tab.panes.map (·.id) := by
  simp [List.any_eq_true]

/-- Of a valid layout what survives is its tree without the Panes that are gone; of another one
nothing. -/
theorem survivors_eq (layout : Layout) (tab : Tab) :
    (layout.validate = false ∧ layout.survivors tab = none) ∨
      ∃ t indexes, Valid layout ∧ Reads layout 0 t indexes ∧
        layout.survivors tab = t.restrict fun id => tab.panes.any (·.id == id) := by
  unfold survivors
  cases hva : layout.validate with
  | false => exact .inl ⟨rfl, rfl⟩
  | true =>
    have hv := (validate_iff layout).mp hva
    obtain ⟨t, indexes, hr⟩ := hv.reads (List.length_pos_iff.mpr hv.nonempty)
    exact .inr ⟨t, indexes, hv, hr, hr.tree_eq _⟩

theorem survivors_sound (layout : Layout) (tab : Tab) : ∀ t, layout.survivors tab = some t → Sound t := by
  intro u hu
  rcases survivors_eq layout tab with ⟨-, hnone⟩ | ⟨t, indexes, hv, hr, he⟩
  · rw [hnone] at hu
    cases hu
  rw [he] at hu
  refine ⟨?_, fun label hl => ?_⟩
  · rw [LeafTree.leaves_of_restrict hu]
    exact (hv.leaves_nodup hr).filter _
  · exact hv.labels_ratio hr label ((LeafTree.labels_of_restrict hu).subset hl)

theorem mem_survivors {layout : Layout} {id : Id} (h : id ∈ placed (layout.survivors tab)) :
    id ∈ tab.panes.map (·.id) := by
  rcases survivors_eq layout tab with ⟨-, hnone⟩ | ⟨t, indexes, -, -, he⟩
  · rw [hnone] at h
    cases h
  · rw [he, placed, LeafTree.leaves_restrict] at h
    exact (any_id id).mp (List.mem_filter.mp h).2

theorem reconcile_tree (layout : Layout) (hta : Arranged tab) :
    ∃ t, tab.panes.foldl (place tab) (layout.survivors tab) = some t ∧ Sound t ∧
      t.leaves.Perm (tab.panes.map (·.id)) ∧ layout.reconcile tab = ⟨Tree.flat 0 t⟩ := by
  obtain ⟨t, ht⟩ := Option.isSome_iff_exists.mp
    (place_all_isSome tab hta.nonempty (layout.survivors tab))
  obtain ⟨hs, hmem⟩ := place_all tab tab.panes (survivors_sound layout tab)
  refine ⟨t, ht, hs t ht, ?_, ?_⟩
  · refine (List.perm_ext_iff_of_nodup (hs t ht).nodup hta.nodup).mpr fun id => ?_
    have hi := hmem id
    rw [ht] at hi
    exact hi.trans (or_iff_left_of_imp mem_survivors)
  show (match tab.panes.foldl (place tab) (layout.survivors tab) with
    | some tree => (⟨(Tree.flatten [] tree).1⟩ : Layout)
    | none => ⟨[]⟩) = _
  rw [ht]
  dsimp only
  rw [Tree.flatten_eq, List.nil_append]
  rfl

/-- For every saved list and every Tab of a state that validates, the reconciled layout validates, and
its Panes are the Tab's, each once. If the saved list was valid, the reconciled tree restricted to the
saved Panes is the saved tree without the Panes that are gone. Reconciling once more changes nothing. -/
theorem reconcile_exact {s : State} (h : s.validate = true) {workspace : Workspace}
    (hworkspace : workspace ∈ s.inventory.workspaces) {tab : Tab} (htab : tab ∈ workspace.tabs)
    (saved : Layout) :
    (saved.reconcile tab).validate = true ∧
    ((saved.reconcile tab).nodes.filterMap LayoutNode.pane?).Perm (tab.panes.map (·.id)) ∧
    (saved.validate = true → ∃ old new olds news, Reads saved 0 old olds ∧ Reads (saved.reconcile tab) 0 new news ∧
      new.restrict (fun id => old.leaves.contains id) =
        old.restrict fun id => (tab.panes.map (·.id)).contains id) ∧
    (saved.reconcile tab).reconcile tab = saved.reconcile tab := by
  have har := arranged_of_validate h hworkspace htab
  obtain ⟨t, ht, hso, hpe, hfl⟩ := reconcile_tree saved har
  have hv : Valid ⟨Tree.flat 0 t⟩ := Tree.valid_flat hso.nodup
    (by rw [hpe.length_eq, List.length_map]; exact har.bounded) hso.ratios
  obtain ⟨news, hr⟩ := Tree.reads_flat [] [] t
  rw [List.nil_append, List.append_nil, List.length_nil] at hr
  have hke : (fun id => tab.panes.any (·.id == id)) = fun id => (tab.panes.map (·.id)).contains id := by
    funext id
    rw [Bool.eq_iff_iff, any_id, List.contains_iff_mem]
  rw [hfl]
  refine ⟨(validate_iff _).mpr hv, ?_, fun hsa => ?_, ?_⟩
  · show ((Tree.flat 0 t).filterMap LayoutNode.pane?).Perm _
    rw [Tree.pane_flat]
    exact hpe
  · rcases survivors_eq saved tab with ⟨hf, -⟩ | ⟨old, olds, hold, holds, he⟩
    · rw [hsa] at hf
      cases hf
    refine ⟨old, t, olds, news, holds, hr, ?_⟩
    -- every saved Pane that the Tab still has is in the tree from the start
    have hth : ∀ pane ∈ tab.panes, old.leaves.contains pane.id = true →
        pane.id ∈ placed (saved.survivors tab) := by
      intro pane hp hmem
      rw [he, placed, LeafTree.leaves_restrict]
      exact List.mem_filter.mpr ⟨List.contains_iff_mem.mp hmem, (any_id _).mpr (List.mem_map_of_mem hp)⟩
    have hre := place_all_restrict tab (survivors_sound saved tab) hth
    rw [ht, he, hke] at hre
    refine hre.trans ?_
    cases hkep : old.restrict fun id => (tab.panes.map (·.id)).contains id with
    | none => rfl
    | some kept =>
      refine LeafTree.restrict_all fun id hi => List.contains_iff_mem.mpr ?_
      rw [LeafTree.leaves_of_restrict hkep] at hi
      exact (List.mem_filter.mp hi).1
  · obtain ⟨u, hu, -, -, hfl'⟩ := reconcile_tree ⟨Tree.flat 0 t⟩ har
    have ha : ∀ id ∈ t.leaves, tab.panes.any (·.id == id) = true := fun id hi =>
      (any_id id).mpr (hpe.mem_iff.mp hi)
    have hsu : survivors ⟨Tree.flat 0 t⟩ tab = some t := by
      rw [survivors, if_pos ((validate_iff _).mpr hv), hr.tree_eq]
      exact LeafTree.restrict_all ha
    have hs : tab.panes.foldl (place tab) (some t) = some t := place_all_same fun pane hp =>
      hpe.mem_iff.mpr (List.mem_map_of_mem hp)
    rw [hsu, hs] at hu
    rw [hfl', Option.some.inj hu]

def twoPanes : State where
  homeDirectory := some ⟨[47]⟩
  names := [⟨1, none, defaultName⟩]
  inventory := {
    revision := 0
    close := none
    workspaces := [.created 1 defaultName none
      { Tab.created 2 (.created 3 none .right ⟨[47]⟩ none) .following none none with
        panes := [.created 3 none .right ⟨[47]⟩ none, .created 4 (some 3) .left ⟨[47]⟩ none] }] }
  devices := []
  sequenceFloor := 0
  creatorBoot := none
  sessionEnds := none

/-- The saved layout has the Pane 3 and below it a Pane that is gone. -/
theorem reconcile_exact_twoPanes : ∃ workspace ∈ twoPanes.inventory.workspaces, ∃ tab ∈ workspace.tabs,
    ∃ reconciled : Layout, reconciled = reconcile ⟨[.split .down F32.half 1 2, .pane 3, .pane 5]⟩ tab ∧
      reconciled.nodes = [.split .right F32.half 1 2, .pane 4, .pane 3] ∧
      reconciled.validate = true ∧ reconciled.reconcile tab = reconciled := by
  have he := reconcile_exact (s := twoPanes) (by decide +kernel) (List.mem_singleton_self _)
    (List.mem_singleton_self _) ⟨[.split .down F32.half 1 2, .pane 3, .pane 5]⟩
  exact ⟨_, List.mem_singleton_self _, _, List.mem_singleton_self _, _, rfl, by decide +kernel, he.1, he.2.2.2⟩

end Layout

end ClientView

end SpaceTerm
