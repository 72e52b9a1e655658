import Mathlib.Data.List.Perm.Basic
import Mathlib.Data.List.Range
import Mathlib.Data.List.Pairwise
import SpaceTerm.Hierarchy.Validate
import SpaceTerm.Lib.LeafTree

/-! # Saved layouts

`Layout` of `client_view.rs`: a Tab's personal arrangement, saved as a flat list whose Splits name
their children by index. `validate` accepts the lists in which every child index points forward and
every node but the first has one parent; only those are read as a tree. -/

namespace SpaceTerm.ClientView
open Lib Hierarchy

/-! ## Ratios -/

abbrev F32 := BitVec 32

namespace F32

def half : F32 := 0x3F000000#32

def magnitude (x : F32) : Nat := x.toNat % 2 ^ 31

def negative (x : F32) : Bool := 2 ^ 31 ≤ x.toNat

def isFinite (x : F32) : Bool := x.magnitude < 0x7F800000

def leZero (x : F32) : Bool := x.magnitude ≤ 0x7F800000 && (x.negative || x.magnitude == 0)

/-- `x >= 1.0`, false for a NaN. -/
def geOne (x : F32) : Bool := x.magnitude ≤ 0x7F800000 && !x.negative && 0x3F800000 ≤ x.magnitude

/-- What `validate` asks of a Split's ratio. -/
def isRatio (x : F32) : Bool := !(!x.isFinite || x.leZero || x.geOne)

theorem half_isRatio : half.isRatio = true := by decide

end F32

/-! ## The flat form -/

inductive LayoutNode
  | pane (id : Id)
  | split (axis : Axis) (ratio : F32) (first second : Nat)
  deriving DecidableEq

structure Layout where
  nodes : List LayoutNode
  deriving DecidableEq

namespace LayoutNode

def pane? : LayoutNode → Option Id
  | pane id => some id
  | split .. => none

def children : LayoutNode → List Nat
  | pane _ => []
  | split _ _ first second => [first, second]

end LayoutNode

/-- `Tree`, with the axis and the ratio of a Split as its label. -/
abbrev Tree := LeafTree (Axis × F32) Id

namespace Layout

def addParent (parents : List Nat) (child : Nat) : Option (List Nat) :=
  if child < parents.length then some (parents.modify child (· + 1)) else none

/-- The loop of `validate`: the parents each node has, unless a node is refused. -/
def countParents : Nat → List LayoutNode → List Nat → List Id → Option (List Nat)
  | _, [], parents, _ => some parents
  | index, .pane id :: nodes, parents, panes =>
    if panes.contains id then none else countParents (index + 1) nodes parents (id :: panes)
  | index, .split _ ratio first second :: nodes, parents, panes =>
    if !ratio.isFinite || ratio.leZero || ratio.geOne || first ≤ index || second ≤ index then none
    else do
      let parents ← addParent parents first
      let parents ← addParent parents second
      countParents (index + 1) nodes parents panes

/-- `Layout::validate`, as whether it returns `Ok`. -/
def validate (layout : Layout) : Bool :=
  if layout.nodes.isEmpty || layout.nodes.length > 2 * maxPanes - 1 then false
  else
    match countParents 0 layout.nodes (List.replicate layout.nodes.length 0) [] with
    | none => false
    | some parents => !(parents.headD 0 != 0 || parents.tail.any (· != 1))

def treeFrom (layout : Layout) (keep : Id → Bool) : Nat → Nat → Option Tree
  | 0, _ => none
  | steps + 1, index =>
    match layout.nodes[index]? with
    | none => none
    | some (.pane id) => if keep id then some (.leaf id) else none
    | some (.split axis ratio first second) =>
      LeafTree.join (axis, ratio) (layout.treeFrom keep steps first) (layout.treeFrom keep steps second)

def tree (layout : Layout) (keep : Id → Bool) : Option Tree :=
  layout.treeFrom keep layout.nodes.length 0

end Layout

/-! ## What `validate` accepts -/

/-- Every Split in a part of the list that begins at `index` has a ratio between 0 and 1 and two later
nodes, of `length` in all, as its children. -/
def SplitsFrom (length index : Nat) (nodes : List LayoutNode) : Prop :=
  ∀ (i : Nat) axis ratio first second, nodes[i]? = some (.split axis ratio first second) →
    ratio.isRatio = true ∧ (index + i < first ∧ index + i < second) ∧ first < length ∧ second < length

/-- A list of nodes that is a tree: the Panes differ, the Splits point forward, and every node but the
first is the child of one Split. -/
structure Valid (layout : Layout) : Prop where
  nonempty : layout.nodes ≠ []
  bounded : layout.nodes.length ≤ 2 * maxPanes - 1
  panes : (layout.nodes.filterMap LayoutNode.pane?).Nodup
  splits : SplitsFrom layout.nodes.length 0 layout.nodes
  root : (layout.nodes.flatMap LayoutNode.children).count 0 = 0
  parent : ∀ k, 0 < k → k < layout.nodes.length → (layout.nodes.flatMap LayoutNode.children).count k = 1

section Splits
variable {length index : Nat} {nodes : List LayoutNode}

theorem splitsFrom_nil : SplitsFrom length index [] := nofun

theorem splitsFrom_pane {id : Id} :
    SplitsFrom length index (.pane id :: nodes) ↔ SplitsFrom length (index + 1) nodes := by
  constructor
  · intro h i axis ratio first second hi
    rw [Nat.add_assoc, Nat.add_comm 1 i]
    exact h (i + 1) axis ratio first second hi
  intro h i axis ratio first second hi
  cases i with
  | zero => cases hi
  | succ i =>
    have hl := h i axis ratio first second hi
    rw [Nat.add_assoc, Nat.add_comm 1 i] at hl
    exact hl

theorem splitsFrom_split {axis : Axis} {ratio : F32} {first second : Nat} :
    SplitsFrom length index (.split axis ratio first second :: nodes) ↔
      (ratio.isRatio = true ∧ (index < first ∧ index < second) ∧ first < length ∧ second < length) ∧
        SplitsFrom length (index + 1) nodes := by
  constructor
  · intro h
    refine ⟨h 0 axis ratio first second rfl, fun i axis ratio first second hi => ?_⟩
    rw [Nat.add_assoc, Nat.add_comm 1 i]
    exact h (i + 1) axis ratio first second hi
  rintro ⟨hh, h⟩ i axis ratio first second hi
  cases i with
  | zero =>
    cases hi
    exact hh
  | succ i =>
    have hl := h i axis ratio first second hi
    rw [Nat.add_assoc, Nat.add_comm 1 i] at hl
    exact hl

theorem splitsFrom_append {more : List LayoutNode} (h : SplitsFrom length index nodes)
    (hmo : SplitsFrom length (index + nodes.length) more) : SplitsFrom length index (nodes ++ more) := by
  intro i axis ratio first second hi
  rcases Nat.lt_or_ge i nodes.length with hlt | hg
  · rw [List.getElem?_append_left hlt] at hi
    exact h i axis ratio first second hi
  rw [List.getElem?_append_right hg] at hi
  have hl := hmo (i - nodes.length) axis ratio first second hi
  rw [Nat.add_assoc, Nat.add_sub_cancel' hg] at hl
  exact hl

end Splits

namespace Layout

theorem addParent_eq {parents parents' : List Nat} {child : Nat} :
    addParent parents child = some parents' ↔
      child < parents.length ∧ parents.modify child (· + 1) = parents' := by
  unfold addParent
  split
  case isTrue h => rw [Option.some.injEq, and_iff_right h]
  case isFalse h => exact ⟨nofun, fun h' => absurd h'.1 h⟩

def counted (parents : List Nat) (children : List Nat) : List Nat :=
  children.foldl (fun parents child => parents.modify child (· + 1)) parents

/-- The rest of the loop: it refuses nothing exactly if the rest of the nodes is right, and then counts
their children. -/
theorem countParents_eq {index : Nat} {nodes : List LayoutNode} {parents parents' : List Nat} {panes : List Id} :
    countParents index nodes parents panes = some parents' ↔
      ((nodes.filterMap LayoutNode.pane?).Nodup ∧ ∀ id ∈ nodes.filterMap LayoutNode.pane?, id ∉ panes) ∧
      SplitsFrom parents.length index nodes ∧
      counted parents (nodes.flatMap LayoutNode.children) = parents' := by
  induction nodes generalizing index parents panes with
  | nil =>
    rw [countParents, Option.some.injEq]
    exact ⟨fun h => ⟨⟨List.nodup_nil, nofun⟩, splitsFrom_nil, h⟩, fun h => h.2.2⟩
  | cons node nodes ih =>
    cases node with
    | pane id =>
      have hid : (LayoutNode.pane id :: nodes).filterMap LayoutNode.pane? =
          id :: nodes.filterMap LayoutNode.pane? := rfl
      have hc : (LayoutNode.pane id :: nodes).flatMap LayoutNode.children =
          nodes.flatMap LayoutNode.children := rfl
      rw [countParents, hid, hc, splitsFrom_pane, List.nodup_cons, List.forall_mem_cons]
      split
      case isTrue hco =>
        refine ⟨nofun, fun h => ?_⟩
        exact absurd (List.contains_iff_mem.mp hco) h.1.2.1
      case isFalse hco =>
        have hno : id ∉ panes := fun h => hco (List.contains_iff_mem.mpr h)
        have hd : (∀ other ∈ nodes.filterMap LayoutNode.pane?, other ∉ id :: panes) ↔
            id ∉ nodes.filterMap LayoutNode.pane? ∧ ∀ other ∈ nodes.filterMap LayoutNode.pane?, other ∉ panes := by
          simp only [List.mem_cons, not_or]
          constructor
          · intro h
            exact ⟨fun hmem => (h id hmem).1 rfl, fun other hother => (h other hother).2⟩
          · rintro ⟨hi, h⟩ other hother
            exact ⟨fun he => hi (he ▸ hother), h other hother⟩
        rw [ih, hd]
        tauto
    | split axis ratio first second =>
      have hid : (LayoutNode.split axis ratio first second :: nodes).filterMap LayoutNode.pane? =
          nodes.filterMap LayoutNode.pane? := rfl
      have hc : (LayoutNode.split axis ratio first second :: nodes).flatMap LayoutNode.children =
          first :: second :: nodes.flatMap LayoutNode.children := rfl
      rw [countParents, hid, hc, splitsFrom_split]
      split
      case isTrue hre =>
        refine ⟨nofun, ?_⟩
        rintro ⟨-, ⟨⟨hr, ⟨hfi, hs⟩, -⟩, -⟩, -⟩
        have hr : ratio.isFinite = true ∧ ratio.leZero = false ∧ ratio.geOne = false := by
          simpa [F32.isRatio, and_assoc] using hr
        obtain ⟨hf, hz, ho⟩ := hr
        simp [hf, hz, ho] at hre
        omega
      case isFalse hg =>
        have hg : (ratio.isFinite = true ∧ ratio.leZero = false ∧ ratio.geOne = false) ∧
            index < first ∧ index < second := by
          simpa [and_assoc] using hg
        have hr : ratio.isRatio = true := by
          obtain ⟨⟨hf, hz, ho⟩, -⟩ := hg
          simp [F32.isRatio, hf, hz, ho]
        simp only [Option.bind_eq_bind, Option.bind_eq_some_iff, addParent_eq]
        constructor
        · rintro ⟨parents₁, ⟨hfi, rfl⟩, parents₂, ⟨hs, rfl⟩, h⟩
          rw [ih] at h
          rw [List.length_modify] at hs
          rw [List.length_modify, List.length_modify] at h
          exact ⟨h.1, ⟨⟨hr, hg.2, hfi, hs⟩, h.2.1⟩, h.2.2⟩
        · rintro ⟨hp, ⟨⟨-, -, hfi, hs⟩, hsplits⟩, hpa⟩
          refine ⟨_, ⟨hfi, rfl⟩, _, ⟨by rwa [List.length_modify], rfl⟩, ?_⟩
          rw [ih, List.length_modify, List.length_modify]
          exact ⟨hp, hsplits, hpa⟩

theorem length_counted (parents children : List Nat) : (counted parents children).length = parents.length := by
  induction children generalizing parents with
  | nil => rfl
  | cons child children ih =>
    rw [counted, List.foldl_cons]
    exact (ih _).trans (List.length_modify _ _ _)

theorem getElem?_counted (parents children : List Nat) (k : Nat) :
    (counted parents children)[k]? = parents[k]?.map (· + children.count k) := by
  induction children generalizing parents with
  | nil => simp [counted]
  | cons child children ih =>
    rw [counted, List.foldl_cons]
    refine (ih _).trans ?_
    rw [List.getElem?_modify, List.count_cons, Option.map_eq_map, Option.map_map]
    congr 1
    funext n
    by_cases h : child = k
    · simp [h]; omega
    · simp [h]

/-- `validate` accepts exactly the trees. -/
theorem validate_iff (layout : Layout) : layout.validate = true ↔ Valid layout := by
  have hget : ∀ k, k < layout.nodes.length →
      (counted (List.replicate layout.nodes.length 0) (layout.nodes.flatMap LayoutNode.children))[k]? =
        some ((layout.nodes.flatMap LayoutNode.children).count k) := by
    intro k hk
    rw [getElem?_counted, List.getElem?_replicate_of_lt hk, Option.map_some, Nat.zero_add]
  have hl := length_counted (List.replicate layout.nodes.length 0)
    (layout.nodes.flatMap LayoutNode.children)
  rw [List.length_replicate] at hl
  unfold validate
  split
  case isTrue hbo =>
    refine ⟨nofun, fun h => ?_⟩
    rcases Bool.or_eq_true_iff.mp hbo with hempty | hlo
    · exact absurd (List.isEmpty_iff.mp hempty) h.nonempty
    · exact absurd h.bounded (Nat.not_le.mpr (of_decide_eq_true hlo))
  case isFalse hbo =>
    rw [Bool.or_eq_true_iff, not_or, List.isEmpty_iff, decide_eq_true_eq, Nat.not_lt] at hbo
    obtain ⟨hno, hb⟩ := hbo
    have hpo : 0 < layout.nodes.length := List.length_pos_iff.mpr hno
    -- the head of the counts is the root's, the tail the other nodes'
    have hpare : ∀ parents, counted (List.replicate layout.nodes.length 0)
          (layout.nodes.flatMap LayoutNode.children) = parents →
        ((!(parents.headD 0 != 0 || parents.tail.any (· != 1))) = true ↔
          (layout.nodes.flatMap LayoutNode.children).count 0 = 0 ∧
            ∀ k, 0 < k → k < layout.nodes.length → (layout.nodes.flatMap LayoutNode.children).count k = 1) := by
      rintro parents hco
      rw [hco] at hget hl
      cases parents with
      | nil =>
        rw [List.length_nil] at hl
        omega
      | cons root others =>
        have hr : root = (layout.nodes.flatMap LayoutNode.children).count 0 :=
          Option.some.inj (hget 0 hpo)
        rw [List.headD_cons, List.tail_cons, Bool.not_eq_true', Bool.or_eq_false_iff, bne_eq_false_iff_eq,
          List.any_eq_false, hr]
        refine and_congr_right fun _ => ⟨fun h k hk hlt => ?_, fun h n hn => ?_⟩
        · obtain ⟨k, rfl⟩ := Nat.exists_eq_succ_of_ne_zero (Nat.pos_iff_ne_zero.mp hk)
          have hmem := List.mem_of_getElem? (show others[k]? = _ from hget (k + 1) hlt)
          simpa using h _ hmem
        obtain ⟨k, hk⟩ := List.mem_iff_getElem?.mp hn
        obtain ⟨hlt, -⟩ := List.getElem?_eq_some_iff.mp hk
        rw [List.length_cons] at hl
        have hc := hget (k + 1) (by omega)
        rw [List.getElem?_cons_succ, hk, Option.some.injEq] at hc
        rw [hc, h (k + 1) (Nat.succ_pos k) (by omega)]
        simp
    split
    case h_1 hnone =>
      refine ⟨nofun, fun h => ?_⟩
      have hsplits : SplitsFrom (List.replicate layout.nodes.length 0).length 0 layout.nodes := by
        rw [List.length_replicate]
        exact h.splits
      have hs := countParents_eq.mpr ⟨⟨h.panes, fun id _ => List.not_mem_nil⟩, hsplits, rfl⟩
      rw [hnone] at hs
      cases hs
    case h_2 parents hs =>
      obtain ⟨⟨hp, -⟩, hsplits, hco⟩ := countParents_eq.mp hs
      rw [List.length_replicate] at hsplits
      rw [hpare parents hco]
      constructor
      · rintro ⟨hr, hpa⟩
        exact ⟨hno, hb, hp, hsplits, hr, hpa⟩
      · intro h
        exact ⟨h.root, h.parent⟩

end Layout

/-! ## The tree a list stands for -/

inductive Reads (layout : Layout) : Nat → Tree → List Nat → Prop
  | pane {index : Nat} {id : Id} : layout.nodes[index]? = some (.pane id) → Reads layout index (.leaf id) [index]
  | split {index first second : Nat} {axis : Axis} {ratio : F32} {a b : Tree} {as bs : List Nat} :
      layout.nodes[index]? = some (.split axis ratio first second) → index < first → index < second →
      Reads layout first a as → Reads layout second b bs →
      Reads layout index (.node (axis, ratio) a b) (index :: (as ++ bs))

namespace Reads
variable {layout : Layout} {index : Nat} {t : Tree} {indexes : List Nat}

theorem le (h : Reads layout index t indexes) : ∀ k ∈ indexes, index ≤ k := by
  induction h with
  | pane hno =>
    intro k hk
    rw [List.mem_singleton.mp hk]
  | split hno hf hs _ _ iha ihb =>
    intro k hk
    rcases List.mem_cons.mp hk with rfl | hk
    · exact Nat.le_refl _
    rcases List.mem_append.mp hk with hk | hk
    · exact hf.le.trans (iha k hk)
    · exact hs.le.trans (ihb k hk)

/-- With a step for each node after the index, `tree` gives the tree without the leaves that are not
kept. -/
theorem treeFrom_eq (h : Reads layout index t indexes) (keep : Id → Bool) {steps : Nat}
    (hst : layout.nodes.length ≤ index + steps) :
    layout.treeFrom keep steps index = t.restrict keep := by
  induction h generalizing steps with
  | @pane index id hno =>
    obtain ⟨hl, -⟩ := List.getElem?_eq_some_iff.mp hno
    obtain ⟨steps, rfl⟩ := Nat.exists_eq_succ_of_ne_zero (show steps ≠ 0 by omega)
    rw [Layout.treeFrom, hno]
    rfl
  | @split index first second axis ratio a b as bs hno hf hs _ _ iha ihb =>
    obtain ⟨hl, -⟩ := List.getElem?_eq_some_iff.mp hno
    obtain ⟨steps, rfl⟩ := Nat.exists_eq_succ_of_ne_zero (show steps ≠ 0 by omega)
    rw [Layout.treeFrom, hno]
    dsimp only
    rw [iha (by omega), ihb (by omega)]
    rfl

theorem tree_eq (h : Reads layout 0 t indexes) (keep : Id → Bool) : layout.tree keep = t.restrict keep :=
  h.treeFrom_eq keep (by omega)

theorem leaves_eq (h : Reads layout index t indexes) :
    t.leaves = indexes.filterMap fun k => layout.nodes[k]?.bind LayoutNode.pane? := by
  induction h with
  | pane hno => simp [LeafTree.leaves, hno, LayoutNode.pane?]
  | split hno _ _ _ _ iha ihb =>
    rw [LeafTree.leaves, iha, ihb, List.filterMap_cons_none, List.filterMap_append]
    rw [hno]
    rfl

theorem parent (h : Reads layout index t indexes) : ∀ k ∈ indexes, k ≠ index →
    ∃ p ∈ indexes, p < k ∧ ∃ node, layout.nodes[p]? = some node ∧ k ∈ node.children := by
  induction h with
  | pane hno =>
    intro k hk hne
    exact absurd (List.mem_singleton.mp hk) hne
  | @split index first second axis ratio a b as bs hno hf hs _ _ iha ihb =>
    intro k hk hne
    rcases List.mem_append.mp ((List.mem_cons.mp hk).resolve_left hne) with hk | hk
    · by_cases he : k = first
      · exact ⟨index, List.mem_cons_self .., he ▸ hf, _, hno, by simp [LayoutNode.children, he]⟩
      · obtain ⟨p, hp, hl, node, hno, hc⟩ := iha k hk he
        exact ⟨p, List.mem_cons_of_mem _ (List.mem_append_left _ hp), hl, node, hno, hc⟩
    by_cases he : k = second
    · exact ⟨index, List.mem_cons_self .., he ▸ hs, _, hno, by simp [LayoutNode.children, he]⟩
    · obtain ⟨p, hp, hl, node, hno, hc⟩ := ihb k hk he
      exact ⟨p, List.mem_cons_of_mem _ (List.mem_append_right _ hp), hl, node, hno, hc⟩

end Reads

namespace Valid
variable {layout : Layout}

variable {index : Nat}

theorem reads (h : Valid layout) (hi : index < layout.nodes.length) :
    ∃ t indexes, Reads layout index t indexes := by
  -- on the number of nodes after the index
  induction hn : layout.nodes.length - index using Nat.strong_induction_on generalizing index with
  | _ n ih =>
    have hno := List.getElem?_eq_getElem hi
    cases hc : layout.nodes[index] with
    | pane id =>
      rw [hc] at hno
      exact ⟨_, _, .pane hno⟩
    | split axis ratio first second =>
      rw [hc] at hno
      obtain ⟨-, ⟨hf, hs⟩, hf', hs'⟩ := h.splits index axis ratio first second hno
      rw [Nat.zero_add] at hf hs
      obtain ⟨a, as, ha⟩ := ih (layout.nodes.length - first) (by omega) hf' rfl
      obtain ⟨b, bs, hb⟩ := ih (layout.nodes.length - second) (by omega) hs' rfl
      exact ⟨_, _, .split hno hf hs ha hb⟩

theorem children_nodup (h : Valid layout) : (layout.nodes.flatMap LayoutNode.children).Nodup := by
  refine List.nodup_iff_count_le_one.mpr fun k => ?_
  rcases Nat.lt_or_ge k layout.nodes.length with hl | hg
  · rcases Nat.eq_zero_or_pos k with rfl | hp
    · exact h.root.le.trans (Nat.zero_le 1)
    · exact (h.parent k hp hl).le
  rw [List.count_eq_zero_of_not_mem]
  · exact Nat.zero_le 1
  intro hmem
  obtain ⟨node, hno, hc⟩ := List.mem_flatMap.mp hmem
  obtain ⟨i, hi⟩ := List.mem_iff_getElem?.mp hno
  cases node with
  | pane id => cases hc
  | split axis ratio first second =>
    obtain ⟨-, -, hf, hs⟩ := h.splits i axis ratio first second hi
    rcases List.mem_cons.mp hc with rfl | hc
    · omega
    · rw [List.mem_singleton.mp hc] at hg
      omega

theorem parent_unique (h : Valid layout) {p q k : Nat} {node other : LayoutNode}
    (hp : layout.nodes[p]? = some node) (hq : layout.nodes[q]? = some other) (hk : k ∈ node.children)
    (hk' : k ∈ other.children) : p = q := by
  obtain ⟨-, hd⟩ := List.nodup_flatMap.mp h.children_nodup
  rw [List.pairwise_iff_getElem] at hd
  obtain ⟨hpl, rfl⟩ := List.getElem?_eq_some_iff.mp hp
  obtain ⟨hql, rfl⟩ := List.getElem?_eq_some_iff.mp hq
  rcases Nat.lt_trichotomy p q with hl | he | hl
  · exact absurd hk' (hd p q hpl hql hl hk)
  · exact he
  · exact absurd hk (hd q p hql hpl hl hk')

theorem children_ne (h : Valid layout) {index first second : Nat} {axis : Axis} {ratio : F32}
    (hno : layout.nodes[index]? = some (.split axis ratio first second)) : first ≠ second := by
  obtain ⟨hnod, -⟩ := List.nodup_flatMap.mp h.children_nodup
  have hp : [first, second].Nodup := hnod _ (List.mem_of_getElem? hno)
  exact fun he => (List.nodup_cons.mp hp).1 (List.mem_singleton.mpr he)

theorem disjoint (h : Valid layout) {index first second : Nat} {axis : Axis} {ratio : F32} {a b : Tree}
    {as bs : List Nat} (hno : layout.nodes[index]? = some (.split axis ratio first second))
    (hf : index < first) (hs : index < second) (ha : Reads layout first a as)
    (hb : Reads layout second b bs) : ∀ k, k ∈ as → k ∉ bs := by
  intro k
  -- a shared node that is the top of neither tree has a shared parent before it
  induction k using Nat.strong_induction_on with
  | _ k ih =>
    intro hka hkb
    by_cases hka' : k = first
    · subst hka'
      obtain ⟨p, hp, -, node, hpn, hc⟩ := hb.parent k hkb (h.children_ne hno)
      have hpi := h.parent_unique hpn hno hc (List.mem_cons_self ..)
      have hl := hb.le p hp
      omega
    obtain ⟨p, hp, hlt, node, hpn, hc⟩ := ha.parent k hka hka'
    by_cases hkb' : k = second
    · subst hkb'
      have hpi := h.parent_unique hpn hno hc
        (List.mem_cons_of_mem _ (List.mem_singleton_self _))
      have hl := ha.le p hp
      omega
    · obtain ⟨q, hq, -, other, hqn, hc'⟩ := hb.parent k hkb hkb'
      rw [h.parent_unique hqn hpn hc' hc] at hq
      exact ih p hlt hp hq

variable {t : Tree} {indexes : List Nat}

theorem indexes_nodup (h : Valid layout) (hr : Reads layout index t indexes) : indexes.Nodup := by
  induction hr with
  | pane => exact List.nodup_singleton _
  | split hno hf hs ha hb iha ihb =>
    refine List.nodup_cons.mpr ⟨fun hmem => ?_, List.nodup_append'.mpr
      ⟨iha, ihb, fun k => h.disjoint hno hf hs ha hb k⟩⟩
    rcases List.mem_append.mp hmem with hmem | hmem
    · exact absurd (ha.le _ hmem) (Nat.not_le.mpr hf)
    · exact absurd (hb.le _ hmem) (Nat.not_le.mpr hs)

theorem pane_unique (h : Valid layout) {p q : Nat} {id : Id} (hp : layout.nodes[p]? = some (.pane id))
    (hq : layout.nodes[q]? = some (.pane id)) : p = q := by
  have hpa := List.pairwise_filterMap.mp h.panes
  rw [List.pairwise_iff_getElem] at hpa
  obtain ⟨hpl, hpg⟩ := List.getElem?_eq_some_iff.mp hp
  obtain ⟨hql, hqg⟩ := List.getElem?_eq_some_iff.mp hq
  rcases Nat.lt_trichotomy p q with hl | he | hl
  · exact absurd rfl (hpa p q hpl hql hl id (by rw [hpg]; rfl) id (by rw [hqg]; rfl))
  · exact he
  · exact absurd rfl (hpa q p hql hpl hl id (by rw [hqg]; rfl) id (by rw [hpg]; rfl))

theorem leaves_nodup (h : Valid layout) (hr : Reads layout index t indexes) : t.leaves.Nodup := by
  have hpa : ∀ {k : Nat} {id : Id}, layout.nodes[k]?.bind LayoutNode.pane? = some id →
      layout.nodes[k]? = some (LayoutNode.pane id) := by
    intro k id hk
    obtain ⟨node, hno, hi⟩ := Option.bind_eq_some_iff.mp hk
    cases node with
    | pane other =>
      cases hi
      exact hno
    | split => cases hi
  rw [hr.leaves_eq]
  refine (h.indexes_nodup hr).filterMap fun p q id hp hq => ?_
  exact h.pane_unique (hpa hp) (hpa hq)

theorem labels_ratio (h : Valid layout)
    (hr : Reads layout index t indexes) : ∀ label ∈ t.labels, label.2.isRatio = true := by
  induction hr with
  | pane =>
    intro label hl
    cases hl
  | split hno _ _ _ _ iha ihb =>
    intro label hl
    rcases List.mem_cons.mp hl with rfl | hl
    · exact (h.splits _ _ _ _ _ hno).1
    · exact (List.mem_append.mp hl).elim (iha label) (ihb label)

end Valid

end SpaceTerm.ClientView
