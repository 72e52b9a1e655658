import Mathlib

/-! # The Pane layout of a Tab

`PaneNode` of `domain/tab.rs`: a binary tree with a Pane in each leaf and a Split in each inner node.
Sizes and ratios are over any type with the operations of `f32` that the source uses, none of whose
laws matter here. -/

namespace SpaceTerm.Layout

class Scalar (F : Type) extends Add F, Sub F, Mul F, Div F where
  zero : F
  one : F
  half : F
  two : F
  edgeEpsilon : F
  isFinite : F → Bool
  eq : F → F → Bool
  le : F → F → Bool
  lt : F → F → Bool
  max : F → F → F
  min : F → F → F
  abs : F → F
  clamp : F → F → F → F
  totalCmp : F → F → Ordering

/-- Exact arithmetic, to run the model. -/
instance : Scalar ℚ where
  zero := 0
  one := 1
  half := 1 / 2
  two := 2
  edgeEpsilon := 1 / 1000000
  isFinite _ := true
  eq a b := a == b
  le a b := a ≤ b
  lt a b := a < b
  max a b := if a ≤ b then b else a
  min a b := if a ≤ b then a else b
  abs a := if a < 0 then -a else a
  clamp a lowest highest := if a < lowest then lowest else if highest < a then highest else a
  totalCmp a b := if a < b then .lt else if b < a then .gt else .eq

structure PaneId where
  get : Nat
  deriving DecidableEq

structure SplitId where
  get : Nat
  deriving DecidableEq

inductive SplitAxis
  | horizontal
  | vertical
  deriving DecidableEq

inductive PaneEdge
  | left
  | right
  | top
  | bottom
  deriving DecidableEq

namespace PaneEdge

def axis : PaneEdge → SplitAxis
  | left | right => .horizontal
  | top | bottom => .vertical

def leads : PaneEdge → Bool
  | left | top => true
  | right | bottom => false

end PaneEdge

inductive FocusDirection
  | left
  | right
  | up
  | down
  deriving DecidableEq

variable {F : Type}

structure PaneSize (F : Type) where
  width : F
  height : F

inductive PaneError (F : Type)
  | paneNotFound (id : PaneId)
  | splitNotFound (id : SplitId)
  | paneIdExhausted
  | splitIdExhausted
  | invalidDividerSize (size : F)
  | invalidSplitRatio (ratio : F)
  | insufficientSpace (available required : PaneSize F)
  | layoutSizeOverflow
  | missingPane (id : PaneId)

inductive PaneNode (F : Type)
  | leaf (id : PaneId)
  | split (id : SplitId) (axis : SplitAxis) (ratio : F) (first second : PaneNode F)

/-! ## Sizes -/

section Sizes
variable [Scalar F]
open Scalar

def PaneSize.new (width height : F) : Option (PaneSize F) :=
  if !isFinite width || le width zero then none
  else if !isFinite height || le height zero then none
  else some ⟨width, height⟩

def PaneSize.extent (size : PaneSize F) : SplitAxis → F
  | .horizontal => size.width
  | .vertical => size.height

def validateDividerSize (dividerSize : F) : Except (PaneError F) Unit :=
  if isFinite dividerSize && le zero dividerSize then .ok ()
  else .error (.invalidDividerSize dividerSize)

def combinedMinimum (first second : PaneSize F) (axis : SplitAxis) (dividerSize : F) :
    Except (PaneError F) (PaneSize F) :=
  let (width, height) := match axis with
    | .horizontal => (first.width + dividerSize + second.width, max first.height second.height)
    | .vertical => (max first.width second.width, first.height + dividerSize + second.height)
  if !isFinite width || !isFinite height then .error .layoutSizeOverflow
  else .ok ⟨width, height⟩

def ensureSpace (available required : PaneSize F) : Except (PaneError F) Unit :=
  if le required.width available.width && le required.height available.height then .ok ()
  else .error (.insufficientSpace available required)

end Sizes

namespace PaneNode

/-! ## What a layout holds -/

def leaves : PaneNode F → List PaneId
  | leaf id => [id]
  | split _ _ _ first second => first.leaves ++ second.leaves

def splits : PaneNode F → List SplitId
  | leaf _ => []
  | split id _ _ first second => id :: (first.splits ++ second.splits)

def containsPane (target : PaneId) : PaneNode F → Bool
  | leaf id => id == target
  | split _ _ _ first second => first.containsPane target || second.containsPane target

@[simp] theorem containsPane_iff {node : PaneNode F} {target : PaneId} :
    node.containsPane target = true ↔ target ∈ node.leaves := by
  induction node with
  | leaf id =>
    simp only [containsPane, leaves, beq_iff_eq, List.mem_singleton]
    exact eq_comm
  | split id axis ratio first second ihFirst ihSecond => simp [containsPane, leaves, ihFirst, ihSecond]

def firstPaneId : PaneNode F → PaneId
  | leaf id => id
  | split _ _ _ first _ => first.firstPaneId

def lastPaneId : PaneNode F → PaneId
  | leaf id => id
  | split _ _ _ _ second => second.lastPaneId

theorem firstPaneId_mem (node : PaneNode F) : node.firstPaneId ∈ node.leaves := by
  induction node with
  | leaf id => simp [firstPaneId, leaves]
  | split id axis ratio first second ihFirst _ => exact List.mem_append_left _ ihFirst

theorem lastPaneId_mem (node : PaneNode F) : node.lastPaneId ∈ node.leaves := by
  induction node with
  | leaf id => simp [lastPaneId, leaves]
  | split id axis ratio first second _ ihSecond => exact List.mem_append_right _ ihSecond

/-- Derived equality, which compares the ratios as `f32` does. -/
def same [Scalar F] : PaneNode F → PaneNode F → Bool
  | leaf id, leaf id' => id == id'
  | split id axis ratio first second, split id' axis' ratio' first' second' =>
    id == id' && axis == axis' && Scalar.eq ratio ratio' && first.same first' && second.same second'
  | _, _ => false

theorem same_spec [Scalar F] {node other : PaneNode F} (h : node.same other = true) :
    node.leaves = other.leaves ∧ node.splits = other.splits := by
  induction node generalizing other with
  | leaf id =>
    cases other with
    | leaf id' =>
      obtain rfl : id = id' := eq_of_beq h
      exact ⟨rfl, rfl⟩
    | split => cases h
  | split id axis ratio first second ihFirst ihSecond =>
    cases other with
    | leaf => cases h
    | split id' axis' ratio' first' second' =>
      simp only [same, Bool.and_eq_true, beq_iff_eq] at h
      obtain ⟨⟨⟨⟨rfl, -⟩, -⟩, hf⟩, hs⟩ := h
      obtain ⟨hleaves, hsplits⟩ := ihFirst hf
      obtain ⟨hleaves', hsplits'⟩ := ihSecond hs
      simp [leaves, splits, hleaves, hleaves', hsplits, hsplits']

/-- The same Panes in the same Splits, whatever their identities and ratios. -/
def hasArrangementOf : PaneNode F → PaneNode F → Bool
  | leaf id, leaf id' => id == id'
  | split _ axis _ first second, split _ axis' _ first' second' =>
    axis == axis' && first.hasArrangementOf first' && second.hasArrangementOf second'
  | _, _ => false

/-! ## Splitting a leaf -/

def withSplit [Scalar F] (target new : PaneId) (splitId : SplitId) (edge : PaneEdge) :
    PaneNode F → Option (PaneNode F)
  | leaf id =>
    if id = target then
      let (first, second) := if edge.leads then (new, id) else (id, new)
      some (split splitId edge.axis Scalar.half (leaf first) (leaf second))
    else none
  | split id axis ratio first second =>
    match first.withSplit target new splitId edge with
    | some first => some (split id axis ratio first second)
    | none => (second.withSplit target new splitId edge).map (split id axis ratio first)

theorem withSplit_spec [Scalar F] {node node' : PaneNode F} {target new : PaneId} {splitId : SplitId}
    {edge : PaneEdge} (h : node.withSplit target new splitId edge = some node') :
    node'.leaves.Perm (new :: node.leaves) ∧ node'.splits.Perm (splitId :: node.splits) := by
  induction node generalizing node' with
  | leaf id =>
    simp only [withSplit] at h
    split at h
    · cases h
      refine ⟨?_, .refl _⟩
      split
      · exact .refl _
      · exact .swap _ _ _
    · cases h
  | split id axis ratio first second ihFirst ihSecond =>
    simp only [withSplit] at h
    split at h
    · next first' hf =>
      cases h
      obtain ⟨hleaves, hsplits⟩ := ihFirst hf
      exact ⟨hleaves.append_right _, ((hsplits.append_right _).cons id).trans (.swap _ _ _)⟩
    obtain ⟨second', hs, rfl⟩ := Option.map_eq_some_iff.mp h
    obtain ⟨hleaves, hsplits⟩ := ihSecond hs
    refine ⟨(hleaves.append_left _).trans List.perm_middle, ?_⟩
    exact (((hsplits.append_left _).trans List.perm_middle).cons id).trans (.swap _ _ _)

variable {node : PaneNode F} {target : PaneId}

theorem withSplit_isSome [Scalar F] (new : PaneId) (splitId : SplitId)
    (edge : PaneEdge) (h : target ∈ node.leaves) : ∃ node', node.withSplit target new splitId edge = some node' := by
  induction node with
  | leaf id =>
    obtain rfl : target = id := by simpa [leaves] using h
    simp [withSplit]
  | split id axis ratio first second ihFirst ihSecond =>
    simp only [withSplit]
    split
    · exact ⟨_, rfl⟩
    next hf =>
    rcases List.mem_append.mp h with h | h
    · obtain ⟨first', hf'⟩ := ihFirst h
      simp [hf] at hf'
    · obtain ⟨second', hs⟩ := ihSecond h
      exact ⟨_, by rw [hs]; rfl⟩

/-! ## Removing a leaf -/

structure PaneRemoval (F : Type) where
  replacement : Option (PaneNode F)
  focusFallback : PaneId

def withoutPane (target : PaneId) : PaneNode F → Option (PaneRemoval F)
  | leaf id => if id = target then some ⟨none, id⟩ else none
  | split id axis ratio first second =>
    match first.withoutPane target with
    | some ⟨some first, fallback⟩ => some ⟨some (split id axis ratio first second), fallback⟩
    | some ⟨none, _⟩ => some ⟨some second, second.firstPaneId⟩
    | none => (second.withoutPane target).map fun removal =>
      match removal.replacement with
      | some second => ⟨some (split id axis ratio first second), removal.focusFallback⟩
      | none => ⟨some first, first.lastPaneId⟩

inductive Removes (target : PaneId) (node : PaneNode F) : PaneRemoval F → Prop
  | last (hleaves : node.leaves = [target]) (hsplits : node.splits = []) (fallback : PaneId) :
    Removes target node ⟨none, fallback⟩
  | rest {rest : PaneNode F} {fallback : PaneId} (splitId : SplitId)
    (hleaves : node.leaves.Perm (target :: rest.leaves))
    (hsplits : node.splits.Perm (splitId :: rest.splits)) (hfallback : fallback ∈ rest.leaves) :
    Removes target node ⟨some rest, fallback⟩

theorem withoutPane_spec {removal : PaneRemoval F}
    (h : node.withoutPane target = some removal) : Removes target node removal := by
  induction node generalizing removal with
  | leaf id =>
    simp only [withoutPane] at h
    split at h
    · next hi =>
      cases h
      exact .last (by rw [leaves, hi]) rfl _
    · cases h
  | split id axis ratio first second ihFirst ihSecond =>
    simp only [withoutPane] at h
    split at h
    · next first' fallback hf =>
      cases h
      cases ihFirst hf with
      | rest splitId hleaves hsplits hfallback =>
        exact .rest splitId (hleaves.append_right _)
          (((hsplits.append_right _).cons id).trans (.swap _ _ _)) (List.mem_append_left _ hfallback)
    · next fallback hf =>
      cases h
      cases ihFirst hf with
      | last hleaves hsplits =>
        refine .rest id ?_ ?_ second.firstPaneId_mem
        · simp [leaves, hleaves]
        · simp [splits, hsplits]
    · next hf =>
      obtain ⟨removal, hs, rfl⟩ := Option.map_eq_some_iff.mp h
      cases ihSecond hs with
      | rest splitId hleaves hsplits hfallback =>
        refine .rest splitId ((hleaves.append_left _).trans List.perm_middle) ?_
          (List.mem_append_right _ hfallback)
        exact (((hsplits.append_left _).trans List.perm_middle).cons id).trans (.swap _ _ _)
      | last hleaves hsplits =>
        refine .rest id ?_ ?_ first.lastPaneId_mem
        · simp only [leaves, hleaves]
          exact List.perm_append_singleton _ _
        · simp [splits, hsplits]

theorem withoutPane_isSome (h : target ∈ node.leaves) : ∃ removal, node.withoutPane target = some removal := by
  induction node with
  | leaf id =>
    obtain rfl : target = id := by simpa [leaves] using h
    simp [withoutPane]
  | split id axis ratio first second ihFirst ihSecond =>
    simp only [withoutPane]
    split
    · exact ⟨_, rfl⟩
    · exact ⟨_, rfl⟩
    next hf =>
    rcases List.mem_append.mp h with h | h
    · obtain ⟨removal, hr⟩ := ihFirst h
      simp [hf] at hr
    · obtain ⟨removal, hr⟩ := ihSecond h
      exact ⟨_, by rw [hr]; rfl⟩

/-! ## Exchanging two leaves -/

def exchangePanes (first second : PaneId) : PaneNode F → PaneNode F
  | leaf id => leaf (if id = first then second else if id = second then first else id)
  | split id axis ratio firstChild secondChild =>
    split id axis ratio (firstChild.exchangePanes first second) (secondChild.exchangePanes first second)

theorem exchangePanes_leaves (a b : PaneId) (node : PaneNode F) :
    (node.exchangePanes a b).leaves = node.leaves.map (Equiv.swap a b) := by
  induction node with
  | leaf id => simp [exchangePanes, leaves, Equiv.swap_apply_def]
  | split id axis ratio first second ihFirst ihSecond => simp [exchangePanes, leaves, ihFirst, ihSecond]

theorem exchangePanes_splits (a b : PaneId) (node : PaneNode F) :
    (node.exchangePanes a b).splits = node.splits := by
  induction node with
  | leaf id => rfl
  | split id axis ratio first second ihFirst ihSecond => simp [exchangePanes, splits, ihFirst, ihSecond]

theorem exchangePanes_perm {a b : PaneId} (hno : node.leaves.Nodup)
    (ha : a ∈ node.leaves) (hb : b ∈ node.leaves) : (node.exchangePanes a b).leaves.Perm node.leaves := by
  rw [exchangePanes_leaves]
  have hin := (Equiv.swap a b).injective
  rw [List.perm_ext_iff_of_nodup (hno.map hin) hno]
  have hs (id : PaneId) (hi : id ∈ node.leaves) : Equiv.swap a b id ∈ node.leaves := by
    rw [Equiv.swap_apply_def]
    split
    · exact hb
    split
    · exact ha
    · exact hi
  intro id
  constructor
  · intro hi
    obtain ⟨id', hi', rfl⟩ := List.mem_map.mp hi
    exact hs id' hi'
  · intro hi
    exact List.mem_map.mpr ⟨Equiv.swap a b id, hs id hi, Equiv.swap_apply_self a b id⟩

/-! ## Ratios -/

/-- `split_mut`, with the ratio it is used to write. -/
def setRatio (target : SplitId) (value : F) : PaneNode F → Option (PaneNode F)
  | leaf _ => none
  | split id axis ratio first second =>
    if id = target then some (split id axis value first second)
    else match first.setRatio target value with
      | some first => some (split id axis ratio first second)
      | none => (second.setRatio target value).map (split id axis ratio first)

theorem setRatio_spec {node node' : PaneNode F} {target : SplitId} {value : F}
    (h : node.setRatio target value = some node') :
    node'.leaves = node.leaves ∧ node'.splits = node.splits := by
  induction node generalizing node' with
  | leaf id => cases h
  | split id axis ratio first second ihFirst ihSecond =>
    simp only [setRatio] at h
    split at h
    · cases h
      exact ⟨rfl, rfl⟩
    split at h
    · next first' hf =>
      cases h
      obtain ⟨hleaves, hsplits⟩ := ihFirst hf
      simp [leaves, splits, hleaves, hsplits]
    · obtain ⟨second', hs, rfl⟩ := Option.map_eq_some_iff.mp h
      obtain ⟨hleaves, hsplits⟩ := ihSecond hs
      simp [leaves, splits, hleaves, hsplits]

section Ratios
variable [Scalar F]
open Scalar

def minimumSize (leafMinimum : PaneSize F) (dividerSize : F) : PaneNode F → Except (PaneError F) (PaneSize F)
  | leaf _ => .ok leafMinimum
  | split _ axis _ first second => do
    combinedMinimum (← first.minimumSize leafMinimum dividerSize)
      (← second.minimumSize leafMinimum dividerSize) axis dividerSize

def splitOf (target : SplitId) : PaneNode F → Option (SplitAxis × PaneNode F × PaneNode F)
  | leaf _ => none
  | split id axis _ first second =>
    if id = target then some (axis, first, second)
    else (first.splitOf target).or (second.splitOf target)

/-- The ratio that fits best, and the room its sides then have. -/
def fittedRatio (available first second : PaneSize F) (axis : SplitAxis) (ratio dividerSize : F) :
    F × Option (PaneSize F × PaneSize F) :=
  let content := available.extent axis - dividerSize
  let lowest := first.extent axis / content
  let highest := one - second.extent axis / content
  let ratio := if le lowest highest then clamp ratio lowest highest else ratio
  let child (share : F) : Option (PaneSize F) := match axis with
    | .horizontal => PaneSize.new (content * share) available.height
    | .vertical => PaneSize.new available.width (content * share)
  (ratio, (child ratio).bind fun first => (child (one - ratio)).map (first, ·))

def fitRatios (minimum : PaneSize F) (dividerSize : F) (available : PaneSize F) : PaneNode F → PaneNode F
  | leaf id => leaf id
  | split id axis ratio first second =>
    match first.minimumSize minimum dividerSize, second.minimumSize minimum dividerSize with
    | .ok firstMinimum, .ok secondMinimum =>
      if le (available.extent axis - dividerSize) zero then split id axis ratio first second
      else match fittedRatio available firstMinimum secondMinimum axis ratio dividerSize with
        | (ratio, some (firstSize, secondSize)) =>
          split id axis ratio (first.fitRatios minimum dividerSize firstSize)
            (second.fitRatios minimum dividerSize secondSize)
        | (ratio, none) => split id axis ratio first second
    | _, _ => split id axis ratio first second

theorem fitRatios_spec (minimum : PaneSize F) (dividerSize : F) (available : PaneSize F)
    (node : PaneNode F) : (node.fitRatios minimum dividerSize available).leaves = node.leaves ∧
      (node.fitRatios minimum dividerSize available).splits = node.splits := by
  induction node generalizing available with
  | leaf id => exact ⟨rfl, rfl⟩
  | split id axis ratio first second ihFirst ihSecond =>
    simp only [fitRatios]
    split
    · split
      · exact ⟨rfl, rfl⟩
      split
      · next firstSize secondSize _ =>
        simp [leaves, splits, ihFirst firstSize, ihSecond secondSize]
      · exact ⟨rfl, rfl⟩
    · exact ⟨rfl, rfl⟩

/-! ## Neighbours -/

structure NormalizedBounds (F : Type) where
  left : F
  top : F
  right : F
  bottom : F

def NormalizedBounds.root : NormalizedBounds F := ⟨zero, zero, one, one⟩

def NormalizedBounds.centerX (bounds : NormalizedBounds F) : F := (bounds.left + bounds.right) / two
def NormalizedBounds.centerY (bounds : NormalizedBounds F) : F := (bounds.top + bounds.bottom) / two

structure DirectionalScore (F : Type) where
  primaryDistance : F
  perpendicularDistance : F
  overlap : F

def DirectionalScore.compare (score other : DirectionalScore F) : Ordering :=
  (totalCmp score.primaryDistance other.primaryDistance).then
    ((totalCmp score.perpendicularDistance other.perpendicularDistance).then
      (totalCmp other.overlap score.overlap))

def directionalScore (focused candidate : NormalizedBounds F) (direction : FocusDirection) :
    Option (DirectionalScore F) :=
  let across := min focused.bottom candidate.bottom - max focused.top candidate.top
  let along := min focused.right candidate.right - max focused.left candidate.left
  let (isInDirection, primaryDistance, perpendicularDistance, overlap) := match direction with
    | .left => (le candidate.right (focused.left + edgeEpsilon), focused.left - candidate.right,
      abs (focused.centerY - candidate.centerY), across)
    | .right => (le (focused.right - edgeEpsilon) candidate.left, candidate.left - focused.right,
      abs (focused.centerY - candidate.centerY), across)
    | .up => (le candidate.bottom (focused.top + edgeEpsilon), focused.top - candidate.bottom,
      abs (focused.centerX - candidate.centerX), along)
    | .down => (le (focused.bottom - edgeEpsilon) candidate.top, candidate.top - focused.bottom,
      abs (focused.centerX - candidate.centerX), along)
  if isInDirection && lt edgeEpsilon overlap then
    some ⟨max primaryDistance zero, perpendicularDistance, overlap⟩
  else none

def collectPaneBounds (bounds : NormalizedBounds F) : PaneNode F → List (PaneId × NormalizedBounds F)
  | leaf id => [(id, bounds)]
  | split _ axis ratio first second =>
    let (firstBounds, secondBounds) := match axis with
      | .horizontal =>
        let divider := bounds.left + (bounds.right - bounds.left) * ratio
        ({ bounds with right := divider }, { bounds with left := divider })
      | .vertical =>
        let divider := bounds.top + (bounds.bottom - bounds.top) * ratio
        ({ bounds with bottom := divider }, { bounds with top := divider })
    first.collectPaneBounds firstBounds ++ second.collectPaneBounds secondBounds

theorem collectPaneBounds_ids (bounds : NormalizedBounds F) (node : PaneNode F) :
    (node.collectPaneBounds bounds).map Prod.fst = node.leaves := by
  induction node generalizing bounds with
  | leaf id => rfl
  | split id axis ratio first second ihFirst ihSecond =>
    simp [collectPaneBounds, leaves, ihFirst, ihSecond]

/-- The nearer of two candidates, the earlier where neither is. -/
def nearer (first second : PaneId × DirectionalScore F) : PaneId × DirectionalScore F :=
  if (first.2.compare second.2).then (Ord.compare first.1.get second.1.get) = .gt then second else first

def paneInDirection (focused : PaneId) (direction : FocusDirection) (node : PaneNode F) : Option PaneId := do
  let panes := node.collectPaneBounds .root
  let focusedBounds ← (panes.find? (·.1 == focused)).map Prod.snd
  match panes.filterMap fun (id, bounds) => (directionalScore focusedBounds bounds direction).map (id, ·) with
  | [] => none
  | first :: rest => some (rest.foldl nearer first).1

theorem foldl_nearer_mem (first : PaneId × DirectionalScore F) (rest : List (PaneId × DirectionalScore F)) :
    rest.foldl nearer first ∈ first :: rest := by
  induction rest generalizing first with
  | nil => simp
  | cons next rest ih =>
    rcases List.mem_cons.mp (ih (nearer first next)) with h | h
    · simp only [List.foldl_cons, h]
      unfold nearer
      split <;> simp
    · exact List.mem_cons_of_mem _ (List.mem_cons_of_mem _ h)

theorem paneInDirection_mem {focused id : PaneId} {direction : FocusDirection} {node : PaneNode F}
    (h : node.paneInDirection focused direction = some id) : id ∈ node.leaves := by
  obtain ⟨focusedBounds, -, h⟩ := Option.bind_eq_some_iff.mp h
  split at h
  · cases h
  next first rest hsc =>
  cases h
  have hmem := foldl_nearer_mem first rest
  rw [← hsc, List.mem_filterMap] at hmem
  obtain ⟨⟨id, bounds⟩, hp, hs⟩ := hmem
  obtain ⟨score, -, hs⟩ := Option.map_eq_some_iff.mp hs
  rw [← hs, ← collectPaneBounds_ids .root]
  exact List.mem_map_of_mem hp

end Ratios

end PaneNode
end SpaceTerm.Layout
