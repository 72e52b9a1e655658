import SpaceTerm.Layout.Node
import SpaceTerm.Lib.FMap

/-! # A Tab and its Panes

`Tab` of `domain/tab.rs`: the layout, the Panes' payloads, focus, zoom and the next identities. A call
that is refused returns its error and leaves the Tab as it was. -/

namespace SpaceTerm.Layout
open Lib

inductive ZoomState
  | restored
  | zoomed (id : PaneId)
  deriving DecidableEq

inductive PaneArrangement (F : Type)
  | pane (id : PaneId)
  | split (axis : SplitAxis) (ratio : F) (first second : PaneArrangement F)

inductive FocusHistoryStep
  | previous
  | next

/-- A Pane held until its close has a definite result. -/
structure ParkedPane (F T : Type) where
  id : PaneId
  payload : T
  original : PaneNode F
  remaining : PaneNode F
  wasRoot : Bool

structure Tab (F T : Type) where
  id : Nat
  root : PaneNode F
  panes : FMap PaneId T
  focusedPaneId : PaneId
  focusHistory : List PaneId
  rootPaneId : PaneId
  zoomState : ZoomState
  minimumPaneSize : PaneSize F
  nextPaneId : Nat
  nextSplitId : Nat

inductive ClosePaneOutcome (T : Type)
  | paneClosed (closed focused : PaneId) (pane : T)
  | closeTab (id : Nat)

def maxId : Nat := 18446744073709551615

/-- `checked_add(1)` of a `u64`. -/
def checkedSucc (n : Nat) : Option Nat := if n < maxId then some (n + 1) else none

variable {F T : Type}

namespace Tab

def new (id : Nat) (minimumPaneSize : PaneSize F) (createInitialPane : PaneId → T) : Tab F T where
  id := id
  root := .leaf ⟨1⟩
  panes := FMap.empty.insert ⟨1⟩ (createInitialPane ⟨1⟩)
  focusedPaneId := ⟨1⟩
  focusHistory := [⟨1⟩]
  rootPaneId := ⟨1⟩
  zoomState := .restored
  minimumPaneSize := minimumPaneSize
  nextPaneId := 2
  nextSplitId := 1

def paneCount (tab : Tab F T) : Nat := tab.panes.keys.card

/-! ## Focus and zoom -/

def applyFocusedPane (tab : Tab F T) (id : PaneId) : Tab F T :=
  { tab with
    focusedPaneId := id
    zoomState := match tab.zoomState with
      | .zoomed _ => .zoomed id
      | .restored => .restored }

def setFocusedPane (tab : Tab F T) (id : PaneId) : Tab F T :=
  { tab with focusHistory := tab.focusHistory.filter (· ≠ id) ++ [id] }.applyFocusedPane id

def focusPane (tab : Tab F T) (id : PaneId) : Except (PaneError F) (Tab F T) :=
  if tab.root.containsPane id then .ok (tab.setFocusedPane id) else .error (.paneNotFound id)

def focusPaneInDirection [Scalar F] (tab : Tab F T) (direction : FocusDirection) : Option (PaneId × Tab F T) :=
  (tab.root.paneInDirection tab.focusedPaneId direction).map fun id => (id, tab.setFocusedPane id)

def historyIndex (current length : Nat) : FocusHistoryStep → Nat
  | .previous => if current = 0 then length - 1 else current - 1
  | .next => (current + 1) % length

def focusPaneInHistory (tab : Tab F T) (step : FocusHistoryStep) : Option (PaneId × Tab F T) :=
  if tab.focusHistory.length ≤ 1 then none
  else do
    let current ← tab.focusHistory.findIdx? (· == tab.focusedPaneId)
    let id ← tab.focusHistory[historyIndex current tab.focusHistory.length step]?
    return (id, tab.applyFocusedPane id)

/-- Panes that `history` names and the Tab holds, each once and after those it does not name. -/
def restoredHistory (tab : Tab F T) (history : List PaneId) : List PaneId :=
  history.foldl (fun restored id => if id ∈ tab.panes.keys ∧ id ∉ restored then restored ++ [id] else restored)
    (tab.focusHistory.filter (· ∉ history))

def restoreFocus (tab : Tab F T) (history : List PaneId) (focused : Option PaneId) (zoomed : Bool) : Tab F T :=
  let restored := tab.restoredHistory history
  let focused := focused.filter (· ∈ tab.panes.keys)
  let focusedPaneId := focused.getD tab.rootPaneId
  { tab with
    focusHistory := if focusedPaneId ∈ restored then restored else restored ++ [focusedPaneId]
    focusedPaneId := focusedPaneId
    zoomState := if zoomed ∧ focused.isSome ∧ tab.paneCount > 1 then .zoomed focusedPaneId else .restored }

def toggleZoom (tab : Tab F T) : Option (ZoomState × Tab F T) :=
  if tab.paneCount ≤ 1 then none
  else
    let zoomState := match tab.zoomState with
      | .restored => .zoomed tab.focusedPaneId
      | .zoomed _ => .restored
    some (zoomState, { tab with zoomState := zoomState })

/-! ## Arrangements -/

/-- `build`: the layout, the Panes it placed so far and the next Split. -/
def build [Scalar F] : PaneArrangement F → List PaneId × Nat →
    Except (PaneError F) (PaneNode F × List PaneId × Nat)
  | .pane id, (panes, next) =>
    if id ∈ panes then .error (.missingPane id) else .ok (.leaf id, id :: panes, next)
  | .split axis ratio first second, (panes, next) => do
    if !Scalar.isFinite ratio || Scalar.le ratio Scalar.zero || Scalar.le Scalar.one ratio then
      .error (.invalidSplitRatio ratio)
    match checkedSucc next with
    | none => .error .splitIdExhausted
    | some after =>
      let (first, placed) ← build first (panes, after)
      let (second, placed) ← build second placed
      return (.split ⟨next⟩ axis ratio first second, placed)

def restoreArrangement [Scalar F] (tab : Tab F T) (arrangement : PaneArrangement F) :
    Except (PaneError F) (Tab F T) := do
  let (root, panes, next) ← build arrangement ([], tab.nextSplitId)
  if panes.length ≠ tab.paneCount ∨ ∃ id ∈ tab.panes.keys, id ∉ panes then
    .error (.missingPane tab.rootPaneId)
  return { tab with root := root, nextSplitId := next }

/-! ## Panes -/

def nextSplitIds (tab : Tab F T) : Except (PaneError F) (PaneId × SplitId × Nat × Nat) :=
  match checkedSucc tab.nextPaneId with
  | none => .error .paneIdExhausted
  | some nextPaneId => match checkedSucc tab.nextSplitId with
    | none => .error .splitIdExhausted
    | some nextSplitId => .ok (⟨tab.nextPaneId⟩, ⟨tab.nextSplitId⟩, nextPaneId, nextSplitId)

def insertPane [Scalar F] (tab : Tab F T) (source : PaneId) (edge : PaneEdge) (createPane : PaneId → T) :
    Except (PaneError F) (PaneId × Tab F T) := do
  let (paneId, splitId, nextPaneId, nextSplitId) ← tab.nextSplitIds
  match tab.root.withSplit source paneId splitId edge with
  | none => .error (.paneNotFound source)
  | some root => return (paneId, { tab with
      root := root
      panes := tab.panes.insert paneId (createPane paneId)
      nextPaneId := nextPaneId
      nextSplitId := nextSplitId
      focusHistory := paneId :: tab.focusHistory })

def validateSplit [Scalar F] (tab : Tab F T) (target : PaneId) (axis : SplitAxis) (targetSize : PaneSize F)
    (dividerSize : F) : Except (PaneError F) Unit := do
  if tab.root.containsPane target = false then .error (.paneNotFound target)
  validateDividerSize dividerSize
  let required ← combinedMinimum tab.minimumPaneSize tab.minimumPaneSize axis dividerSize
  ensureSpace targetSize required

/-- `moved_root`, `none` where the source says unreachable. -/
def movedRoot [Scalar F] (tab : Tab F T) (id target : PaneId) (edge : PaneEdge) : Option (PaneNode F) := do
  let removal ← tab.root.withoutPane id
  let remaining ← removal.replacement
  remaining.withSplit target id ⟨tab.nextSplitId⟩ edge

def moveBeside [Scalar F] (tab : Tab F T) (id target : PaneId) (edge : PaneEdge) :
    Except (PaneError F) (Bool × Tab F T) :=
  if id = target then .ok (false, tab)
  else match checkedSucc tab.nextSplitId with
    | none => .error .splitIdExhausted
    | some nextSplitId => match tab.movedRoot id target edge with
      | none => .ok (false, tab)
      | some root =>
        if root.hasArrangementOf tab.root then .ok (false, tab)
        else .ok (true, { tab with
          root := root
          nextSplitId := nextSplitId
          zoomState := .restored }.setFocusedPane id)

def movePane [Scalar F] (tab : Tab F T) (id target : PaneId) (edge : PaneEdge) (targetSize : PaneSize F)
    (dividerSize : F) : Except (PaneError F) (Bool × Tab F T) :=
  if tab.root.containsPane id then do
    tab.validateSplit target edge.axis targetSize dividerSize
    tab.moveBeside id target edge
  else .error (.paneNotFound id)

def swapPanes (tab : Tab F T) (id target : PaneId) : Except (PaneError F) (Bool × Tab F T) :=
  if tab.root.containsPane id = false then .error (.paneNotFound id)
  else if tab.root.containsPane target = false then .error (.paneNotFound target)
  else if id = target then .ok (false, tab)
  else .ok (true, { tab with
    root := tab.root.exchangePanes id target
    zoomState := .restored }.setFocusedPane id)

def unzoomClosed (tab : Tab F T) (id : PaneId) : Tab F T :=
  if tab.paneCount = 1 ∨ tab.zoomState = .zoomed id then { tab with zoomState := .restored } else tab

/-- `close_pane` once the Pane was found to be one of several: it leaves the maps and the focus goes
on. -/
def removed (tab : Tab F T) (id : PaneId) (root : PaneNode F) (fallback : PaneId) : Tab F T :=
  let tab := { tab with
    panes := tab.panes.erase id
    root := root
    rootPaneId := if tab.rootPaneId = id then root.firstPaneId else tab.rootPaneId
    focusHistory := tab.focusHistory.filter (· ≠ id) }
  (if tab.focusedPaneId = id then tab.setFocusedPane fallback else tab).unzoomClosed id

def closePane (tab : Tab F T) (id : PaneId) : Except (PaneError F) (ClosePaneOutcome T × Tab F T) :=
  match tab.root.withoutPane id with
  | none => .error (.paneNotFound id)
  | some removal =>
    if tab.paneCount ≤ 1 then .ok (.closeTab tab.id, tab)
    else match removal.replacement, tab.panes.get id with
      | some root, some pane =>
        let closed := tab.removed id root removal.focusFallback
        .ok (.paneClosed id closed.focusedPaneId pane, closed)
      | _, _ => .error (.missingPane id)

def parkPane (tab : Tab F T) (id : PaneId) : Except (PaneError F) (Option (ParkedPane F T) × Tab F T) := do
  match ← tab.closePane id with
  | (.paneClosed _ _ pane, closed) => return (some {
      id := id
      payload := pane
      original := tab.root
      remaining := closed.root
      wasRoot := tab.rootPaneId = id }, closed)
  | (.closeTab _, closed) => return (none, closed)

/-- A parked Pane back in its place, or beside `source` where the layout changed since. -/
def restoredRoot [Scalar F] (tab : Tab F T) (parked : ParkedPane F T) (source : PaneId) (edge : PaneEdge) :
    Except (PaneError F) (PaneNode F × Nat) :=
  if tab.root.same parked.remaining then .ok (parked.original, tab.nextSplitId)
  else match checkedSucc tab.nextSplitId with
    | none => .error .splitIdExhausted
    | some next => match tab.root.withSplit source parked.id ⟨tab.nextSplitId⟩ edge with
      | none => .error (.paneNotFound source)
      | some root => .ok (root, next)

def restoreParkedPane [Scalar F] (tab : Tab F T) (parked : ParkedPane F T) (source : PaneId)
    (edge : PaneEdge) : Except (PaneError F) (PaneId × Tab F T) := do
  let (root, nextSplitId) ← tab.restoredRoot parked source edge
  return (parked.id, { tab with
    root := root
    nextSplitId := nextSplitId
    rootPaneId := if parked.wasRoot then parked.id else tab.rootPaneId
    panes := tab.panes.insert parked.id parked.payload
    focusHistory := parked.id :: tab.focusHistory })

/-! ## Ratios -/

section Ratios
variable [Scalar F]
open Scalar

def fitSplitRatios (tab : Tab F T) (available : PaneSize F) (dividerSize : F) : Tab F T :=
  match validateDividerSize dividerSize with
  | .ok () => { tab with root := tab.root.fitRatios tab.minimumPaneSize dividerSize available }
  | .error _ => tab

def splitRatioRange (tab : Tab F T) (splitId : SplitId) (available : PaneSize F) (dividerSize : F) :
    Except (PaneError F) (F × F) := do
  validateDividerSize dividerSize
  match tab.root.splitOf splitId with
  | none => .error (.splitNotFound splitId)
  | some (axis, first, second) =>
    let firstMinimum ← first.minimumSize tab.minimumPaneSize dividerSize
    let secondMinimum ← second.minimumSize tab.minimumPaneSize dividerSize
    let required ← combinedMinimum firstMinimum secondMinimum axis dividerSize
    ensureSpace available required
    let contentExtent := available.extent axis - dividerSize
    return (firstMinimum.extent axis / contentExtent, one - secondMinimum.extent axis / contentExtent)

def resizeSplit (tab : Tab F T) (splitId : SplitId) (available : PaneSize F) (dividerSize requested : F) :
    Except (PaneError F) (F × Tab F T) := do
  validateDividerSize dividerSize
  if !isFinite requested then .error (.invalidSplitRatio requested)
  let (lowest, highest) ← tab.splitRatioRange splitId available dividerSize
  let ratio := clamp requested lowest highest
  match tab.root.setRatio splitId ratio with
  | none => .error (.splitNotFound splitId)
  | some root => return (ratio, { tab with root := root })

end Ratios
end Tab

/-! ## Calls -/

structure Desk (F T : Type) where
  tab : Tab F T
  parked : List (ParkedPane F T) := []

inductive Call (F T : Type)
  | insertPane (source : PaneId) (edge : PaneEdge) (createPane : PaneId → T)
  | movePane (id target : PaneId) (edge : PaneEdge) (targetSize : PaneSize F) (dividerSize : F)
  | swapPanes (id target : PaneId)
  | closePane (id : PaneId)
  | parkPane (id : PaneId)
  | restoreParkedPane (index : Nat) (source : PaneId) (edge : PaneEdge)
  | dropParked (index : Nat)
  | restoreArrangement (arrangement : PaneArrangement F)
  | restoreFocus (history : List PaneId) (focused : Option PaneId) (zoomed : Bool)
  | focusPane (id : PaneId)
  | focusPaneInDirection (direction : FocusDirection)
  | focusPaneInHistory (step : FocusHistoryStep)
  | toggleZoom
  | fitSplitRatios (available : PaneSize F) (dividerSize : F)
  | resizeSplit (splitId : SplitId) (available : PaneSize F) (dividerSize requested : F)
  | setMinimumPaneSize (size : PaneSize F)

namespace Desk

/-- The Tab after a call that may be refused. -/
def after {α : Type} (desk : Desk F T) : Except (PaneError F) (α × Tab F T) → Desk F T
  | .ok (_, tab) => { desk with tab := tab }
  | .error _ => desk

def moved {α : Type} (desk : Desk F T) : Option (α × Tab F T) → Desk F T
  | some (_, tab) => { desk with tab := tab }
  | none => desk

def call [Scalar F] (desk : Desk F T) : Call F T → Desk F T
  | .insertPane source edge createPane => desk.after (desk.tab.insertPane source edge createPane)
  | .movePane id target edge targetSize dividerSize =>
    desk.after (desk.tab.movePane id target edge targetSize dividerSize)
  | .swapPanes id target => desk.after (desk.tab.swapPanes id target)
  | .closePane id => desk.after (desk.tab.closePane id)
  | .parkPane id =>
    match desk.tab.parkPane id with
    | .ok (parked, tab) => { tab := tab, parked := desk.parked ++ parked.toList }
    | .error _ => desk
  -- The call takes the parked Pane, also when it is refused.
  | .restoreParkedPane index source edge =>
    match desk.parked[index]? with
    | some parked => { desk with parked := desk.parked.eraseIdx index }.after
        (desk.tab.restoreParkedPane parked source edge)
    | none => desk
  | .dropParked index => { desk with parked := desk.parked.eraseIdx index }
  | .restoreArrangement arrangement => desk.after ((desk.tab.restoreArrangement arrangement).map ((), ·))
  | .restoreFocus history focused zoomed => { desk with tab := desk.tab.restoreFocus history focused zoomed }
  | .focusPane id => desk.after ((desk.tab.focusPane id).map ((), ·))
  | .focusPaneInDirection direction => desk.moved (desk.tab.focusPaneInDirection direction)
  | .focusPaneInHistory step => desk.moved (desk.tab.focusPaneInHistory step)
  | .toggleZoom => desk.moved desk.tab.toggleZoom
  | .fitSplitRatios available dividerSize => { desk with tab := desk.tab.fitSplitRatios available dividerSize }
  | .resizeSplit splitId available dividerSize requested =>
    desk.after (desk.tab.resizeSplit splitId available dividerSize requested)
  | .setMinimumPaneSize size => { desk with tab := { desk.tab with minimumPaneSize := size } }

def calls [Scalar F] (desk : Desk F T) (calls : List (Call F T)) : Desk F T := calls.foldl call desk

end Desk
end SpaceTerm.Layout
