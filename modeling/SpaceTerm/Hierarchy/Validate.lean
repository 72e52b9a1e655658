import Mathlib.Data.List.Dedup
import SpaceTerm.Hierarchy.State

/-! # What a retained record must satisfy

`State::validate`, as whether it returns `Ok`. The sets it fills are lists here, threaded through the
loops in the order the source visits Workspaces, Tabs and Panes. -/

namespace SpaceTerm.Hierarchy
open Lib

namespace State

def checkSessionEnds (s : State) : Bool :=
  match s.sessionEnds with
  | none => true
  | some ends =>
    some ends.boot == s.creatorBoot && ends.sessions.length ≤ maxPanes && ends.controls.length ≤ maxPanes &&
      (ends.sessions.map (·.id)).dedup.length == ends.sessions.length &&
      ends.sessions.all fun p => p.id != 0 && p.session != some 0

def checkNames (s : State) : Bool :=
  let workspaces := s.inventory.workspaces
  s.names.length == workspaces.length &&
    workspaces.all (fun w => (s.names.filter (·.workspace == w.id)).length == 1) &&
    (workspaces.isEmpty || s.homeDirectory.isSome) &&
    s.names.all fun n =>
      workspaces.any (·.id == n.workspace) &&
        n.custom.all fun name =>
          !(Text.trim name).isEmpty && Text.utf8Len name ≤ 256 && !name.any Text.isControl

def checkLimits (s : State) : Bool :=
  s.homeDirectory.all validPath && s.inventory.workspaces.length ≤ maxWorkspaces &&
    s.tabCount ≤ maxTabs && s.paneCount ≤ maxPanes && s.devices.length ≤ maxDevices &&
    s.sequenceFloor != u64Max && s.retainedCount ≤ maxOutcomes

def paneOk (preceding : List Id) (p : Pane) : Bool :=
  p.source.all preceding.contains && p.observers.names.length ≤ maxObserverNames &&
    !(p.observers.names.isEmpty && p.observers.others != 0) && p.presentation.all (·.validate) &&
    validPath p.startingDirectory && p.confirmedDirectory.all validPath

def tabOk (t : Tab) : Bool :=
  t.worktree.all validPath && t.worktreeRepository.all validPath &&
    !(t.worktreeRepository.isSome && t.worktree.isNone) && t.panes.any (·.id == t.rootPane)

def workspaceOk (w : Workspace) : Bool :=
  !(Text.trim w.name).isEmpty && Text.utf8Len w.name ≤ 256 && !w.name.any Text.isControl &&
    w.tabs.any (·.id == w.rootTab) && w.pinnedDirectory.all validPath

/-- Adds an identity to those seen, unless it is zero or seen. -/
def insertId (ids : List Id) (id : Id) : Option (List Id) :=
  if id == 0 || ids.contains id then none else some (id :: ids)

def checkPanes : List Id → List Id → List Pane → Option (List Id)
  | ids, _, [] => some ids
  | ids, preceding, p :: ps => do
    let ids ← insertId ids p.id
    if paneOk preceding p then checkPanes ids (preceding ++ [p.id]) ps else none

def checkTabs : List Id → List Tab → Option (List Id)
  | ids, [] => some ids
  | ids, t :: ts => do
    let ids ← insertId ids t.id
    if tabOk t then
      let ids ← checkPanes ids [] t.panes
      checkTabs ids ts
    else none

def checkWorkspaces : List Id → List Workspace → Option (List Id)
  | ids, [] => some ids
  | ids, w :: ws => do
    let ids ← insertId ids w.id
    if workspaceOk w then
      let ids ← checkTabs ids w.tabs
      checkWorkspaces ids ws
    else none

/-- The outcomes of one device from position `index`: each carries the sequence of its place. -/
def checkPending (retired : Nat) : Nat → List RetainedOutcome → Bool
  | _, [] => true
  | index, o :: os =>
    !(o.outcome == .pending && !o.mutation.isWorktree) && o.mutation.isBounded &&
      retired + (index + 1) ≤ u64Max && o.sequence == retired + (index + 1) &&
      o.sequence != u64Max && checkPending retired (index + 1) os

def checkDevices : List Id → List DeviceOutcomes → Bool
  | _, [] => true
  | seen, d :: ds =>
    !seen.contains d.device && d.retired != u64Max && checkPending d.retired 0 d.pending &&
      checkDevices (d.device :: seen) ds

def validate (s : State) : Bool :=
  s.checkSessionEnds && s.checkNames && s.checkLimits &&
    (checkWorkspaces [] s.inventory.workspaces).isSome && checkDevices [] s.devices

/-- The first Workspace a server prepares, unless a draw failed or the result does not validate. -/
def first (directory : PathBuf) (fresh : Nat → Option Id) : Option State := do
  let workspace ← fresh 0
  let tab ← fresh 1
  let pane ← fresh 2
  let pane := Pane.created pane none .right directory none
  let tab := Tab.created tab pane .following none none
  let state : State := {
    homeDirectory := some directory
    names := [{ workspace, custom := none, automaticBase := defaultName }]
    inventory := {
      revision := 0
      close := none
      workspaces := [.created workspace defaultName none tab] }
    devices := []
    sequenceFloor := 0
    creatorBoot := none
    sessionEnds := none }
  if state.validate then some state else none

end State

end SpaceTerm.Hierarchy
