import SpaceTerm.Hierarchy.Types

/-! # Reading and moving membership

`Inventory::close_panes`, `close_confirmation` and the moves of `Workspace`. A refused move leaves
the Workspace as it was, so a move returns the new Workspace or the refusal. -/

namespace SpaceTerm.Hierarchy
open Lib

def CloseTarget.workspace : CloseTarget → Id
  | .pane workspace _ _ | .tab workspace _ | .killWorkspace workspace | .worktree workspace _ =>
    workspace

def CloseConfirmation.sameTargets (self other : CloseConfirmation) : Bool :=
  self.boot == other.boot && self.panes == other.panes && self.removesTab == other.removesTab &&
    self.removesWorkspace == other.removesWorkspace

namespace Pane

def presentedDirectory (p : Pane) : PathBuf :=
  (p.currentDirectory <|> p.confirmedDirectory).getD p.startingDirectory

def created (id : Id) (source : Option Id) (side : Side) (startingDirectory : PathBuf)
    (creator : Option Id) : Pane where
  id := id
  source := source
  side := side
  startingDirectory := startingDirectory
  currentDirectory := none
  repositoryDirectory := none
  presentation := none
  observers := {}
  confirmedDirectory := none
  creator := creator

end Pane

def Tab.created (id : Id) (pane : Pane) (membership : WorktreeMembership)
    (worktree worktreeRepository : Option PathBuf) : Tab where
  worktreeMembership := membership
  worktree := worktree
  worktreeRepository := worktreeRepository
  id := id
  rootPane := pane.id
  panes := [pane]

def Workspace.created (id : Id) (name : Text) (pin : Option PathBuf) (tab : Tab) : Workspace where
  id := id
  name := name
  nameVersion := 0
  pinVersion := 0
  pinnedDirectory := pin
  rootTab := tab.id
  tabs := [tab]

namespace Inventory

def closePanes (inv : Inventory) (target : CloseTarget) : Option (List Id) := do
  let w ← inv.workspaces.find? (·.id == target.workspace)
  match target with
  | .worktree _ tab =>
    let anchor ← w.tabs.find? (·.id == tab)
    let _ ← anchor.worktree
    pure ((w.tabs.filter fun t =>
      t.worktree == anchor.worktree && t.worktreeRepository == anchor.worktreeRepository).flatMap
        fun t => t.panes.map (·.id))
  | .killWorkspace _ => pure (w.tabs.flatMap fun t => t.panes.map (·.id))
  | .tab _ tab => do
    let t ← w.tabs.find? (·.id == tab)
    pure (t.panes.map (·.id))
  | .pane _ tab pane => do
    let t ← w.tabs.find? (·.id == tab)
    if t.panes.any (·.id == pane) then pure [pane] else none

def closeConfirmation (inv : Inventory) (target : CloseTarget) : Option CloseConfirmation := do
  let live ← inv.close
  let ids ← inv.closePanes target
  let workspace ← inv.workspaces.find? (·.id == target.workspace)
  -- Sibling removal can change the consequences without changing any target Pane.
  let removesTab ← match target with
    | .pane _ tab _ => (workspace.tabs.find? (·.id == tab)).map fun t => t.panes.length == 1
    | _ => some true
  let removesWorkspace := ids.length == (workspace.tabs.map (·.panes.length)).sum
  let panes ← ids.mapM fun id => live.sessions.find? (·.id == id)
  pure { ownControls := none, boot := live.boot, panes, removesTab, removesWorkspace }

end Inventory

def CreateControl.creatorOf (control : CreateControl) (device : Id) (inv : Inventory) : Option Id :=
  match control with
  | .creator => some device
  | .unclaimed => none
  | .originController pane => do
    let close ← inv.close
    (close.controls.find? (·.pane == pane)).map (·.owner)

/-- Removes one of several Panes from the Tab: the Panes split from it lose their source, and
removing the Root Pane promotes the Pane that follows it. -/
def Tab.takePane (t : Tab) (pane : Id) : Except Outcome (Pane × Tab) :=
  match t.panes.find? (·.id == pane) with
  | none => .error .missing
  | some moved =>
    if t.panes.length == 1 then .error .invalid
    else
      let panes := (t.panes.eraseP (·.id == pane)).map fun p =>
        if p.source == some pane then { p with source := none } else p
      -- Several Panes were there, so one is left to promote.
      let rootPane := if t.rootPane == pane then (panes.head?.map (·.id)).getD pane else t.rootPane
      .ok ({ moved with source := none, side := .right }, { t with panes, rootPane })

namespace Workspace

def takePane (w : Workspace) (tab pane : Id) : Except Outcome (Pane × Workspace) :=
  match w.tabs.find? (·.id == tab) with
  | none => .error .missing
  | some t => do
    let (moved, source) ← t.takePane pane
    pure (moved, { w with tabs := modifyFirst (·.id == tab) (fun _ => source) w.tabs })

def promoteRootTab (w : Workspace) : Workspace :=
  match w.tabs with
  | [] => w
  | t :: rest =>
    if t.id == w.rootTab then w
    else
      -- A promoted Root Tab follows its Root Pane, not the Worktree it opened in.
      let membership :=
        if t.worktreeMembership == .opened then .following else t.worktreeMembership
      { w with tabs := { t with worktreeMembership := membership } :: rest, rootTab := t.id }

def destination (w : Workspace) (tab into beside : Id) : Except Outcome Nat :=
  if tab == into then .error .invalid
  else match w.tabs.findIdx? fun t => t.id == into && t.panes.any (·.id == beside) with
    | some index => .ok index
    | none => .error .missing

def movePaneToNewTab (w : Workspace) (tab pane id : Id) : Except Outcome Workspace :=
  match w.tabs.find? (·.id == tab) with
  | none => .error .missing
  | some source => do
    let (moved, w) ← w.takePane tab pane
    pure { w with
      tabs := w.tabs ++ [{
        worktreeMembership := .following
        worktree := source.worktree
        worktreeRepository := source.worktreeRepository
        id := id
        rootPane := pane
        panes := [moved] }] }

def movePaneBeside (w : Workspace) (tab pane into beside : Id) (side : Side) : Except Outcome Workspace := do
  let target ← w.destination tab into beside
  let (moved, w) ← w.takePane tab pane
  let moved := { moved with source := some beside, side := side }
  pure { w with tabs := w.tabs.modify target fun t => { t with panes := t.panes ++ [moved] } }

/-- A merged Tab's Pane in its new Tab: its Root Pane takes the side of `beside`, and a Pane whose
own source is gone follows that Root Pane. -/
def mergedPane (merged : Tab) (beside : Id) (side : Side) (p : Pane) : Pane :=
  if p.id == merged.rootPane then { p with source := some beside, side := side }
  else { p with source := some (p.source.getD merged.rootPane) }

def mergeTab (w : Workspace) (tab into beside : Id) (side : Side) : Except Outcome Workspace := do
  let _ ← w.destination tab into beside
  match w.tabs.find? (·.id == tab) with
  | none => .error .missing
  | some merged =>
    let tabs := w.tabs.eraseP (·.id == tab)
    match tabs.find? (·.id == into) with
    | none => .error .missing
    | some _ =>
      let panes := merged.panes.map (mergedPane merged beside side)
      pure (promoteRootTab { w with
        tabs := modifyFirst (·.id == into) (fun t => { t with panes := t.panes ++ panes }) tabs })

end Workspace

end SpaceTerm.Hierarchy
