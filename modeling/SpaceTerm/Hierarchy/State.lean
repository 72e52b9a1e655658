import SpaceTerm.Hierarchy.Names

/-! # The state and its edits

`State` of `hierarchy.rs`: `edit` with its one function for each mutation, the operations the server
runs beside it, and the device log (`apply`, `acknowledge`, `forget`, `finish_worktree`). A call
returns the new state or a refusal; a refused call's state is dropped by its caller. The random
identities a call draws are `fresh 0`, `fresh 1`, …, `none` where the source of randomness failed. -/

namespace SpaceTerm.Hierarchy
open Lib

/-- What `edit` makes of a mutation: it is refused, it ends with an outcome that leaves the
inventory alone, or it changed the state and names its target. -/
inductive Edit
  | refused (refusal : Refusal)
  | answered (outcome : Outcome)
  | changed (s : State) (target : Id)

def validName (name : Text) : Bool :=
  !(Text.trim name).isEmpty && Text.utf8Len name ≤ 256 && !name.any Text.isControl

def CloseTarget.target : CloseTarget → Id
  | .pane _ _ id | .tab _ id | .killWorkspace id | .worktree id _ => id

def CloseTarget.isWorktree : CloseTarget → Bool
  | .worktree _ _ => true
  | _ => false

namespace State

def empty : State where
  homeDirectory := none
  names := []
  inventory := { revision := 0, workspaces := [], close := none }
  devices := []
  sequenceFloor := 0
  creatorBoot := none
  sessionEnds := none

def withWorkspaces (s : State) (workspaces : List Workspace) : State :=
  { s with inventory := { s.inventory with workspaces } }

def withRevision (s : State) (revision : Nat) : State :=
  { s with inventory := { s.inventory with revision } }

def setWorkspace (s : State) (id : Id) (w : Workspace) : State :=
  s.withWorkspaces (modifyFirst (·.id == id) (fun _ => w) s.inventory.workspaces)

def workspace? (s : State) (id : Id) : Option Workspace :=
  s.inventory.workspaces.find? (·.id == id)

def tabCount (s : State) : Nat := (s.inventory.workspaces.map (·.tabs.length)).sum

def paneCount (s : State) : Nat :=
  ((s.inventory.workspaces.flatMap Workspace.tabs).map fun t => t.panes.length).sum

/-- Changes every Pane. -/
def mapPanes (s : State) (f : Pane → Pane) : State :=
  s.withWorkspaces (s.inventory.workspaces.map fun w =>
    { w with tabs := w.tabs.map fun t => { t with panes := t.panes.map f } })

/-- Forgets live facts and creator reservations when the server starts anew. -/
def beginBoot (s : State) (boot : Id) : State :=
  if s.creatorBoot == some boot then s
  else
    let s := s.mapPanes fun p =>
      { p with
        creator := none, currentDirectory := none, repositoryDirectory := none,
        presentation := none, observers := {} }
    { s with sessionEnds := none, creatorBoot := some boot }

/-! ### Removing a Pane -/

/-- A Tab without Pane `id`: its Root Pane is the first that is left, and a source that is gone is
forgotten. -/
def removeFromTab (id : Id) (t : Tab) : Tab :=
  let panes := t.panes.filter (·.id != id)
  let ids := panes.map (·.id)
  { t with
    rootPane := (panes.head?.map (·.id)).getD t.rootPane
    panes := panes.map fun p =>
      if p.source.any (fun source => !ids.contains source) then { p with source := none } else p }

def removeFromWorkspace (id : Id) (w : Workspace) : Workspace :=
  Workspace.promoteRootTab { w with
    tabs := (w.tabs.map (removeFromTab id)).filter fun t => !t.panes.isEmpty }

/-- Ordinary shell exit removes membership; Roots follow server creation order. -/
def removePane (s : State) (id : Id) : State :=
  let workspaces := (s.inventory.workspaces.map (removeFromWorkspace id)).filter
    fun w => !w.tabs.isEmpty
  let names := s.names.filter fun name => workspaces.any (·.id == name.workspace)
  let s := ({ s.withWorkspaces workspaces with names } : State).recalculateNames
  s.withRevision (wrappingSucc s.inventory.revision)

/-! ### One function for each mutation -/

def editEndAllSessions (s : State) (confirmation : CloseInventory) : Edit :=
  match s.inventory.close with
  | none => .answered .staleConfirmation
  | some live =>
    -- Only the exact Sessions are compared.
    if live.boot != confirmation.boot || live.sessions != confirmation.sessions then
      .answered .staleConfirmation
    else .changed { s with sessionEnds := some confirmation } confirmation.boot

/-- Whether the reviewed controls of a confirmation-free close are still `device`'s, one for each
Pane. -/
def ownControlsCurrent (s : State) (device : Id) (confirmation : CloseConfirmation)
    (reviewed : List ConfirmedControl) : Bool :=
  let current := s.inventory.close.map (·.controls)
  reviewed.length == confirmation.panes.length &&
    confirmation.panes.all fun pane =>
      (reviewed.filter fun control =>
        control.pane == pane.id && control.session == pane.session && control.owner == device &&
          current.any (·.contains control)).length == 1

def editClose (s : State) (device : Id) (target : CloseTarget) (confirmation : CloseConfirmation) : Edit :=
  match s.inventory.closePanes target with
  | none => .answered .missing
  | some ids =>
    if (s.inventory.closeConfirmation target).all (fun current => !current.sameTargets confirmation)
    then .answered .staleConfirmation
    else if confirmation.ownControls.any (fun reviewed =>
        !s.ownControlsCurrent device confirmation reviewed) then .answered .staleConfirmation
    -- Close Tabs keeps an existing Tab outside the Worktree; it never starts one.
    else if target.isWorktree && confirmation.removesWorkspace then .answered .invalid
    else .changed (ids.foldl removePane s) target.target

def editCreateWorkspace (s : State) (device : Id) (name : Text) (pin : Option PathBuf)
    (control : CreateControl) (directory : PathBuf) (validatePin : PathBuf → Bool)
    (fresh : Nat → Option Id) : Edit :=
  let creator := control.creatorOf device s.inventory
  if (!(Text.trim name).isEmpty && !validName name) || pin.any (fun path => !validatePin path) then
    .answered .invalid
  else if s.inventory.workspaces.length ≥ maxWorkspaces || s.paneCount ≥ maxPanes ||
      s.tabCount ≥ maxTabs then .answered .limit
  else match fresh 0, fresh 1, fresh 2 with
    | some id, some tab, some pane =>
      let custom := if (Text.trim name).isEmpty then none else some (Text.trim name)
      let pane := Pane.created pane none .right (pin.getD directory) creator
      let tab := Tab.created tab pane .following none none
      let workspace := Workspace.created id (Text.trim name) pin tab
      let s := s.withWorkspaces (s.inventory.workspaces ++ [workspace])
      .changed { s with names := s.names ++ [{ workspace := id, custom, automaticBase := [] }] } id
    | _, _, _ => .refused .failed

def editCreateTab (s : State) (device workspace : Id) (source : Option Id) (control : CreateControl)
    (validatePin : PathBuf → Bool) (fresh : Nat → Option Id) : Edit :=
  if s.tabCount ≥ maxTabs || s.paneCount ≥ maxPanes then .answered .limit
  else
    let creator := control.creatorOf device s.inventory
    match s.workspace? workspace with
    | none => .answered .missing
    | some w =>
      let source := match source with
        | some id => (w.tabs.flatMap Tab.panes).find? fun (p : Pane) => p.id == id
        | none => w.root
      match source with
      | none => .answered .missing
      | some source =>
        let start :=
          w.pinnedDirectory.getD (source.confirmedDirectory.getD source.startingDirectory)
        if !validatePin start then .answered .invalid
        else match fresh 0, fresh 1 with
          | some id, some pane =>
            let pane := Pane.created pane none .right start creator
            let tab := Tab.created id pane .following none none
            .changed (s.setWorkspace workspace { w with tabs := w.tabs ++ [tab] }) id
          | _, _ => .refused .failed

/-- Where a Pane split from `p` starts. Scoped launches have been physically selected and validated by
the server. -/
def splitStart (w : Workspace) (t : Tab) (p : Pane) (directory : PathBuf) : PathBuf :=
  if t.worktree.isSome then directory
  else w.pinnedDirectory.getD (p.confirmedDirectory.getD p.startingDirectory)

def editSplitPane (s : State) (device workspace tab source : Id) (axis : Axis)
    (control : CreateControl) (directory : PathBuf) (validatePin : PathBuf → Bool)
    (fresh : Nat → Option Id) : Edit :=
  if s.paneCount ≥ maxPanes then .answered .limit
  else
    let creator := control.creatorOf device s.inventory
    match s.workspace? workspace with
    | none => .answered .missing
    | some w =>
      match w.tabs.find? (·.id == tab) with
      | none => .answered .missing
      | some t =>
        match t.panes.find? (·.id == source) with
        | none => .answered .missing
        | some p =>
          let start := splitStart w t p directory
          if !validatePin start then .answered .invalid
          else match fresh 0 with
            | none => .refused .failed
            | some id =>
              let pane := Pane.created id (some source) axis.side start creator
              let t := { t with panes := t.panes ++ [pane] }
              .changed (s.setWorkspace workspace { w with
                tabs := modifyFirst (·.id == tab) (fun _ => t) w.tabs }) id

def editMovePane (s : State) (workspace tab pane : Id) (destination : PaneDestination)
    (fresh : Nat → Option Id) : Edit :=
  if destination == .newTab && s.tabCount ≥ maxTabs then .answered .limit
  else match s.workspace? workspace with
    | none => .answered .missing
    | some w =>
      match destination with
      | .newTab =>
        match fresh 0 with
        | none => .refused .failed
        | some id =>
          match w.movePaneToNewTab tab pane id with
          | .ok w => .changed (s.setWorkspace workspace w) id
          | .error refusal => .answered refusal
      | .beside into beside side =>
        match w.movePaneBeside tab pane into beside side with
        | .ok w => .changed (s.setWorkspace workspace w) pane
        | .error refusal => .answered refusal

def editMergeTab (s : State) (workspace tab into beside : Id) (side : Side) : Edit :=
  match s.workspace? workspace with
  | none => .answered .missing
  | some w =>
    match w.mergeTab tab into beside side with
    | .ok w => .changed (s.setWorkspace workspace w) into
    | .error refusal => .answered refusal

def editRenameWorkspace (s : State) (workspace : Id) (version : Nat) (name : Text) : Edit :=
  if !validName name then .answered .invalid
  else match s.workspace? workspace with
    | none => .answered .missing
    | some w =>
      if version != w.nameVersion then .answered .conflict
      else match s.names.find? (·.workspace == workspace) with
        | none => .refused .failed
        | some naming =>
          let naming := { naming with custom := some (Text.trim name) }
          let s := s.setWorkspace workspace { w with nameVersion := wrappingSucc w.nameVersion }
          .changed { s with
            names := modifyFirst (·.workspace == workspace) (fun _ => naming) s.names } workspace

def editPinWorkspace (s : State) (workspace : Id) (version : Nat) (directory : Option PathBuf)
    (validatePin : PathBuf → Bool) : Edit :=
  match s.workspace? workspace with
  | none => .answered .missing
  | some w =>
    if version != w.pinVersion then .answered .conflict
    else if directory.any (fun path => !validatePin path) then .answered .invalid
    else .changed (s.setWorkspace workspace
      { w with pinnedDirectory := directory, pinVersion := wrappingSucc w.pinVersion }) workspace

def editTarget (s : State) (device : Id) (mutation : Mutation) (directory : PathBuf)
    (validatePin : PathBuf → Bool) (fresh : Nat → Option Id) : Edit :=
  match mutation with
  | .endAllSessions confirmation => s.editEndAllSessions confirmation
  | .worktree _ => .answered .pending
  | .close target confirmation => s.editClose device target confirmation
  | .createWorkspace name pin control =>
    s.editCreateWorkspace device name pin control directory validatePin fresh
  | .createTab workspace source control =>
    s.editCreateTab device workspace source control validatePin fresh
  | .splitPane workspace tab source axis control =>
    s.editSplitPane device workspace tab source axis control directory validatePin fresh
  | .movePane workspace tab pane destination => s.editMovePane workspace tab pane destination fresh
  | .mergeTab workspace tab into beside side => s.editMergeTab workspace tab into beside side
  | .renameWorkspace workspace version name => s.editRenameWorkspace workspace version name
  | .pinWorkspace workspace version directory =>
    s.editPinWorkspace workspace version directory validatePin

/-- `State::edit`: executes a mutation against the inventory. -/
def edit (s : State) (device : Id) (mutation : Mutation) (directory : PathBuf)
    (validatePin : PathBuf → Bool) (fresh : Nat → Option Id) : Except Refusal (State × Outcome) :=
  let s := { s with homeDirectory := some (s.homeDirectory.getD directory) }
  match s.editTarget device mutation directory validatePin fresh with
  | .refused refusal => .error refusal
  | .answered outcome => .ok (s, outcome)
  | .changed s target =>
    let s := s.recalculateNames
    if s.inventory.revision ≥ u64Max then .error .capacity
    else .ok (s.withRevision (s.inventory.revision + 1), .accepted target)

/-! ### The device log -/

end State

/-- Retires the outcomes up to `sequence` of one device, unless one still waits for Git. -/
def DeviceOutcomes.retire (d : DeviceOutcomes) (sequence : Nat) : Except Refusal DeviceOutcomes :=
  let settled := d.pending.takeWhile (·.sequence ≤ sequence)
  if settled.any (·.outcome == .pending) then .error .stale
  else .ok { d with
    retired := (settled.getLast?.map fun last => max d.retired last.sequence).getD d.retired
    pending := d.pending.drop settled.length }

namespace State

def device? (s : State) (device : Id) : Option DeviceOutcomes :=
  s.devices.find? (·.device == device)

def outcome (s : State) (device : Id) (sequence : Nat) : Option RetainedOutcome := do
  let d ← s.device? device
  d.pending.find? (·.sequence == sequence)

def nextSequence (s : State) (device : Id) : Nat :=
  match s.device? device with
  | none => s.sequenceFloor + 1
  | some d => match d.pending.getLast? with
    | none => d.retired + 1
    | some o => o.sequence + 1

/-- How many outcomes are retained over all devices. -/
def retainedCount (s : State) : Nat := (s.devices.map (·.pending.length)).sum

/-- What `apply` decides before it executes: the refusal, the outcome it replays, or the device
table to execute under, with the submitting device last. -/
inductive Admission
  | refused (refusal : Refusal)
  | replay (outcome : Outcome)
  | execute (devices : List DeviceOutcomes) (sequenceFloor : Nat)

/-- Whether `sequence` is the one `device` may execute next. A device without a record has nothing
applied that it has not acknowledged. -/
def expected (s : State) (device : Id) (sequence : Nat) : Bool :=
  match s.device? device with
  | some _ => sequence == s.nextSequence device
  | none => 1 ≤ sequence && sequence ≤ s.nextSequence device

def admission (s : State) (device : Id) (sequence : Nat) (mutation : Mutation) : Admission :=
  if !mutation.isBounded then .refused .unsupported
  else match s.outcome device sequence with
    | some old => if old.mutation == mutation then .replay old.outcome else .refused .stale
    | none =>
      if !s.expected device sequence || sequence == u64Max then .refused .stale
      else if s.retainedCount ≥ maxOutcomes then .refused .capacity
      else match s.device? device with
        | some record =>
          .execute (s.devices.eraseP (·.device == device) ++ [record]) s.sequenceFloor
        | none =>
          let record : DeviceOutcomes := { device, retired := sequence - 1, pending := [] }
          -- A full table replaces the least recently editing device that has nothing left to
          -- acknowledge.
          if s.devices.length ≥ maxDevices then
            match s.devices.find? (·.pending.isEmpty) with
            | none => .refused .capacity
            | some replaced =>
              .execute (s.devices.eraseP (·.pending.isEmpty) ++ [record])
                (max s.sequenceFloor replaced.retired)
          else .execute (s.devices ++ [record]) s.sequenceFloor

def recordOutcome (s : State) (o : RetainedOutcome) : Except Refusal State :=
  match s.devices.getLast? with
  | none => .error .failed
  | some d => .ok { s with devices := s.devices.dropLast ++ [{ d with pending := d.pending ++ [o] }] }

def apply (s : State) (device : Id) (sequence : Nat) (mutation : Mutation) (directory : PathBuf)
    (validatePin : PathBuf → Bool) (fresh : Nat → Option Id) : Except Refusal (State × Outcome) :=
  match s.admission device sequence mutation with
  | .refused refusal => .error refusal
  | .replay outcome => .ok (s, outcome)
  | .execute devices sequenceFloor => do
    let (s, outcome) ←
      edit { s with devices, sequenceFloor } device mutation directory validatePin fresh
    let s ← s.recordOutcome { sequence, mutation, outcome }
    pure (s, outcome)

/-- `State::acknowledge`. Acknowledgements are cumulative, and one for a device without a record
needs no retiring. -/
def acknowledge (s : State) (device : Id) (sequence : Nat) : Except Refusal State :=
  match s.device? device with
  | none => .ok s
  | some d => do
    let d ← d.retire sequence
    pure { s with devices := modifyFirst (·.device == device) (fun _ => d) s.devices }

/-- `State::forget`, with whether it forgot. -/
def forget (s : State) (device : Id) : State × Bool :=
  if s.devices.any (fun d => d.device == device && d.pending.any (·.outcome == .pending)) then
    (s, false)
  else ({ s with devices := s.devices.filter (·.device != device) }, true)

def finishWorktree (s : State) (device : Id) (sequence : Nat) (outcome : Outcome) : Except Refusal State :=
  match s.outcome device sequence with
  | none => .error .missing
  | some record =>
    if record.outcome != .pending || !record.mutation.isWorktree || outcome == .pending then
      .error .stale
    else
      let settle (d : DeviceOutcomes) : DeviceOutcomes :=
        { d with pending := modifyFirst (·.sequence == sequence) ({ · with outcome }) d.pending }
      .ok { s with devices := modifyFirst (·.device == device) settle s.devices }

/-! ### The server's own operations -/

def addWorktreeTab (s : State) (creator : Option Id) (workspace : Id)
    (root path startingDirectory : PathBuf) (fresh : Nat → Option Id) :
    Except Refusal (State × Id) :=
  if s.tabCount ≥ maxTabs || s.paneCount ≥ maxPanes then .error .capacity
  else match s.workspace? workspace with
    | none => .error .missing
    | some w =>
      match fresh 0, fresh 1 with
      | some id, some pane =>
        let pane := Pane.created pane none .right startingDirectory creator
        let tab := Tab.created id pane .opened (some path) (some root)
        let s := s.setWorkspace workspace { w with tabs := w.tabs ++ [tab] }
        .ok (s.withRevision (min (s.inventory.revision + 1) u64Max), id)
      | _, _ => .error .failed

def modifyTabOf (id : Id) (f : Tab → Tab) (workspaces : List Workspace) : List Workspace :=
  let holds (t : Tab) : Bool := t.panes.any (·.id == id)
  modifyFirst (fun w => w.tabs.any holds)
    (fun w => { w with tabs := modifyFirst holds f w.tabs }) workspaces

def pane (s : State) (id : Id) : Option Pane :=
  ((s.inventory.workspaces.flatMap Workspace.tabs).flatMap Tab.panes).find? fun p => p.id == id

def setConfirmed (id : Id) (path : PathBuf) (t : Tab) : Tab :=
  { t with panes := modifyFirst (·.id == id) ({ · with confirmedDirectory := some path }) t.panes }

def repairDirectory (s : State) (id : Id) (path : PathBuf) : Except Refusal State :=
  match s.pane id with
  | none => .error .missing
  | some _ =>
    let repair (t : Tab) : Tab := { setConfirmed id path t with worktreeMembership := .repaired }
    let s := (s.withWorkspaces (modifyTabOf id repair s.inventory.workspaces)).recalculateNames
    if s.inventory.revision ≥ u64Max then .error .capacity
    else .ok (s.withRevision (s.inventory.revision + 1))

def confirmDirectory (s : State) (id : Id) (path : PathBuf) : State :=
  match s.pane id with
  | none => s
  | some p =>
    if p.confirmedDirectory == some path then s
    else
      let s := (s.withWorkspaces
        (modifyTabOf id (setConfirmed id path) s.inventory.workspaces)).recalculateNames
      s.withRevision (wrappingSucc s.inventory.revision)

end State

end SpaceTerm.Hierarchy
