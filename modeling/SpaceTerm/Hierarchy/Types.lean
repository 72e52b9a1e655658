import SpaceTerm.Lib.Path
import SpaceTerm.Lib.ListEdit

/-! # The shared Organization: Workspaces, Tabs and Panes

The data of `hierarchy.rs`, `worktree.rs` and `pane/metadata.rs` that the server's edits read and
write. Sequences, revisions and versions are `u64` values, kept as `Nat` with the machine's limit
written out where the code meets it. -/

namespace SpaceTerm
open Lib

/-- `[u8; 32]`, the identity of a device, a connection, a Workspace, a Tab or a Pane. -/
abbrev Id := BitVec 256

/-- `u64::MAX`. -/
def u64Max : Nat := 2 ^ 64 - 1

namespace Hierarchy

def maxWorkspaces : Nat := 64
def maxTabs : Nat := 128
def maxPanes : Nat := 128
def maxOutcomes : Nat := 32
/-- Editing devices the server keeps records for at once. -/
def maxDevices : Nat := 64
/-- How many observer Client Names accompany a Pane's live inventory. -/
def maxObserverNames : Nat := 3

/-- `pane::Refusal`. -/
inductive Refusal
  | controlled | missing | stale | unsupported | failed | cleanupUnresolved | directoryUnavailable
  | storageUnavailable | capacity | serviceBusy
  deriving Repr, DecidableEq

def validPath (path : PathBuf) : Bool :=
  path.isAbsolute && path.bytes.length ≤ 4096 && !path.bytes.contains 0

/-! ### Presentation -/

inductive TitleGlyph
  | reported
  | retained (glyph : Option Text)
  deriving Repr, DecidableEq

inductive Progress
  | none
  | normal (percent : Nat)
  | error (percent : Nat)
  | indeterminate
  | paused (percent : Nat)
  deriving Repr, DecidableEq

/-- `pane::metadata::Snapshot`, by the fields its check reads. -/
structure Snapshot where
  title : Text
  shellName : Text
  directory : Text
  user : Option Text
  host : Option Text
  home : Option Text
  commandLine : Option Text
  titleGlyph : TitleGlyph
  progress : Progress
  deriving Repr, DecidableEq

def maxTitleChars : Nat := 256
def maxCommandChars : Nat := 4096
def maxDirectoryChars : Nat := 4096
def maxMachineChars : Nat := 256

/-- Format characters that reorder or hide text. -/
def invisible (c : Char) : Bool :=
  let n := c.toNat
  n == 0x00AD || n == 0x061C || n == 0x180E || n == 0x200B || (0x200E ≤ n && n ≤ 0x200F) ||
    (0x202A ≤ n && n ≤ 0x202E) || (0x2060 ≤ n && n ≤ 0x206F) || n == 0xFEFF ||
    (0xFFF9 ≤ n && n ≤ 0xFFFB)

def presentable (c : Char) : Bool := !Text.isControl c && !invisible c

/-- `Snapshot::validate`, as whether it returns `Ok`. -/
def Snapshot.validate (s : Snapshot) : Bool :=
  let valid (value : Text) (limit : Nat) : Bool := value.length ≤ limit && value.all presentable
  let optional (value : Option Text) (limit : Nat) : Bool := value.all (valid · limit)
  valid s.title maxTitleChars && valid s.shellName maxTitleChars &&
    valid s.directory maxDirectoryChars && optional s.user maxMachineChars &&
    optional s.host maxMachineChars && optional s.home maxDirectoryChars &&
    optional s.commandLine maxCommandChars &&
    (match s.titleGlyph with
      | .retained (some glyph) => valid glyph maxTitleChars
      | _ => true) &&
    match s.progress with
      | .normal n | .error n | .paused n => n ≤ 100
      | _ => true

/-! ### Membership -/

/-- How a Split places its second child after its first. -/
inductive Axis
  | right | down
  deriving Repr, DecidableEq

/-- The side of another Pane a Pane takes. -/
inductive Side
  | right | down | left | up
  deriving Repr, DecidableEq

/-- `Side::from`. -/
def Axis.side : Axis → Side
  | .right => .right
  | .down => .down

/-- Whether directory changes may move a Tab to a different Worktree, and why not. -/
inductive WorktreeMembership
  | following | opened | repaired
  deriving Repr, DecidableEq

structure PaneObservers where
  names : List Text := []
  others : Nat := 0
  deriving Repr, DecidableEq

structure Pane where
  id : Id
  /-- The Pane this Pane was placed beside in the default layout. -/
  source : Option Id
  side : Side
  startingDirectory : PathBuf
  currentDirectory : Option PathBuf
  repositoryDirectory : Option PathBuf
  presentation : Option Snapshot
  observers : PaneObservers
  confirmedDirectory : Option PathBuf
  /-- The creator reserves control even before measured first use starts a shell. -/
  creator : Option Id
  deriving Repr, BEq

structure Tab where
  worktreeMembership : WorktreeMembership
  worktree : Option PathBuf
  worktreeRepository : Option PathBuf
  id : Id
  rootPane : Id
  panes : List Pane
  deriving Repr, BEq

structure Workspace where
  id : Id
  name : Text
  nameVersion : Nat
  pinVersion : Nat
  pinnedDirectory : Option PathBuf
  rootTab : Id
  tabs : List Tab
  deriving Repr, BEq

structure ConfirmedPane where
  id : Id
  session : Option Id
  deriving Repr, DecidableEq

structure ConfirmedControl where
  pane : Id
  session : Option Id
  owner : Id
  epoch : Nat
  deriving Repr, DecidableEq

structure CloseInventory where
  boot : Id
  sessions : List ConfirmedPane
  controls : List ConfirmedControl
  deriving Repr, DecidableEq

structure CloseConfirmation where
  boot : Id
  panes : List ConfirmedPane
  removesTab : Bool
  removesWorkspace : Bool
  ownControls : Option (List ConfirmedControl)
  deriving Repr, DecidableEq

structure Inventory where
  revision : Nat
  workspaces : List Workspace
  close : Option CloseInventory
  deriving Repr, BEq

/-! ### Edits and their outcomes -/

inductive CloseTarget
  | pane (workspace tab pane : Id)
  | tab (workspace tab : Id)
  | killWorkspace (workspace : Id)
  | worktree (workspace tab : Id)
  deriving Repr, DecidableEq

/-- Where a moved Pane goes. -/
inductive PaneDestination
  | newTab
  | beside (tab pane : Id) (side : Side)
  deriving Repr, DecidableEq

inductive CreateControl
  | creator
  | unclaimed
  | originController (pane : Id)
  deriving Repr, DecidableEq

inductive BranchName
  | localBranch (name : Text)
  | remoteBranch (name : Text)
  deriving Repr, DecidableEq

inductive Branch
  | new (name : Text) (base : BranchName)
  | existing (name : Text)
  | remote (remote name : Text)
  deriving Repr, DecidableEq

/-- `worktree::Operation`. -/
inductive Operation
  | create (workspace : Id) (root path : PathBuf) (branch : Branch) (control : CreateControl)
  | remove (root path : PathBuf) (boot confirmation : Id)
  | setLocation (version : Nat) (template : Text)
  | openTab (workspace : Id) (source : Option Id) (root path : PathBuf) (control : CreateControl)
  deriving Repr, BEq, ReflBEq

inductive Mutation
  | endAllSessions (confirmation : CloseInventory)
  | worktree (operation : Operation)
  | close (target : CloseTarget) (confirmation : CloseConfirmation)
  | createWorkspace (name : Text) (directory : Option PathBuf) (control : CreateControl)
  | createTab (workspace : Id) (source : Option Id) (control : CreateControl)
  | splitPane (workspace tab source : Id) (axis : Axis) (control : CreateControl)
  | movePane (workspace tab pane : Id) (destination : PaneDestination)
  | mergeTab (workspace tab into beside : Id) (side : Side)
  | renameWorkspace (workspace : Id) (version : Nat) (name : Text)
  | pinWorkspace (workspace : Id) (version : Nat) (directory : Option PathBuf)
  deriving Repr, BEq, ReflBEq

inductive WorktreeError
  | missing | main | locked | pinned | changed | location | branch | invalidName | branchExists
  | branchCheckedOut | branchMissing | unavailable | interrupted | template
  deriving Repr, DecidableEq

inductive Outcome
  | pending
  | worktreeFailed (error : WorktreeError)
  | accepted (target : Id)
  | conflict
  | missing
  | invalid
  | limit
  | staleConfirmation
  deriving Repr, DecidableEq

namespace Branch

private def valid (s : Text) : Bool := !s.isEmpty && Text.utf8Len s ≤ 1024 && !s.any Text.isControl

def isBounded : Branch → Bool
  | .new name base =>
    valid name && match base with
      | .localBranch s | .remoteBranch s => valid s
  | .existing name => valid name
  | .remote origin name => valid name && valid origin

end Branch

def Operation.isBounded : Operation → Bool
  | .setLocation _ template => Text.utf8Len template ≤ 1024
  | .create _ root path branch _ => validPath root && validPath path && branch.isBounded
  | .remove root path _ _ | .openTab _ _ root path _ => validPath root && validPath path

def Mutation.isBounded : Mutation → Bool
  | .endAllSessions confirmation =>
    confirmation.sessions.length ≤ maxPanes && confirmation.controls.length ≤ maxPanes
  | .worktree operation => operation.isBounded
  | .close _ confirmation =>
    !confirmation.panes.isEmpty && confirmation.panes.length ≤ maxPanes &&
      confirmation.ownControls.all (·.length ≤ maxPanes)
  | .createWorkspace name directory _ => Text.utf8Len name ≤ 256 && directory.all validPath
  | .renameWorkspace _ _ name => Text.utf8Len name ≤ 256
  | .pinWorkspace _ _ (some path) => validPath path
  | _ => true

def Mutation.isWorktree : Mutation → Bool
  | .worktree _ => true
  | _ => false

structure RetainedOutcome where
  sequence : Nat
  mutation : Mutation
  outcome : Outcome
  deriving Repr

/-- What the server retains of one editing device: the outcomes above `retired`, oldest first. -/
structure DeviceOutcomes where
  device : Id
  retired : Nat
  pending : List RetainedOutcome
  deriving Repr

structure WorkspaceName where
  workspace : Id
  custom : Option Text
  automaticBase : Text
  deriving Repr, DecidableEq

structure State where
  homeDirectory : Option PathBuf
  names : List WorkspaceName
  inventory : Inventory
  /-- Ordered from the least to the most recently editing device. -/
  devices : List DeviceOutcomes
  /-- The highest sequence of any device record the server replaced. -/
  sequenceFloor : Nat
  creatorBoot : Option Id
  sessionEnds : Option CloseInventory
  deriving Repr

end Hierarchy

end SpaceTerm
