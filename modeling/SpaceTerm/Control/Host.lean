import SpaceTerm.Hierarchy.Types
import SpaceTerm.Lib.Run

/-! # Control of a Pane on the server

`pane_host.rs` and `workspaces.rs`: which device controls a Pane, under which lease and by which
attachment generation. A lease names the server's run, the Terminal Session, the control nonce and
the connection; the server compares whole leases. What the operating system answers (a random nonce,
a directory, a runtime that starts, a process that stops) is an argument, `Env`. -/

namespace SpaceTerm.Control
open Hierarchy (Refusal)

structure Lease where
  core : Id
  session : Id
  control : Id
  connection : Id
  deriving Repr, DecidableEq

structure PaneTarget where
  core : Id
  session : Id
  deriving Repr, DecidableEq

def Lease.target (l : Lease) : PaneTarget := ⟨l.core, l.session⟩

inductive Reply
  | attached (lease : Lease)
  | takeover
  | restored
  | unchanged
  deriving Repr, DecidableEq

/-- What a request finds outside the server's own state. -/
structure Env where
  /-- `nonce()`, for a new Session and for its control. -/
  session : Option Id
  control : Option Id
  sizeValid : Bool := true
  appearanceValid : Bool := true
  directoryValid : Bool := true
  runtimeStarts : Bool := true
  processStops : Bool := true
  /-- Committing a repaired directory succeeds. -/
  commits : Bool := true
  deriving Repr

structure OwnedPane where
  device : Option Id
  attachmentGeneration : Option Nat
  controlEpoch : Nat
  lease : Lease
  connected : Bool
  ended : Bool := false
  /-- The shell's exit keeps its Pane: a nonzero status or a signal. -/
  keptEnd : Bool := false
  failed : Bool := false
  directoryFailed : Bool := false
  /-- The Session was started on an ended Pane. -/
  endedRestart : Bool := false
  deriving Repr, DecidableEq

structure DormantPane where
  device : Option Id
  attachmentGeneration : Option Nat
  controlEpoch : Nat
  deriving Repr, DecidableEq

/-- One Pane's host. `identity` is present until the Pane closes. -/
structure CorePaneHost where
  boot : Id
  pane : Option OwnedPane := none
  dormant : Option DormantPane := none
  identity : Bool := true
  directoryUnavailable : Bool := false
  deriving Repr, DecidableEq

/-- `OwnedPane::claim`. A transfer draws a new control nonce and drops the attachment. -/
def OwnedPane.claim (p : OwnedPane) (device connection : Id) (env : Env) (transfer : Bool) :
    Except Refusal Reply × OwnedPane :=
  if !env.sizeValid then (.error .unsupported, p)
  else match (if transfer then env.control else some p.lease.control) with
    | none => (.error .failed, p)
    | some control =>
      let controlEpoch := if transfer then p.controlEpoch + 1 else p.controlEpoch
      if controlEpoch > u64Max then (.error .capacity, p)
      else if !env.appearanceValid then (.error .failed, p)
      else
        let lease := { p.lease with control, connection }
        (.ok (.attached lease),
          { p with attachmentGeneration := if transfer then none else p.attachmentGeneration,
                   device := some device, controlEpoch, lease, connected := true })

def OwnedPane.dormant (p : OwnedPane) : DormantPane :=
  ⟨p.device, p.attachmentGeneration, p.controlEpoch⟩

namespace CorePaneHost

variable (h : CorePaneHost)

def startDirectory (device connection : Id) (env : Env) : Except Refusal Reply × CorePaneHost :=
  let h := { h with directoryUnavailable := false }
  match env.session, env.control with
  | some session, some control =>
    if !env.appearanceValid || !env.runtimeStarts then (.error .failed, h)
    else
      let lease : Lease := ⟨h.boot, session, control, connection⟩
      (.ok (.attached lease),
        { h with
          pane := some { device := some device, attachmentGeneration := none, controlEpoch := 1,
                         lease, connected := true, endedRestart := h.dormant.isSome },
          dormant := none })
  | _, _ => (.error .failed, h)

def start (device connection : Id) (env : Env) : Except Refusal Reply × CorePaneHost :=
  if !env.sizeValid then (.error .unsupported, h)
  else if !h.identity then (.error .missing, h)
  else if !env.directoryValid then
    (.error .directoryUnavailable, { h with directoryUnavailable := true })
  else h.startDirectory device connection env

/-- `retire_exited`: an ended Session leaves its grant on the ended Pane, or closes the Pane. -/
def retireExited (env : Env) : Except Refusal Unit × CorePaneHost :=
  match h.pane with
  | none => (.ok (), h)
  | some p =>
    if p.directoryFailed then
      if !env.processStops then (.error .cleanupUnresolved, h)
      else (.ok (), { h with dormant := if p.endedRestart then some p.dormant else h.dormant,
                             pane := none, directoryUnavailable := true })
    else if p.ended then
      if !env.processStops then (.error .cleanupUnresolved, h)
      else if p.keptEnd then (.ok (), { h with dormant := some p.dormant, pane := none })
      else (.ok (), { h with identity := false })
    else (.ok (), h)

def reconcileSelection (env : Env) : Except Refusal Unit × CorePaneHost :=
  match h.retireExited env with
  | (.error e, h) => (.error e, h)
  | (.ok (), h) => match h.pane with
    | none => (.ok (), h)
    | some p =>
      if p.ended then (.ok (), { h with pane := none })
      else if p.failed then (.error .failed, h)
      else (.ok (), h)

/-- Whether someone else is in control. -/
def heldByOther (owner : Option Id) (device : Id) : Bool := owner.any (· != device)

def select (device connection : Id) (explicit : Bool) (env : Env) : Except Refusal Reply × CorePaneHost :=
  if !env.sizeValid then (.error .unsupported, h)
  else match h.reconcileSelection env with
    | (.error e, h) => (.error e, h)
    | (.ok (), h) =>
      if (h.dormant.any fun d => heldByOther d.device device) then
        (if h.identity then .ok .takeover else .error .missing, h)
      else match h.pane with
        | some p =>
          if heldByOther p.device device then (.ok .takeover, h)
          else
            let (reply, p) := p.claim device connection env p.device.isNone
            (reply, { h with pane := some p })
        | none =>
          if !h.identity then (.error .missing, h)
          else if !explicit then (.ok .restored, h)
          else h.start device connection env

def takeOverEnded (device connection : Id) (generation : Option Nat) (env : Env) :
    Except Refusal Reply × CorePaneHost :=
  if h.pane.isSome then (.error .stale, h)
  else match h.dormant with
    | none => (.error .stale, h)
    | some d =>
      if d.controlEpoch + 1 > u64Max then (.error .capacity, h)
      else
        let dormant := { d with controlEpoch := d.controlEpoch + 1, device := some device,
                                attachmentGeneration := generation }
        { h with dormant := some dormant }.start device connection env

def takeOver (device connection : Id) (target : PaneTarget) (env : Env) : Except Refusal Reply × CorePaneHost :=
  match h.reconcileSelection env with
  | (.error e, h) => (.error e, h)
  | (.ok (), h) => match h.pane with
    | none => (.error (if h.dormant.isSome then .stale else .missing), h)
    | some p =>
      if p.lease.target ≠ target then (.error .stale, h)
      else
        let (reply, p) := p.claim device connection env true
        (reply, { h with pane := some p })

/-- Whether a request on a lease is accepted: the check of `handle`. -/
def accepts (device connection : Id) (lease : Lease) : Bool :=
  h.pane.any fun p =>
    p.device == some device && p.lease.connection == connection && p.lease == lease && p.connected

def modifyPane (f : OwnedPane → OwnedPane) : CorePaneHost := { h with pane := h.pane.map f }

/-- The `Release` of `handle`: the client gives its control up. -/
def release (device connection : Id) (lease : Lease) (control : Option Id) : CorePaneHost :=
  if h.accepts device connection lease then
    match control with
    | some control => h.modifyPane fun p =>
        { p with lease := { p.lease with control }, device := none, connected := false }
    | none => h
  else h

def unbound (connection : Id) (lease : Lease) : CorePaneHost :=
  h.modifyPane fun p =>
    if p.lease = lease ∧ p.lease.connection = connection then { p with connected := false } else p

def disconnected (connection : Id) : CorePaneHost :=
  h.modifyPane fun p => if p.lease.connection = connection then { p with connected := false } else p

/-- `release_control`: of a revoked client, or of an evicted agent. -/
def releaseControl (client : Id) : CorePaneHost :=
  let h := { h with dormant := h.dormant.map fun d : DormantPane =>
    if d.device = some client then { d with device := none, attachmentGeneration := none } else d }
  h.modifyPane fun p =>
    if p.device = some client then
      { p with device := none, connected := false, attachmentGeneration := none,
               lease := { p.lease with control := 0 } }
    else p

def endSession (session : Id) (env : Env) : CorePaneHost :=
  match h.pane with
  | none => h
  | some p =>
    if p.lease.session ≠ session then h
    else
      let h := { h with dormant := some p.dormant }
      if env.processStops then { h with pane := none }
      else h.modifyPane ({ · with connected := false })

def leaseLive (lease : Lease) : Bool := h.pane.any (·.lease == lease)

end CorePaneHost

/-! ### The Workspaces' Panes -/

structure Attachment where
  workspace : Id
  generation : Nat
  deriving Repr, DecidableEq

inductive Selection
  | observe | select | start
  deriving DecidableEq

/-- `AttachmentClaim`. A repair names its Pane, the server's run and the directory it replaces. -/
inductive AttachmentClaim
  | repair (boot pane : Id) (sameOriginal replaces : Bool)
  | select (explicit : Bool)
  | start (core : Id)
  | takeOver (target : PaneTarget)

structure ClaimPane where
  attachment : Attachment
  pane : Id
  claim : AttachmentClaim

/-- What the organization says of a Pane. -/
structure Placed where
  workspace : Id
  creator : Option Id
  deriving DecidableEq

/-- `WorkspaceHost`, by what control reads: the organization's Panes and Workspaces, the Panes'
hosts, and for each device and Workspace the newest generation claimed and released. -/
structure WorkspaceHost where
  boot : Id
  placed : Id → Option Placed := fun _ => none
  workspaces : List Id := []
  panes : Id → Option CorePaneHost := fun _ => none
  generations : Id × Id → Option (Nat × Nat) := fun _ => none

namespace WorkspaceHost

variable (w : WorkspaceHost)

def setPane (id : Id) (host : CorePaneHost) : WorkspaceHost :=
  { w with panes := Function.update w.panes id (some host) }

def paneHost (id : Id) : CorePaneHost := (w.panes id).getD { boot := w.boot }

def onPane (id : Id) (f : CorePaneHost → Except Refusal Reply × CorePaneHost) :
    Except Refusal Reply × WorkspaceHost :=
  let (reply, host) := f (w.paneHost id)
  (reply, w.setPane id host)

/-- `WorkspaceHost::select`, up to its call of the Pane's own `select`. -/
def selection (creator : Option Id) (device connection : Id) (selection : Selection) (env : Env)
    (host : CorePaneHost) : Except Refusal Reply × CorePaneHost :=
  let explicit := match selection with
    | .observe => false
    | .select => host.dormant.isNone
    | .start => true
  if !explicit && (host.dormant.any (·.device != some device)) then (.ok .takeover, host)
  else if host.pane.isNone && host.dormant.isNone && CorePaneHost.heldByOther creator device then
    (.ok .takeover, host)
  else if !explicit && (host.pane.any (·.device != some device)) then (.ok .takeover, host)
  else host.select device connection explicit env

def select (device connection id : Id) (kind : Selection) (env : Env) : Except Refusal Reply × WorkspaceHost :=
  if !env.sizeValid then (.error .unsupported, w)
  else match w.placed id with
    | none => (.error .missing, w)
    | some placed => w.onPane id (selection placed.creator device connection kind env)

def repairDirectory (device connection boot id : Id) (sameOriginal replaces : Bool) (env : Env) :
    Except Refusal Reply × WorkspaceHost :=
  if !env.sizeValid then (.error .unsupported, w)
  else if boot ≠ w.boot then (.error .stale, w)
  else match w.placed id with
    | none => (.error .missing, w)
    | some placed =>
      let host := w.paneHost id
      let w := w.setPane id host
      let controller := match host.dormant with
        | some d => d.device
        | none => placed.creator
      if host.pane.isSome || CorePaneHost.heldByOther controller device then
        w.select device connection id .observe env
      else if !host.identity then (.error .missing, w)
      else if !sameOriginal then (.error .stale, w)
      else if !env.directoryValid then (.error .directoryUnavailable, w)
      else if replaces && !env.commits then (.error .failed, w)
      else w.onPane id (·.startDirectory device connection env)

def takeOver (device connection id : Id) (generation : Nat) (target : PaneTarget) (env : Env) :
    Except Refusal Reply × WorkspaceHost :=
  w.onPane id fun host =>
    match host.pane with
    | some p =>
      if p.lease.target ≠ target then (.error .stale, host)
      else host.takeOver device connection target env
    | none =>
      if target.core ≠ host.boot ∨ target.session ≠ id then (.error .stale, host)
      else if host.dormant.isSome then
        host.takeOverEnded device connection (some generation) env
      else host.start device connection env

def observesOlder (c : ClaimPane) (host : CorePaneHost) (device : Id) : Bool :=
  let g := some c.attachment.generation
  match c.claim with
  | .select false =>
    (host.dormant.any fun d => d.device == some device && d.attachmentGeneration != g) ||
    (host.pane.any fun p => p.device == some device && p.attachmentGeneration != g)
  | _ => false

def claimAs (device connection : Id) (c : ClaimPane) (env : Env) : Except Refusal Reply × WorkspaceHost :=
  match c.claim with
  | .repair boot pane sameOriginal replaces =>
    if pane ≠ c.pane then (.error .stale, w)
    else w.repairDirectory device connection boot pane sameOriginal replaces env
  | .select explicit =>
    w.select device connection c.pane (if explicit then .select else .observe) env
  | .start core =>
    if core ≠ w.boot then (.error .stale, w)
    else w.select device connection c.pane .start env
  | .takeOver target => w.takeOver device connection c.pane c.attachment.generation target env

def attachedBy (id : Id) (generation : Nat) : WorkspaceHost :=
  { w with panes := Function.update w.panes id ((w.panes id).map
      (·.modifyPane ({ · with attachmentGeneration := some generation }))) }

/-- The generations claimed and released, as `entry().or_default()` reads them. -/
def generationsOf (device workspace : Id) : Nat × Nat := (w.generations (device, workspace)).getD (0, 0)

def setGenerations (device workspace : Id) (claimed released : Nat) : WorkspaceHost :=
  { w with
    generations := Function.update w.generations (device, workspace) (some (claimed, released)) }

def claimCurrent (device connection : Id) (c : ClaimPane) (env : Env) : Except Refusal Reply × WorkspaceHost :=
  let host := w.paneHost c.pane
  let w := w.setPane c.pane host
  if observesOlder c host device then (.ok .takeover, w)
  else match w.claimAs device connection c env with
    | (.ok (.attached lease), w) =>
      (.ok (.attached lease), w.attachedBy c.pane c.attachment.generation)
    | out => out

def claimPane (device connection : Id) (c : ClaimPane) (env : Env) : Except Refusal Reply × WorkspaceHost :=
  if !env.sizeValid then (.error .unsupported, w)
  else match w.placed c.pane with
    | none => (.error .missing, w)
    | some placed =>
      let g := c.attachment.generation
      if placed.workspace ≠ c.attachment.workspace ∨ g = 0 then (.error .stale, w)
      else
        let (claimed, released) := w.generationsOf device placed.workspace
        if g < claimed ∨ g ≤ released then
          (.error .stale, w.setGenerations device placed.workspace claimed released)
        else (w.setGenerations device placed.workspace g released).claimCurrent device connection c env

def releaseHost (device : Id) (g : Nat) (control : Option Id) (host : CorePaneHost) : CorePaneHost :=
  let host := { host with
    dormant := host.dormant.map fun d : DormantPane =>
      if d.device = some device ∧ d.attachmentGeneration.any (· ≤ g) then
        { d with device := none, attachmentGeneration := none }
      else d }
  match control with
  | none => host
  | some control => host.modifyPane fun p =>
    if p.device = some device ∧ p.attachmentGeneration.any (· ≤ g) then
      { p with lease := { p.lease with control }, device := none, connected := false,
               attachmentGeneration := none }
    else p

/-- `ReleaseAttachment`. `nonces` are the control nonces of the Panes it releases; one that fails, at
`failedAt`, ends the loop over the Panes there. -/
def releaseAttachment (device : Id) (a : Attachment) (nonces : Id → Id) (failedAt : Option Id) :
    Except Refusal Reply × WorkspaceHost :=
  if a.workspace ∉ w.workspaces then (.ok .unchanged, w)
  else if a.generation = 0 then (.error .stale, w)
  else
    let (claimed, released) := w.generationsOf device a.workspace
    let panes := fun id =>
      if (w.placed id).any (·.workspace == a.workspace) && failedAt.all (id ≤ ·) then
        (w.panes id).map (releaseHost device a.generation
          (if failedAt = some id then none else some (nonces id)))
      else w.panes id
    (if failedAt.isSome then .error .failed else .ok .unchanged,
      { w.setGenerations device a.workspace claimed (max released a.generation) with panes })

end WorkspaceHost

end SpaceTerm.Control
