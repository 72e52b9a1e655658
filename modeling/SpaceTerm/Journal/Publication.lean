import SpaceTerm.Journal.Durability

/-! # Publication of the inventory

`Publication` of `workspaces/publication.rs`, run by a host over the journal. The host stages an
inventory with the newest revision. A staged inventory is pushed at once when that revision is
retained, and otherwise when `written` releases it. `subscribe` takes the publication's lock twice,
for the new connection and for its first stage, so that a writer's release can fall in between. -/

namespace SpaceTerm.Publication
open Lib Journal Hierarchy

/-- An inventory and each subscribed client's next operation sequence, as of `revision`. -/
structure Staged (ι : Type) where
  /-- Its place in staging order. -/
  index : Nat
  revision : Option Revision
  inventory : ι
  sequences : List (Id × Nat)

/-- What one connection was sent. -/
structure Delivery (ι : Type) where
  stage : Staged ι
  nextSequence : Nat
  /-- Whether the journal had retained the revision of the stage. -/
  retained : Bool

structure Subscriber (ι : Type) where
  connection : Id
  device : Id
  /-- The next operation sequence last pushed to this client. -/
  sent : Option Nat
  received : List (Delivery ι)
  /-- How many stages had been pushed when it subscribed. -/
  since : Nat

structure Board (ι : Type) where
  subscribers : List (Subscriber ι)
  /-- Inventories waiting for their revision, oldest first. -/
  staged : List (Staged ι)
  published : Option ι
  /-- Every stage pushed, oldest first. -/
  pushed : List (Staged ι)

variable {ι : Type}

def Staged.sequence? (g : Staged ι) (device : Id) : Option Nat :=
  (g.sequences.find? (·.1 == device)).map (·.2)

namespace Board

def subscribe (b : Board ι) (device connection : Id) : Board ι :=
  let subscriber : Subscriber ι :=
    { connection, device, sent := none, received := [], since := b.pushed.length }
  { b with subscribers := b.subscribers.filter (·.connection != connection) ++ [subscriber] }

def unsubscribe (b : Board ι) (connection : Id) : Board ι :=
  { b with subscribers := b.subscribers.filter (·.connection != connection) }

/-- The clients with a subscribed connection. -/
def devices (b : Board ι) : List Id := (b.subscribers.map (·.device)).eraseDups

variable [DecidableEq ι]

/-- What `push` does for one connection. -/
def deliver (changed retained : Bool) (g : Staged ι) (c : Subscriber ι) : Subscriber ι :=
  match g.sequence? c.device with
  | none => c
  | some nextSequence =>
    if changed || c.sent != some nextSequence then
      { c with
        sent := some nextSequence
        received := c.received ++ [{ stage := g, nextSequence, retained }] }
    else c

def push (b : Board ι) (retained : Bool) (g : Staged ι) : Board ι :=
  let changed := decide (b.published ≠ some g.inventory)
  { b with
    subscribers := b.subscribers.map (deliver changed retained g)
    published := some g.inventory
    pushed := b.pushed ++ [g] }

def stage (b : Board ι) (retained : Bool) (g : Staged ι) : Board ι :=
  if retained then
    -- Everything staged earlier is older.
    ({ b with staged := [] } : Board ι).push retained g
  else { b with staged := b.staged ++ [g] }

/-- The loop of `release`: what stays staged, and the newest stage that `written` covers. -/
def drain (written : Revision) : List (Staged ι) → Option (Staged ι) → List (Staged ι) × Option (Staged ι)
  | [], newest => ([], newest)
  | g :: rest, newest =>
    match g.revision with
    | none => (g :: rest, newest)
    | some revision =>
      if written.covers revision then drain written rest (some g)
      -- A revision lost to a failed write never becomes retained.
      else if revision.lostBy written then drain written rest newest
      else (g :: rest, newest)

def release (b : Board ι) (progress : Progress State) (written : Revision) : Board ι :=
  let (rest, newest) := drain written b.staged none
  let b := { b with staged := rest }
  match newest with
  | none => b
  | some g => b.push (g.revision.all progress.retained) g

end Board

structure Site (ι : Type) where
  server : Server State State
  board : Board ι
  /-- In `WorkspaceHost::subscribe`, between the subscription and its `publish`. -/
  subscribing : Bool
  /-- How many inventories were staged. -/
  stages : Nat

inductive Event (ι : Type)
  | journal (event : Journal.Event State)
  | subscribe (device connection : Id)
  | unsubscribe (connection : Id)
  | publish (inventory : ι)

namespace Site

def opened (boot : Id) (record : Option State) : Site ι where
  server := .opened (organizationFormat boot) record
  board := ⟨[], [], none, []⟩
  subscribing := false
  stages := 0

/-- Whether the host has nothing in progress under the lock of the service. -/
def idle (s : Site ι) : Bool := !s.subscribing && s.server.recovering.isNone

def hosted : Journal.Event State → Bool
  | .commit _ | .read => true
  | _ => false

variable [DecidableEq ι]

def boardAfter (s : Site ι) : Journal.Event State → Board ι
  | .written t =>
    match s.server.threads t with
    | .reporting _ taken => s.board.release s.server.progress taken
    | _ => s.board
  | _ => s.board

/-- `WorkspaceHost::publish` of the current inventory. -/
def publish (s : Site ι) (inventory : ι) : Site ι :=
  if s.board.devices.isEmpty then { s with subscribing := false }
  else
    let revision := s.server.progress.latest
    let g : Staged ι := {
      index := s.stages, revision := some revision, inventory
      sequences := s.board.devices.map fun device => (device, s.server.state.nextSequence device) }
    { s with
      board := s.board.stage (s.server.progress.retained revision) g
      subscribing := false, stages := s.stages + 1 }

def event (boot : Id) (s : Site ι) : Event ι → Option (Site ι)
  | .journal e =>
    if hosted e && !s.idle then none
    else (s.server.event (organizationFormat boot) e).map fun server =>
      { s with server, board := s.boardAfter e }
  | .subscribe device connection =>
    if s.idle then
      some { s with board := s.board.subscribe device connection, subscribing := true }
    else none
  | .unsubscribe connection =>
    if s.idle then some { s with board := s.board.unsubscribe connection } else none
  | .publish inventory => if s.server.recovering.isNone then some (s.publish inventory) else none

def Step (boot : Id) (s : Site ι) (e : Event ι) (s' : Site ι) : Prop := s.event boot e = some s'

end Site

end SpaceTerm.Publication
