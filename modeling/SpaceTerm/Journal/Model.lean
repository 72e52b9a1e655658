import Mathlib.Logic.Function.Basic
import SpaceTerm.Hierarchy.Host

/-! # The organization journal

`Journal` of `workspaces/journal.rs` with the threads that call `Journal::sync` and the host that
submits and recovers. One event is one stretch under the journal's lock, or one access to the store:
a write takes effect between the lock of the pass that took its envelope and the lock of the pass
that reports its result, so that events of other threads fall in between.

The journal never looks into an envelope. What the host makes of a state is a `Format`. -/

namespace SpaceTerm.Journal
open Hierarchy Lib

/-- How many recoveries keep their verdicts. -/
def recoveries : Nat := 16

/-- A commit's place in submission order. -/
structure Revision where
  epoch : Nat
  number : Nat
  deriving Repr, DecidableEq

namespace Revision

def covers (r other : Revision) : Bool := r.epoch == other.epoch && other.number ≤ r.number

/-- Whether a recovery before `written` lost `r`, because it was never retained. -/
def lostBy (r written : Revision) : Bool := r.epoch < written.epoch

end Revision

structure Progress (ρ : Type) where
  /-- Starts again after each recovery. -/
  epoch : Nat := 0
  submitted : Nat := 0
  /-- The newest envelope no writer has taken yet. -/
  pending : Option (Nat × ρ) := none
  writing : Bool := false
  /-- Every revision of this epoch up to here is retained. -/
  durable : Nat := 0
  reporting : Bool := false
  failed : Bool := false
  /-- The last durable revision of each earlier epoch, in order of epochs. -/
  ended : List (Nat × Nat) := []

/-- What `sync` does with the lock in one pass of its loop. -/
inductive Pass (ρ : Type)
  | returns (ok : Bool)
  | waits
  | takes (number : Nat) (envelope : ρ)

namespace Progress
variable {ρ : Type}

def submit (p : Progress ρ) (envelope : ρ) : Progress ρ × Revision :=
  let p := { p with submitted := p.submitted + 1, pending := some (p.submitted + 1, envelope) }
  (p, ⟨p.epoch, p.submitted⟩)

def latest (p : Progress ρ) : Revision := ⟨p.epoch, p.submitted⟩

def verdict (p : Progress ρ) (epoch : Nat) : Option Nat :=
  (p.ended.find? (·.1 == epoch)).map (·.2)

def retained (p : Progress ρ) (revision : Revision) : Bool :=
  if revision.epoch ≠ p.epoch then
    (p.verdict revision.epoch).any (revision.number ≤ ·)
  else revision.number ≤ p.durable

def pass (p : Progress ρ) (revision : Revision) : Pass ρ :=
  if revision.epoch ≠ p.epoch then .returns ((p.verdict revision.epoch).any (revision.number ≤ ·))
  else if revision.number ≤ p.durable && !p.reporting then .returns true
  else if p.failed then .returns false
  else if p.writing || p.reporting then .waits
  else match p.pending with
    | none => .returns false
    | some (number, envelope) => .takes number envelope

def settled (p : Progress ρ) : Bool :=
  !p.failed && !p.writing && !p.reporting && p.pending.isNone

/-- `BTreeMap::insert`. -/
def insertEnded (ended : List (Nat × Nat)) (epoch durable : Nat) : List (Nat × Nat) :=
  ended.filter (·.1 < epoch) ++ (epoch, durable) :: ended.filter (epoch < ·.1)

/-- `Journal::recover` under its lock, once the record is read. -/
def recover (p : Progress ρ) : Progress ρ :=
  let ended := insertEnded p.ended p.epoch p.durable
  { p with
    ended := ended.drop (ended.length - recoveries)
    epoch := p.epoch + 1, submitted := 0, durable := 0, pending := none, failed := false }

end Progress

/-- What the host retains of a state, and what it makes of a record. -/
structure Format (σ ρ : Type) where
  /-- The state a commit keeps. -/
  kept : σ → σ
  envelope : σ → ρ
  restore : Option ρ → σ

inductive Thread (ρ : Type)
  | idle
  /-- In the loop of `sync`, before it takes the lock. -/
  | syncing (revision : Revision)
  | writing (revision taken : Revision) (envelope : ρ)
  /-- The store has answered. -/
  | wrote (revision taken : Revision) (ok : Bool)
  /-- Is about to call `written` with what it retained. -/
  | reporting (revision taken : Revision)
  /-- `written` has returned. -/
  | reported (revision : Revision)
  | returned (revision : Revision) (ok : Bool)

/-- How a write ends: a failure leaves the old record or the new one. -/
inductive WriteResult
  | ok
  | failedOld
  | failedNew
  deriving DecidableEq

def WriteResult.isOk (r : WriteResult) : Bool := r == .ok

structure Server (σ ρ : Type) where
  progress : Progress ρ
  store : Option ρ
  /-- `WorkspaceHost::state`. -/
  state : σ
  /-- The record a recovery has read, until it takes the journal's lock. -/
  recovering : Option (Option ρ)
  threads : Nat → Thread ρ
  /-- Every envelope submitted, with its revision. -/
  log : List (Revision × ρ)
  /-- What was made from what: a commit from the state before it, a restored state from its
  record. -/
  lineage : List (ρ × ρ)

inductive Event (σ : Type)
  | commit (next : σ)
  | call (thread : Nat) (revision : Revision)
  | pass (thread : Nat)
  | write (thread : Nat) (result : WriteResult)
  | finish (thread : Nat)
  | written (thread : Nat)
  | report (thread : Nat)
  | read
  | recover

namespace Server
variable {σ ρ : Type}

def setThread (s : Server σ ρ) (t : Nat) (thread : Thread ρ) : Server σ ρ :=
  { s with threads := Function.update s.threads t thread }

def setProgress (s : Server σ ρ) (progress : Progress ρ) : Server σ ρ := { s with progress }

def opened (format : Format σ ρ) (record : Option ρ) : Server σ ρ where
  progress := {}
  store := record
  state := format.restore record
  recovering := none
  threads _ := .idle
  log := []
  lineage := record.toList.map fun r => (r, format.envelope (format.restore (some r)))

/-- One event, when it can happen. -/
def event (format : Format σ ρ) (s : Server σ ρ) : Event σ → Option (Server σ ρ)
  -- `WorkspaceHost::commit`, under the lock that recoveries hold too.
  | .commit next =>
    if s.recovering.isSome then none
    else
      let envelope := format.envelope (format.kept next)
      let (progress, revision) := s.progress.submit envelope
      some { s with
        progress, state := format.kept next
        log := s.log ++ [(revision, envelope)]
        lineage := (format.envelope s.state, envelope) :: s.lineage }
  | .call t revision =>
    match s.threads t with
    | .idle | .returned _ _ => some (s.setThread t (.syncing revision))
    | _ => none
  | .pass t =>
    match s.threads t with
    | .syncing revision =>
      match s.progress.pass revision with
      | .returns ok => some (s.setThread t (.returned revision ok))
      | .waits => some s
      | .takes number envelope =>
        some ((s.setProgress { s.progress with pending := none, writing := true }).setThread t
          (.writing revision ⟨s.progress.epoch, number⟩ envelope))
    | _ => none
  | .write t result =>
    match s.threads t with
    | .writing revision taken envelope =>
      let store := if result == .failedOld then s.store else some envelope
      some (({ s with store } : Server σ ρ).setThread t (.wrote revision taken result.isOk))
    | _ => none
  | .finish t =>
    match s.threads t with
    | .wrote revision taken true =>
      some ((s.setProgress { s.progress with
        writing := false, durable := taken.number, reporting := true }).setThread t
          (.reporting revision taken))
    | .wrote revision _ false =>
      some ((s.setProgress { s.progress with writing := false, failed := true }).setThread t
        (.syncing revision))
    | _ => none
  -- The callback runs outside the journal's lock and changes nothing of the journal.
  | .written t =>
    match s.threads t with
    | .reporting revision _ => some (s.setThread t (.reported revision))
    | _ => none
  | .report t =>
    match s.threads t with
    | .reported revision =>
      some ((s.setProgress { s.progress with reporting := false }).setThread t (.syncing revision))
    | _ => none
  -- `WorkspaceHost::recover` reads the record only while the journal is uncertain.
  | .read =>
    if s.progress.failed && s.recovering.isNone then some { s with recovering := some s.store }
    else none
  | .recover =>
    match s.recovering with
    | none => none
    | some record =>
      some { s with
        progress := s.progress.recover, state := format.restore record, recovering := none
        lineage := record.toList.map (fun r => (r, format.envelope (format.restore (some r)))) ++ s.lineage }

def Step (format : Format σ ρ) (s : Server σ ρ) (e : Event σ) (s' : Server σ ρ) : Prop :=
  s.event format e = some s'

/-- `b` was made from `a` by commits and recoveries. -/
def Descends (s : Server σ ρ) : ρ → ρ → Prop :=
  Relation.ReflTransGen fun a b => (a, b) ∈ s.lineage

end Server

/-! ### The organization of the server -/

def envelope (s : State) : State :=
  let s := s.mapPanes fun p => { p with
    currentDirectory := none, repositoryDirectory := none, presentation := none, observers := {} }
  s.withoutLive

/-- `WorkspaceHost::restore_organization`. -/
def restoreOrganization (boot : Id) (record : Option State) : State :=
  (record.getD .empty).beginBoot boot

def organizationFormat (boot : Id) : Format State State where
  kept := State.withoutLive
  envelope := envelope
  restore := restoreOrganization boot

end SpaceTerm.Journal
