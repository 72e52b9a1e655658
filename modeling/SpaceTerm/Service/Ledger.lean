import SpaceTerm.Hierarchy.Types
import SpaceTerm.Lib.Run

/-! # The service-operation ledger

`service/operations.rs`: one record per Stop, Restart, Update, Uninstall or Network Access change
the service lane admitted. Every change is a compare-and-set under the ledger's lock, so each call is
one step here. The lane admits a record (`execute`) and launches a helper for it; the helper
(`service/helper.rs`) takes the helper lock, claims its record and marks the outcome; the lane claims
and marks a Network Access change itself; any server settles what no live actor can still move.

What the launch reports and whether the helper really starts are separate events. -/

namespace SpaceTerm.Service
open Lib

abbrev OperationId := BitVec 128
abbrev PairingId := BitVec 256

def maxRecords : Nat := 16
def launchGrace : Nat := 60

inductive Action
  | stop | restart | update | uninstall | network
  deriving Repr, DecidableEq

structure Actor where
  pairing : Option PairingId
  client : Id
  deriving Repr, DecidableEq

def Actor.core : Actor := ⟨none, 0⟩

inductive NotPerformed
  | coreRestarted | launchFailed
  deriving Repr, DecidableEq

inductive OperationState
  | admitted | launched | running | done
  | failed (code : String)
  | notPerformed (why : NotPerformed)
  | unresolved
  deriving Repr, DecidableEq

namespace OperationState

def terminal : OperationState → Bool
  | done | failed _ | notPerformed _ | unresolved => true
  | admitted | launched | running => false

/-- Whether a claim still takes the record. -/
def claimable : OperationState → Bool
  | admitted | launched => true
  | _ => false

end OperationState

structure Record where
  id : OperationId
  actor : Actor
  /-- The run of the server that admitted it. -/
  boot : Id
  action : Action
  state : OperationState := .admitted
  updatedAt : Nat := 0
  orphaned : Bool := false
  /-- Which admission it is. The code has no such number; it tells two records of one id apart. -/
  number : Nat := 0
  deriving Repr, DecidableEq

inductive CoreError
  | protocol | changed | serviceBusy | capacity | authenticationRefused
  deriving Repr, DecidableEq

inductive Admission
  | new (r : Record)
  | existing (r : Record)

namespace Ledger

abbrev Records := List Record

/-- `change`: what is settled and orphaned is deleted with every change; a refused one writes
nothing. -/
def change {α : Type} (records : Records) (apply : Records → Except CoreError (α × Records)) :
    Except CoreError α × Records :=
  match apply records with
  | .error e => (.error e, records)
  | .ok (result, next) => (.ok result, next.filter fun v => !(v.orphaned && v.state.terminal))

def find (records : Records) (id : OperationId) : Option Record := records.find? (·.id == id)

def set (records : Records) (id : OperationId) (state : OperationState) (now : Nat) : Records :=
  modifyFirst (·.id == id) (fun v => { v with state, updatedAt := now }) records

def admitRecord (records : Records) (record : Record) (now : Nat) : Except CoreError Admission × Records :=
  if record.state != .admitted || record.orphaned then (.error .protocol, records)
  else change records fun records =>
    match find records record.id with
    | some existing =>
      if existing.actor = record.actor then .ok (.existing existing, records) else .error .changed
    | none =>
      if records.any (!·.state.terminal) then .error .serviceBusy
      else if records.length ≥ maxRecords then .error .capacity
      else
        let record := { record with updatedAt := now }
        .ok (.new record, records ++ [record])

/-- Which moves `mark` makes: `none` keeps the record and succeeds, `some false` refuses. -/
def markAllowed : OperationState → OperationState → Option Bool
  | .admitted, .launched => some true
  | .launched, .launched | .running, .launched => none
  | _, next => some next.terminal

def mark (records : Records) (id : OperationId) (state : OperationState) (now : Nat) :
    Except CoreError Unit × Records :=
  change records fun records =>
    match find records id with
    | none => .error .changed
    | some record =>
      if record.state.terminal then .error .changed
      else match markAllowed record.state state with
        | none => .ok ((), records)
        | some false => .error .changed
        | some true => .ok ((), set records id state now)

def claim (records : Records) (id : OperationId) (now : Nat) : Except CoreError (Option Record) × Records :=
  change records fun records =>
    match find records id with
    | none => .error .changed
    | some record =>
      if record.state.claimable then .ok (some record, set records id .running now)
      else .ok (none, records)

def acknowledge (records : Records) (id : OperationId) (actor : Actor) : Except CoreError Unit × Records :=
  change records fun records =>
    match find records id with
    | none => .ok ((), records)
    | some record =>
      if record.actor ≠ actor then .error .authenticationRefused
      else if !record.state.terminal then .error .serviceBusy
      else .ok ((), records.eraseP (·.id == id))

def forgetPairing (records : Records) (pairing : PairingId) : Except CoreError Unit × Records :=
  change records fun records =>
    .ok ((), records.map fun v =>
      if v.actor.pairing = some pairing then { v with orphaned := true } else v)

/-- The phases of an activation, as its outcome tells them apart. -/
inductive ActivationPhase
  | activating | completed | returned | uncertain
  deriving DecidableEq

def activationOutcome : ActivationPhase → OperationState
  | .completed => .done
  | .returned => .failed "startup_failed"
  | .activating | .uncertain => .unresolved

/-- What `Evidence::activation` says of an Update: the phase its journal proves, if it holds one of
this candidate, or that the journal is mid-step, or another failure. -/
inductive Activation
  | proves (phase : Option ActivationPhase)
  | busy
  | fails
  deriving DecidableEq

/-- The state settlement gives a record that is not terminal: `none` leaves it. -/
def settledState (record : Record) (boot : Id) (activation : Activation) (now : Nat) :
    Except CoreError (Option OperationState) :=
  let earlier := record.boot ≠ boot
  match record.state with
  | .admitted => .ok (if earlier then some (.notPerformed .coreRestarted) else none)
  | .launched =>
    .ok (if earlier then some (.notPerformed .coreRestarted)
      else if now - record.updatedAt ≥ launchGrace then some (.notPerformed .launchFailed)
      else none)
  | .running => match record.action with
    | .update => match activation with
      | .proves phase => .ok (some ((phase.map activationOutcome).getD .unresolved))
      | .busy => .ok none
      | .fails => .error .protocol
    | .restart => .ok (some (if earlier then .done else .unresolved))
    | .stop | .uninstall => .ok (some .unresolved)
    | .network => .ok (if earlier then some .unresolved else none)
  | _ => .ok none

def settleRecord (boot : Id) (activation : Activation) (now : Nat) (record : Record) :
    Except CoreError Record := do
  if record.state.terminal then return record
  match ← settledState record boot activation now with
  | some state => return { record with state, updatedAt := now }
  | none => return record

/-- `settle`, and `recover_at_start`, which is `settle` by the starting server. -/
def settle (records : Records) (boot : Id) (helperActive : Bool) (activation : Activation)
    (now : Nat) : Except CoreError Unit × Records :=
  change records fun records => do
    let records := records.filter fun v => !(v.actor == Actor.core && v.state.terminal)
    if records.all (·.state.terminal) || helperActive then return ((), records)
    return ((), ← records.mapM (settleRecord boot activation now))

end Ledger

/-! ### Servers, helpers and the ledger -/

inductive HelperPhase
  | started | holding | performing
  deriving DecidableEq

structure Helper where
  operation : OperationId
  phase : HelperPhase := .started
  deriving DecidableEq

/-- The account's ledger file with the helpers alive, and two records of the past: the operations
that were dispatched and the records that were claimed, both by admission number. -/
structure Machine where
  records : Ledger.Records := []
  helpers : List Helper := []
  next : Nat := 0
  dispatched : List (Nat × OperationId) := []
  claims : List Nat := []

inductive Event
  /-- `Lane::execute`: admits a record of the running server. -/
  | execute (record : Record) (now : Nat)
  /-- The launch really starts a helper. -/
  | starts (id : OperationId)
  /-- What the launch reported, and `mark` after it. -/
  | launchReported (id : OperationId) (ok : Bool) (now : Nat)
  | helperLocks (i : Nat)
  | helperClaims (i : Nat) (now : Nat)
  /-- The helper's outcome, `perform`'s state. -/
  | helperMarks (i : Nat) (state : OperationState) (now : Nat)
  | helperExits (i : Nat)
  /-- The lane claims and marks a Network Access change. -/
  | networkClaims (id : OperationId) (now : Nat)
  | networkMarks (id : OperationId) (state : OperationState) (now : Nat)
  | settles (boot : Id) (activation : Ledger.Activation) (now : Nat)
  | acknowledges (id : OperationId) (actor : Actor)
  | forgetsPairing (pairing : PairingId)

namespace Machine

/-- `Evidence::helper_active`. -/
def helperActive (m : Machine) : Bool := m.helpers.any (·.phase != .started)

/-- The outcomes `helper::run` and the lane's network change mark. -/
def outcome : OperationState → Bool
  | .done | .failed _ | .unresolved => true
  | _ => false

def claimed (m : Machine) (id : OperationId) (now : Nat) : Option Record × Machine :=
  match Ledger.claim m.records id now with
  | (.ok (some record), records) =>
    (some record, { m with records, claims := m.claims ++ [record.number] })
  | (_, records) => (none, { m with records })

def setHelper (m : Machine) (i : Nat) (phase : HelperPhase) : Machine :=
  { m with helpers := m.helpers.modify i ({ · with phase }) }

def event (m : Machine) : Event → Option Machine
  | .execute record now =>
    -- a repeated Execute finds its record first and dispatches nothing
    match Ledger.find m.records record.id with
    | some _ => some m
    | none =>
      match Ledger.admitRecord m.records { record with number := m.next } now with
      | (.ok (.new r), records) =>
        some { m with records, next := m.next + 1, dispatched := m.dispatched ++ [(r.number, r.id)] }
      | (_, records) => some { m with records }
  | .starts id =>
    if id ∈ m.dispatched.map (·.2) then some { m with helpers := m.helpers ++ [{ operation := id }] }
    else none
  | .launchReported id ok now =>
    let state := if ok then .launched else .notPerformed .launchFailed
    if id ∈ m.dispatched.map (·.2) then some { m with records := (Ledger.mark m.records id state now).2 }
    else none
  | .helperLocks i =>
    match m.helpers[i]? with
    | some { phase := .started, .. } =>
      -- a helper that does not get the lock gives up
      if m.helperActive then some { m with helpers := m.helpers.eraseIdx i }
      else some (m.setHelper i .holding)
    | _ => none
  | .helperClaims i now =>
    match m.helpers[i]? with
    | some { phase := .holding, operation } =>
      match m.claimed operation now with
      | (some _, m) => some (m.setHelper i .performing)
      | (none, m) => some { m with helpers := m.helpers.eraseIdx i }
    | _ => none
  | .helperMarks i state now =>
    match m.helpers[i]? with
    | some { phase := .performing, operation } =>
      if outcome state then
        some { m with records := (Ledger.mark m.records operation state now).2, helpers := m.helpers.eraseIdx i }
      else none
    | _ => none
  | .helperExits i => some { m with helpers := m.helpers.eraseIdx i }
  | .networkClaims id now =>
    if (Ledger.find m.records id).any (·.action == .network) then some (m.claimed id now).2 else none
  | .networkMarks id state now =>
    if (Ledger.find m.records id).any (·.action == .network) && outcome state then
      some { m with records := (Ledger.mark m.records id state now).2 }
    else none
  | .settles boot activation now =>
    some { m with records := (Ledger.settle m.records boot m.helperActive activation now).2 }
  | .acknowledges id actor => some { m with records := (Ledger.acknowledge m.records id actor).2 }
  | .forgetsPairing pairing => some { m with records := (Ledger.forgetPairing m.records pairing).2 }

def Step (m : Machine) (e : Event) (t : Machine) : Prop := m.event e = some t

end Machine

end SpaceTerm.Service
