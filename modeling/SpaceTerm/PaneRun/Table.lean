import SpaceTerm.Lib.Run
import Mathlib

/-! # Run receipts

`pane/run.rs`: a receipt binds one command to the first owner-marked command start after it and the
finish that follows. The table holds its entries in the order of their run ids. Times are in
milliseconds. -/

namespace SpaceTerm.PaneRun

abbrev Id := Nat
abbrev RunId := Nat

def maxPerPane : Nat := 8
def maxTotal : Nat := 128

structure Position where
  epoch : Nat
  row : Nat
  deriving DecidableEq

inductive Marker
  | promptStart
  | commandInput
  | commandStart (cmdline : Option String)
  | commandFinished (exitStatus : Option Int)
  | unowned
  deriving DecidableEq

structure Observation where
  marker : Marker
  finishedCommands : Nat
  position : Position
  time : Nat
  deriving DecidableEq

inductive Doubt
  | noExitStatus | noCommandStart | cmdlineMismatch | integrationLost
  deriving DecidableEq

inductive RunState
  | admitted
  | running
  | finished (exitStatus : Option Int) (durationMs : Nat)
  | unconfirmed (doubt : Doubt)
  | sessionEnded
  | takenOver
  deriving DecidableEq

inductive Refusal
  | notAtPrompt | inputPending | noIntegration (firstPromptPending : Bool) | noBracketedPaste
  | sessionChanged | runPending | capacity
  deriving DecidableEq

structure Admission where
  pane : Id
  session : Id
  run : RunId
  client : Id
  connection : Id
  channel : Nat
  command : String
  start : Position
  finishedCommands : Nat
  time : Nat
  deriving DecidableEq

structure Entry where
  admission : Admission
  state : RunState := .admitted
  finish : Option Position := none
  started : Option Nat := none
  doubt : Option Doubt := none
  takenOver : Bool := false
  deriving DecidableEq

namespace Entry

def pending (e : Entry) : Bool := e.state == .admitted || e.state == .running

def settle (e : Entry) (state : RunState) (finish : Option Position) : Entry :=
  { e with
    state := match state, e.doubt with
      | .finished _ _, some doubt => .unconfirmed doubt
      | state, _ => state
    finish := finish }

/-- `doubt.get_or_insert`. -/
def doubting (e : Entry) (doubt : Doubt) : Entry := { e with doubt := e.doubt <|> some doubt }

def durationMs (e : Entry) (time : Nat) : Nat := time - e.started.getD e.admission.time

/-- `observe`: it reports the receipt exactly when the entry is settled by the marker. -/
def observe (e : Entry) (o : Observation) : Entry :=
  if e.pending = false then e
  else match o.marker, e.state with
    | .commandInput, _ => e
    | .unowned, _ => e.doubting .integrationLost
    | .commandStart cmdline, .admitted =>
      let e := if cmdline.any (· != e.admission.command) then e.doubting .cmdlineMismatch else e
      { e with state := .running, started := some o.time }
    | .commandStart _, _ => e.doubting .integrationLost
    | .promptStart, .admitted | .commandFinished _, .admitted =>
      e.settle (.unconfirmed .noCommandStart) (some o.position)
    | .commandFinished exitStatus, _ =>
      let e := if o.finishedCommands ≠ e.admission.finishedCommands + 1 then
        e.doubting .integrationLost else e
      match exitStatus with
      | some status => e.settle (.finished (some status) (e.durationMs o.time)) (some o.position)
      | none => e.settle (.unconfirmed .noExitStatus) (some o.position)
    | .promptStart, _ => e.settle (.unconfirmed .noExitStatus) (some o.position)

end Entry

/-- `RunTable`: the entries by rising run id. -/
structure RunTable where
  receipts : List Entry := []

namespace RunTable

def check (t : RunTable) (pane : Id) : Except Refusal Unit :=
  if t.receipts.any fun e => e.admission.pane == pane && e.pending then .error .runPending
  else if t.receipts.length ≥ maxTotal ∨
      (t.receipts.filter (·.admission.pane == pane)).length ≥ maxPerPane then .error .capacity
  else .ok ()

def get (t : RunTable) (run : RunId) : Option Entry := t.receipts.find? (·.admission.run == run)

def admitRun (t : RunTable) (admission : Admission) : Except Refusal RunTable :=
  match t.check admission.pane with
  | .error refusal => .error refusal
  | .ok () =>
    if (t.get admission.run).isSome then .error .runPending
    else .ok ⟨t.receipts.orderedInsert (fun a b => a.admission.run ≤ b.admission.run)
      { admission := admission }⟩

def admitted (t : RunTable) (run : RunId) (start : Position) (finishedCommands : Nat) : RunTable :=
  ⟨t.receipts.map fun e => if e.admission.run = run then
    { e with admission := { e.admission with start := start, finishedCommands := finishedCommands } }
    else e⟩

def refused (t : RunTable) (run : RunId) : RunTable :=
  ⟨t.receipts.filter (·.admission.run != run)⟩

/-- Changes the first pending entry of a Pane: `pending_mut`. -/
def changePending (pane : Id) (f : Entry → Entry) : List Entry → List Entry
  | [] => []
  | e :: es => if e.admission.pane = pane ∧ e.pending = true then f e :: es
    else e :: changePending pane f es

def observeMarker (t : RunTable) (pane : Id) (o : Observation) : RunTable :=
  ⟨changePending pane (·.observe o) t.receipts⟩

def sessionEnded (t : RunTable) (pane : Id) : RunTable :=
  ⟨changePending pane (·.settle .sessionEnded none) t.receipts⟩

def takenOver (t : RunTable) (pane : Id) : RunTable :=
  ⟨changePending pane (fun e => { e with takenOver := true }) t.receipts⟩

def acknowledge (t : RunTable) (client : Id) (run : RunId) : RunTable :=
  ⟨t.receipts.filter fun e => !(e.admission.run == run && e.admission.client == client && !e.pending)⟩

def forget (t : RunTable) (client : Id) : RunTable :=
  ⟨t.receipts.filter (·.admission.client != client)⟩

end RunTable
end SpaceTerm.PaneRun
