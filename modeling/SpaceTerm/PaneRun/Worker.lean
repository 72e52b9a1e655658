import SpaceTerm.PaneRun.Table

/-! # The markers a run follows

`terminal/metadata.rs` as far as it decides what a pending run sees, and the two buffers between the
shell and the run table: the follower's, filled by `record_run_marker` and emptied after each read, and
the subscription's, filled by `run_observations` and emptied by the host. -/

namespace SpaceTerm.PaneRun

def maxRunMarkers : Nat := 64
def maxRunObservations : Nat := 64

structure RunMarker where
  marker : Marker
  finishedCommands : Nat
  time : Nat
  deriving DecidableEq

structure RunFollower where
  markers : List RunMarker := []
  overflowed : Bool := false
  finished : Bool := false
  deriving DecidableEq

inductive Zone
  | unknown | prompt | commandInput | commandOutput
  deriving DecidableEq

/-- The action of an OSC 133 marker: `A` or `P`, `N`, `B` or `I`, `C`, `D`. -/
inductive Mark
  | prompt
  | fresh
  | input
  | start (cmdline : Option String)
  | finish (exitStatus : Option Int)
  deriving DecidableEq

inductive CommandState
  | running | finished
  deriving DecidableEq

/-- `MetadataTracker`, as far as runs depend on it. -/
structure Tracker where
  finishedCommands : Nat := 0
  command : Option CommandState := none
  promptOwnerSeen : Bool := false
  /-- Whether the owning shell reported its directory since its last prompt marker. -/
  ownerReported : Bool := false
  zone : Option Zone := none
  inputBytes : Nat := 0
  finishing : Bool := false
  typeahead : Nat := 0
  run : Option RunFollower := none
  deriving DecidableEq

def Marker.ends : Marker → Bool
  | .promptStart | .commandFinished _ => true
  | _ => false

namespace Tracker

def noteInput (t : Tracker) (bytes : Nat) : Tracker :=
  if t.finishing then { t with typeahead := t.typeahead + bytes }
  else { t with inputBytes := t.inputBytes + bytes }

def followRun (t : Tracker) : Tracker := { t with run := some {} }

def takeRunMarkers (t : Tracker) (now : Nat) : Tracker × List RunMarker :=
  match t.run with
  | none => (t, [])
  | some run =>
    ({ t with run := if run.finished then none else some { run with markers := [], overflowed := false } },
      run.markers ++ (if run.overflowed then [⟨.unowned, t.finishedCommands, now⟩] else []))

def recordRunMarker (t : Tracker) (marker : Marker) (now : Nat) : Tracker :=
  match t.run with
  | none => t
  | some run =>
    if run.finished then t
    else if run.markers.length ≥ maxRunMarkers then
      { t with run := some { run with finished := marker.ends, overflowed := true } }
    else { t with run := some { run with
      finished := marker.ends
      markers := run.markers ++ [⟨marker, t.finishedCommands, now⟩] } }

def finishCommand (t : Tracker) : Tracker :=
  if t.command = some .finished then t
  else { t with finishedCommands := t.finishedCommands + 1, command := some .finished }

def applyPromptAction (t : Tracker) : Mark → Tracker
  | .prompt => if t.command = some .running then t.finishCommand else t
  | .fresh | .input => t
  | .start _ => { t with command := some .running }
  | .finish _ => t.finishCommand

def observeOwnedPrompt (t : Tracker) (mark : Mark) (owned : Option Bool) (now : Nat) : Tracker :=
  match mark, owned with
  | .prompt, some false => { t with zone := some .prompt }
  | .prompt, some true =>
    { t with zone := some .prompt, finishing := false, inputBytes := t.typeahead, typeahead := 0 }
      |>.recordRunMarker .promptStart now
  | .input, _ => if t.zone = some .prompt then { t with zone := some .commandInput } else t
  | .start cmdline, some _ =>
    { t with zone := some .commandOutput }.recordRunMarker (.commandStart cmdline) now
  | .finish exitStatus, some _ =>
    { t with zone := some .commandOutput, finishing := true }
      |>.recordRunMarker (.commandFinished exitStatus) now
  | .prompt, none | .fresh, none | .start _, none | .finish _, none =>
    if t.promptOwnerSeen then t.recordRunMarker .unowned now else t
  | .fresh, some _ => t

def applySemanticPrompt (t : Tracker) (mark : Mark) (isOwner : Bool) (now : Nat) : Tracker :=
  let fresh := mark == .prompt && t.ownerReported
  let seen := if isOwner then
    { t with promptOwnerSeen := true, ownerReported := t.ownerReported && mark != .prompt } else t
  (seen.applyPromptAction mark).observeOwnedPrompt mark (if isOwner then some fresh else none) now

end Tracker

def keepObservation (queue : List Observation) (o : Observation) : List Observation :=
  if queue.length + 1 < maxRunObservations then queue ++ [o]
  else if queue.getLast?.all (·.marker != .unowned) then queue ++ [{ o with marker := .unowned }]
  else queue

def runObservations (queue observations : List Observation) : List Observation :=
  observations.foldl keepObservation queue

end SpaceTerm.PaneRun
