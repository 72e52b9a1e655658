import SpaceTerm.Lib.Run
import Mathlib

/-! # One activation of a candidate version

`service/activation.rs`: the record that `resume_steps` moves from step to step, and the processes
that the service manager starts. A helper runs `resume_steps` under the service lock; it can be
interrupted after every durable write and native call, and its next run reads the record again. The
started servers admit their run, report that they are ready and end their run under the intent lock.
A digest is the state it is taken of. The migration of the Core's data, recovery entries, launchers
and update records are left out. -/

namespace SpaceTerm.Service.Activation
open Lib

inductive Build
  | previous | candidate
  deriving DecidableEq

inductive Step
  | admitted | stopDispatched | quiescent | registrationReplaced | approved | startDispatched
  | completed | startFailed | returnStopDispatched | returnApproved | returnStartDispatched | returned
  deriving DecidableEq

/-- The place of a step: every change of the record goes to a later one. -/
@[simp] def Step.rank : Step → Nat
  | .admitted => 0 | .stopDispatched => 1 | .quiescent => 2 | .registrationReplaced => 3
  | .approved => 4 | .startDispatched => 5 | .completed => 6 | .startFailed => 7
  | .returnStopDispatched => 8 | .returnApproved => 9 | .returnStartDispatched => 10 | .returned => 11

structure ServerRun where
  boot : Nat
  token : Nat
  deriving DecidableEq

/-- The retained state of `SNAPSHOT`. -/
inductive File
  | identity | organization | direct
  deriving DecidableEq

def snapshot : List File := [.identity, .organization, .direct]

variable {Doc : Type} [DecidableEq Doc]

/-- `Operation` with the service record around it. -/
structure State (Doc : Type) where
  installation : Build := .previous
  stopped : Bool
  run : Option ServerRun
  step : Step := .admitted
  originalRun : Option ServerRun
  candidateRun : Option ServerRun := none
  saved : Option (File → Option Doc) := none
  ready : Bool := false

namespace State

def pending (s : State Doc) : Bool := s.step != .completed && s.step != .returned

/-- `Operation::permits_start`. -/
def permitsStart (s : State Doc) : Bool :=
  s.step == .startDispatched || s.step == .completed || s.step == .returnStartDispatched || s.step == .returned

/-- `Operation::startup_failed`. -/
def startupFailed (s : State Doc) : State Doc :=
  if s.step = .completed ∧ s.ready = false then { s with step := .startFailed } else s

/-- `transition` from `StartDispatched` to `StartFailed`. -/
def startFailed (s : State Doc) : State Doc :=
  if s.step = .startDispatched then { s with step := .startFailed } else s

/-- `ready`: whether it returns `Ok`, and the record it leaves. -/
def markReady (s : State Doc) : Bool × State Doc :=
  if s.step = .returnStartDispatched ∧ s.stopped = false then (true, { s with step := .returned })
  else if (s.step = .startDispatched ∨ s.step = .completed) ∧ s.ready = false ∧ s.stopped = false then
    if s.candidateRun = none ∨ s.candidateRun ≠ s.run then (false, s)
    else (true, { s with ready := true, step := .completed })
  else if s.pending then (false, s)
  else (true, s)

def admitRun (s : State Doc) (run : ServerRun) : Option (State Doc) :=
  if s.step = .returnStartDispatched then some s
  else if s.pending = true ∨ (s.step = .completed ∧ s.ready = false) then
    if (s.step ≠ .startDispatched ∧ s.step ≠ .completed) ∨ s.candidateRun.isSome = true then none
    else some { s with candidateRun := some run }
  else some s

end State

structure Process where
  pid : Nat
  build : Build
  run : Option ServerRun
  deriving DecidableEq

/-- A native call of `resume_steps`. -/
inductive Call
  | stopPrevious | startCandidate | stopCandidate | startReturned
  deriving DecidableEq

@[simp] def Call.marker : Call → Step
  | .stopPrevious => .stopDispatched
  | .startCandidate => .startDispatched
  | .stopCandidate => .returnStopDispatched
  | .startReturned => .returnStartDispatched

/-- Where the helper is. -/
inductive Pc (Doc : Type)
  | idle
  /-- The record was read, and the branch of its step begins. -/
  | branch (read : State Doc)
  /-- The marker is written, and the call comes next. -/
  | call (c : Call)
  /-- The locks are held, and these files are still to be copied. -/
  | copyOut (rest : List File)
  | replaced
  /-- The Start of the candidate reported a failure. -/
  | startReported
  | copyBack (rest : List File)
  | returning
  | removeCopies (rest : List File)

def Pc.holdsIntent : Pc Doc → Bool
  | .copyOut _ | .copyBack _ | .returning => true
  | _ => false

structure System (Doc : Type) where
  state : State Doc
  registration : Build := .previous
  files : File → Option Doc
  /-- The copies beside the files. -/
  copy : File → Option Doc := fun _ => none
  boot : Nat := 0
  live : List Process
  pc : Pc Doc := .idle
  /-- How often `resume_steps` made each call. -/
  calls : Call → Nat := fun _ => 0
  /-- Whether `ready` of a candidate process returned `Ok`. -/
  candidateReady : Bool := false
  /-- The processes and the files when the digest was recorded. -/
  quiescent : Option (List Process × (File → Option Doc)) := none
  /-- The files when the return was recorded. -/
  restored : Option (File → Option Doc) := none
  restores : Nat := 0

namespace System

/-- `check_cleanup` of a record. -/
def cleanup (s : System Doc) (state : State Doc) : Bool := state.run.all (·.boot != s.boot)

/-- `wait_quiescent`: no process is left, and the recorded run is the expected one and ended. -/
def waitQuiescent (s : System Doc) (expected : Option ServerRun) (unreadyCandidate : Bool) : Bool :=
  s.live.isEmpty && s.state.run.all (fun run => expected == some run) &&
    ((unreadyCandidate && expected.isSome && s.state.run == expected) || s.cleanup s.state)

def requireQuiescent (s : System Doc) (state : State Doc) : Bool := s.live.isEmpty && s.cleanup state

def setStep (s : System Doc) (step : Step) (pc : Pc Doc) : System Doc :=
  { s with state := { s.state with step := step }, pc := pc }

/-- The helper's next durable write or native call. `reported` says whether a native Start reports
success; the deadline of a wait has passed. -/
def advance (s : System Doc) (reported : Bool) : Option (System Doc) :=
  match s.pc with
  | .idle => some { s with pc := .branch s.state }
  | .call c => some { s with
      calls := Function.update s.calls c (s.calls c + 1)
      pc := if c = .startCandidate ∧ reported = false then .startReported else .idle }
  | .copyOut (file :: rest) => some { s with
      copy := Function.update s.copy file (s.files file), pc := .copyOut rest }
  | .copyOut [] => some { s with
      state := { s.state with step := .quiescent, saved := some s.copy, run := none }
      quiescent := some (s.live, s.files)
      pc := .idle }
  | .replaced => some (s.setStep .registrationReplaced .idle)
  | .startReported => some { s with state := s.state.startFailed, pc := .idle }
  | .copyBack (file :: rest) => some { s with
      files := Function.update s.files file (s.copy file)
      restores := s.restores + 1
      pc := .copyBack rest }
  | .copyBack [] => some { s with registration := .previous, pc := .returning }
  | .returning => some { s with
      state := { s.state with step := .returnApproved, installation := .previous, run := none }
      restored := some s.files
      pc := .idle }
  | .removeCopies (file :: rest) => some { s with
      copy := Function.update s.copy file none, pc := .removeCopies rest }
  | .removeCopies [] => some { s with pc := .idle }
  | .branch read =>
    match read.step with
    | .admitted => some (s.setStep .stopDispatched (if read.stopped then .idle else .call .stopPrevious))
    | .stopDispatched =>
      if s.waitQuiescent read.originalRun false then some { s with pc := .copyOut snapshot } else none
    | .quiescent =>
      if s.requireQuiescent read then some { s with registration := .candidate, pc := .replaced }
      else none
    | .registrationReplaced =>
      if s.requireQuiescent read then some { s with
        state := { s.state with installation := .candidate, step := .approved }, pc := .idle }
      else none
    | .approved =>
      if s.requireQuiescent read then
        some (if read.stopped then s.setStep .completed .idle
          else s.setStep .startDispatched (.call .startCandidate))
      else none
    | .startDispatched => some { s with state := s.state.startFailed, pc := .idle }
    | .completed =>
      some { s with pc := if read.ready then .removeCopies snapshot else .idle }
    | .startFailed =>
      some (s.setStep .returnStopDispatched (if s.live.isEmpty then .idle else .call .stopCandidate))
    | .returnStopDispatched =>
      if s.waitQuiescent read.candidateRun (!read.ready) then
        match read.saved with
        | some saved =>
          if snapshot.all fun file => s.copy file == saved file then
            some { s with pc := .copyBack snapshot }
          else none
        | none => none
      else none
    | .returnApproved =>
      if s.requireQuiescent read then
        some (if read.stopped then s.setStep .returned .idle
          else s.setStep .returnStartDispatched (.call .startReturned))
      else none
    | .returnStartDispatched => some { s with pc := .idle }
    | .returned => some { s with pc := .removeCopies snapshot }

inductive Event (Doc : Type)
  | advance (reported : Bool)
  /-- The helper is interrupted, or its branch returns an error. -/
  | interrupt
  /-- The service manager starts a process of the registered version. -/
  | launch (pid : Nat)
  | admitRun (pid token : Nat)
  | ready (pid : Nat)
  | write (pid : Nat) (file : File) (doc : Option Doc)
  | runEnd (pid : Nat)
  | crash (pid : Nat)
  | reboot
  /-- A start of the service: it clears a retained Stop. -/
  | start
  /-- A start of the service failed. -/
  | startupFailed

def process (s : System Doc) (pid : Nat) : Option Process := s.live.find? (·.pid == pid)

/-- `run_approved` up to `serve`. -/
def admitRun (s : System Doc) (p : Process) (token : Nat) : Option (System Doc) :=
  if p.run = none ∧ s.state.stopped = false ∧ s.state.permitsStart = true ∧
      s.cleanup s.state = true ∧ p.build = s.state.installation then
    (s.state.admitRun ⟨s.boot, token⟩).map fun state => { s with
      state := { state with run := some ⟨s.boot, token⟩ }
      live := { p with run := some ⟨s.boot, token⟩ } :: s.live.erase p }
  else none

def ready (s : System Doc) (p : Process) : System Doc :=
  { s with
    state := s.state.markReady.2
    candidateReady := s.candidateReady || (s.state.markReady.1 && p.build == .candidate) }

/-- The end of `run_approved`. -/
def runEnd (s : System Doc) (p : Process) : System Doc :=
  { s with
    state := if s.state.run.isSome ∧ s.state.run = p.run then { s.state with run := none } else s.state
    live := s.live.erase p }

/-- One event. The intent lock keeps a server's changes of the record out of the helper's copying,
and the service lock keeps a start out of its run. -/
def take (s : System Doc) : Event Doc → Option (System Doc)
  | .advance reported => s.advance reported
  | .interrupt => some { s with pc := .idle }
  | .launch pid =>
    if (s.process pid).isSome then none
    else some { s with live := ⟨pid, s.registration, none⟩ :: s.live }
  | .admitRun pid token =>
    if s.pc.holdsIntent then none else (s.process pid).bind (s.admitRun · token)
  | .ready pid =>
    if s.pc.holdsIntent then none
    else ((s.process pid).filter (·.run.isSome)).map s.ready
  | .write pid file doc =>
    ((s.process pid).filter (·.run.isSome)).map fun _ =>
      { s with files := Function.update s.files file doc }
  | .runEnd pid =>
    if s.pc.holdsIntent then none
    else ((s.process pid).filter (·.run.isSome)).map s.runEnd
  | .crash pid => (s.process pid).map fun p => { s with live := s.live.erase p }
  | .reboot => some { s with boot := s.boot + 1, live := [], pc := .idle }
  | .start =>
    match s.pc with
    | .idle =>
      if s.requireQuiescent s.state then
        some { s with state := { s.state with stopped := false, run := none } }
      else none
    | _ => none
  | .startupFailed =>
    match s.pc with
    | .idle => some { s with state := s.state.startupFailed }
    | _ => none

abbrev Moves (s : System Doc) (e : Event Doc) (t : System Doc) : Prop := s.take e = some t

end System

/-- An activation that was just admitted: the record's other fields and the counts are as `System`
starts them, and only the previous version runs. -/
def System.admitted (stopped : Bool) (run : Option ServerRun) (files copy : File → Option Doc)
    (boot : Nat) (pids : List (Nat × Option ServerRun)) : System Doc where
  state := { stopped := stopped, run := run, originalRun := run }
  files := files
  copy := copy
  boot := boot
  live := pids.map fun p => ⟨p.1, .previous, p.2⟩

end SpaceTerm.Service.Activation
