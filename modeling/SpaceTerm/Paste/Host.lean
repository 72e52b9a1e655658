import SpaceTerm.Link.Model

/-! # Input on one channel of the host

`input_message`, `apply` and `paste` of `core_host/dispatch.rs`, for the channel of one connection. The
Pane behind the channel's lease is any state with the answers it gives. A channel is introduced once,
by a claim or an observation, so it is never bound and observing. -/

namespace SpaceTerm.Paste
open Lib
open Hierarchy (Refusal)
open Link (maxPasteBytes)

/-- What events carry that the host hands on as it is. -/
structure Contents where
  Focus : Type
  Key : Type
  Pointer : Type
  Wheel : Type
  Modifiers : Type
  Size : Type

variable {X : Contents} {σ : Type}

inductive InputEvent (X : Contents)
  | focus (target : X.Focus)
  | key (key : X.Key)
  | pointer (pointer : X.Pointer)
  | wheel (wheel : X.Wheel)
  | copyOrForward (modifiers : X.Modifiers)
  | resize (size : X.Size)
  | resolvePaste (id : Nat) (confirm : Bool)
  | paste (text : Text) (last : Bool)

structure Input (X : Contents) where
  serial : Nat
  generation : Nat
  events : List (InputEvent X)

inductive PasteRejection
  | empty
  | tooLarge (limit : Nat)
  | confirmationPending
  | terminalUnfocused
  deriving DecidableEq

inductive PasteOutcome
  | written
  | confirmationRequired (id : Nat)
  | rejected (reason : PasteRejection)
  | cancelled
  | stale
  deriving DecidableEq

inductive InputOutcome
  | discarded (refusal : Refusal)
  | paste (outcome : PasteOutcome)
  deriving DecidableEq

/-- The requests that input becomes, but for the lease that each of them names. -/
inductive Request (X : Contents)
  | focus (generation : Nat) (target : X.Focus)
  | keys (generation : Nat) (keys : List X.Key)
  | pointer (generation : Nat) (pointer : X.Pointer)
  | wheel (generation : Nat) (wheel : X.Wheel)
  | copyOrForward (generation : Nat) (modifiers : X.Modifiers)
  | resize (size : X.Size)
  | resolvePaste (generation id : Nat) (confirm : Bool)
  | paste (generation : Nat) (text : Text)

/-- `Reply`, by what `body` makes of it. -/
inductive Reply
  | done
  | paste (outcome : PasteOutcome)
  | refused (refusal : Refusal)
  | unexpected

def body : Reply → Except Refusal Unit
  | .done => .ok ()
  | .refused refusal => .error refusal
  | .paste _ | .unexpected => .error .failed

/-- What the host asks of the Pane behind a lease. -/
structure Pane (X : Contents) (σ : Type) where
  request : σ → Request X → Reply × σ
  inputWritten : σ → Nat → σ

/-- The chunks of one paste received so far. -/
structure PendingPaste where
  generation : Nat
  text : Text := []
  tooLarge : Bool := false
  aborted : Option Refusal := none
  deriving DecidableEq

inductive Binding
  | closed
  | observing
  | bound (paste : Option PendingPaste)
  deriving DecidableEq

/-- What happened on the channel, newest first. It belongs to the model only. -/
inductive Item
  | bound
  | chunk (generation : Nat) (text : Text) (last : Bool)
  | other
  | refused
  /-- A chunk that came after the refusal of its message. -/
  | lost (text : Text) (last : Bool)
  | passed (text : Text)
  deriving DecidableEq

structure State (σ : Type) where
  pane : σ
  binding : Binding := .closed
  trace : List Item := []

/-- Events as `apply` takes them: keys in a row are one request. -/
inductive Turn (X : Contents)
  | chunk (text : Text) (last : Bool)
  | request (request : Request X)

def turns (generation : Nat) : List (InputEvent X) → List (Turn X)
  | [] => []
  | .key key :: events =>
    match turns generation events with
    | .request (.keys _ keys) :: rest => .request (.keys generation (key :: keys)) :: rest
    | rest => .request (.keys generation [key]) :: rest
  | .focus target :: events => .request (.focus generation target) :: turns generation events
  | .pointer pointer :: events => .request (.pointer generation pointer) :: turns generation events
  | .wheel wheel :: events => .request (.wheel generation wheel) :: turns generation events
  | .copyOrForward modifiers :: events =>
    .request (.copyOrForward generation modifiers) :: turns generation events
  | .resize size :: events => .request (.resize size) :: turns generation events
  | .resolvePaste id confirm :: events =>
    .request (.resolvePaste generation id confirm) :: turns generation events
  | .paste text last :: events => .chunk text last :: turns generation events

/-- The chunks among events that a refusal discards, newest first. -/
def lostChunks : List (Turn X) → List Item
  | [] => []
  | .chunk text last :: rest => lostChunks rest ++ [.lost text last]
  | .request _ :: rest => lostChunks rest

namespace PendingPaste

/-- `aborted.get_or_insert`. -/
def abort (p : PendingPaste) (refusal : Refusal) : PendingPaste :=
  { p with aborted := p.aborted.or (some refusal) }

/-- One more chunk. -/
def add (p : PendingPaste) (generation : Nat) (text : Text) : PendingPaste :=
  let p := if p.generation ≠ generation then p.abort .stale else p
  if Text.utf8Len p.text + Text.utf8Len text > maxPasteBytes then { p with tooLarge := true, text := [] }
  else if p.tooLarge then p
  else { p with text := p.text ++ text }

end PendingPaste

namespace State

def record (s : State σ) (item : Item) : State σ := { s with trace := item :: s.trace }

/-- Aborts a paste in progress. -/
def abort (s : State σ) (refusal : Refusal) : State σ :=
  match s.binding with
  | .bound (some p) => { s with binding := .bound (some (p.abort refusal)) }
  | _ => s

def ask (s : State σ) (P : Pane X σ) (request : Request X) : Except Refusal (Option InputOutcome) × State σ :=
  let (reply, pane) := P.request s.pane request
  let result := match request, reply with
    | .resolvePaste .., .paste settled => .ok (some (.paste settled))
    | _, reply => (body reply).map fun _ => none
  (result, { s with pane := pane })

def pass (s : State σ) (P : Pane X σ) (generation : Nat) (text : Text) :
    Except Refusal (Option InputOutcome) × State σ :=
  let (reply, pane) := P.request s.pane (.paste generation text)
  let s := { s with pane := pane }.record (.passed text)
  match reply with
  | .paste outcome => (.ok (some (.paste outcome)), s)
  | .refused refusal => (.error refusal, s)
  | _ => (.error .failed, s)

/-- `paste`: adds a chunk, and settles the paste at the last. -/
def paste (s : State σ) (P : Pane X σ) (generation : Nat) (text : Text) (last : Bool) :
    Except Refusal (Option InputOutcome) × State σ :=
  match s.binding with
  | .bound pending =>
    let p := (pending.getD { generation := generation }).add generation text
    let s := s.record (.chunk generation text last)
    if last = false then (.ok none, { s with binding := .bound (some p) })
    else
      let s := { s with binding := .bound none }
      match p.aborted with
      | some refusal => (.error refusal, s)
      | none =>
        if p.tooLarge then (.ok (some (.paste (.rejected (.tooLarge maxPasteBytes)))), s)
        else s.pass P generation p.text
  | _ => (.error .stale, s)

/-- One turn of the loop of `apply`. Anything between a paste's chunks means that one is missing. -/
def take (s : State σ) (P : Pane X σ) (generation : Nat) : Turn X → Except Refusal (Option InputOutcome) × State σ
  | .chunk text last => s.paste P generation text last
  | .request request => ((s.abort .stale).record .other).ask P request

/-- The loop of `apply`. The first refusal discards that event and every later one. -/
def applyTurns (s : State σ) (P : Pane X σ) (generation : Nat) :
    List (Turn X) → Option InputOutcome → Option InputOutcome × State σ
  | [], outcome => (outcome, s)
  | turn :: rest, outcome =>
    match s.take P generation turn with
    | (.ok settled, s) => s.applyTurns P generation rest (settled.or outcome)
    | (.error refusal, s) =>
      let s := (s.abort refusal).record .refused
      (some (.discarded refusal), { s with trace := lostChunks rest ++ s.trace })

def refuse (s : State σ) (input : Input X) (refusal : Refusal) : Option InputOutcome × State σ :=
  (some (.discarded refusal), { s with trace := lostChunks (turns input.generation input.events) ++ .refused :: s.trace })

def apply (s : State σ) (P : Pane X σ) (input : Input X) : Option InputOutcome × State σ :=
  match s.binding with
  | .observing => s.refuse input .unsupported
  | .closed => s.refuse input .stale
  | .bound _ => s.applyTurns P input.generation (turns input.generation input.events) none

/-- `input_message`, with what it reports. A paste that waits for more chunks or for confirmation has
written nothing yet. -/
def inputMessage (s : State σ) (P : Pane X σ) (input : Input X) : Option InputOutcome × State σ :=
  let (outcome, s) := s.apply P input
  let waiting := match outcome, s.binding with
    | some (.paste (.confirmationRequired _)), _ => true
    | _, .bound (some _) => true
    | _, _ => false
  match s.binding with
  | .bound _ => (outcome, if waiting then s else { s with pane := P.inputWritten s.pane input.serial })
  | _ => (outcome, s)

end State

/-! ## Runs -/

inductive Event (X : Contents)
  | input (input : Input X)
  | bind
  | observe
  | close

def State.step (P : Pane X σ) (s : State σ) : Event X → State σ
  | .input input => (s.inputMessage P input).2
  | .bind => { s with binding := .bound none }.record .bound
  | .observe => { s with binding := .observing }
  | .close => { s with binding := .closed }

def State.run (P : Pane X σ) (s : State σ) (events : List (Event X)) : State σ := events.foldl (step P) s

end SpaceTerm.Paste
