import Std.Data.TreeMap.Lemmas
import SpaceTerm.Wire.Frame

/-! # The outbox of a server connection

`connection/outbox.rs`: the state behind the outbox lock and what each producer does to it. Queues are
lists, oldest first; what a producer encodes is a list of frames. Every producer runs under the lock,
so it is a function from a state to a result and a state; a producer that fails can still have
changed the state, because a queue that passes its bound closes the outbox. -/

namespace SpaceTerm.Outbox
open Wire

variable {P : Payloads}

inductive Priority
  | l0 | l1 | l2
  deriving Repr, DecidableEq

structure WireFrame (P : Payloads) where
  raw : RawFrame
  /-- The message this is the last frame of. No operation reads it: it names, in statements, what the
  stream carries. -/
  completes : Option (CoreMessage P)

abbrev Frames (P : Payloads) := List (WireFrame P)

structure FrameTicket where
  channel : Channel
  frame : Nat
  /-- The last acknowledged frame. `none` requires a keyframe. -/
  base : Option Nat
  deriving Repr, DecidableEq

structure Presented (P : Payloads) where
  input : Nat
  update : P.ScreenUpdate

inductive OutboxError
  | stalled | capacity | violation | closed | misuse
  | encode (error : EncodeError)
  deriving Repr, DecidableEq

/-! ### Semantic slots -/

/-- What the outbox fixes for a revision before it is encoded. -/
structure SemanticTicket where
  demandGeneration : Nat
  revision : Nat
  base : Option Nat
  deriving Repr, DecidableEq

inductive Rest (P : Payloads)
  | ready (encoding : P.Encoding)
  | encoding
  | written

/-- The revision holding the channel's credit. -/
structure InFlight (P : Payloads) where
  serial : Nat
  revision : Nat
  model : P.Model
  rest : Rest P

structure Demand (P : Payloads) where
  generation : Nat
  acknowledged : Option (Nat × P.Model)
  pending : Option P.Model
  inFlight : Option (InFlight P)
  sentHigh : Option Nat

structure SemanticSlot (P : Payloads) where
  lastStart : Nat := 0
  demand : Option (Demand P) := none
  queued : Bool := false
  started : Nat := 0

inductive WorkStep (P : Payloads)
  | start (model : P.Model) (ticket : SemanticTicket) (base : Option P.Model)
  | continue (encoding : P.Encoding)

/-- One L1 turn of semantic work, done outside the lock. -/
structure SemanticWork (P : Payloads) where
  channel : Channel
  serial : Nat
  step : WorkStep P

def Rest.isReady : Rest P → Bool
  | .ready _ => true
  | _ => false

def Rest.isWritten : Rest P → Bool
  | .written => true
  | _ => false

def SemanticSlot.hasWork (slot : SemanticSlot P) : Bool :=
  slot.demand.any fun demand =>
    match demand.inFlight with
    | some flight => flight.rest.isReady
    | none => demand.pending.isSome

/-- `semantics::Slot::end`. -/
def SemanticSlot.finish (slot : SemanticSlot P) : SemanticSlot P := { slot with demand := none }

/-! ### State -/

inductive Entry (P : Payloads)
  /-- A whole message, and the request its last frame answers. -/
  | message (frames : Frames P) (reply : Option RequestId)
  | inventory
  | updateFacts
  | frame (channel : Channel)
  | semantics (channel : Channel)

structure Slot (P : Payloads) where
  pending : Option P.Presentation
  queued : Bool
  visible : Bool
  next : Nat
  /-- The frame awaiting acknowledgement, and when its first wire frame was written. -/
  inFlight : Option (Nat × Option Nat)
  acknowledged : Option Nat
  keyframe : Bool
  /-- `Slot::end`: the last event, written after the final frame. -/
  ending : Option (Frames P)
  semantics : SemanticSlot P

def Slot.sent (slot : Slot P) : Option Nat := slot.inFlight.map (·.1)

structure State (P : Payloads) where
  l0 : Frames P := []
  l0Bytes : Nat := 0
  l1 : List (Entry P) := []
  l1Bytes : Nat := 0
  l1Rest : Frames P := []
  l1RestReply : Option RequestId := none
  l2 : List (RequestId × Frames P) := []
  l2Bytes : Nat := 0
  l2Rest : Frames P := []
  l2RestReply : Option RequestId := none
  inventory : Option (Frames P) := none
  inventoryQueued : Bool := false
  updateFacts : Option (Frames P) := none
  updateFactsQueued : Bool := false
  channels : Std.TreeMap Channel (Slot P) := ∅
  closed : List Channel := []
  requests : Std.TreeMap RequestId Bool := ∅
  closing : Bool := false

/-- What a producer returns, and the state it leaves. -/
abbrev Outcome (P : Payloads) := Except OutboxError Unit × State P

def maxRequestsInFlight : Nat := 64
def maxChannels : Nat := 128
def maxL0Frames : Nat := 256
def maxL0Bytes : Nat := 1024 * 1024
def maxL1Messages : Nat := 4096
def maxL2Messages : Nat := maxRequestsInFlight
def maxL1Bytes : Nat := 2 * maxReplyBytes
def maxL2Bytes : Nat := 2 * maxReplyBytes

def framesOf (m : CoreMessage P) : List RawFrame → Frames P
  | [] => []
  | [f] => [⟨f, some m⟩]
  | f :: g :: fs => ⟨f, none⟩ :: framesOf m (g :: fs)

def encode (C : Postcard P) (m : CoreMessage P) : Except OutboxError (Frames P) :=
  match encodeCore C m with
  | .ok frames => .ok (framesOf m frames)
  | .error e => .error (.encode e)

def WireFrame.length (f : WireFrame P) : Nat := f.raw.bytes.length

def size (frames : Frames P) : Nat := (frames.map WireFrame.length).sum

def Entry.bytes : Entry P → Nat
  | .message frames _ => size frames
  | .inventory | .updateFacts | .frame _ | .semantics _ => 0

namespace State

def setSlot (s : State P) (c : Channel) (slot : Slot P) : State P :=
  { s with channels := s.channels.insert c slot }

def forget (s : State P) (c : Channel) : State P :=
  { s with channels := s.channels.erase c, closed := s.closed ++ [c] }

/-- A queue passed its bound: `Goodbye(Stalled)` is queued past every bound. -/
def overflow (C : Postcard P) (s : State P) : Outcome P :=
  if s.closing then (.error .stalled, s)
  else match encode C (.goodbye .stalled) with
    | .ok frames => (.error .stalled, { s with l0 := s.l0 ++ frames, closing := true })
    | .error _ => (.error .stalled, { s with closing := true })

def pushL0 (C : Postcard P) (s : State P) (m : CoreMessage P) : Outcome P :=
  if s.closing then (.error .closed, s)
  else match encode C m with
    | .error e => (.error e, s)
    | .ok frames =>
      if s.l0.length + frames.length > maxL0Frames || s.l0Bytes + size frames > maxL0Bytes then
        s.overflow C
      else (.ok (), { s with l0 := s.l0 ++ frames, l0Bytes := s.l0Bytes + size frames })

def pushL1 (C : Postcard P) (s : State P) (entry : Entry P) : Outcome P :=
  if s.closing then (.error .closed, s)
  else if s.l1.length ≥ maxL1Messages || s.l1Bytes + entry.bytes > maxL1Bytes then s.overflow C
  else (.ok (), { s with l1 := s.l1 ++ [entry], l1Bytes := s.l1Bytes + entry.bytes })

/-- The reply's last frame was taken for writing. -/
def answered (s : State P) (reply : Option RequestId) : State P :=
  match reply with
  | none => s
  | some id => { s with requests := s.requests.erase id }

end State

end SpaceTerm.Outbox
