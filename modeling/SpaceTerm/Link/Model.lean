import SpaceTerm.Lib.Run
import SpaceTerm.Wire.Message
import Mathlib

/-! # The client's link and the server's admitted connection

`connection/link.rs`: the state behind the link's lock, and what callers on any thread and the I/O
thread do to it. `connection/admitted.rs`: what the server checks of each message it receives. Every
call holds the lock from its first read to its last write, so a run is an interleaving of whole calls.
A message is queued and delivered whole: at L0 every message is one frame. -/

namespace SpaceTerm.Link
open Lib Wire

/-- What messages carry that neither side's numbering looks at. -/
structure Contents where
  Claim : Type
  Operation : Type
  Events : Type
  Completion : Type

inductive Operation (X : Contents)
  | introduce (channel : Channel) (claim : X.Claim)
  | release (channel : Channel)
  | other (operation : X.Operation)

inductive InputBody (X : Contents)
  | events (events : X.Events)
  | paste (text : Text) (last : Bool)

inductive ClientMessage (X : Contents)
  | request (id : RequestId) (operation : Operation X)
  | input (channel : Channel) (serial : Nat) (body : InputBody X)
  | frameAck (channel : Channel) (frame : Nat)
  | accessibilityAck (channel : Channel) (demandGeneration revision : Nat)
  | view (channel : Channel) (visible : Bool) (maxHz : Nat)
  | effectDone (channel : Channel) (completion : X.Completion)
  | acknowledge (sequence : Nat)
  | cancel (id : RequestId)
  | ping (nonce : Nat)
  | pong (nonce : Nat)

variable {X : Contents}

def Operation.introduced : Operation X → Option Channel
  | .introduce channel _ => some channel
  | _ => none

namespace ClientMessage

def kind : ClientMessage X → Kind
  | request .. => .request
  | input .. => .input
  | frameAck .. => .frameAck
  | accessibilityAck .. => .accessibilityAck
  | view .. => .view
  | effectDone .. => .effectDone
  | acknowledge .. => .acknowledge
  | cancel .. => .cancel
  | ping .. => .clientPing
  | pong .. => .clientPong

def channel? : ClientMessage X → Option Channel
  | input channel _ _ | frameAck channel _ | accessibilityAck channel _ _ | view channel _ _
  | effectDone channel _ => some channel
  | _ => none

def introduces? : ClientMessage X → Option Channel
  | request _ operation => operation.introduced
  | _ => none

def requestId? : ClientMessage X → Option RequestId
  | request id _ => some id
  | _ => none

def serialOn? (channel : Channel) : ClientMessage X → Option Nat
  | input c serial _ => if c = channel then some serial else none
  | _ => none

/-- Whether the message returns credit. -/
def isAck : ClientMessage X → Bool
  | frameAck .. | accessibilityAck .. => true
  | _ => false

end ClientMessage

def maxRequestsInFlight : Nat := 64
def maxChannels : Nat := 128
def maxL0Frames : Nat := 256
def maxPasteBytes : Nat := 1024 * 1024
def maxPasteChunkBytes : Nat := 60 * 1024
def maxClientL0Bytes : Nat := 2 * maxPasteBytes
def frameRates : List Nat := [60, 120]
def u32Max : Nat := 4294967295

/-- Postcard's sizes, and the checks of what the messages carry. -/
structure Encoding (X : Contents) where
  size : ClientMessage X → Option Nat
  operation : Operation X → Bool
  events : X.Events → Bool
  completion : X.Completion → Bool

namespace Encoding
variable (E : Encoding X)

def validate : ClientMessage X → Bool
  | .request _ operation => E.operation operation
  | .input _ serial (.events events) => serial != 0 && E.events events
  | .input _ serial (.paste text _) =>
    serial != 0 && decide (Text.utf8Len text ≤ maxPasteChunkBytes)
  | .view _ _ maxHz => frameRates.contains maxHz
  | .effectDone _ completion => E.completion completion
  | _ => true

/-- `encode_client`: the size of the message, where it has a wire form within its limit. -/
def encodeClient (m : ClientMessage X) : Option Nat :=
  match E.size m with
  | none => none
  | some n => if n > m.kind.maxMessage then none else some n

def checked (m : ClientMessage X) : Option Nat :=
  if E.validate m then E.encodeClient m else none

/-- What `Assembler::client` accepts. -/
def accepts (m : ClientMessage X) : Bool := (E.checked m).isSome

end Encoding

/-! ## The link -/

inductive LinkError
  | closed | busy | outOfBounds | unclaimed
  deriving DecidableEq

structure ChannelState where
  channel : Channel
  serial : Nat
  ended : Bool
  deriving DecidableEq

structure Queued (X : Contents) where
  message : ClientMessage X
  bytes : Nat
  counted : Bool

structure State (X : Contents) where
  nextId : RequestId := 0
  /-- The keys of the map of waiters. -/
  requests : List RequestId := []
  nextChannel : Channel := 0
  unbound : Nat := 0
  channels : List ChannelState := []
  releases : List Channel := []
  l0 : List (Queued X) := []
  l0Bytes : Nat := 0
  l1 : List (ClientMessage X) := []
  closed : Bool := false

namespace State
variable (E : Encoding X) (s : State X)

/-- The ids that the loop of `send_request` tries, and the first that is free. -/
def freeId : Option RequestId :=
  ((List.range (s.requests.length + 1)).map fun i => (s.nextId + i + 1) % (u32Max + 1)).find?
    fun id => !s.requests.contains id

def sendRequest (operation : Operation X) : Except LinkError RequestId × State X :=
  if s.requests.length ≥ maxRequestsInFlight then (.error .busy, s)
  else
    match s.freeId with
    | none => (.error .busy, s)
    | some id =>
      match E.checked (.request id operation) with
      | none => (.error .outOfBounds, { s with nextId := id })
      | some bytes =>
        (.ok id, { s with
          nextId := id
          l0 := s.l0 ++ [⟨.request id operation, bytes + headerBytes, false⟩]
          requests := id :: s.requests })

/-- `send_releases` of these releases; what does not fit keeps waiting. -/
def sendReleasesOf (s : State X) : List Channel → State X
  | [] => { s with releases := [] }
  | channel :: rest =>
    if s.requests.length < maxRequestsInFlight then
      sendReleasesOf (s.sendRequest E (.release channel)).2 rest
    else { s with releases := channel :: rest }

def sendReleases : State X := s.sendReleasesOf E s.releases

def queueAll (messages : List (ClientMessage X)) (urgent : Bool) : Except LinkError Unit × State X :=
  match messages.mapM fun m => (E.checked m).map fun n => (⟨m, n + headerBytes, true⟩ : Queued X) with
  | none => (.error .outOfBounds, s)
  | some frames =>
    if urgent = false then (.ok (), { s with l1 := s.l1 ++ messages })
    else
      let bytes := (frames.map (·.bytes)).sum
      if s.l0.length + frames.length > maxL0Frames + maxRequestsInFlight ∨
          s.l0Bytes + bytes > maxClientL0Bytes then (.error .busy, s)
      else (.ok (), { s with l0Bytes := s.l0Bytes + bytes, l0 := s.l0 ++ frames })

def request (operation : Operation X) : Except LinkError RequestId × State X :=
  if s.closed then (.error .closed, s) else (s.sendReleases E).sendRequest E operation

/-- `CoreLink::send`. -/
def send (message : ClientMessage X) (urgent : Bool) : Except LinkError Unit × State X :=
  if s.closed then (.error .closed, s) else s.queueAll E [message] urgent

def openChannel : Except LinkError Unit × State X :=
  if s.closed then (.error .closed, s)
  else if s.channels.length + s.unbound + s.releases.length ≥ maxChannels then (.error .busy, s)
  else (.ok (), { s with unbound := s.unbound + 1 })

/-- `ChannelHandle::bind` of a handle without a channel. -/
def bind (claim : X.Claim) : Except LinkError Channel × State X :=
  if s.closed then (.error .closed, s)
  else if s.nextChannel + 1 > u32Max then (.error .busy, s)
  else
    let channel := s.nextChannel + 1
    match (s.sendReleases E).sendRequest E (.introduce channel claim) with
    | (.error e, s) => (.error e, s)
    | (.ok _, s) => (.ok channel, { s with
        nextChannel := channel
        unbound := s.unbound - 1
        channels := s.channels ++ [⟨channel, 0, false⟩] })

def sendChannel (channel : Channel) (urgent : Bool)
    (build : Nat → Except LinkError (List (ClientMessage X) × Nat)) :
    Except LinkError Nat × State X :=
  if s.closed then (.error .closed, s)
  else
    match s.channels.find? (·.channel == channel) with
    | none => (.error .unclaimed, s)
    | some state =>
      if state.ended then (.error .unclaimed, s)
      else
        match build state.serial with
        | .error e => (.error e, s)
        | .ok (messages, serial) =>
          match s.queueAll E messages urgent with
          | (.error e, s) => (.error e, s)
          | (.ok (), s) => (.ok serial, { s with
              channels := s.channels.map fun c =>
                if c.channel = channel then { c with serial := serial } else c })

end State

/-- `chunks`: pieces at character boundaries, the longest that fit. -/
def chunksFrom (limit : Nat) (piece : Text) : Text → List Text
  | [] => [piece]
  | c :: rest =>
    if Text.utf8Len (piece ++ [c]) ≤ limit then chunksFrom limit (piece ++ [c]) rest
    else piece :: chunksFrom limit [c] rest

def chunks (text : Text) (limit : Nat) : List Text := chunksFrom limit [] text

def pasteMessages (channel : Channel) : Nat → List Text → Except LinkError (List (ClientMessage X) × Nat)
  | serial, [] => .ok ([], serial)
  | serial, piece :: rest =>
    if serial + 1 > u32Max then .error .outOfBounds
    else
      match pasteMessages channel (serial + 1) rest with
      | .error e => .error e
      | .ok (messages, last) =>
        .ok (.input channel (serial + 1) (.paste piece rest.isEmpty) :: messages, last)

namespace State
variable (E : Encoding X) (s : State X)

def input (channel : Channel) (events : X.Events) : Except LinkError Nat × State X :=
  s.sendChannel E channel true fun last =>
    if last + 1 > u32Max then .error .outOfBounds
    else .ok ([.input channel (last + 1) (.events events)], last + 1)

def paste (channel : Channel) (text : Text) : Except LinkError Nat × State X :=
  if Text.utf8Len text > maxPasteBytes then (.error .outOfBounds, s)
  else s.sendChannel E channel true fun serial =>
    pasteMessages channel serial (chunks text maxPasteChunkBytes)

def sendSimple (channel : Channel) (message : ClientMessage X) (urgent : Bool) : Except LinkError Nat × State X :=
  s.sendChannel E channel urgent fun serial => .ok ([message], serial)

/-- `CoreLink::release` of a dropped handle's channel. -/
def release (channel : Channel) : State X :=
  match s.channels.find? (·.channel == channel) with
  | none => s
  | some dropped =>
    let s := { s with channels := s.channels.filter (·.channel != channel) }
    if dropped.ended || s.closed then s
    else { s with releases := s.releases ++ [channel] }.sendReleases E

def fail : State X :=
  if s.closed then s
  else { s with
    closed := true, l0 := [], l1 := [], releases := [], requests := []
    channels := s.channels.map ({ · with ended := true }) }

def nextFrame : Option (ClientMessage X) × State X :=
  if s.closed then (none, s)
  else
    match s.l0, s.l1 with
    | queued :: l0, _ => (some queued.message, { s with
        l0 := l0, l0Bytes := if queued.counted then s.l0Bytes - queued.bytes else s.l0Bytes })
    | [], message :: l1 => (some message, { s with l1 := l1 })
    | [], [] => (none, s)

/-- `dispatch` of a reply. A reply to no request ends the link. -/
def reply (id : RequestId) : State X :=
  let next := { s with requests := s.requests.erase id }.sendReleases E
  if s.requests.contains id then next else next.fail

def sink (channel : Channel) (last : Bool) : State X :=
  { s with channels := s.channels.map fun c =>
      if c.channel = channel then { c with ended := c.ended || last } else c }

/-- `dispatch` of a frame. One that no handle takes is acknowledged here. -/
def frame (channel : Channel) (frame : Nat) : State X :=
  if s.channels.any (·.channel == channel) then s
  else (s.send E (.frameAck channel frame) true).2

end State

/-! ## The server -/

structure Server where
  highestChannel : Channel := 0
  serials : List (Channel × Nat) := []
  requests : List RequestId := []
  /-- `Outbox::closed`. -/
  closed : List Channel := []
  closing : Bool := false

namespace Server
variable (E : Encoding X) (s : Server)

def claimed (channel : Channel) : Except Fatal Unit :=
  if channel = 0 ∨ channel > s.highestChannel then .error .protocolViolation else .ok ()

/-- `take_closed`, before each message. -/
def forgetClosed : Server :=
  { s with serials := s.serials.filter fun c => !s.closed.contains c.1, closed := [] }

/-- A request: `Outbox::begin`, then the channel it introduces. -/
def request (id : RequestId) (operation : Operation X) : Except Fatal Server :=
  if s.requests.length ≥ maxRequestsInFlight ∨ s.requests.contains id = true then
    .error .protocolViolation
  else
    let s := { s with requests := id :: s.requests }
    match operation.introduced with
    | none => .ok s
    | some channel =>
      if channel ≤ s.highestChannel then .error .protocolViolation
      else
        let s := { s with highestChannel := channel }
        -- too many open channels refuse this claim only
        if s.serials.length ≥ maxChannels then .ok s
        else .ok { s with serials := s.serials ++ [(channel, 0)] }

def input (channel : Channel) (serial : Nat) : Except Fatal Server :=
  match s.serials.find? (·.1 == channel) with
  | none => .ok s
  | some (_, last) =>
    if last + 1 > u32Max ∨ serial ≠ last + 1 then .error .protocolViolation
    else .ok { s with serials := s.serials.map fun c => if c.1 = channel then (c.1, serial) else c }

/-- What follows the assembler and the check for a goodbye. `credit` says whether the outbox takes an
acknowledgement. -/
def handle (credit : Bool) : ClientMessage X → Except Fatal Server
  | .request id operation => s.request id operation
  | .input channel serial _ => s.claimed channel >>= fun _ => s.input channel serial
  | .frameAck channel _ | .accessibilityAck channel _ _ =>
    s.claimed channel >>= fun _ => if credit then .ok s else .error .protocolViolation
  | .view channel _ _ | .effectDone channel _ => s.claimed channel >>= fun _ => .ok s
  | .acknowledge _ | .cancel _ | .ping _ | .pong _ => .ok s

/-- `AdmittedConnection::receive`. -/
def receive (credit : Bool) (m : ClientMessage X) : Except Fatal Server :=
  if E.accepts m = false then .error .protocolViolation
  else if s.closing then .ok s
  else s.forgetClosed.handle credit m

end Server

/-! ## Both ends -/

structure System (X : Contents) where
  link : State X := {}
  /-- The handles that callers hold, with the channel of a bound one. -/
  handles : List (Nat × Option Channel) := []
  /-- Messages taken from the queues and not yet received. -/
  wire : List (ClientMessage X) := []
  /-- Messages the server received. -/
  received : List (ClientMessage X) := []
  server : Server := {}
  /-- Replies on their way to the client. -/
  replies : List RequestId := []

inductive Event (X : Contents)
  | openChannel (handle : Nat)
  | bind (handle : Nat) (claim : X.Claim)
  | request (operation : Operation X)
  | input (handle : Nat) (events : X.Events)
  | paste (handle : Nat) (text : Text)
  | acknowledgeFrame (handle : Nat) (frame : Nat)
  | acknowledgeAccessibility (handle : Nat) (demandGeneration revision : Nat)
  | view (handle : Nat) (visible : Bool) (maxHz : Nat)
  | effectDone (handle : Nat) (completion : X.Completion)
  | acknowledge (sequence : Nat)
  | cancel (id : RequestId)
  | drop (handle : Nat)
  | detach (handle : Nat)
  | ping (nonce : Nat)
  | fail
  /-- The I/O thread takes the next frame. -/
  | write
  /-- The server receives the next message. -/
  | deliver (credit : Bool)
  /-- The last frame of a reply is taken from the server's outbox. -/
  | answer (id : RequestId)
  /-- A claim was refused, and the server forgets its channel. -/
  | refuse (channel : Channel)
  /-- The outbox closed a channel. -/
  | close (channel : Channel)
  | goodbye
  | reply
  /-- The client receives a frame of a channel that the server knows. -/
  | frame (channel : Channel) (frame : Nat)
  | pane (channel : Channel) (last : Bool)
  | corePing (nonce : Nat)

namespace System
variable (E : Encoding X)

/-- The channel of a handle: `none` without a handle, `some none` before it is bound. -/
def channelOf (s : System X) (handle : Nat) : Option (Option Channel) :=
  (s.handles.find? (·.1 == handle)).map (·.2)

def through (s : System X) (handle : Nat) (f : Channel → State X) : Option (System X) :=
  match s.channelOf handle with
  | some (some channel) => some { s with link := f channel }
  | _ => none

def after (s : System X) : Event X → Option (System X)
  | .openChannel handle =>
    if (s.channelOf handle).isSome then none
    else
      match s.link.openChannel with
      | (.ok (), link) => some { s with link := link, handles := (handle, none) :: s.handles }
      | (.error _, link) => some { s with link := link }
  | .bind handle claim =>
    match s.channelOf handle with
    | some none =>
      match s.link.bind E claim with
      | (.ok channel, link) => some { s with
          link := link
          handles := s.handles.map fun h => if h.1 = handle then (h.1, some channel) else h }
      | (.error _, link) => some { s with link := link }
    | _ => none
  | .request operation => some { s with link := (s.link.request E operation).2 }
  | .input handle events => s.through handle fun c => (s.link.input E c events).2
  | .paste handle text => s.through handle fun c => (s.link.paste E c text).2
  | .acknowledgeFrame handle frame =>
    s.through handle fun c => (s.link.sendSimple E c (.frameAck c frame) true).2
  | .acknowledgeAccessibility handle demandGeneration revision =>
    s.through handle fun c =>
      (s.link.sendSimple E c (.accessibilityAck c demandGeneration revision) true).2
  | .view handle visible maxHz =>
    s.through handle fun c => (s.link.sendSimple E c (.view c visible maxHz) true).2
  | .effectDone handle completion =>
    s.through handle fun c => (s.link.sendSimple E c (.effectDone c completion) false).2
  | .acknowledge sequence => some { s with link := (s.link.send E (.acknowledge sequence) false).2 }
  | .cancel id => some { s with link := (s.link.send E (.cancel id) false).2 }
  | .drop handle =>
    let handles := s.handles.filter (·.1 != handle)
    match s.channelOf handle with
    | some (some channel) => some { s with link := s.link.release E channel, handles := handles }
    | some none => some { s with
        link := { s.link with unbound := s.link.unbound - 1 }, handles := handles }
    | none => none
  | .detach handle =>
    match s.channelOf handle with
    | some (some channel) => some { s with
        link := { s.link with channels := s.link.channels.filter (·.channel != channel) }
        handles := s.handles.filter (·.1 != handle) }
    | _ => none
  | .ping nonce => some { s with link := (s.link.send E (.ping nonce) true).2 }
  | .fail => some { s with link := s.link.fail }
  | .write =>
    match s.link.nextFrame with
    | (some message, link) => some { s with link := link, wire := s.wire ++ [message] }
    | (none, _) => none
  | .deliver credit =>
    match s.wire with
    | [] => none
    | message :: wire =>
      match s.server.receive E credit message with
      | .error _ => none
      | .ok server => some { s with
          wire := wire, received := s.received ++ [message], server := server }
  | .answer id =>
    if s.server.requests.contains id then some { s with
      server := { s.server with requests := s.server.requests.erase id }
      replies := s.replies ++ [id] }
    else none
  | .refuse channel => some { s with
      server := { s.server with serials := s.server.serials.filter (·.1 != channel) } }
  | .close channel => some { s with
      server := { s.server with closed := s.server.closed ++ [channel] } }
  | .goodbye => some { s with server := { s.server with closing := true } }
  -- a closed link receives nothing
  | .reply =>
    match s.link.closed, s.replies with
    | false, id :: replies => some { s with link := s.link.reply E id, replies := replies }
    | _, _ => none
  | .frame channel frame =>
    if s.link.closed = false ∧ 0 < channel ∧ channel ≤ s.server.highestChannel then
      some { s with link := s.link.frame E channel frame }
    else none
  | .pane channel last =>
    if s.link.closed then none else some { s with link := s.link.sink channel last }
  | .corePing nonce => some { s with link := (s.link.send E (.pong nonce) true).2 }

def Step (s : System X) (e : Event X) (t : System X) : Prop := s.after E e = some t

end System

end SpaceTerm.Link
