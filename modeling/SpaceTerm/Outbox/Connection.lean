import SpaceTerm.Outbox.Operations
import SpaceTerm.Lib.Run

/-! # A connection: producers and the I/O thread over one outbox

`next_frame_within` takes under the lock and encodes outside it, so producers run between the two.
A `Connection` is the outbox, what its I/O thread encodes at the moment and what happened so far; an
`Event` is one region of the lock. Only the connection's I/O thread takes frames, so one thing at a
time is being encoded. A channel is opened once: channel numbers are never reused within a
connection. -/

namespace SpaceTerm.Outbox
open Wire
open Hierarchy (Refusal)

variable {P : Payloads}

/-! ### Taking -/

inductive Taken (P : Payloads)
  | frame (frame : WireFrame P) (priority : Priority)
  | present (ticket : FrameTicket) (presentation : P.Presentation) (ending : Option (Frames P))
  | semantics (work : SemanticWork P)
  | skip

namespace State

/-- The rest of a message of level `priority` is kept ahead of its level's queue. -/
def keepRest (s : State P) (rest : Frames P) (reply : Option RequestId) : Priority → State P
  | .l2 => { s with l2Rest := s.l2Rest ++ rest, l2RestReply := reply }
  | _ => { s with l1Rest := s.l1Rest ++ rest, l1RestReply := reply }

def restOf (s : State P) : Priority → Frames P
  | .l2 => s.l2Rest
  | _ => s.l1Rest

/-- Returns the first frame of a message. A reply leaves flight with its last frame. -/
def first (s : State P) (frames : Frames P) (reply : Option RequestId) (priority : Priority) : Taken P × State P :=
  match frames with
  | [] => (.skip, s.answered reply)
  | first :: rest =>
    if (s.restOf priority ++ rest).isEmpty then (.frame first priority, s.answered reply)
    else (.frame first priority, s.keepRest rest reply priority)

def present (s : State P) (c : Channel) : Taken P × State P :=
  match s.channels[c]? with
  | none => (.skip, s)
  | some slot =>
    let slot := { slot with queued := false }
    if !slot.visible || slot.inFlight.isSome then (.skip, s.setSlot c slot)
    else match slot.pending with
      | none => (.skip, s.setSlot c slot)
      | some presentation =>
        let ticket := ⟨c, slot.next, if slot.keyframe then none else slot.acknowledged⟩
        match slot.ending with
        | some frames => (.present ticket presentation (some frames), s.forget c)
        | none =>
          (.present ticket presentation none, s.setSlot c { slot with
            pending := none, next := slot.next + 1, keyframe := false,
            inFlight := some (slot.next, none) })

def turn (s : State P) : Entry P → Taken P × State P
  | .message frames reply => { s with l1Bytes := s.l1Bytes - size frames }.first frames reply .l1
  | .inventory =>
    { s with inventoryQueued := false, inventory := none }.first (s.inventory.getD []) none .l1
  | .updateFacts =>
    { s with updateFactsQueued := false, updateFacts := none }.first
      (s.updateFacts.getD []) none .l1
  | .frame c => s.present c
  | .semantics c =>
    match s.takeSemantics c with
    | (some work, s) => (.semantics work, s)
    | (none, s) => (.skip, s)

def take (s : State P) (lowest : Priority) : Option (Taken P) × State P :=
  match s.l0 with
  | frame :: l0 => (some (.frame frame .l0), { s with l0, l0Bytes := s.l0Bytes - frame.length })
  | [] =>
    if s.closing then (none, s)
    else match s.l1Rest with
      | frame :: l1Rest =>
        let s := { s with l1Rest }
        if l1Rest.isEmpty then
          (some (.frame frame .l1), { s with l1RestReply := none }.answered s.l1RestReply)
        else (some (.frame frame .l1), s)
      | [] =>
        match s.l1 with
        | entry :: l1 =>
          let (taken, s) := { s with l1 }.turn entry
          (some taken, s)
        | [] =>
          if lowest != .l2 then (none, s)
          else match s.l2Rest with
            | frame :: l2Rest =>
              let s := { s with l2Rest }
              if l2Rest.isEmpty then
                (some (.frame frame .l2), { s with l2RestReply := none }.answered s.l2RestReply)
              else (some (.frame frame .l2), s)
            | [] =>
              match s.l2 with
              | (id, frames) :: l2 =>
                let (taken, s) :=
                  { s with l2, l2Bytes := s.l2Bytes - size frames }.first frames (some id) .l2
                (some taken, s)
              | [] => (none, s)

/-- Undoes `present` for a state that equalled its base. -/
def unsent (C : Postcard P) (s : State P) (ticket : FrameTicket) : State P :=
  match s.channels[ticket.channel]? with
  | none => s
  | some slot =>
    if slot.sent == some ticket.frame then
      let slot := { slot with
        inFlight := none, keyframe := slot.keyframe || ticket.base.isNone }
      if slot.pending.isSome && !slot.queued then
        ((s.setSlot ticket.channel { slot with queued := true }).pushL1 C
          (.frame ticket.channel)).2
      else s.setSlot ticket.channel slot
    else s

end State

/-! ### What was encoded outside the lock -/

def handOut (s : State P) : Frames P → Option (WireFrame P) × State P
  | [] => (none, s)
  | first :: rest => (some first, { s with l1Rest := rest ++ s.l1Rest })

def handOutLast (s : State P) : Frames P → Option (WireFrame P) × State P
  | [] => (none, s)
  | first :: rest => (some first, { s with l1Rest := s.l1Rest ++ rest })

/-- The message a taken screen is encoded as. -/
def FrameTicket.message (ticket : FrameTicket) (presented : Presented P) : CoreMessage P :=
  .frame ⟨ticket.channel, ticket.frame, ticket.base, presented.input, presented.update⟩

/-- The frames of `PaneEvent::Failed`. -/
def failedFrames (C : Postcard P) (c : Channel) : Frames P :=
  match encode C (.pane c P.failed) with
  | .ok frames => frames
  | .error _ => []

/-- What a taken screen is encoded to: `none` where it equals its base. -/
def encodeFrame (C : Postcard P) (ticket : FrameTicket) (presented : Option (Presented P)) :
    Option (Except OutboxError (Frames P)) :=
  presented.map fun presented => encode C (ticket.message presented)

/-- The end of `next_frame_within` for a screen: the frames it hands out. -/
def finishFrame (C : Postcard P) (s : State P) (ticket : FrameTicket) (ending : Option (Frames P))
    (encoded : Option (Except OutboxError (Frames P))) : Frames P × State P :=
  match encoded, ending with
  | some (.ok frames), ending => (frames ++ ending.getD [], s)
  | none, none => ([], s.unsent C ticket)
  -- the channel is ending: its own last event follows instead of `Failed`
  | _, some frames => (frames, s)
  | some (.error _), none => (failedFrames C ticket.channel, s.forget ticket.channel)

/-- The end of `semantics_frame`, for what `Work::run` gave: the frames it hands out. -/
def finishSemantics (C : Postcard P) (s : State P) (work : SemanticWork P)
    (encoded : Option (P.SemanticUpdate × P.Encoding)) : Frames P × State P :=
  match encoded with
  | none => ([], s.semanticsUnsent C work.channel work.serial)
  | some (update, encoding) =>
    match encode C (.accessibility work.channel update) with
    | .ok frames =>
      match s.semanticsTaken C work.channel work.serial
          (if P.hasTail update then none else some encoding) with
      | (.ok true, s) => (frames, s)
      | (_, s) => ([], s)
    | .error _ =>
      if s.channels.contains work.channel then
        (failedFrames C work.channel, s.forget work.channel)
      else ([], s)

/-! ### Connections -/

/-- What the I/O thread encodes outside the lock. -/
inductive Work (P : Payloads)
  | present (ticket : FrameTicket) (presentation : P.Presentation) (ending : Option (Frames P))
  | semantics (work : SemanticWork P)

inductive Happening (P : Payloads)
  | presented (c : Channel) (presentation : P.Presentation)
  | hidden (c : Channel)
  | keyframe (c : Channel)
  | acknowledged (c : Channel) (frame : Nat)
  | took (ticket : FrameTicket) (presentation : P.Presentation)
  | wrote (ticket : FrameTicket) (presentation : P.Presentation)
  /-- Encoded to nothing: the screen equals its base. -/
  | equalled (ticket : FrameTicket) (presentation : P.Presentation)
  | failed (ticket : FrameTicket) (presentation : P.Presentation)

structure Turn (P : Payloads) where
  entry : Entry P
  frames : Frames P

structure Connection (P : Payloads) where
  state : State P := {}
  work : Option (Work P) := none
  /-- The frames that `next_frame` returned. -/
  sent : List (WireFrame P × Priority) := []
  /-- The channels opened so far. -/
  opened : List Channel := []
  log : List (Happening P) := []
  turns : List (Turn P) := []
  /-- The inventories and the update facts that producers queued. -/
  inventories : List (Frames P) := []
  facts : List (Frames P) := []

inductive Event (P : Payloads)
  | begin (id : RequestId)
  | reply (id : RequestId) (result : Except Refusal (ReplyBody P))
  | replyOrRefuse (id : RequestId) (result : Except Refusal (ReplyBody P))
  | pane (c : Channel) (event : P.PaneEvent)
  | inventory (inventory : P.Inventory) (nextSequence : Nat)
  | updateFacts (facts : UpdateFacts P)
  | ping (nonce : Nat)
  | pong (nonce : Nat)
  | goodbye (fatal : Fatal)
  | disconnected
  | openChannel (c : Channel)
  | close (c : Channel)
  | endChannel (c : Channel) (event : P.PaneEvent)
  | takeClosed
  | view (c : Channel) (visible : Bool)
  | present (c : Channel) (presentation : P.Presentation)
  | requireKeyframe (c : Channel)
  | acknowledge (c : Channel) (frame : Nat)
  | startSemantics (c : Channel) (generation : Nat)
  | endSemantics (c : Channel)
  | semantics (c : Channel) (model : P.Model)
  | acknowledgeSemantics (c : Channel) (demandGeneration revision : Nat)
  | written (now : Nat)
  | take (lowest : Priority)
  | encoded (presented : Option (Presented P))
  /-- The semantic message being encoded is done; `none` means that the model equals its base. -/
  | encodedSemantics (encoded : Option (P.SemanticUpdate × P.Encoding))

/-- What L1's turn of an entry hands out at once. -/
def State.content (s : State P) : Entry P → Frames P
  | .message frames _ => frames
  | .inventory => s.inventory.getD []
  | .updateFacts => s.updateFacts.getD []
  | .frame _ | .semantics _ => []

/-- The turn of L1 that `take` begins. -/
def State.turnNow (s : State P) : List (Turn P) :=
  match s.l0, s.closing, s.l1Rest, s.l1 with
  | [], false, [], entry :: _ => [⟨entry, s.content entry⟩]
  | _, _, _, _ => []

def setLastFrames (turns : List (Turn P)) (frames : Frames P) : List (Turn P) :=
  match turns.getLast? with
  | none => []
  | some turn => turns.dropLast ++ [{ turn with frames }]

def WorkStep.isStart : WorkStep P → Bool
  | .start .. => true
  | .continue _ => false

/-- Whether `present` keeps a screen of the channel. -/
def State.presents (s : State P) (c : Channel) : Bool :=
  !s.closing && s.channels[c]?.any fun slot => slot.visible && slot.ending.isNone

def State.awaits (s : State P) (c : Channel) (frame : Nat) : Bool :=
  s.channels[c]?.any fun slot => slot.sent == some frame

/-- What became of a taken screen. -/
def happened (ticket : FrameTicket) (presentation : P.Presentation) :
    Option (Except OutboxError (Frames P)) → Happening P
  | some (.ok _) => .wrote ticket presentation
  | some (.error _) => .failed ticket presentation
  | none => .equalled ticket presentation

namespace Connection

def note (s : Connection P) (did : Bool) (happening : Happening P) : List (Happening P) :=
  if did then s.log ++ [happening] else s.log

def begin (s : Connection P) : Option (Taken P) → Connection P
  | none | some .skip => s
  | some (.frame frame priority) => { s with sent := s.sent ++ [(frame, priority)] }
  | some (.present ticket presentation ending) =>
    { s with work := some (.present ticket presentation ending), log := s.log ++ [.took ticket presentation] }
  | some (.semantics work) => { s with work := some (.semantics work) }

/-- The I/O thread is done with what it took: the turn handed out `frames`, and `next_frame` returned
the first of them. -/
def done (s : Connection P) (frames : Frames P) (out : Option (WireFrame P) × State P) : Connection P :=
  { s with state := out.2, work := none, sent := s.sent ++ out.1.toList.map (·, .l1),
           turns := setLastFrames s.turns frames }

def event (C : Postcard P) (s : Connection P) : Event P → Option (Connection P)
  | .begin id => some { s with state := (Outbox.begin s.state id).2 }
  | .reply id result => some { s with state := (Outbox.reply C s.state id result).2 }
  | .replyOrRefuse id result => some { s with state := (Outbox.replyOrRefuse C s.state id result).2 }
  | .pane c event => some { s with state := (Outbox.pane C s.state c event).2 }
  | .inventory inventory nextSequence =>
    match Outbox.inventory C s.state inventory nextSequence with
    | (.ok _, state) =>
      some { s with state, inventories := s.inventories ++ state.inventory.toList }
    | (.error _, state) => some { s with state }
  | .updateFacts facts =>
    match Outbox.updateFacts C s.state facts with
    | (.ok _, state) => some { s with state, facts := s.facts ++ state.updateFacts.toList }
    | (.error _, state) => some { s with state }
  | .ping nonce => some { s with state := (Outbox.ping C s.state nonce).2 }
  | .pong nonce => some { s with state := (Outbox.pong C s.state nonce).2 }
  | .goodbye fatal => some { s with state := (Outbox.goodbye C s.state fatal).2 }
  | .disconnected => some { s with state := Outbox.disconnected s.state }
  | .openChannel c =>
    if c ∈ s.opened then none
    else match Outbox.openChannel s.state c with
      | (.ok _, state) => some { s with state, opened := c :: s.opened }
      | (.error _, state) => some { s with state }
  | .close c => some { s with state := Outbox.close s.state c }
  | .endChannel c event => some { s with state := (Outbox.endChannel C s.state c event).2 }
  | .takeClosed => some { s with state := Outbox.takeClosed s.state }
  | .view c visible =>
    some { s with state := Outbox.view C s.state c visible,
                  log := s.note (s.state.channels.contains c && !visible) (.hidden c) }
  | .present c presentation =>
    some { s with state := (Outbox.present C s.state c presentation).2,
                  log := s.note (s.state.presents c) (.presented c presentation) }
  | .requireKeyframe c =>
    some { s with state := Outbox.requireKeyframe s.state c,
                  log := s.note (s.state.channels.contains c) (.keyframe c) }
  | .acknowledge c frame =>
    some { s with state := (Outbox.acknowledge C s.state c frame).2,
                  log := s.note (s.state.awaits c frame) (.acknowledged c frame) }
  | .startSemantics c generation =>
    some { s with state := (s.state.startSemantics c generation).2 }
  | .endSemantics c => some { s with state := s.state.endSemantics c }
  | .semantics c model => some { s with state := (Outbox.semantics C s.state c model).2 }
  | .acknowledgeSemantics c generation revision =>
    some { s with state := (s.state.acknowledgeSemantics C c generation revision).2 }
  | .written now => some { s with state := Outbox.written s.state now }
  | .take lowest =>
    if s.work.isSome then none
    else
      let out := s.state.take lowest
      some ({ s with state := out.2, turns := s.turns ++ s.state.turnNow }.begin out.1)
  | .encoded presented =>
    match s.work with
    | some (.present ticket presentation ending) =>
      let encoded := encodeFrame C ticket presented
      let finished := finishFrame C s.state ticket ending encoded
      some { s.done finished.1 (handOut finished.2 finished.1) with
             log := s.log ++ [happened ticket presentation encoded] }
    | _ => none
  | .encodedSemantics encoded =>
    match s.work with
    | some (.semantics work) =>
      if encoded.isNone && !work.step.isStart then none
      else
        let finished := finishSemantics C s.state work encoded
        some (s.done finished.1 (handOutLast finished.2 finished.1))
    | _ => none

def Step (C : Postcard P) (s : Connection P) (e : Event P) (t : Connection P) : Prop :=
  s.event C e = some t

end Connection

/-- Payloads without content. -/
def plain : Payloads where
  Page := Unit
  validPage _ := true
  Graphics := Unit
  SmallReply := Unit
  ScreenUpdate := Unit
  validScreen _ := true
  SemanticUpdate := Unit
  validSemantic _ := true
  hasTail _ := true
  PaneEvent := Unit
  failed := ()
  Inventory := Unit
  validInventory _ := true
  OtherFacts := Unit
  Presentation := Unit
  Model := Unit
  revision _ := 0
  Encoding := Unit

/-- Every message as no bytes: the kind alone is written. -/
def plainCard : Postcard plain where
  toExtend _ := some []
  takeFromBytes _ _ := none

end SpaceTerm.Outbox
