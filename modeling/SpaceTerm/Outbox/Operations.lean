import SpaceTerm.Outbox.Model

/-! # What producers and the I/O thread do to an outbox

The operations of `connection/outbox.rs` and `connection/outbox/semantics.rs`, each one region of the
outbox lock. `next_frame_within` is two of them: `State.take` under the lock, then, where what was
taken is encoded outside it, `finishFrame` or `finishSemantics` under the lock again. -/

namespace SpaceTerm.Outbox
open Wire
open Hierarchy (Refusal)

variable {P : Payloads}

/-! ### Semantics -/

namespace State

def queueSemantics (C : Postcard P) (s : State P) (c : Channel) : Outcome P :=
  match s.channels[c]? with
  | none => (.ok (), s)
  | some slot =>
    if !slot.visible || slot.ending.isSome || slot.semantics.queued || !slot.semantics.hasWork then
      (.ok (), s)
    else
      (s.setSlot c { slot with semantics := { slot.semantics with queued := true } }).pushL1 C
        (.semantics c)

def startSemantics (s : State P) (c : Channel) (generation : Nat) : Outcome P :=
  match s.channels[c]? with
  | none => (.ok (), s)
  | some slot =>
    if generation ≤ slot.semantics.lastStart then (.error .violation, s)
    else
      let demand := { generation, acknowledged := none, pending := none, inFlight := none, sentHigh := none }
      (.ok (), s.setSlot c { slot with
        semantics := { slot.semantics with lastStart := generation, demand := some demand } })

def endSemantics (s : State P) (c : Channel) : State P :=
  match s.channels[c]? with
  | none => s
  | some slot => s.setSlot c { slot with semantics := slot.semantics.finish }

def setDemand (s : State P) (c : Channel) (slot : Slot P) (demand : Demand P) : State P :=
  s.setSlot c { slot with semantics := { slot.semantics with demand := some demand } }

def offerSemantics (C : Postcard P) (s : State P) (c : Channel) (model : P.Model) : Outcome P :=
  match s.channels[c]? with
  | none => (.ok (), s)
  | some slot =>
    if slot.ending.isSome then (.ok (), s)
    else match slot.semantics.demand with
      | none => (.ok (), s)
      | some demand =>
        (s.setDemand c slot { demand with pending := some model }).queueSemantics C c

def acknowledgeSemantics (C : Postcard P) (s : State P) (c : Channel)
    (demandGeneration revision : Nat) : Outcome P :=
  match s.channels[c]? with
  | none => (.ok (), s)
  | some slot =>
    if demandGeneration > slot.semantics.lastStart then (.error .violation, s)
    else match slot.semantics.demand with
      | none => (.ok (), s)
      | some demand =>
        if demand.generation != demandGeneration then (.ok (), s)
        else
          -- a duplicate, or a revision the client skipped because a later one replaced it
          let late : Outcome P :=
            if demand.sentHigh.any (revision ≤ ·) then (.ok (), s) else (.error .violation, s)
          match demand.inFlight with
          | none => late
          | some flight =>
            if flight.revision == revision && flight.rest.isWritten then
              (s.setDemand c slot
                { demand with inFlight := none, acknowledged := some (revision, flight.model) }
                ).queueSemantics C c
            else late

/-- The channel's semantic turn: the next message of its revision in flight, or the start of its
pending model. -/
def takeSemantics (s : State P) (c : Channel) : Option (SemanticWork P) × State P :=
  match s.channels[c]? with
  | none => (none, s)
  | some slot =>
    let slot := { slot with semantics := { slot.semantics with queued := false } }
    let s := s.setSlot c slot
    if !slot.visible || slot.ending.isSome then (none, s)
    else match slot.semantics.demand with
      | none => (none, s)
      | some demand =>
        match demand.inFlight with
        | some flight =>
          let s := s.setDemand c slot
            { demand with inFlight := some { flight with rest := .encoding } }
          match flight.rest with
          | .ready encoding => (some ⟨c, flight.serial, .continue encoding⟩, s)
          | _ => (none, s)
        | none =>
          match demand.pending with
          | none => (none, s)
          | some model =>
            let demand := { demand with pending := none }
            if demand.acknowledged.any (P.revision model ≤ ·.1) then
              (none, s.setDemand c slot demand)
            else
              let serial := slot.semantics.started + 1
              let flight := ⟨serial, P.revision model, model, .encoding⟩
              let ticket := ⟨demand.generation, P.revision model, demand.acknowledged.map (·.1)⟩
              (some ⟨c, serial, .start model ticket (demand.acknowledged.map (·.2))⟩,
                s.setSlot c { slot with
                  semantics := { slot.semantics with
                    started := serial
                    demand := some { demand with inFlight := some flight } } })

def flight (s : State P) (c : Channel) (serial : Nat) : Option (Slot P × Demand P × InFlight P) := do
  let slot ← s.channels[c]?
  let demand ← slot.semantics.demand
  let flight ← demand.inFlight
  if flight.serial == serial then some (slot, demand, flight) else none

/-- The encoded message is taken for writing. `false` means its revision was abandoned meanwhile. -/
def semanticsTaken (C : Postcard P) (s : State P) (c : Channel) (serial : Nat)
    (rest : Option P.Encoding) : Except OutboxError Bool × State P :=
  match s.flight c serial with
  | none => (.ok false, s)
  | some (slot, demand, flight) =>
    let demand := match rest with
      | some rest => { demand with inFlight := some { flight with rest := .ready rest } }
      | none => { demand with
          inFlight := some { flight with rest := .written }, sentHigh := some flight.revision }
    match (s.setDemand c slot demand).queueSemantics C c with
    | (.ok _, s) => (.ok true, s)
    | (.error e, s) => (.error e, s)

/-- Undoes `takeSemantics` for a model that equalled its base. -/
def semanticsUnsent (C : Postcard P) (s : State P) (c : Channel) (serial : Nat) : State P :=
  match s.flight c serial with
  | none => s
  | some (slot, demand, _) =>
    ((s.setDemand c slot { demand with inFlight := none }).queueSemantics C c).2

end State

/-! ### Producers -/

def begin (s : State P) (id : RequestId) : Outcome P :=
  if s.requests.size ≥ maxRequestsInFlight then (.error .violation, s)
  else
    -- a duplicate id is inserted again before it is refused
    let next := { s with requests := s.requests.insert id false }
    if s.requests.contains id then (.error .violation, next) else (.ok (), next)

def reply (C : Postcard P) (s : State P) (id : RequestId) (result : Except Refusal (ReplyBody P)) : Outcome P :=
  match encode C (.reply id result) with
  | .error e => (.error e, s)
  | .ok frames =>
    if s.closing then (.error .closed, s)
    else if s.requests[id]? != some false then (.error .misuse, s)
    else if (CoreMessage.reply id result).bulk then
      if s.l2.length ≥ maxL2Messages || s.l2Bytes + size frames > maxL2Bytes then s.overflow C
      else (.ok (), { s with l2 := s.l2 ++ [(id, frames)], l2Bytes := s.l2Bytes + size frames,
                             requests := s.requests.insert id true })
    else match s.pushL1 C (.message frames (some id)) with
      | (.ok _, s) => (.ok (), { s with requests := s.requests.insert id true })
      | failed => failed

def replyOrRefuse (C : Postcard P) (s : State P) (id : RequestId)
    (result : Except Refusal (ReplyBody P)) : Outcome P :=
  match reply C s id result with
  | (.error (.encode .tooLarge), s) => reply C s id (.error .capacity)
  | (.error (.encode .unencodable), s) => reply C s id (.error .failed)
  | outcome => outcome

def pane (C : Postcard P) (s : State P) (c : Channel) (event : P.PaneEvent) : Outcome P :=
  match encode C (.pane c event) with
  | .error e => (.error e, s)
  | .ok frames => s.pushL1 C (.message frames none)

def inventory (C : Postcard P) (s : State P) (inventory : P.Inventory) (nextSequence : Nat) : Outcome P :=
  match encode C (.inventory inventory nextSequence) with
  | .error e => (.error e, s)
  | .ok frames =>
    if s.closing then (.error .closed, s)
    else if s.inventoryQueued then (.ok (), { s with inventory := some frames })
    else match s.pushL1 C .inventory with
      | (.ok _, s) => (.ok (), { s with inventoryQueued := true, inventory := some frames })
      | failed => failed

def updateFacts (C : Postcard P) (s : State P) (facts : UpdateFacts P) : Outcome P :=
  match encode C (.updateFacts facts) with
  | .error e => (.error e, s)
  | .ok frames =>
    if s.closing then (.error .closed, s)
    else if s.updateFactsQueued then (.ok (), { s with updateFacts := some frames })
    else match s.pushL1 C .updateFacts with
      | (.ok _, s) => (.ok (), { s with updateFactsQueued := true, updateFacts := some frames })
      | failed => failed

def ping (C : Postcard P) (s : State P) (nonce : Nat) : Outcome P := s.pushL0 C (.ping nonce)

def pong (C : Postcard P) (s : State P) (nonce : Nat) : Outcome P := s.pushL0 C (.pong nonce)

def goodbye (C : Postcard P) (s : State P) (fatal : Fatal) : Outcome P :=
  match encode C (.goodbye fatal) with
  | .error e => (.error e, s)
  | .ok frames =>
    if s.closing then (.error .closed, s)
    else (.ok (), { s with l0 := s.l0 ++ frames, closing := true })

def disconnected (s : State P) : State P := { s with closing := true }

/-- A slot as `Outbox::open` makes it: visible and owing a keyframe. -/
def Slot.fresh : Slot P where
  pending := none
  queued := false
  visible := true
  next := 1
  inFlight := none
  acknowledged := none
  keyframe := true
  ending := none
  semantics := {}

def openChannel (s : State P) (c : Channel) : Outcome P :=
  if s.channels.size ≥ maxChannels then (.error .capacity, s)
  else if s.channels.contains c then (.error .misuse, s)
  else (.ok (), s.setSlot c Slot.fresh)

def close (s : State P) (c : Channel) : State P := s.forget c

/-- `Outbox::end`. -/
def endChannel (C : Postcard P) (s : State P) (c : Channel) (event : P.PaneEvent) : Outcome P :=
  match encode C (.pane c event) with
  | .error e => (.error e, s)
  | .ok frames =>
    if s.closing then (.error .closed, s)
    else match s.channels[c]? with
      | none => { s with closed := s.closed ++ [c] }.pushL1 C (.message frames none)
      | some slot =>
        if slot.ending.isSome then (.ok (), s)
        else
          -- the last event waits for frame credit only, never for a semantic acknowledgement
          let slot := { slot with semantics := slot.semantics.finish }
          if slot.pending.isNone && slot.inFlight.isNone then
            (s.forget c).pushL1 C (.message frames none)
          else (.ok (), s.setSlot c { slot with ending := some frames })

def takeClosed (s : State P) : State P := { s with closed := [] }

def view (C : Postcard P) (s : State P) (c : Channel) (visible : Bool) : State P :=
  match s.channels[c]? with
  | none => s
  | some slot =>
    if visible then ((s.setSlot c { slot with visible := true }).queueSemantics C c).2
    else
      let slot := { slot with visible := false, pending := none }
      match slot.inFlight, slot.ending with
      | none, some frames => ((s.forget c).pushL1 C (.message frames none)).2
      | _, _ => s.setSlot c slot

def present (C : Postcard P) (s : State P) (c : Channel) (presentation : P.Presentation) : Outcome P :=
  if s.closing then (.error .closed, s)
  else match s.channels[c]? with
    | none => (.ok (), s)
    | some slot =>
      if !slot.visible || slot.ending.isSome then (.ok (), s)
      else
        let slot := { slot with pending := some presentation }
        if !slot.queued && slot.inFlight.isNone then
          (s.setSlot c { slot with queued := true }).pushL1 C (.frame c)
        else (.ok (), s.setSlot c slot)

def requireKeyframe (s : State P) (c : Channel) : State P :=
  match s.channels[c]? with
  | none => s
  | some slot => s.setSlot c { slot with keyframe := true }

def acknowledge (C : Postcard P) (s : State P) (c : Channel) (frame : Nat) : Outcome P :=
  match s.channels[c]? with
  | none => (.ok (), s)
  | some slot =>
    if slot.sent != some frame then (.error .violation, s)
    else
      let slot := { slot with inFlight := none, acknowledged := some frame }
      if slot.pending.isSome then
        if slot.queued then (.ok (), s.setSlot c slot)
        else (s.setSlot c { slot with queued := true }).pushL1 C (.frame c)
      else match slot.ending with
        | some frames => (s.forget c).pushL1 C (.message frames none)
        | none => (.ok (), s.setSlot c slot)

def semantics (C : Postcard P) (s : State P) (c : Channel) (model : P.Model) : Outcome P :=
  if s.closing then (.error .closed, s) else s.offerSemantics C c model

/-- Starts the acknowledgement timer of every frame taken but not yet written. -/
def written (s : State P) (now : Nat) : State P :=
  { s with channels := s.channels.map fun _ slot =>
      match slot.inFlight with
      | some (sent, none) => { slot with inFlight := some (sent, some now) }
      | _ => slot }

end SpaceTerm.Outbox
