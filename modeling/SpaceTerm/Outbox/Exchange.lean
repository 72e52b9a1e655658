import SpaceTerm.Outbox.Credit

/-! # The semantic exchange of a channel

What a client sees of a channel's semantics is an `Exchange`: the standing demand, the revision it
acknowledged last and the one in transfer. `Board` is what of an outbox decides it. Most producers
leave the board as it is (`Quiet`); the others change one channel and then queue its turn (`Queue`). -/

namespace SpaceTerm.Outbox
open Wire
open Hierarchy (Refusal)

variable {P : Payloads} {C : Postcard P} {c : Channel}

/-! ## The exchange -/

structure Transfer where
  serial : Nat
  revision : Nat
  /-- Its last message was taken for writing. -/
  written : Bool
  deriving DecidableEq

structure Exchange where
  /-- How many revisions were started. -/
  started : Nat := 0
  generation : Option Nat := none
  /-- The revision acknowledged last in this generation. -/
  acknowledged : Option Nat := none
  transfer : Option Transfer := none
  deriving DecidableEq

inductive Signal
  | demanded (generation : Nat)
  /-- The demand ended, or the channel did. -/
  | abandoned
  | began (serial : Nat) (ticket : SemanticTicket)
  /-- A message of the revision begins to be written. -/
  | wrote (serial : Nat) (last : Bool)
  /-- The model equals its base: nothing is written. -/
  | equalled (serial : Nat)
  | acknowledged (generation revision : Nat)
  deriving DecidableEq

/-- One credit: a revision begins while none is in transfer, from the base acknowledged last, its
messages are written until the last one, and its acknowledgement returns the credit. -/
def Exchange.next (x : Exchange) : Signal → Option Exchange
  | .demanded generation => some { started := x.started, generation := some generation }
  | .abandoned => some { started := x.started }
  | .began serial ticket =>
    if x.started < serial ∧ x.generation = some ticket.demandGeneration ∧ x.transfer = none ∧
        ticket.base = x.acknowledged then
      some { x with started := serial, transfer := some ⟨serial, ticket.revision, false⟩ }
    else none
  | .wrote serial last =>
    match x.transfer with
    | some ⟨current, revision, false⟩ =>
      if current = serial then some { x with transfer := some ⟨serial, revision, last⟩ } else none
    | _ => none
  | .equalled serial =>
    match x.transfer with
    | some ⟨current, _, false⟩ => if current = serial then some { x with transfer := none } else none
    | _ => none
  | .acknowledged generation revision =>
    match x.transfer with
    | some ⟨_, current, true⟩ =>
      if x.generation = some generation ∧ current = revision then
        some { x with transfer := none, acknowledged := some revision }
      else none
    | _ => none

/-! ## The board -/

/-- What of a slot the exchange reads. -/
structure Standing (P : Payloads) where
  visible : Bool
  ending : Bool
  semantics : SemanticSlot P

def Slot.standing (slot : Slot P) : Standing P := ⟨slot.visible, slot.ending.isSome, slot.semantics⟩

def Demand.transfer (demand : Demand P) : Option Transfer :=
  demand.inFlight.map fun flight => ⟨flight.serial, flight.revision, flight.rest.isWritten⟩

def Standing.exchange (k : Standing P) : Exchange :=
  match k.semantics.demand with
  | none => { started := k.semantics.started }
  | some demand =>
    { started := k.semantics.started
      generation := some demand.generation
      acknowledged := demand.acknowledged.map (·.1)
      transfer := demand.transfer }

def Entry.turn? : Entry P → Option Channel
  | .semantics c => some c
  | _ => none

structure Board (P : Payloads) where
  standing : Channel → Option (Standing P)
  /-- The semantic turns in L1. -/
  turns : List Channel
  closing : Bool

def State.board (s : State P) : Board P where
  standing c := s.channels[c]?.map Slot.standing
  turns := s.l1.filterMap Entry.turn?
  closing := s.closing

def Board.set (a : Board P) (c : Channel) (k : Option (Standing P)) : Board P :=
  { a with standing := Function.update a.standing c k }

/-- Nothing but `closing` changes. -/
def Quiet (a b : Board P) : Prop := ∃ closing, (a.closing = true → closing = true) ∧ b = { a with closing }

namespace Quiet
variable {a b : Board P}

theorem refl : Quiet a a := ⟨a.closing, id, rfl⟩

theorem of_eq (h : b = a) : Quiet a b := h ▸ refl

end Quiet

def Standing.needsTurn (k : Standing P) : Bool :=
  k.visible && !k.ending && !k.semantics.queued && k.semantics.hasWork

def Standing.enqueued (k : Standing P) : Standing P := { k with semantics := { k.semantics with queued := true } }

/-- `queue_semantics`. -/
inductive Queue (a : Board P) (c : Channel) : Board P → Prop
  | idle (h : ∀ k, a.standing c = some k → k.needsTurn = false) : Queue a c a
  | push {k : Standing P} (hk : a.standing c = some k) (hneeds : k.needsTurn = true) :
      Queue a c { a.set c (some k.enqueued) with turns := a.turns ++ [c] }
  | fail {k : Standing P} (hk : a.standing c = some k) (hneeds : k.needsTurn = true) :
      Queue a c { a.set c (some k.enqueued) with closing := true }

theorem Untouched.quiet {s t : State P} (h : Untouched s t) : Quiet s.board t.board := by
  obtain ⟨entries, hl, he⟩ := h.l1
  have hnone : entries.filterMap Entry.turn? = [] := by
    refine List.filterMap_eq_nil_iff.mpr fun entry hmem => ?_
    cases entry with
    | semantics c => exact absurd hmem (he c)
    | _ => rfl
  refine ⟨t.closing, h.closing, ?_⟩
  unfold State.board
  rw [h.channels, hl, List.filterMap_append, hnone, List.append_nil]

namespace State
variable {s : State P}

theorem board_get {slot : Slot P} (h : s.channels[c]? = some slot) : s.board.standing c = some slot.standing := by
  simp [board, h]

theorem board_none (h : s.channels[c]? = none) : s.board.standing c = none := by
  simp [board, h]

theorem board_setSlot (s : State P) (c : Channel) (slot : Slot P) :
    (s.setSlot c slot).board = s.board.set c (some slot.standing) := by
  unfold board Board.set setSlot
  congr 1
  funext d
  by_cases hd : d = c
  · subst hd
    simp
  · have hc : ¬c = d := fun h => hd h.symm
    simp [Std.TreeMap.getElem?_insert, hd, hc]

theorem board_forget (s : State P) (c : Channel) : (s.forget c).board = s.board.set c none := by
  unfold board Board.set forget
  congr 1
  funext d
  by_cases hd : d = c
  · subst hd
    simp
  · have hc : ¬c = d := fun h => hd h.symm
    simp [Std.TreeMap.getElem?_erase, hd, hc]

theorem board_setSlot_same {slot : Slot P} (slot' : Slot P) (h : s.channels[c]? = some slot)
    (hstanding : slot'.standing = slot.standing) : (s.setSlot c slot').board = s.board := by
  rw [board_setSlot, hstanding, ← board_get h]
  unfold Board.set
  rw [Function.update_eq_self]

theorem pushL1_quiet (s : State P) (entry : Entry P) (h : entry.turn? = none) :
    Quiet s.board (s.pushL1 C entry).2.board :=
  (s.untouched_pushL1 entry fun _ he => nomatch he ▸ h).quiet

theorem queueSemantics_queue (s : State P) (c : Channel) : Queue s.board c (s.queueSemantics C c).2.board := by
  unfold queueSemantics
  split
  · next hsl => exact .idle fun k hk => by rw [board_none hsl] at hk; cases hk
  next slot hsl =>
  split
  · next hidle =>
    refine .idle fun k hk => ?_
    rw [board_get hsl] at hk
    cases hk
    unfold Standing.needsTurn
    rw [← Bool.not_eq_true]
    intro hneeds
    simp [Slot.standing] at hneeds hidle
    simp_all
  next hidle =>
  have hneeds : slot.standing.needsTurn = true := by
    simp [Standing.needsTurn, Slot.standing] at hidle ⊢
    simp_all
  have hs : (s.setSlot c { slot with semantics := { slot.semantics with queued := true } }).board =
      s.board.set c (some slot.standing.enqueued) := board_setSlot s c _
  unfold pushL1
  split
  · next hc =>
    have hf := Queue.fail (a := s.board) (board_get hsl) hneeds
    rw [hs, show s.board.set c (some slot.standing.enqueued) =
      { s.board.set c (some slot.standing.enqueued) with closing := true } by
        have : s.board.closing = true := hc
        unfold Board.set
        rw [this]]
    exact hf
  split
  · have hf := Queue.fail (a := s.board) (board_get hsl) hneeds
    have ho : ((s.setSlot c { slot with semantics := { slot.semantics with queued := true } }).overflow
        C).2.board = { s.board.set c (some slot.standing.enqueued) with closing := true } := by
      rw [← hs]
      unfold overflow
      rw [if_neg (by assumption)]
      split <;> rfl
    rw [ho]
    exact hf
  · have hp := Queue.push (a := s.board) (board_get hsl) hneeds
    rw [show ({ s.board.set c (some slot.standing.enqueued) with turns := s.board.turns ++ [c] } : Board P) =
      { (s.setSlot c { slot with semantics := { slot.semantics with queued := true } }).board with
        turns := s.board.turns ++ [c] } by rw [hs]] at hp
    convert hp using 1
    unfold board
    simp [setSlot, Entry.turn?]

end State

/-! ## Producers that leave the board -/

section Calls
variable (s : State P) (c : Channel)

theorem quiet_present (p : P.Presentation) :
    Quiet s.board (present C s c p).2.board := by
  unfold present
  split
  · exact .refl
  split
  · exact .refl
  next slot hs =>
  split
  · exact .refl
  dsimp only
  split
  · rw [← State.board_setSlot_same (s := s)
      { slot with pending := some p, queued := true } hs rfl]
    exact State.pushL1_quiet _ _ rfl
  · exact .of_eq (State.board_setSlot_same _ hs rfl)

theorem quiet_requireKeyframe : Quiet s.board (requireKeyframe s c).board := by
  unfold requireKeyframe
  split
  · exact .refl
  · next slot hs => exact .of_eq (State.board_setSlot_same _ hs rfl)

theorem quiet_written (now : Nat) : Quiet s.board (written s now).board := by
  refine .of_eq ?_
  unfold State.board written
  congr 1
  funext c
  simp only [Std.TreeMap.getElem?_map, Option.map_map]
  congr 1
  funext slot
  rcases h : slot.inFlight with _ | ⟨sent, _ | _⟩ <;> simp [Slot.standing, h]

theorem quiet_unsent (ticket : FrameTicket) : Quiet s.board (s.unsent C ticket).board := by
  unfold State.unsent
  split
  · exact .refl
  next slot hs =>
  split
  · dsimp only
    split
    · rw [← State.board_setSlot_same (s := s) { slot with
        inFlight := none, keyframe := slot.keyframe || ticket.base.isNone, queued := true } hs rfl]
      exact State.pushL1_quiet _ _ rfl
    · exact .of_eq (State.board_setSlot_same _ hs rfl)
  · exact .refl

/-! ## Producers that change one channel -/

def Drops (a : Board P) (c : Channel) (b : Board P) : Prop := Quiet a b ∨ Quiet (a.set c none) b

theorem drops_forget_pushL1 {entry : Entry P} (h : entry.turn? = none) :
    Quiet (s.board.set c none) ((s.forget c).pushL1 C entry).2.board := by
  rw [← State.board_forget]
  exact State.pushL1_quiet _ entry h

theorem drops_acknowledge (n : Nat) : Drops s.board c (acknowledge C s c n).2.board := by
  unfold acknowledge
  split
  · exact .inl .refl
  next slot hs =>
  split
  · exact .inl .refl
  dsimp only
  split
  · split
    · exact .inl (.of_eq (State.board_setSlot_same _ hs rfl))
    left
    rw [← State.board_setSlot_same (s := s)
      { slot with inFlight := none, acknowledged := some n, queued := true } hs rfl]
    exact State.pushL1_quiet _ _ rfl
  · split
    · exact .inr (drops_forget_pushL1 s c rfl)
    · exact .inl (.of_eq (State.board_setSlot_same _ hs rfl))

theorem drops_finishFrame (ticket : FrameTicket) (ending : Option (Frames P))
    (encoded : Option (Except OutboxError (Frames P))) :
    Drops s.board ticket.channel (finishFrame C s ticket ending encoded).2.board := by
  unfold finishFrame
  split
  · exact .inl .refl
  · exact .inl (quiet_unsent s ticket)
  · exact .inl .refl
  · exact .inr (.of_eq (State.board_forget s _))

theorem drops_framePresent : Drops s.board c (s.present c).2.board := by
  unfold State.present
  split
  · exact .inl .refl
  next slot hs =>
  dsimp only
  split
  · exact .inl (.of_eq (State.board_setSlot_same _ hs rfl))
  split
  · exact .inl (.of_eq (State.board_setSlot_same _ hs rfl))
  split
  · exact .inr (.of_eq (State.board_forget s c))
  · next hend => exact .inl (.of_eq (State.board_setSlot_same _ hs rfl))

def Standing.demanding (k : Standing P) (demand : Option (Demand P)) : Standing P :=
  { k with semantics := { k.semantics with demand } }

/-- What an accepted change makes of one channel, before its turn is queued. -/
inductive Alter (k : Standing P) : Standing P → Prop
  | shown : Alter k { k with visible := true }
  | offered {demand : Demand P} (hdemand : k.semantics.demand = some demand) (model : P.Model) :
      Alter k (k.demanding (some { demand with pending := some model }))

/-- What takes work away from a channel, or leaves it. -/
inductive Reduce (k : Standing P) : Standing P → Prop
  | hidden : Reduce k { k with visible := false }
  | stopped : Reduce k (k.demanding none)
  | ended : Reduce k { k.demanding none with ending := true }

theorem board_endChannel (event : P.PaneEvent) :
    Drops s.board c (endChannel C s c event).2.board ∨
      ∃ k k', s.board.standing c = some k ∧ Reduce k k' ∧ (endChannel C s c event).2.board = s.board.set c (some k') := by
  unfold endChannel
  split
  · exact .inl (.inl .refl)
  next frames hframes =>
  split
  · exact .inl (.inl .refl)
  split
  · refine .inl (.inl ?_)
    exact State.pushL1_quiet { s with closed := s.closed ++ [c] } _ rfl
  next slot hs =>
  split
  · exact .inl (.inl .refl)
  dsimp only
  split
  · exact .inl (.inr (drops_forget_pushL1 s c rfl))
  · exact .inr ⟨slot.standing, _, State.board_get hs, .ended, State.board_setSlot s c _⟩

theorem board_view (visible : Bool) :
    Drops s.board c (view C s c visible).board ∨
      (∃ k k', s.board.standing c = some k ∧ Reduce k k' ∧ (view C s c visible).board = s.board.set c (some k')) ∨
      ∃ k k', s.board.standing c = some k ∧ Alter k k' ∧
        Queue (s.board.set c (some k')) c (view C s c visible).board := by
  unfold view
  split
  · exact .inl (.inl .refl)
  next slot hs =>
  split
  · refine .inr (.inr ⟨slot.standing, _, State.board_get hs, .shown, ?_⟩)
    have hqueue := State.queueSemantics_queue (C := C) (s.setSlot c { slot with visible := true }) c
    rw [State.board_setSlot] at hqueue
    exact hqueue
  dsimp only
  split
  · exact .inl (.inr (drops_forget_pushL1 s c rfl))
  · exact .inr (.inl ⟨slot.standing, _, State.board_get hs, .hidden, State.board_setSlot s c _⟩)

theorem board_endSemantics : (s.endSemantics c).board = s.board ∨
    ∃ k k', s.board.standing c = some k ∧ Reduce k k' ∧ (s.endSemantics c).board = s.board.set c (some k') := by
  unfold State.endSemantics
  split
  · exact .inl rfl
  · next slot hs => exact .inr ⟨slot.standing, _, State.board_get hs, .stopped, State.board_setSlot s c _⟩

theorem board_openChannel :
    ((openChannel s c).1.isOk = false ∧ (openChannel s c).2.board = s.board) ∨ (openChannel s c).1.isOk = true ∧
      (openChannel s c).2.board = s.board.set c (some Slot.fresh.standing) := by
  unfold openChannel
  split
  · exact .inl ⟨rfl, rfl⟩
  split
  · exact .inl ⟨rfl, rfl⟩
  · exact .inr ⟨rfl, State.board_setSlot s c _⟩

def Standing.demanded (k : Standing P) (generation : Nat) : Standing P :=
  { k with semantics := { k.semantics with
      lastStart := generation
      demand := some { generation, acknowledged := none, pending := none, inFlight := none, sentHigh := none } } }

theorem board_startSemantics (generation : Nat) :
    (s.startSemantics c generation).2.board = s.board ∧
        (∀ k, s.board.standing c = some k → (s.startSemantics c generation).1.isOk = false) ∨
      ∃ k, s.board.standing c = some k ∧ (s.startSemantics c generation).1.isOk = true ∧
        (s.startSemantics c generation).2.board = s.board.set c (some (k.demanded generation)) := by
  unfold State.startSemantics
  split
  · next hs => exact .inl ⟨rfl, fun k hk => by rw [State.board_none hs] at hk; cases hk⟩
  next slot hs =>
  split
  · exact .inl ⟨rfl, fun _ _ => rfl⟩
  · exact .inr ⟨slot.standing, State.board_get hs, rfl, State.board_setSlot s c _⟩

theorem queue_setDemand (slot : Slot P) (demand : Demand P) :
    Queue (s.board.set c (some (slot.standing.demanding (some demand)))) c
      ((s.setDemand c slot demand).queueSemantics C c).2.board := by
  have hqueue := State.queueSemantics_queue (C := C) (s.setDemand c slot demand) c
  unfold State.setDemand at hqueue ⊢
  rw [State.board_setSlot] at hqueue
  exact hqueue

theorem board_semantics (model : P.Model) :
    (semantics C s c model).2.board = s.board ∨ ∃ k k', s.board.standing c = some k ∧ Alter k k' ∧
      Queue (s.board.set c (some k')) c (semantics C s c model).2.board := by
  unfold semantics State.offerSemantics
  split
  · exact .inl rfl
  split
  · exact .inl rfl
  next slot hs =>
  split
  · exact .inl rfl
  split
  · exact .inl rfl
  · next demand hdemand =>
    exact .inr ⟨slot.standing, _, State.board_get hs, .offered hdemand model, queue_setDemand s c slot _⟩

theorem next_acknowledged_none {k : Standing P} {generation revision : Nat}
    (h : ∀ demand flight, k.semantics.demand = some demand → demand.inFlight = some flight →
      flight.rest.isWritten = true → demand.generation = generation → flight.revision ≠ revision) :
    k.exchange.next (.acknowledged generation revision) = none := by
  unfold Standing.exchange
  split
  · rfl
  next demand hdemand =>
  unfold Exchange.next Demand.transfer
  cases hflight : demand.inFlight with
  | none => rfl
  | some flight =>
    cases hwritten : flight.rest.isWritten with
    | false => simp [hwritten]
    | true =>
      simp only [Option.map_some, hwritten]
      rw [if_neg]
      rintro ⟨hg, hr⟩
      exact h demand flight hdemand hflight hwritten (Option.some.inj hg) hr

theorem board_acknowledgeSemantics (generation revision : Nat)
    (hl : ∀ k demand, s.board.standing c = some k → k.semantics.demand = some demand →
      demand.generation ≤ k.semantics.lastStart) :
    (s.acknowledgeSemantics C c generation revision).2.board = s.board ∧
        (∀ k, s.board.standing c = some k → k.exchange.next (.acknowledged generation revision) = none) ∨
      ∃ k demand flight, s.board.standing c = some k ∧ k.semantics.demand = some demand ∧
        demand.generation = generation ∧ demand.inFlight = some flight ∧ flight.revision = revision ∧
        flight.rest.isWritten = true ∧
        Queue (s.board.set c (some (k.demanding (some
          { demand with inFlight := none, acknowledged := some (revision, flight.model) })))) c
          (s.acknowledgeSemantics C c generation revision).2.board := by
  unfold State.acknowledgeSemantics
  split
  · next hsl => exact .inl ⟨rfl, fun k hk => by rw [State.board_none hsl] at hk; cases hk⟩
  next slot hsl =>
  have hget (k : Standing P) (hk : s.board.standing c = some k) : k = slot.standing :=
    Option.some.inj (hk.symm.trans (State.board_get hsl))
  split
  · next hlate =>
    refine .inl ⟨rfl, fun k hk => next_acknowledged_none fun demand flight hdemand _ _ hg => ?_⟩
    obtain rfl := hget k hk
    have hle := hl _ demand hk hdemand
    change slot.semantics.lastStart < generation at hlate
    change demand.generation ≤ slot.semantics.lastStart at hle
    omega
  split
  · next hdemand =>
    refine .inl ⟨rfl, fun k hk => next_acknowledged_none fun demand flight hso => ?_⟩
    obtain rfl := hget k hk
    exact absurd (hdemand.symm.trans hso) (by simp)
  next demand hdemand =>
  have hs (demand' : Demand P) (hso : slot.standing.semantics.demand = some demand') : demand' = demand :=
    Option.mem_unique hso hdemand
  split
  · next hg =>
    refine .inl ⟨rfl, fun k hk => next_acknowledged_none fun demand' flight hso _ _ he => ?_⟩
    obtain rfl := hget k hk
    obtain rfl := hs demand' hso
    simp [he] at hg
  next hg =>
  dsimp only
  split
  · next hflight =>
    refine .inl ⟨by split <;> rfl, fun k hk => next_acknowledged_none fun demand' flight hso hsom => ?_⟩
    obtain rfl := hget k hk
    obtain rfl := hs demand' hso
    exact absurd (hflight.symm.trans hsom) (by simp)
  next flight hflight =>
  split
  · next hma =>
    rw [Bool.and_eq_true, beq_iff_eq] at hma
    exact .inr ⟨slot.standing, demand, flight, State.board_get hsl, hdemand, by simpa using hg,
      hflight, hma.1, hma.2, queue_setDemand s c slot _⟩
  next hma =>
  refine .inl ⟨by split <;> rfl, fun k hk =>
    next_acknowledged_none fun demand' flight' hso hsom hwritten _ he => hma ?_⟩
  obtain rfl := hget k hk
  obtain rfl := hs demand' hso
  obtain rfl := Option.mem_unique hflight hsom
  simp [he, hwritten]

/-! ## The I/O thread -/

def Standing.dequeued (k : Standing P) : Standing P := { k with semantics := { k.semantics with queued := false } }

/-- `take_semantics`. -/
inductive Turned (c : Channel) (k : Standing P) : Option (SemanticWork P) → Standing P → Prop
  | idle (h : k.visible = true → k.ending = false → ∀ demand, k.semantics.demand = some demand →
      demand.inFlight = none ∧ demand.pending = none) : Turned c k none k.dequeued
  /-- The model is not newer than what was acknowledged. -/
  | stale {demand : Demand P} (hdemand : k.semantics.demand = some demand) (hflight : demand.inFlight = none) :
      Turned c k none (k.dequeued.demanding (some { demand with pending := none }))
  /-- A turn of a revision that is not ready: its rest is lost. -/
  | stuck {demand : Demand P} {flight : InFlight P} (hdemand : k.semantics.demand = some demand)
      (hflight : demand.inFlight = some flight) (hready : flight.rest.isReady = false) :
      Turned c k none (k.dequeued.demanding (some { demand with inFlight := some { flight with rest := .encoding } }))
  | resumes {demand : Demand P} {flight : InFlight P} {encoding : P.Encoding}
      (hdemand : k.semantics.demand = some demand) (hflight : demand.inFlight = some flight)
      (hrest : flight.rest = .ready encoding) : Turned c k (some ⟨c, flight.serial, .continue encoding⟩)
        (k.dequeued.demanding (some { demand with inFlight := some { flight with rest := .encoding } }))
  | start {demand : Demand P} {model : P.Model} (hdemand : k.semantics.demand = some demand)
      (hflight : demand.inFlight = none) : Turned c k
        (some ⟨c, k.semantics.started + 1, .start model
          ⟨demand.generation, P.revision model, demand.acknowledged.map (·.1)⟩ (demand.acknowledged.map (·.2))⟩)
        { k with semantics := { k.semantics with
            queued := false
            started := k.semantics.started + 1
            demand := some { demand with
              pending := none
              inFlight := some ⟨k.semantics.started + 1, P.revision model, model, .encoding⟩ } } }

theorem board_takeSemantics :
    (s.board.standing c = none ∧ s.takeSemantics c = (none, s)) ∨ ∃ k k', s.board.standing c = some k ∧
      Turned c k (s.takeSemantics c).1 k' ∧ (s.takeSemantics c).2.board = s.board.set c (some k') := by
  unfold State.takeSemantics
  split
  · next hsl => exact .inl ⟨State.board_none hsl, rfl⟩
  next slot hsl =>
  right
  have hs (slot' : Slot P) := State.board_setSlot s c slot'
  have ht (slot₁ slot₂ : Slot P) : ((s.setSlot c slot₁).setSlot c slot₂).board =
      s.board.set c (some slot₂.standing) := by
    rw [State.board_setSlot, State.board_setSlot]
    unfold Board.set
    dsimp only
    rw [Function.update_idem]
  dsimp only
  split
  · next hidle =>
    refine ⟨slot.standing, _, State.board_get hsl, .idle fun hvisible hending => ?_, hs _⟩
    change slot.visible = true at hvisible
    change slot.ending.isSome = false at hending
    simp [hvisible, hending] at hidle
  split
  · next hdemand =>
    refine ⟨slot.standing, _, State.board_get hsl, .idle fun _ _ demand hso => ?_, hs _⟩
    exact absurd (hdemand.symm.trans hso) (by simp)
  next demand hdemand =>
  split
  · next flight hflight =>
    split
    · next encoding hrest =>
      exact ⟨slot.standing, _, State.board_get hsl, .resumes hdemand hflight hrest, ht _ _⟩
    next hrest =>
    refine ⟨slot.standing, _, State.board_get hsl, .stuck hdemand hflight ?_, ht _ _⟩
    cases hki : flight.rest with
    | ready encoding => exact absurd hki (hrest encoding)
    | _ => rfl
  next hflight =>
  split
  · next hpending =>
    refine ⟨slot.standing, _, State.board_get hsl, .idle fun _ _ demand' hso => ?_, hs _⟩
    obtain rfl := Option.mem_unique hdemand hso
    exact ⟨hflight, hpending⟩
  next model hpending =>
  split
  · exact ⟨slot.standing, _, State.board_get hsl, .stale hdemand hflight, ht _ _⟩
  · exact ⟨slot.standing, _, State.board_get hsl, .start hdemand hflight, ht _ _⟩

theorem first_board (frames : Frames P) (reply : Option RequestId) (priority : Priority) :
    (s.first frames reply priority).2.board = s.board := by
  have ha : (s.answered reply).board = s.board := by cases reply <;> rfl
  unfold State.first
  split
  · exact ha
  split
  · exact ha
  · cases priority <;> rfl

theorem first_not_semantics (frames : Frames P) (reply : Option RequestId) (priority : Priority)
    (work : SemanticWork P) : (s.first frames reply priority).1 ≠ .semantics work := by
  unfold State.first
  split
  · simp
  · split <;> simp

inductive TakesBoard (a : Board P) : Option (SemanticWork P) → Board P → Prop
  | quiet {d b} (h : Drops a d b) : TakesBoard a none b
  | gone {d turns} (hturns : a.turns = d :: turns) (hnone : a.standing d = none) :
      TakesBoard a none { a with turns }
  | turn {d turns k k' work} (hturns : a.turns = d :: turns) (hk : a.standing d = some k)
      (hturned : Turned d k work k') : TakesBoard a work { a.set d (some k') with turns }

def Taken.work? : Option (Taken P) → Option (SemanticWork P)
  | some (.semantics work) => some work
  | _ => none

theorem work?_first (frames : Frames P) (reply : Option RequestId) (priority : Priority) :
    Taken.work? (some (s.first frames reply priority).1) = none := by
  cases htaken : (s.first frames reply priority).1 with
  | semantics work => exact absurd htaken (first_not_semantics s frames reply priority work)
  | _ => rfl

theorem turn_takesBoard {entry : Entry P} {l1 : List (Entry P)} (hl1 : s.l1 = entry :: l1) :
    TakesBoard s.board (Taken.work? (some ({ s with l1 := l1 }.turn entry).1))
      ({ s with l1 := l1 }.turn entry).2.board := by
  have hp (h : entry.turn? = none) : ({ s with l1 := l1 } : State P).board = s.board := by
    unfold State.board
    rw [hl1, List.filterMap_cons_none h]
  have hq {b : Board P} (h : b = s.board) : TakesBoard s.board none b := .quiet (d := 0) (.inl (.of_eq h))
  cases entry with
  | message frames reply | inventory | updateFacts =>
    unfold State.turn
    dsimp only
    rw [work?_first]
    exact hq ((first_board _ _ _ _).trans (hp rfl))
  | frame d =>
    unfold State.turn
    have hwork : Taken.work? (some (({ s with l1 := l1 } : State P).present d).1) = none := by
      unfold State.present
      split
      · rfl
      dsimp only
      split
      · rfl
      split
      · rfl
      · split <;> rfl
    rw [hwork]
    have hd := drops_framePresent ({ s with l1 := l1 } : State P) d
    rw [hp rfl] at hd
    exact .quiet hd
  | semantics d =>
    have hturns : s.board.turns = d :: ({ s with l1 := l1 } : State P).board.turns := by
      unfold State.board
      rw [hl1]
      rfl
    unfold State.turn
    rcases board_takeSemantics ({ s with l1 := l1 } : State P) d with ⟨hnone, he⟩ | ⟨k, k', hk, hturned, hb⟩
    · dsimp only
      rw [he]
      exact .gone hturns hnone
    dsimp only
    generalize ({ s with l1 := l1 } : State P).takeSemantics d = out at hturned hb
    obtain ⟨work, next⟩ := out
    dsimp only at hturned hb
    cases work with
    | none =>
      change TakesBoard s.board none next.board
      rw [hb]
      exact .turn hturns hk hturned
    | some work =>
      change TakesBoard s.board (some work) next.board
      rw [hb]
      exact .turn hturns hk hturned

theorem take_takesBoard (lowest : Priority) :
    TakesBoard s.board (Taken.work? (s.take lowest).1) (s.take lowest).2.board := by
  have hq {b : Board P} (h : b = s.board) : TakesBoard s.board none b := .quiet (d := 0) (.inl (.of_eq h))
  have ha (t : State P) (reply : Option RequestId) : (t.answered reply).board = t.board := by
    cases reply <;> rfl
  unfold State.take
  split
  · exact hq rfl
  split
  · exact hq rfl
  split
  · dsimp only
    split
    · exact hq (ha _ _)
    · exact hq rfl
  split
  · next entry l1 hl1 => exact turn_takesBoard s hl1
  split
  · exact hq rfl
  split
  · dsimp only
    split
    · exact hq (ha _ _)
    · exact hq rfl
  split
  · dsimp only
    rw [work?_first]
    exact hq (first_board _ _ _ _)
  · exact hq rfl

end Calls

theorem flight_some {s : State P} {serial : Nat} {slot : Slot P} {demand : Demand P} {flight : InFlight P}
    (h : s.flight c serial = some (slot, demand, flight)) : s.channels[c]? = some slot ∧
      slot.semantics.demand = some demand ∧ demand.inFlight = some flight ∧ flight.serial = serial := by
  simp only [State.flight, Option.bind_eq_bind, Option.bind_eq_some_iff] at h
  obtain ⟨slot', hs, demand', hdemand, flight', hflight, h⟩ := h
  split at h
  · next hserial =>
    simp only [Option.some.injEq, Prod.mk.injEq] at h
    obtain ⟨rfl, rfl, rfl⟩ := h
    exact ⟨hs, hdemand, hflight, by simpa using hserial⟩
  · cases h

theorem flight_none {s : State P} {serial : Nat} (h : s.flight c serial = none) {k : Standing P} {demand : Demand P}
    {flight : InFlight P} (hk : s.board.standing c = some k) (hdemand : k.semantics.demand = some demand)
    (hflight : demand.inFlight = some flight) : flight.serial ≠ serial := by
  rintro rfl
  cases hs : s.channels[c]? with
  | none =>
    rw [State.board_none hs] at hk
    cases hk
  | some slot =>
    rw [State.board_get hs] at hk
    cases hk
    have hdemand' : slot.semantics.demand = some demand := hdemand
    simp [State.flight, hs, hdemand', hflight] at h

/-- The revision that the work is of, if it was not abandoned. -/
structure Holding (a : Board P) (w : SemanticWork P) (k : Standing P) (demand : Demand P) (flight : InFlight P) : Prop where
  hstanding : a.standing w.channel = some k
  hdemand : k.semantics.demand = some demand
  hflight : demand.inFlight = some flight
  hserial : flight.serial = w.serial

inductive Finishes (C : Postcard P) (a : Board P) (w : SemanticWork P) (encoded : Option (P.SemanticUpdate × P.Encoding)) :
    Option Signal → Board P → Prop
  /-- The revision was abandoned meanwhile. -/
  | late (h : ∀ k demand flight, ¬Holding a w k demand flight) : Finishes C a w encoded none a
  | equalled {k demand flight b} (hencoded : encoded = none) (h : Holding a w k demand flight)
      (hqueue : Queue (a.set w.channel (some (k.demanding (some { demand with inFlight := none })))) w.channel b) :
      Finishes C a w encoded (some (.equalled w.serial)) b
  | wrote {k demand flight update encoding b σ} (hencoded : encoded = some (update, encoding))
      (h : Holding a w k demand flight)
      (hqueue : Queue (a.set w.channel (some (k.demanding (some (if P.hasTail update
        then { demand with inFlight := some { flight with rest := .written }, sentHigh := some flight.revision }
        else { demand with inFlight := some { flight with rest := .ready encoding } }))))) w.channel b)
      (hσ : σ = some (.wrote w.serial (P.hasTail update)) ∨ σ = none ∧ P.hasTail update = false) :
      Finishes C a w encoded σ b
  /-- The message cannot be encoded: the channel ends. -/
  | failed {k} (h : a.standing w.channel = some k) : Finishes C a w encoded (some .abandoned) (a.set w.channel none)

/-! ## The exchange over a step -/

structure Floor (P : Payloads) where
  board : Board P
  work : Option (SemanticWork P)
  opened : List Channel

def SemanticWork.begins (w : SemanticWork P) : Option (Channel × Signal) :=
  match w.step with
  | .start _ ticket _ => some (w.channel, .began w.serial ticket)
  | .continue _ => none

inductive Floor.Step (C : Postcard P) (a : Floor P) : Option (Channel × Signal) → Floor P → Prop
  | drops {d b σ} (h : Drops a.board d b)
      (hσ : σ = none ∨ σ = some (d, .abandoned) ∧ (a.board.standing d).isSome ∧ b.standing d = none) :
      Step C a σ { a with board := b }
  | opens {d} (h : d ∉ a.opened) :
      Step C a none { a with board := a.board.set d (some Slot.fresh.standing), opened := d :: a.opened }
  | reduces {d k k' σ} (hk : a.board.standing d = some k) (h : Reduce k k')
      (hσ : σ = none ∧ k'.exchange = k.exchange ∨ σ = some (d, .abandoned) ∧ k'.semantics.demand = none) :
      Step C a σ { a with board := a.board.set d (some k') }
  | demanded {d k generation} (hk : a.board.standing d = some k) :
      Step C a (some (d, .demanded generation)) { a with board := a.board.set d (some (k.demanded generation)) }
  | alters {d k k' b} (hk : a.board.standing d = some k) (h : Alter k k')
      (hqueue : Queue (a.board.set d (some k')) d b) : Step C a none { a with board := b }
  | acknowledges {d k demand flight b} (hk : a.board.standing d = some k) (hdemand : k.semantics.demand = some demand)
      (hflight : demand.inFlight = some flight) (hwritten : flight.rest.isWritten = true)
      (hqueue : Queue (a.board.set d (some (k.demanding (some
        { demand with inFlight := none, acknowledged := some (flight.revision, flight.model) })))) d b) :
      Step C a (some (d, .acknowledged demand.generation flight.revision)) { a with board := b }
  | gone {d turns} (hidle : a.work = none) (hturns : a.board.turns = d :: turns) (hnone : a.board.standing d = none) :
      Step C a none { a with board := { a.board with turns } }
  | turn {d turns k k' work} (hidle : a.work = none) (hturns : a.board.turns = d :: turns)
      (hk : a.board.standing d = some k) (hturned : Turned d k work k') :
      Step C a (work.bind SemanticWork.begins) { a with board := { a.board.set d (some k') with turns }, work }
  | finishes {w encoded σ b} (hwork : a.work = some w) (h : Finishes C a.board w encoded σ b) :
      Step C a (σ.map (w.channel, ·)) { a with board := b, work := none }

structure Sound (a : Floor P) (c : Channel) : Prop where
  known : (a.board.standing c).isSome ∨ c ∈ a.board.turns ∨ (∃ w, a.work = some w ∧ w.channel = c) → c ∈ a.opened
  turns : ∀ k, a.board.standing c = some k → a.board.turns.count c ≤ k.semantics.queued.toNat
  entry : ∀ k, a.board.standing c = some k → k.semantics.queued = true → a.board.closing = false → c ∈ a.board.turns
  due : ∀ k, a.board.standing c = some k → a.board.closing = false → k.needsTurn = false
  generation : ∀ k demand, a.board.standing c = some k → k.semantics.demand = some demand →
    demand.generation ≤ k.semantics.lastStart
  ready : ∀ k demand flight, a.board.standing c = some k → k.semantics.demand = some demand →
    demand.inFlight = some flight → k.semantics.queued = true → flight.rest.isReady = true
  held : ∀ k demand flight, a.board.standing c = some k → k.semantics.demand = some demand →
    demand.inFlight = some flight → (flight.rest = .encoding ↔ ∃ w, a.work = some w ∧ w.channel = c ∧ w.serial = flight.serial)

structure Follows (a b : Floor P) (σ : Option (Channel × Signal)) : Prop where
  others : ∀ c k', (∀ signal, σ ≠ some (c, signal)) → b.board.standing c = some k' →
    (∃ k, a.board.standing c = some k ∧ k'.exchange = k.exchange) ∨ c ∉ a.opened ∧ k'.exchange = {}
  own : ∀ c signal, σ = some (c, signal) → ∃ k x, a.board.standing c = some k ∧ k.exchange.next signal = some x ∧
    ∀ k', b.board.standing c = some k' → k'.exchange = x

theorem Sound.congr {a b : Floor P} (h : Sound a c) (hstanding : b.board.standing c = a.board.standing c)
    (hturns : b.board.turns.count c = a.board.turns.count c)
    (hclo : a.board.closing = true → b.board.closing = true) (hop : ∀ d ∈ a.opened, d ∈ b.opened)
    (hwork : ∀ w, w.channel = c → (b.work = some w ↔ a.work = some w)) : Sound b c := by
  have hmem : c ∈ b.board.turns ↔ c ∈ a.board.turns := by
    rw [← List.count_pos_iff, ← List.count_pos_iff, hturns]
  have ho (hcl : b.board.closing = false) : a.board.closing = false := by
    by_contra hclo'
    rw [hclo (by simpa using hclo')] at hcl
    cases hcl
  have hh (serial : Nat) : (∃ w, b.work = some w ∧ w.channel = c ∧ w.serial = serial) ↔
      ∃ w, a.work = some w ∧ w.channel = c ∧ w.serial = serial := by
    refine ⟨fun ⟨w, hw, hc, hserial⟩ => ⟨w, (hwork w hc).mp hw, hc, hserial⟩,
      fun ⟨w, hw, hc, hserial⟩ => ⟨w, (hwork w hc).mpr hw, hc, hserial⟩⟩
  refine ⟨?_, ?_, ?_, ?_, ?_, ?_, ?_⟩
  · intro ha
    refine hop c (h.known ?_)
    rcases ha with hs | ht | ⟨w, hw, hc⟩
    · exact .inl (hstanding ▸ hs)
    · exact .inr (.inl (hmem.mp ht))
    · exact .inr (.inr ⟨w, (hwork w hc).mp hw, hc⟩)
  · intro k hk
    rw [hturns]
    exact h.turns k (hstanding ▸ hk)
  · intro k hk hqueued hcl
    exact hmem.mpr (h.entry k (hstanding ▸ hk) hqueued (ho hcl))
  · intro k hk hcl
    exact h.due k (hstanding ▸ hk) (ho hcl)
  · intro k demand hk
    exact h.generation k demand (hstanding ▸ hk)
  · intro k demand flight hk
    exact h.ready k demand flight (hstanding ▸ hk)
  · intro k demand flight hk hdemand hflight
    rw [hh]
    exact h.held k demand flight (hstanding ▸ hk) hdemand hflight

theorem Sound.of_none {a b : Floor P} (h : Sound a c) (hnone : b.board.standing c = none)
    (hturns : c ∈ b.board.turns → c ∈ a.board.turns) (ho : ∀ d ∈ a.opened, d ∈ b.opened)
    (hwork : ∀ w, w.channel = c → b.work = some w → a.work = some w) : Sound b c := by
  have ha {k : Standing P} {p : Prop} (hk : b.board.standing c = some k) : p := by
    rw [hnone] at hk
    cases hk
  refine ⟨?_, fun _ hk => ha hk, fun _ hk => ha hk, fun _ hk => ha hk, fun _ _ hk => ha hk,
    fun _ _ _ hk => ha hk, fun _ _ _ hk => ha hk⟩
  rintro (hs | ht | ⟨w, hw, hc⟩)
  · rw [hnone] at hs
    cases hs
  · exact ho c (h.known (.inr (.inl (hturns ht))))
  · exact ho c (h.known (.inr (.inr ⟨w, hwork w hc hw, hc⟩)))

structure Fits (a : Floor P) (c : Channel) (k : Standing P) (work : Option (SemanticWork P)) : Prop where
  opened : c ∈ a.opened
  turns : a.board.turns.count c ≤ k.semantics.queued.toNat
  entry : k.semantics.queued = true → a.board.closing = false → c ∈ a.board.turns
  generation : ∀ demand, k.semantics.demand = some demand → demand.generation ≤ k.semantics.lastStart
  ready : ∀ demand flight, k.semantics.demand = some demand → demand.inFlight = some flight →
    k.semantics.queued = true → flight.rest.isReady = true
  held : ∀ demand flight, k.semantics.demand = some demand → demand.inFlight = some flight →
    (flight.rest = .encoding ↔ ∃ w, work = some w ∧ w.channel = c ∧ w.serial = flight.serial)

theorem Board.set_same (a : Board P) (c : Channel) (k : Option (Standing P)) : (a.set c k).standing c = k :=
  Function.update_self ..

theorem Board.set_other (a : Board P) {c d : Channel} (h : d ≠ c) (k : Option (Standing P)) :
    (a.set c k).standing d = a.standing d := Function.update_of_ne h ..

namespace Fits
variable {a : Floor P} {k : Standing P} {work : Option (SemanticWork P)}

theorem sound (h : Fits a c k work) {b : Floor P} (hstanding : b.board.standing c = some k)
    (hturns : b.board.turns = a.board.turns) (hc : b.board.closing = a.board.closing)
    (hwork : b.work = work) (ho : b.opened = a.opened)
    (hidle : a.board.closing = false → k.needsTurn = false) : Sound b c := by
  have hget {k' : Standing P} (hk : b.board.standing c = some k') : k' = k :=
    Option.mem_unique hk hstanding
  refine ⟨fun _ => ho ▸ h.opened, ?_, ?_, ?_, ?_, ?_, ?_⟩
  · intro k' hk
    rw [hget hk, hturns]
    exact h.turns
  · intro k' hk
    rw [hget hk, hturns, hc]
    exact h.entry
  · intro k' hk
    rw [hget hk, hc]
    exact hidle
  · intro k' demand hk
    rw [hget hk]
    exact h.generation demand
  · intro k' demand flight hk
    rw [hget hk]
    exact h.ready demand flight
  · intro k' demand flight hk
    rw [hget hk, hwork]
    exact h.held demand flight

theorem ready_of_needsTurn (hneeds : k.needsTurn = true) : k.semantics.queued = false ∧
    ∀ demand flight, k.semantics.demand = some demand → demand.inFlight = some flight → flight.rest.isReady = true := by
  unfold Standing.needsTurn at hneeds
  simp only [Bool.and_eq_true, Bool.not_eq_true'] at hneeds
  obtain ⟨⟨-, hqueued⟩, hwork⟩ := hneeds
  refine ⟨hqueued, fun demand flight hdemand hflight => ?_⟩
  unfold SemanticSlot.hasWork at hwork
  rw [hdemand, Option.any_some] at hwork
  rw [hflight] at hwork
  exact hwork

theorem queued (h : Fits a c k work) {b : Board P} (hqueue : Queue (a.board.set c (some k)) c b) :
    Sound ⟨b, work, a.opened⟩ c ∧ (∃ k', b.standing c = some k' ∧ k'.exchange = k.exchange) ∧
      (∀ d, d ≠ c → b.standing d = a.board.standing d ∧ b.turns.count d = a.board.turns.count d) ∧
      (a.board.closing = true → b.closing = true) := by
  have hs : (a.board.set c (some k)).standing c = some k := Board.set_same ..
  cases hqueue with
  | idle hidle =>
    refine ⟨h.sound hs rfl rfl rfl rfl fun _ => hidle k hs, ⟨k, hs, rfl⟩, fun d hd => ?_, id⟩
    exact ⟨Board.set_other _ hd _, rfl⟩
  | @push k₁ hk hneeds =>
    obtain rfl := Option.mem_unique hs hk
    obtain ⟨hqueued, hready⟩ := ready_of_needsTurn hneeds
    have hco : a.board.turns.count c = 0 := by
      have hl := h.turns
      rw [hqueued] at hl
      simpa using hl
    have hf : Fits ⟨{ a.board with turns := a.board.turns ++ [c] }, work, a.opened⟩ c k.enqueued work := by
      refine ⟨h.opened, ?_, ?_, h.generation, fun demand flight hdemand hflight _ => hready demand flight hdemand hflight,
        h.held⟩
      · rw [List.count_append, hco, List.count_singleton_self]
        exact le_rfl
      · intro _ _
        exact List.mem_append_right _ List.mem_cons_self
    have hnew : (({ (a.board.set c (some k)).set c (some k.enqueued) with
        turns := (a.board.set c (some k)).turns ++ [c] } : Board P)).standing c = some k.enqueued := Board.set_same ..
    refine ⟨hf.sound hnew rfl rfl rfl rfl fun _ => ?_, ⟨_, hnew, rfl⟩, fun d hd => ⟨?_, ?_⟩, id⟩
    · simp [Standing.needsTurn, Standing.enqueued]
    · exact (Board.set_other _ hd _).trans (Board.set_other _ hd _)
    · change (a.board.turns ++ [c]).count d = _
      rw [List.count_append, List.count_singleton]
      simp [hd.symm]
  | @fail k₁ hk hneeds =>
    obtain rfl := Option.mem_unique hs hk
    obtain ⟨hqueued, hready⟩ := ready_of_needsTurn hneeds
    have hf : Fits ⟨{ a.board with closing := true }, work, a.opened⟩ c k.enqueued work := by
      refine ⟨h.opened, ?_, fun _ hc => ?_, h.generation,
        fun demand flight hdemand hflight _ => hready demand flight hdemand hflight, h.held⟩
      · refine h.turns.trans ?_
        rw [hqueued]
        exact Nat.zero_le _
      · cases hc
    have hnew : (({ (a.board.set c (some k)).set c (some k.enqueued) with closing := true } : Board P)).standing c =
        some k.enqueued := Board.set_same ..
    refine ⟨hf.sound hnew rfl rfl rfl rfl fun _ => ?_, ⟨_, hnew, rfl⟩, fun d hd => ⟨?_, rfl⟩, fun _ => rfl⟩
    · simp [Standing.needsTurn, Standing.enqueued]
    · exact (Board.set_other _ hd _).trans (Board.set_other _ hd _)

end Fits

namespace Sound
variable {a : Floor P} {k k' : Standing P}

theorem fits (h : Sound a c) (hk : a.board.standing c = some k)
    (hqueued : k'.semantics.queued = k.semantics.queued)
    (hg : ∀ demand, k'.semantics.demand = some demand → demand.generation ≤ k'.semantics.lastStart)
    (hflight : ∀ demand flight, k'.semantics.demand = some demand → demand.inFlight = some flight →
      ∃ demand', k.semantics.demand = some demand' ∧ demand'.inFlight = some flight) : Fits a c k' a.work where
  opened := h.known (.inl (by rw [hk]; rfl))
  turns := hqueued ▸ h.turns k hk
  entry := hqueued ▸ h.entry k hk
  generation := hg
  ready demand flight hdemand hs := by
    obtain ⟨demand', hdemand', hs'⟩ := hflight demand flight hdemand hs
    rw [hqueued]
    exact h.ready k demand' flight hk hdemand' hs'
  held demand flight hdemand hs := by
    obtain ⟨demand', hdemand', hs'⟩ := hflight demand flight hdemand hs
    exact h.held k demand' flight hk hdemand' hs'

theorem fits_reduce (h : Sound a c) (hk : a.board.standing c = some k) (hr : Reduce k k') :
    Fits a c k' a.work ∧ k'.needsTurn = false := by
  cases hr with
  | hidden =>
    refine ⟨h.fits hk rfl (fun demand hdemand => h.generation k demand hk hdemand)
      (fun demand flight hdemand hflight => ⟨demand, hdemand, hflight⟩), rfl⟩
  | stopped =>
    refine ⟨h.fits hk rfl (fun demand hdemand => by cases hdemand) (fun demand flight hdemand => by cases hdemand), ?_⟩
    simp [Standing.needsTurn, Standing.demanding, SemanticSlot.hasWork]
  | ended =>
    refine ⟨h.fits hk rfl (fun demand hdemand => by cases hdemand) (fun demand flight hdemand => by cases hdemand), ?_⟩
    simp [Standing.needsTurn]

theorem fits_alter (h : Sound a c) (hk : a.board.standing c = some k) (ha : Alter k k') :
    Fits a c k' a.work ∧ k'.exchange = k.exchange := by
  cases ha with
  | shown =>
    exact ⟨h.fits hk rfl (fun demand hdemand => h.generation k demand hk hdemand)
      (fun demand flight hdemand hflight => ⟨demand, hdemand, hflight⟩), rfl⟩
  | @offered demand hdemand model =>
    refine ⟨h.fits hk rfl (fun demand' hs => ?_) (fun demand' flight hs hflight => ?_), ?_⟩
    · cases hs
      exact h.generation k demand hk hdemand
    · cases hs
      exact ⟨demand, hdemand, hflight⟩
    · unfold Standing.exchange Standing.demanding
      rw [hdemand]
      rfl

theorem fits_acknowledged (h : Sound a c) (hk : a.board.standing c = some k) {demand : Demand P}
    (hdemand : k.semantics.demand = some demand) (acknowledged : Option (Nat × P.Model)) :
    Fits a c (k.demanding (some { demand with inFlight := none, acknowledged })) a.work := by
  refine h.fits hk rfl (fun demand' hs => ?_) (fun demand' flight' hs hflight' => ?_)
  · cases hs
    exact h.generation k demand hk hdemand
  · cases hs
    cases hflight'

theorem fits_demanded (h : Sound a c) (hk : a.board.standing c = some k) (generation : Nat) :
    Fits a c (k.demanded generation) a.work ∧ (k.demanded generation).needsTurn = false := by
  refine ⟨h.fits hk rfl (fun demand hdemand => ?_) (fun demand flight hdemand hflight => ?_), ?_⟩
  · cases hdemand
    exact le_rfl
  · cases hdemand
    cases hflight
  · simp [Standing.needsTurn, Standing.demanded, SemanticSlot.hasWork]

end Sound

/-! ## Steps keep every channel sound -/

namespace Floor
variable {a b : Floor P} {d : Channel} {k k' : Standing P} {work : Option (SemanticWork P)}

theorem sound_quiet {b : Board P} (h : Sound a c) (hq : Quiet a.board b) : Sound { a with board := b } c := by
  obtain ⟨closing, hc, rfl⟩ := hq
  exact h.congr rfl rfl hc (fun _ hd => hd) (fun _ _ => Iff.rfl)

theorem sound_leave {b : Board P} (h : Sound a c)
    (hq : Quiet (a.board.set d none) b)
    (hwork : ∀ w, work = some w → a.work = some w) (hke : ∀ w, w.channel ≠ d → a.work = some w → work = some w) :
    Sound ⟨b, work, a.opened⟩ c := by
  obtain ⟨closing, hc, rfl⟩ := hq
  by_cases hd : c = d
  · subst hd
    exact h.of_none (Board.set_same ..) id (fun _ hd => hd) (fun w _ hw => hwork w hw)
  refine h.congr (Board.set_other _ hd _) rfl hc (fun _ hd => hd) fun w hw => ⟨hwork w, hke w ?_⟩
  rw [hw]
  exact hd

theorem sound_drops {b : Board P} (h : Sound a c) (hd : Drops a.board d b) :
    Sound { a with board := b } c := by
  rcases hd with hq | hq
  · exact sound_quiet h hq
  · exact sound_leave h hq (fun _ hw => hw) (fun _ _ hw => hw)

theorem sound_other {b : Board P} (h : Sound a c) (hd : c ≠ d)
    (hstanding : b.standing c = a.board.standing c) (hturns : b.turns.count c = a.board.turns.count c)
    (hc : a.board.closing = true → b.closing = true)
    (hwork : ∀ w, w.channel ≠ d → (work = some w ↔ a.work = some w)) : Sound ⟨b, work, a.opened⟩ c := by
  refine h.congr hstanding hturns hc (fun _ hd => hd) fun w hw => hwork w ?_
  rw [hw]
  exact hd

/-- One channel changes to what fits and needs no turn. -/
theorem sound_set (h : Sound a c) (hd : Fits a d k a.work ∧ k.needsTurn = false) :
    Sound { a with board := a.board.set d (some k) } c := by
  by_cases hc : c = d
  · subst hc
    exact hd.1.sound (Board.set_same ..) rfl rfl rfl rfl fun _ => hd.2
  · exact sound_other h hc (Board.set_other _ hc _) rfl id fun _ _ => Iff.rfl

/-- One channel changes to what fits, and its turn is queued. -/
theorem sound_queued {b : Board P} (h : Sound a c)
    (hd : Fits a d k work) (hqueue : Queue (a.board.set d (some k)) d b)
    (hwork : ∀ w, w.channel ≠ d → (work = some w ↔ a.work = some w)) : Sound ⟨b, work, a.opened⟩ c := by
  obtain ⟨hso, -, ho, hcl⟩ := hd.queued hqueue
  by_cases hc : c = d
  · exact hc ▸ hso
  · exact sound_other h hc (ho c hc).1 (ho c hc).2 hcl hwork

variable {w : SemanticWork P}

theorem turned_channel (h : Turned d k work k')
    (hw : work = some w) : w.channel = d := by
  cases h with
  | idle | stale | stuck => cases hw
  | resumes | start =>
    cases hw
    rfl

variable {turns : List Channel}

theorem turn_queued (h : Sound a c) (hturns : a.board.turns = c :: turns)
    (hk : a.board.standing c = some k) : k.semantics.queued = true ∧ turns.count c = 0 := by
  have hc : turns.count c + 1 ≤ k.semantics.queued.toNat := by
    have hl := h.turns k hk
    rwa [hturns, List.count_cons_self] at hl
  cases hqueued : k.semantics.queued with
  | false =>
    rw [hqueued] at hc
    simp at hc
  | true =>
    rw [hqueued] at hc
    exact ⟨rfl, by simpa using hc⟩

theorem sound_turn (h : Sound a c)
    (hidle : a.work = none) (hturns : a.board.turns = c :: turns) (hk : a.board.standing c = some k)
    (hturned : Turned c k work k') : Sound ⟨{ a.board.set c (some k') with turns }, work, a.opened⟩ c := by
  obtain ⟨hqueued, hz⟩ := turn_queued h hturns hk
  have ho := h.known (.inl (by rw [hk]; rfl))
  -- the turn ends: nothing is queued, so only the flight and the work are left to compare
  have hso (hfr : k'.semantics.queued = false) (hneeds : k'.needsTurn = false)
      (hg : ∀ demand, k'.semantics.demand = some demand → demand.generation ≤ k'.semantics.lastStart)
      (hh : ∀ demand flight, k'.semantics.demand = some demand → demand.inFlight = some flight →
        (flight.rest = .encoding ↔ ∃ w, work = some w ∧ w.channel = c ∧ w.serial = flight.serial)) :
      Sound ⟨{ a.board.set c (some k') with turns }, work, a.opened⟩ c := by
    have hf : Fits ⟨{ a.board with turns }, work, a.opened⟩ c k' work := by
      refine ⟨ho, ?_, fun hy => ?_, hg, fun _ _ _ _ hy => ?_, hh⟩
      · rw [hz]
        exact Nat.zero_le _
      · rw [hfr] at hy
        cases hy
      · rw [hfr] at hy
        cases hy
    exact hf.sound (Board.set_same ..) rfl rfl rfl rfl fun _ => hneeds
  cases hturned with
  | idle hempty =>
    refine hso rfl ?_ (fun demand hdemand => h.generation k demand hk hdemand) (fun demand flight hdemand hflight => ?_)
    · by_contra hneeds
      rw [Bool.not_eq_false] at hneeds
      unfold Standing.needsTurn at hneeds
      simp only [Bool.and_eq_true, Bool.not_eq_true'] at hneeds
      obtain ⟨⟨⟨hvisible, hending⟩, -⟩, hwork⟩ := hneeds
      cases hdemand : k.semantics.demand with
      | none => simp [SemanticSlot.hasWork, Standing.dequeued, hdemand] at hwork
      | some demand =>
        obtain ⟨hflight, hpending⟩ := hempty hvisible hending demand hdemand
        simp [SemanticSlot.hasWork, Standing.dequeued, hdemand, hflight, hpending] at hwork
    · have hh := h.held k demand flight hk hdemand hflight
      rw [hidle] at hh
      exact hh
  | @stale demand hdemand hflight =>
    refine hso rfl ?_ (fun demand' hs => ?_) (fun demand' flight hs hflight' => ?_)
    · simp [Standing.needsTurn, Standing.demanding, Standing.dequeued, SemanticSlot.hasWork, hflight]
    · cases hs
      exact h.generation k demand hk hdemand
    · cases hs
      rw [hflight] at hflight'
      cases hflight'
  | @stuck demand flight hdemand hflight hready =>
    -- a queued turn has a ready revision
    rw [h.ready k demand flight hk hdemand hflight hqueued] at hready
    cases hready
  | @resumes demand flight encoding hdemand hflight hrest =>
    refine hso rfl ?_ (fun demand' hs => ?_) (fun demand' flight' hs hflight' => ?_)
    · simp [Standing.needsTurn, Standing.demanding, Standing.dequeued, SemanticSlot.hasWork, Rest.isReady]
    · cases hs
      exact h.generation k demand hk hdemand
    · cases hs
      cases hflight'
      exact ⟨fun _ => ⟨_, rfl, rfl, rfl⟩, fun _ => rfl⟩
  | @start demand model hdemand hflight =>
    refine hso rfl ?_ (fun demand' hs => ?_) (fun demand' flight' hs hflight' => ?_)
    · simp [Standing.needsTurn, SemanticSlot.hasWork, Rest.isReady]
    · cases hs
      exact h.generation k demand hk hdemand
    · cases hs
      cases hflight'
      exact ⟨fun _ => ⟨_, rfl, rfl, rfl⟩, fun _ => rfl⟩

variable {demand : Demand P} {flight : InFlight P}

/-- The revision that work is of is being encoded, so no turn of its channel is queued. -/
theorem holding_encoding
    (h : Sound a w.channel) (hwork : a.work = some w) (hh : Holding a.board w k demand flight) :
    flight.rest = .encoding ∧ k.semantics.queued = false := by
  have he : flight.rest = .encoding :=
    (h.held k demand flight hh.hstanding hh.hdemand hh.hflight).mpr
      ⟨w, hwork, rfl, hh.hserial.symm⟩
  refine ⟨he, ?_⟩
  by_contra hqueued
  have hready := h.ready k demand flight hh.hstanding hh.hdemand hh.hflight (by simpa using hqueued)
  rw [he] at hready
  cases hready

theorem fits_finished (demand' : Demand P) (h : Sound a w.channel) (hwork : a.work = some w)
    (hh : Holding a.board w k demand flight) (hg : demand'.generation = demand.generation)
    (hrest : ∀ flight', demand'.inFlight = some flight' → flight'.rest ≠ .encoding) :
    Fits a w.channel (k.demanding (some demand')) none := by
  obtain ⟨-, hqueued⟩ := holding_encoding h hwork hh
  have hk := hh.hstanding
  refine ⟨h.known (.inl (by rw [hk]; rfl)), h.turns k hk, h.entry k hk, fun demand'' hs => ?_,
    fun demand'' flight' hs hflight hy => ?_, fun demand'' flight' hs hflight => ?_⟩
  · cases hs
    rw [hg]
    exact h.generation k demand hk hh.hdemand
  · change k.semantics.queued = true at hy
    rw [hqueued] at hy
    cases hy
  · cases hs
    refine ⟨fun he => absurd he (hrest flight' hflight), ?_⟩
    rintro ⟨w', hw', -⟩
    cases hw'

theorem sound_finishes {encoded : Option (P.SemanticUpdate × P.Encoding)} {σ : Option Signal}
    {b : Board P} (ha : ∀ c, Sound a c) (hwork : a.work = some w) (h : Finishes C a.board w encoded σ b) (c : Channel) :
    Sound ⟨b, none, a.opened⟩ c := by
  have hnone (w' : SemanticWork P) (hw' : w'.channel ≠ w.channel) : ((none : Option (SemanticWork P)) = some w' ↔
      a.work = some w') := by
    rw [hwork]
    constructor
    · intro he
      cases he
    · intro he
      cases he
      exact absurd rfl hw'
  cases h with
  | late hlate =>
    by_cases hc : c = w.channel
    · subst hc
      have hso := ha w.channel
      refine ⟨fun han => hso.known ?_, hso.turns, hso.entry, hso.due, hso.generation, hso.ready, ?_⟩
      · rcases han with hs | ht | ⟨w', hw', -⟩
        · exact .inl hs
        · exact .inr (.inl ht)
        · cases hw'
      intro k demand flight hk hdemand hflight
      rw [hso.held k demand flight hk hdemand hflight]
      constructor
      · rintro ⟨w', hw', -, hserial⟩
        rw [hwork] at hw'
        cases hw'
        exact absurd ⟨hk, hdemand, hflight, hserial.symm⟩ (hlate k demand flight)
      · rintro ⟨w', hw', -⟩
        cases hw'
    · exact sound_other (ha c) hc rfl rfl id hnone
  | @equalled k demand flight _ hencoded hh hqueue =>
    refine sound_queued (k := k.demanding (some { demand with inFlight := none })) (ha c)
      (fits_finished _ (ha _) hwork hh rfl fun flight' hflight' => ?_) hqueue hnone
    cases hflight'
  | @wrote k demand flight update encoding _ _ hencoded hh hqueue hσ =>
    refine sound_queued (ha c) (fits_finished _ (ha _) hwork hh ?_ fun flight' hflight' => ?_) hqueue hnone
    · split <;> rfl
    split at hflight'
    · cases hflight'
      simp
    · cases hflight'
      simp
  | failed hk =>
    refine sound_leave (ha c) .refl (fun w' hw' => by cases hw') fun w' hw' hs => ?_
    rw [hwork] at hs
    cases hs
    exact absurd rfl hw'

theorem Step.sound {σ : Option (Channel × Signal)} (ha : ∀ c, Sound a c) (h : Step C a σ b) (c : Channel) :
    Sound b c := by
  cases h with
  | drops hdr hσ => exact sound_drops (ha c) hdr
  | @opens d hd =>
    by_cases hc : c = d
    · subst hc
      have hno : c ∉ a.board.turns := fun hmem => hd ((ha c).known (.inr (.inl hmem)))
      have hfi : Fits ⟨a.board, a.work, c :: a.opened⟩ c Slot.fresh.standing a.work := by
        refine ⟨List.mem_cons_self, ?_, fun hy => ?_, fun demand hdemand => ?_, fun demand flight hdemand => ?_,
          fun demand flight hdemand => ?_⟩
        · rw [List.count_eq_zero_of_not_mem hno]
          exact Nat.zero_le _
        · cases hy
        · cases hdemand
        · cases hdemand
        · cases hdemand
      refine hfi.sound (Board.set_same ..) rfl rfl rfl rfl fun _ => ?_
      simp [Standing.needsTurn, Slot.standing, Slot.fresh, SemanticSlot.hasWork]
    · exact (ha c).congr (Board.set_other _ hc _) rfl id (fun d hd => List.mem_cons_of_mem _ hd) fun _ _ => Iff.rfl
  | @reduces d k k' _ hk hr hσ =>
    exact sound_set (ha c) ((ha d).fits_reduce hk hr)
  | @demanded d k generation hk =>
    exact sound_set (ha c) ((ha d).fits_demanded hk generation)
  | @alters d k k' b hk hal hqueue =>
    exact sound_queued (ha c) ((ha d).fits_alter hk hal).1 hqueue fun _ _ => Iff.rfl
  | @acknowledges d k demand flight b hk hdemand hflight hwritten hqueue =>
    exact sound_queued (ha c) ((ha d).fits_acknowledged hk hdemand _) hqueue fun _ _ => Iff.rfl
  | @gone d turns hidle hturns hnone =>
    by_cases hc : c = d
    · subst hc
      refine (ha c).of_none hnone (fun hmem => ?_) (fun _ hd => hd) (fun _ _ hw => hw)
      rw [hturns]
      exact List.mem_cons_of_mem _ hmem
    · refine sound_other (ha c) hc rfl ?_ id fun _ _ => Iff.rfl
      rw [hturns, List.count_cons_of_ne (fun h => hc h.symm)]
  | @turn d turns k k' work hidle hturns hk hturned =>
    by_cases hc : c = d
    · subst hc
      exact sound_turn (ha c) hidle hturns hk hturned
    refine sound_other (ha c) hc (Board.set_other _ hc _) ?_ id fun w hw => ?_
    · rw [hturns, List.count_cons_of_ne (fun h => hc h.symm)]
    rw [hidle]
    constructor
    · intro hs
      exact absurd (turned_channel hturned hs) hw
    · intro hs
      cases hs
  | finishes hwork hf => exact sound_finishes ha hwork hf c

/-! ## Steps move the exchange -/

theorem exchange_some (h : k.semantics.demand = some demand) : k.exchange =
    { started := k.semantics.started, generation := some demand.generation,
      acknowledged := demand.acknowledged.map (·.1), transfer := demand.transfer } := by
  unfold Standing.exchange
  rw [h]

theorem exchange_none (h : k.semantics.demand = none) :
    k.exchange = { started := k.semantics.started } := by
  unfold Standing.exchange
  rw [h]

theorem exchange_started (k : Standing P) : k.exchange.started = k.semantics.started := by
  unfold Standing.exchange
  split <;> rfl

theorem transfer_some (h : demand.inFlight = some flight) :
    demand.transfer = some ⟨flight.serial, flight.revision, flight.rest.isWritten⟩ := by
  unfold Demand.transfer
  rw [h]
  rfl

theorem follows_silent (ho : ∀ c, c ≠ d → b.board.standing c = a.board.standing c)
    (hown : ∀ k', b.board.standing d = some k' →
      (∃ k, a.board.standing d = some k ∧ k'.exchange = k.exchange) ∨ d ∉ a.opened ∧ k'.exchange = {}) :
    Follows a b none := by
  refine ⟨fun c k' _ hk' => ?_, fun c signal hσ => ?_⟩
  · by_cases hc : c = d
    · subst hc
      exact hown k' hk'
    · exact .inl ⟨k', (ho c hc) ▸ hk', rfl⟩
  · cases hσ

theorem follows_signal {signal : Signal} {x : Exchange}
    (ho : ∀ c, c ≠ d → b.board.standing c = a.board.standing c) (hk : a.board.standing d = some k)
    (hne : k.exchange.next signal = some x) (hown : ∀ k', b.board.standing d = some k' → k'.exchange = x) :
    Follows a b (some (d, signal)) := by
  refine ⟨fun c k' hσ hk' => ?_, fun c signal' hσ => ?_⟩
  · have hc : c ≠ d := by
      rintro rfl
      exact hσ signal rfl
    exact .inl ⟨k', (ho c hc) ▸ hk', rfl⟩
  · obtain ⟨rfl, rfl⟩ : d = c ∧ signal = signal' := by simpa using hσ
    exact ⟨k, x, hk, hne, hown⟩

theorem next_began (hdemand : k.semantics.demand = some demand)
    (hflight : demand.inFlight = none) (revision : Nat) :
    k.exchange.next (.began (k.semantics.started + 1) ⟨demand.generation, revision, demand.acknowledged.map (·.1)⟩) =
      some { k.exchange with started := k.semantics.started + 1,
                             transfer := some ⟨k.semantics.started + 1, revision, false⟩ } := by
  rw [exchange_some hdemand]
  unfold Exchange.next Demand.transfer
  rw [hflight]
  exact if_pos ⟨Nat.lt_succ_self _, rfl, rfl, rfl⟩

theorem follows_turn
    (h : Sound a d) (hturns : a.board.turns = d :: turns) (hk : a.board.standing d = some k)
    (hturned : Turned d k work k') :
    Follows a ⟨{ a.board.set d (some k') with turns }, work, a.opened⟩ (work.bind SemanticWork.begins) := by
  have ho (c : Channel) (hc : c ≠ d) : (a.board.set d (some k')).standing c = a.board.standing c :=
    Board.set_other _ hc _
  have hs (he : k'.exchange = k.exchange) (k'' : Standing P)
      (hk'' : (a.board.set d (some k')).standing d = some k'') :
      (∃ k, a.board.standing d = some k ∧ k''.exchange = k.exchange) ∨ d ∉ a.opened ∧ k''.exchange = {} := by
    obtain rfl := Option.some.inj ((Board.set_same ..).symm.trans hk'')
    exact .inl ⟨k, hk, he⟩
  cases hturned with
  | idle => exact follows_silent ho (hs rfl)
  | @stale demand hdemand hflight =>
    refine follows_silent ho (hs ?_)
    rw [exchange_some hdemand]
    rfl
  | @stuck demand flight hdemand hflight hready =>
    rw [h.ready k demand flight hk hdemand hflight (turn_queued h hturns hk).1] at hready
    cases hready
  | @resumes demand flight encoding hdemand hflight hrest =>
    refine follows_silent ho (hs ?_)
    rw [exchange_some hdemand, transfer_some hflight, hrest]
    rfl
  | @start demand model hdemand hflight =>
    refine follows_signal ho hk (next_began hdemand hflight (P.revision model)) fun k'' hk'' => ?_
    obtain rfl := Option.some.inj ((Board.set_same ..).symm.trans hk'')
    rw [exchange_some hdemand]
    rfl

theorem follows_finishes {encoded : Option (P.SemanticUpdate × P.Encoding)} {σ : Option Signal}
    {b : Board P} (hal : ∀ c, Sound a c) (hwork : a.work = some w) (h : Finishes C a.board w encoded σ b) :
    Follows a ⟨b, none, a.opened⟩ (σ.map (w.channel, ·)) := by
  cases h with
  | late hlate => exact follows_silent (d := w.channel) (fun _ _ => rfl) fun k' hk' => .inl ⟨k', hk', rfl⟩
  | @equalled k demand flight _ hencoded hh hqueue =>
    obtain ⟨he, -⟩ := holding_encoding (hal _) hwork hh
    have hf := fits_finished { demand with inFlight := none } (hal _) hwork hh rfl
      fun flight' hflight' => by cases hflight'
    obtain ⟨-, ⟨k', hk', hex⟩, ho, -⟩ := hf.queued hqueue
    refine follows_signal (fun c hc => (ho c hc).1) hh.hstanding
      (x := { k.exchange with transfer := none }) ?_ fun k'' hk'' => ?_
    · rw [exchange_some hh.hdemand, transfer_some hh.hflight, he, hh.hserial]
      exact if_pos rfl
    · obtain rfl := Option.mem_unique hk' hk''
      rw [hex, exchange_some hh.hdemand]
      rfl
  | @wrote k demand flight update encoding _ _ hencoded hh hqueue hσ =>
    obtain ⟨he, -⟩ := holding_encoding (hal _) hwork hh
    have hf := fits_finished (if P.hasTail update
        then { demand with inFlight := some { flight with rest := .written }, sentHigh := some flight.revision }
        else { demand with inFlight := some { flight with rest := .ready encoding } }) (hal _) hwork hh
      (by split <;> rfl) fun flight' hflight' => by
        split at hflight'
        · cases hflight'
          simp
        · cases hflight'
          simp
    obtain ⟨-, ⟨k', hk', hex⟩, ho, -⟩ := hf.queued hqueue
    have ha : k'.exchange = { k.exchange with
        transfer := some ⟨w.serial, flight.revision, P.hasTail update⟩ } := by
      rw [hex, exchange_some hh.hdemand, ← hh.hserial]
      cases ht : P.hasTail update <;> rfl
    rcases hσ with rfl | ⟨rfl, ht⟩
    · refine follows_signal (fun c hc => (ho c hc).1) hh.hstanding
        (x := { k.exchange with transfer := some ⟨w.serial, flight.revision, P.hasTail update⟩ }) ?_ fun k'' hk'' => ?_
      · rw [exchange_some hh.hdemand, transfer_some hh.hflight, he, hh.hserial]
        exact if_pos rfl
      · obtain rfl := Option.mem_unique hk' hk''
        exact ha
    · refine follows_silent (d := w.channel) (fun c hc => (ho c hc).1) fun k'' hk'' => ?_
      obtain rfl := Option.mem_unique hk' hk''
      refine .inl ⟨k, hh.hstanding, ?_⟩
      rw [ha, ht, exchange_some hh.hdemand, transfer_some hh.hflight, he, hh.hserial]
      rfl
  | failed hk =>
    refine follows_signal (fun c hc => Board.set_other _ hc _) hk rfl fun k' hk' => ?_
    exact absurd ((Board.set_same ..).symm.trans hk') (by simp)

theorem Step.follows {σ : Option (Channel × Signal)} (ha : ∀ c, Sound a c) (h : Step C a σ b) : Follows a b σ := by
  cases h with
  | @drops d b σ hdr hσ =>
    have ho (c : Channel) (hc : c ≠ d) : b.standing c = a.board.standing c := by
      rcases hdr with ⟨_, -, rfl⟩ | ⟨_, -, rfl⟩
      · rfl
      · exact Board.set_other _ hc _
    rcases hσ with rfl | ⟨rfl, hso, hnone⟩
    · refine follows_silent ho fun k' hk' => ?_
      rcases hdr with ⟨_, -, rfl⟩ | ⟨_, -, rfl⟩
      · exact .inl ⟨k', hk', rfl⟩
      · exact absurd ((Board.set_same ..).symm.trans hk') (by simp)
    · obtain ⟨k, hk⟩ := Option.isSome_iff_exists.mp hso
      refine follows_signal ho hk rfl fun k' hk' => ?_
      exact absurd (hnone.symm.trans hk') (by simp)
  | @opens d hd =>
    refine follows_silent (d := d) (fun c hc => Board.set_other _ hc _) fun k' hk' => .inr ⟨hd, ?_⟩
    obtain rfl := Option.some.inj ((Board.set_same ..).symm.trans hk')
    rfl
  | @reduces d k k' _ hk hr hσ =>
    have ho (c : Channel) (hc : c ≠ d) : (a.board.set d (some k')).standing c = a.board.standing c :=
      Board.set_other _ hc _
    rcases hσ with ⟨rfl, he⟩ | ⟨rfl, hdemand⟩
    · refine follows_silent ho fun k'' hk'' => .inl ⟨k, hk, ?_⟩
      obtain rfl := Option.some.inj ((Board.set_same ..).symm.trans hk'')
      exact he
    refine follows_signal ho hk rfl fun k'' hk'' => ?_
    obtain rfl := Option.some.inj ((Board.set_same ..).symm.trans hk'')
    have hst : k'.semantics.started = k.semantics.started := by cases hr <;> rfl
    rw [exchange_none hdemand, hst, exchange_started]
  | @demanded d k generation hk =>
    refine follows_signal (fun c hc => Board.set_other _ hc _) hk rfl fun k'' hk'' => ?_
    obtain rfl := Option.some.inj ((Board.set_same ..).symm.trans hk'')
    rw [exchange_started]
    rfl
  | @alters d k k' b hk hal hqueue =>
    obtain ⟨hfi, he⟩ := (ha d).fits_alter hk hal
    obtain ⟨-, ⟨k'', hk'', hs⟩, ho, -⟩ := hfi.queued hqueue
    refine follows_silent (d := d) (fun c hc => (ho c hc).1) fun k₁ hk₁ => .inl ⟨k, hk, ?_⟩
    obtain rfl := Option.mem_unique hk'' hk₁
    exact hs.trans he
  | @acknowledges d k demand flight b hk hdemand hflight hwritten hqueue =>
    obtain ⟨-, ⟨k', hk', he⟩, ho, -⟩ := ((ha d).fits_acknowledged hk hdemand _).queued hqueue
    refine follows_signal (fun c hc => (ho c hc).1) hk
      (x := { k.exchange with transfer := none, acknowledged := some flight.revision }) ?_ fun k'' hk'' => ?_
    · rw [exchange_some hdemand, transfer_some hflight, hwritten]
      exact if_pos ⟨rfl, rfl⟩
    · obtain rfl := Option.mem_unique hk' hk''
      rw [he, exchange_some hdemand]
      rfl
  | @gone d turns hidle hturns hnone =>
    exact follows_silent (d := d) (fun _ _ => rfl) fun k' hk' => .inl ⟨k', hk', rfl⟩
  | @turn d turns k k' work hidle hturns hk hturned => exact follows_turn (ha d) hturns hk hturned
  | finishes hwork hf => exact follows_finishes ha hwork hf

end Floor

end SpaceTerm.Outbox
