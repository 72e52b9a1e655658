import SpaceTerm.Outbox.Exchange
import SpaceTerm.Outbox.Queues

/-! # Semantic credit

The events of a connection as steps of its floor (`Step.floor`). What the channels' clients are told is
logged as signals, and the log of each channel is a run of its `Exchange`. -/

namespace SpaceTerm.Outbox
open Wire Lib
open Hierarchy (Refusal)

variable {P : Payloads} {C : Postcard P} {c : Channel}

/-! ## Signals -/

def Board.demands (a : Board P) (c : Channel) : Bool := (a.standing c).any (·.semantics.demand.isSome)

/-- What the end of a semantic encode signals: the message begins to be written, unless its revision was
abandoned or the outbox closes. -/
def finishSignal (C : Postcard P) (s : State P) (w : SemanticWork P) :
    Option (P.SemanticUpdate × P.Encoding) → Option Signal
  | none => if (s.flight w.channel w.serial).isSome then some (.equalled w.serial) else none
  | some (update, encoding) =>
    match encode C (.accessibility w.channel update) with
    | .ok _ =>
      if (finishSemantics C s w (some (update, encoding))).1.isEmpty then none
      else some (.wrote w.serial (P.hasTail update))
    | .error _ => if s.channels.contains w.channel then some .abandoned else none

namespace Connection

def semanticWork (s : Connection P) : Option (SemanticWork P) :=
  match s.work with
  | some (.semantics w) => some w
  | _ => none

def touches (s : Connection P) : Event P → Option Channel
  | .close c | .endChannel c _ | .view c _ | .acknowledge c _ | .endSemantics c => some c
  | .encoded _ =>
    match s.work with
    | some (.present ticket _ _) => some ticket.channel
    | _ => none
  | _ => none

def abandons (s t : Connection P) (c : Channel) : Option (Channel × Signal) :=
  if s.state.board.demands c && !t.state.board.demands c then some (c, .abandoned) else none

def signal (C : Postcard P) (s t : Connection P) : Event P → Option (Channel × Signal)
  | .startSemantics c generation =>
    if (s.state.board.standing c).isSome && (s.state.startSemantics c generation).1.isOk then
      some (c, .demanded generation)
    else none
  | .acknowledgeSemantics c generation revision =>
    if (s.state.board.standing c).any fun k => (k.exchange.next (.acknowledged generation revision)).isSome then
      some (c, .acknowledged generation revision)
    else none
  | .take _ => t.semanticWork.bind SemanticWork.begins
  | .encodedSemantics encoded =>
    s.semanticWork.bind fun w => (finishSignal C s.state w encoded).map (w.channel, ·)
  | e => (s.touches e).bind (s.abandons t)

def floor (s : Connection P) : Floor P := ⟨s.state.board, s.semanticWork, s.opened⟩

end Connection

/-! ## Finishing an encode -/

variable {w : SemanticWork P}

variable {s : State P}

theorem late_of_flight_none (h : s.flight w.channel w.serial = none)
    (k : Standing P) (demand : Demand P) (flight : InFlight P) : ¬Holding s.board w k demand flight :=
  fun hh => flight_none h hh.hstanding hh.hdemand hh.hflight hh.hserial

theorem holding_of_flight {slot : Slot P} {demand : Demand P} {flight : InFlight P}
    (h : s.flight w.channel w.serial = some (slot, demand, flight)) :
    Holding s.board w slot.standing demand flight := by
  obtain ⟨hs, hdemand, hflight, hserial⟩ := flight_some h
  exact ⟨State.board_get hs, hdemand, hflight, hserial⟩

variable {k : Standing P}

theorem queueSemantics_error {error : OutboxError} {next : State P}
    (h : s.queueSemantics C c = (.error error, next)) (hk : s.board.standing c = some k) :
    k.semantics.hasWork = true := by
  unfold State.queueSemantics at h
  split at h
  · cases h
  next slot hs =>
  rw [State.board_get hs] at hk
  cases hk
  split at h
  · cases h
  next hneeds =>
  simp only [Bool.or_eq_true, not_or, Bool.not_eq_true'] at hneeds
  change slot.semantics.hasWork = true
  simpa using hneeds.2

theorem finishes_unsent (s : State P) (w : SemanticWork P) :
    Finishes C s.board w none (finishSignal C s w none) (finishSemantics C s w none).2.board := by
  have hf : (finishSemantics C s w none).2 = s.semanticsUnsent C w.channel w.serial := rfl
  rw [hf]
  cases hflight : s.flight w.channel w.serial with
  | none =>
    have hs : finishSignal C s w none = none := by
      unfold finishSignal
      rw [hflight]
      rfl
    have hu : s.semanticsUnsent C w.channel w.serial = s := by
      unfold State.semanticsUnsent
      rw [hflight]
    rw [hs, hu]
    exact .late (late_of_flight_none hflight)
  | some found =>
    obtain ⟨slot, demand, flight⟩ := found
    have hs : finishSignal C s w none = some (.equalled w.serial) := by
      unfold finishSignal
      rw [hflight]
      rfl
    have hu : s.semanticsUnsent C w.channel w.serial =
        ((s.setDemand w.channel slot { demand with inFlight := none }).queueSemantics C w.channel).2 := by
      unfold State.semanticsUnsent
      rw [hflight]
    rw [hs, hu]
    exact .equalled rfl (holding_of_flight hflight) (queue_setDemand s w.channel slot _)

variable {frames : Frames P}

theorem framesOf_ne_nil {m : CoreMessage P} (h : encode C m = .ok frames) : frames ≠ [] := by
  obtain ⟨raw, hraw, rfl⟩ := encode_framesOf h
  obtain ⟨front, f, hframes, -⟩ := framesOf_last m hraw
  rw [hframes]
  simp

theorem finishSemantics_taken {update : P.SemanticUpdate}
    (hframes : encode C (.accessibility w.channel update) = .ok frames) (encoding : P.Encoding)
    {outcome : Except OutboxError Bool} {next : State P}
    (h : s.semanticsTaken C w.channel w.serial (if P.hasTail update then none else some encoding) = (outcome, next)) :
    (finishSemantics C s w (some (update, encoding))).2 = next ∧
      finishSignal C s w (some (update, encoding)) =
        if outcome.toOption = some true then some (.wrote w.serial (P.hasTail update)) else none := by
  have hne := framesOf_ne_nil hframes
  have hf : finishSemantics C s w (some (update, encoding)) =
      if outcome.toOption = some true then (frames, next) else ([], next) := by
    unfold finishSemantics
    dsimp only
    rw [hframes]
    dsimp only
    rw [h]
    rcases outcome with error | taken
    · rfl
    · cases taken <;> rfl
  have hs : finishSignal C s w (some (update, encoding)) =
      if (finishSemantics C s w (some (update, encoding))).1.isEmpty then none
      else some (.wrote w.serial (P.hasTail update)) := by
    unfold finishSignal
    dsimp only
    rw [hframes]
  rw [hs, hf]
  split
  · exact ⟨rfl, by simp [hne]⟩
  · exact ⟨rfl, rfl⟩

/-- The revision's demand once its next message was taken for writing. -/
def Demand.taken (demand : Demand P) (flight : InFlight P) (last : Bool) (encoding : P.Encoding) : Demand P :=
  if last
  then { demand with inFlight := some { flight with rest := .written }, sentHigh := some flight.revision }
  else { demand with inFlight := some { flight with rest := .ready encoding } }

theorem finishes_taken (s : State P) (w : SemanticWork P) (update : P.SemanticUpdate) (encoding : P.Encoding)
    (hframes : encode C (.accessibility w.channel update) = .ok frames) :
    Finishes C s.board w (some (update, encoding)) (finishSignal C s w (some (update, encoding)))
      (finishSemantics C s w (some (update, encoding))).2.board := by
  cases hflight : s.flight w.channel w.serial with
  | none =>
    have htaken : s.semanticsTaken C w.channel w.serial (if P.hasTail update then none else some encoding) =
        (.ok false, s) := by
      unfold State.semanticsTaken
      rw [hflight]
    obtain ⟨hst, hs⟩ := finishSemantics_taken hframes encoding htaken
    rw [hst, hs]
    exact .late (late_of_flight_none hflight)
  | some found =>
    obtain ⟨slot, demand, flight⟩ := found
    have hqueue := queue_setDemand (C := C) s w.channel slot (demand.taken flight (P.hasTail update) encoding)
    cases hout : (s.setDemand w.channel slot (demand.taken flight (P.hasTail update) encoding)).queueSemantics
      C w.channel with
    | mk outcome next =>
    rw [hout] at hqueue
    have htaken : s.semanticsTaken C w.channel w.serial (if P.hasTail update then none else some encoding) =
        (outcome.map fun _ => true, next) := by
      unfold State.semanticsTaken
      rw [hflight]
      cases ht : P.hasTail update with
      | false =>
        rw [ht] at hout
        have hout : (s.setDemand w.channel slot
            { demand with inFlight := some { flight with rest := .ready encoding } }).queueSemantics C w.channel =
              (outcome, next) := hout
        simp only [Bool.false_eq_true, if_false]
        rw [hout]
        cases outcome <;> rfl
      | true =>
        rw [ht] at hout
        have hout : (s.setDemand w.channel slot { demand with
            inFlight := some { flight with rest := .written }, sentHigh := some flight.revision }).queueSemantics
              C w.channel = (outcome, next) := hout
        simp only [if_true]
        rw [hout]
        cases outcome <;> rfl
    obtain ⟨hst, hs⟩ := finishSemantics_taken hframes encoding htaken
    rw [hst, hs]
    refine .wrote rfl (holding_of_flight hflight) hqueue ?_
    cases outcome with
    | ok _ => exact .inl rfl
    | error error =>
      refine .inr ⟨rfl, ?_⟩
      by_contra ht
      rw [Bool.not_eq_false] at ht
      have hstanding : (s.setDemand w.channel slot (demand.taken flight (P.hasTail update) encoding)).board.standing
          w.channel = some (slot.standing.demanding (some (demand.taken flight (P.hasTail update) encoding))) := by
        unfold State.setDemand
        rw [State.board_setSlot]
        exact Board.set_same ..
      -- a written revision has no work left, so its turn is not queued
      have hwork := queueSemantics_error hout hstanding
      simp [SemanticSlot.hasWork, Standing.demanding, Demand.taken, ht, Rest.isReady] at hwork

theorem finishes (s : State P) (w : SemanticWork P) (encoded : Option (P.SemanticUpdate × P.Encoding)) :
    Finishes C s.board w encoded (finishSignal C s w encoded) (finishSemantics C s w encoded).2.board := by
  cases encoded with
  | none => exact finishes_unsent s w
  | some encoded =>
    obtain ⟨update, encoding⟩ := encoded
    cases he : encode C (.accessibility w.channel update) with
    | ok frames => exact finishes_taken s w update encoding he
    | error error =>
      have hs : finishSignal C s w (some (update, encoding)) =
          if s.channels.contains w.channel then some .abandoned else none := by
        unfold finishSignal
        dsimp only
        rw [he]
      have hf : finishSemantics C s w (some (update, encoding)) =
          if s.channels.contains w.channel then (failedFrames C w.channel, s.forget w.channel) else ([], s) := by
        unfold finishSemantics
        dsimp only
        rw [he]
      rw [hs, hf]
      cases hsl : s.channels[w.channel]? with
      | none =>
        have hno : s.channels.contains w.channel = false := by
          rw [Std.TreeMap.contains_eq_isSome_getElem?, hsl]
          rfl
        rw [hno]
        refine .late fun k demand flight hh => ?_
        have hstanding := hh.hstanding
        rw [State.board_none hsl] at hstanding
        cases hstanding
      | some slot =>
        have hy : s.channels.contains w.channel = true := by
          rw [Std.TreeMap.contains_eq_isSome_getElem?, hsl]
          rfl
        rw [hy]
        have hfailed : Finishes C s.board w (some (update, encoding)) (some .abandoned) (s.board.set w.channel none) :=
          .failed (State.board_get hsl)
        rw [← State.board_forget] at hfailed
        exact hfailed

/-! ## Events -/

theorem demands_of_get {a : Board P} (h : a.standing c = some k) : a.demands c = k.exchange.generation.isSome := by
  unfold Board.demands Standing.exchange
  rw [h, Option.any_some]
  split
  · next hdemand => rw [hdemand]; rfl
  · next hdemand => rw [hdemand]; rfl

namespace Connection
variable {s t : Connection P} {e : Event P}

theorem step_quiet (h : Quiet s.state.board t.state.board) (hwork : t.semanticWork = s.semanticWork)
    (ho : t.opened = s.opened) : Floor.Step C s.floor none t.floor := by
  unfold floor
  rw [hwork, ho]
  exact .drops (a := ⟨s.state.board, s.semanticWork, s.opened⟩) (d := 0) (.inl h) (.inl rfl)

variable {d : Channel}

theorem step_drops (h : Drops s.state.board d t.state.board)
    (hwork : t.semanticWork = s.semanticWork) (ho : t.opened = s.opened) :
    Floor.Step C s.floor (s.abandons t d) t.floor := by
  unfold floor
  rw [hwork, ho]
  refine .drops (a := ⟨s.state.board, s.semanticWork, s.opened⟩) h ?_
  unfold abandons
  split
  · next he =>
    rw [Bool.and_eq_true, Bool.not_eq_true'] at he
    obtain ⟨hd, he⟩ := he
    refine .inr ⟨rfl, ?_, ?_⟩
    · cases hk : s.state.board.standing d with
      | none =>
        unfold Board.demands at hd
        rw [hk] at hd
        cases hd
      | some k => rfl
    · rcases h with ⟨_, -, hb⟩ | ⟨_, -, hb⟩
      · rw [hb] at he
        exact absurd (hd.symm.trans he) (by simp)
      · rw [hb]
        exact Board.set_same ..
  · exact .inl rfl

theorem step_reduces {k k' : Standing P} (hk : s.state.board.standing d = some k) (h : Reduce k k')
    (hb : t.state.board = s.state.board.set d (some k')) (hwork : t.semanticWork = s.semanticWork)
    (ho : t.opened = s.opened) : Floor.Step C s.floor (s.abandons t d) t.floor := by
  unfold floor
  rw [hwork, ho]
  have hk' : t.state.board.standing d = some k' := by
    rw [hb]
    exact Board.set_same ..
  have hσ : s.abandons t d = none ∧ k'.exchange = k.exchange ∨
      s.abandons t d = some (d, .abandoned) ∧ k'.semantics.demand = none := by
    unfold abandons
    rw [demands_of_get hk, demands_of_get hk']
    cases hdemand : k.semantics.demand with
    | none =>
      left
      rw [Floor.exchange_none hdemand]
      cases h with
      | hidden => exact ⟨rfl, Floor.exchange_none hdemand⟩
      | stopped | ended => exact ⟨rfl, rfl⟩
    | some demand =>
      rw [Floor.exchange_some hdemand]
      cases h with
      | hidden =>
        left
        have hs : Standing.exchange { k with visible := false } = k.exchange := rfl
        rw [hs, Floor.exchange_some hdemand]
        exact ⟨rfl, rfl⟩
      | stopped | ended => exact .inr ⟨rfl, rfl⟩
  rw [hb]
  exact .reduces (a := ⟨s.state.board, s.semanticWork, s.opened⟩) hk h hσ

theorem step_alters (ha : ∀ c, Sound s.floor c) {k k' : Standing P}
    (hk : s.state.board.standing d = some k) (h : Alter k k')
    (hqueue : Queue (s.state.board.set d (some k')) d t.state.board) (hwork : t.semanticWork = s.semanticWork)
    (ho : t.opened = s.opened) : Floor.Step C s.floor none t.floor ∧ s.abandons t d = none := by
  obtain ⟨hf, he⟩ := Sound.fits_alter (ha d) hk h
  obtain ⟨-, ⟨k'', hk'', hs⟩, -⟩ := hf.queued hqueue
  refine ⟨?_, ?_⟩
  · unfold floor
    rw [hwork, ho]
    exact .alters (a := ⟨s.state.board, s.semanticWork, s.opened⟩) hk h hqueue
  unfold abandons
  rw [demands_of_get hk, demands_of_get hk'', hs, he]
  rw [Bool.and_not_self]
  rfl

theorem handOut_board (a : State P) (frames : Frames P) : (handOut a frames).2.board = a.board := by
  cases frames <;> rfl

theorem handOutLast_board (a : State P) (frames : Frames P) : (handOutLast a frames).2.board = a.board := by
  cases frames <;> rfl

theorem begin_floor (hidle : s.work = none) (taken : Option (Taken P)) :
    (s.begin taken).floor = ⟨s.state.board, Taken.work? taken, s.opened⟩ := by
  have hnone : s.semanticWork = none := by
    unfold semanticWork
    rw [hidle]
  rcases taken with _ | f | ⟨ticket, p, ending⟩ | work | _
  · simp [Connection.begin, floor, hnone, Taken.work?]
  · exact congrArg (Floor.mk s.state.board · s.opened) hnone
  · rfl
  · rfl
  · simp [Connection.begin, floor, hnone, Taken.work?]

theorem step_take (lowest : Priority) (hidle : s.work = none)
    (ht : t = { s with state := (s.state.take lowest).2, turns := s.turns ++ s.state.turnNow }.begin
      (s.state.take lowest).1) : Floor.Step C s.floor (s.signal C t (.take lowest)) t.floor := by
  have hta := take_takesBoard s.state lowest
  have hf : t.floor = ⟨(s.state.take lowest).2.board, Taken.work? (s.state.take lowest).1, s.opened⟩ := by
    rw [ht]
    exact begin_floor (s := { s with state := (s.state.take lowest).2, turns := s.turns ++ s.state.turnNow }) hidle _
  have hs : s.signal C t (.take lowest) = (Taken.work? (s.state.take lowest).1).bind SemanticWork.begins := by
    change t.floor.work.bind _ = _
    rw [hf]
  have hnone : s.floor.work = none := by
    unfold floor semanticWork
    rw [hidle]
  rw [hf, hs]
  generalize Taken.work? (s.state.take lowest).1 = work at hta
  generalize (s.state.take lowest).2.board = b at hta
  cases hta with
  | quiet hd =>
    have hst := Floor.Step.drops (C := C) (a := s.floor) hd (.inl rfl)
    unfold floor at hst hnone
    dsimp only at hnone
    rw [hnone] at hst
    unfold floor
    rw [hnone]
    exact hst
  | @gone d turns hturns hg =>
    have hst := Floor.Step.gone (C := C) (a := s.floor) hnone hturns hg
    unfold floor at hst hnone
    dsimp only at hnone
    rw [hnone] at hst
    unfold floor
    rw [hnone]
    exact hst
  | @turn d turns k k' work hturns hk hturned =>
    have hst := Floor.Step.turn (C := C) (a := s.floor) hnone hturns hk hturned
    exact hst

theorem Step.floor_startSemantics {d : Channel} {generation : Nat}
    (hst : Step C s (.startSemantics d generation) t) :
    Floor.Step C s.floor (s.signal C t (.startSemantics d generation)) t.floor := by
  unfold Step event at hst
  cases hst
  unfold signal
  dsimp only
  rcases board_startSemantics s.state d generation with ⟨hb, hre⟩ | ⟨k, hk, ho, hb⟩
  · have hnone : ((s.state.board.standing d).isSome && (s.state.startSemantics d generation).1.isOk) = false := by
      cases hk : s.state.board.standing d with
      | none => rfl
      | some k => exact hre k hk
    rw [hnone]
    exact step_quiet (.of_eq hb) rfl rfl
  rw [hk, ho]
  have hd : Floor.Step C s.floor (some (d, .demanded generation))
      { s.floor with board := s.floor.board.set d (some (k.demanded generation)) } := .demanded hk
  unfold Connection.floor at hd ⊢
  rw [hb]
  exact hd

theorem Step.floor_acknowledgeSemantics {d : Channel} {generation revision : Nat}
    (hal : ∀ c, Sound s.floor c) (hst : Step C s (.acknowledgeSemantics d generation revision) t) :
    Floor.Step C s.floor (s.signal C t (.acknowledgeSemantics d generation revision)) t.floor := by
  unfold Step event at hst
  cases hst
  unfold signal
  dsimp only
  rcases board_acknowledgeSemantics (C := C) s.state d generation revision
    (fun k demand hk hdemand => (hal d).generation k demand hk hdemand) with
    ⟨hb, hnone⟩ | ⟨k, demand, flight, hk, hdemand, rfl, hflight, rfl, hwritten, hqueue⟩
  · have hno : ((s.state.board.standing d).any fun k =>
        (k.exchange.next (.acknowledged generation revision)).isSome) = false := by
      cases hk : s.state.board.standing d with
      | none => rfl
      | some k =>
        rw [Option.any_some, hnone k hk]
        rfl
    rw [hno]
    exact step_quiet (.of_eq hb) rfl rfl
  · have ha := Floor.Step.acknowledges (C := C) (a := s.floor) hk hdemand hflight hwritten hqueue
    obtain ⟨k₁, x, hk₁, hne, -⟩ := (Floor.Step.follows hal ha).own d _ rfl
    obtain rfl := Option.mem_unique hk hk₁
    rw [hk, Option.any_some, hne]
    exact ha

theorem Step.floor_encodedSemantics {encoded : Option (P.SemanticUpdate × P.Encoding)}
    (hst : Step C s (.encodedSemantics encoded) t) :
    Floor.Step C s.floor (s.signal C t (.encodedSemantics encoded)) t.floor := by
  unfold Step event at hst
  dsimp only at hst
  split at hst
  · next work hwork =>
    split at hst
    · cases hst
    cases hst
    have hse : s.semanticWork = some work := by
      unfold semanticWork
      rw [hwork]
    have hf := Floor.Step.finishes (C := C) (a := s.floor) hse (finishes s.state work encoded)
    unfold signal
    dsimp only
    rw [hse]
    unfold Connection.floor at hf ⊢
    rw [show (s.done (finishSemantics C s.state work encoded).1 (handOutLast
      (finishSemantics C s.state work encoded).2 (finishSemantics C s.state work encoded).1)).state.board =
        (finishSemantics C s.state work encoded).2.board from handOutLast_board _ _]
    exact hf
  · cases hst

theorem Step.floor (hal : ∀ c, Sound s.floor c) (hst : Step C s e t) :
    Floor.Step C s.floor (s.signal C t e) t.floor := by
  have hstep := hst
  unfold Step event at hst
  cases e with
  | begin id => cases hst; exact step_quiet (untouched_begin _ _).quiet rfl rfl
  | reply id result => cases hst; exact step_quiet (untouched_reply _ _ _).quiet rfl rfl
  | replyOrRefuse id result => cases hst; exact step_quiet (untouched_replyOrRefuse _ _ _).quiet rfl rfl
  | pane c event => cases hst; exact step_quiet (untouched_pane _ _ _).quiet rfl rfl
  | inventory i n =>
    have hq := (untouched_inventory (C := C) s.state i n).quiet
    dsimp only at hst
    split at hst
    · next he =>
      rw [he] at hq
      cases hst
      exact step_quiet hq rfl rfl
    next he =>
    rw [he] at hq
    cases hst
    exact step_quiet hq rfl rfl
  | updateFacts facts =>
    have hq := (untouched_updateFacts (C := C) s.state facts).quiet
    dsimp only at hst
    split at hst
    · next he =>
      rw [he] at hq
      cases hst
      exact step_quiet hq rfl rfl
    next he =>
    rw [he] at hq
    cases hst
    exact step_quiet hq rfl rfl
  | ping nonce | pong nonce => cases hst; exact step_quiet (s.state.untouched_pushL0 _).quiet rfl rfl
  | goodbye fatal => cases hst; exact step_quiet (untouched_goodbye _ _).quiet rfl rfl
  | disconnected => cases hst; exact step_quiet ⟨true, fun _ => rfl, rfl⟩ rfl rfl
  | openChannel d =>
    have hop := board_openChannel s.state d
    dsimp only at hst
    split at hst
    · cases hst
    next hfr =>
    split at hst
    · next he =>
      rw [he] at hop
      cases hst
      rcases hop with ⟨hno, -⟩ | ⟨-, hb⟩
      · cases hno
      have hope := Floor.Step.opens (C := C) (a := s.floor) (d := d) hfr
      unfold Connection.floor at hope ⊢
      rw [hb]
      exact hope
    · next he =>
      rw [he] at hop
      cases hst
      rcases hop with ⟨-, hs⟩ | ⟨ho, -⟩
      · exact step_quiet (.of_eq hs) rfl rfl
      · cases ho
  | close d => cases hst; exact step_drops (.inr (.of_eq (State.board_forget _ _))) rfl rfl
  | endChannel d event =>
    cases hst
    rcases board_endChannel (C := C) s.state d event with hdr | ⟨k, k', hk, hr, hb⟩
    · exact step_drops hdr rfl rfl
    · exact step_reduces hk hr hb rfl rfl
  | takeClosed => cases hst; exact step_quiet .refl rfl rfl
  | view d visible =>
    cases hst
    rcases board_view (C := C) s.state d visible with hdr | ⟨k, k', hk, hr, hb⟩ | ⟨k, k', hk, halt, hqueue⟩
    · exact step_drops hdr rfl rfl
    · exact step_reduces hk hr hb rfl rfl
    obtain ⟨hst, hnone⟩ := step_alters (C := C) (t := { s with
      state := view C s.state d visible,
      log := s.note (s.state.channels.contains d && !visible) (.hidden d) }) hal hk halt hqueue rfl rfl
    change Floor.Step C s.floor (abandons s _ d) _
    rw [hnone]
    exact hst
  | present d p => cases hst; exact step_quiet (quiet_present _ _ _) rfl rfl
  | requireKeyframe d => cases hst; exact step_quiet (quiet_requireKeyframe _ _) rfl rfl
  | acknowledge d n => cases hst; exact step_drops (drops_acknowledge _ _ _) rfl rfl
  | startSemantics d generation => exact hstep.floor_startSemantics
  | endSemantics d =>
    cases hst
    rcases board_endSemantics s.state d with hs | ⟨k, k', hk, hr, hb⟩
    · exact step_drops (.inl (.of_eq hs)) rfl rfl
    · exact step_reduces hk hr hb rfl rfl
  | semantics d model =>
    cases hst
    rcases board_semantics (C := C) s.state d model with hs | ⟨k, k', hk, halt, hqueue⟩
    · exact step_quiet (.of_eq hs) rfl rfl
    · exact (step_alters (t := { s with state := (semantics C s.state d model).2 }) hal hk halt hqueue rfl rfl).1
  | acknowledgeSemantics d generation revision => exact hstep.floor_acknowledgeSemantics hal
  | written now => cases hst; exact step_quiet (quiet_written _ _) rfl rfl
  | take lowest =>
    dsimp only at hst
    split at hst
    · cases hst
    · next hidle => exact step_take lowest (by simpa using hidle) (Option.some.inj hst).symm
  | encoded presented =>
    dsimp only at hst
    split at hst
    · next ticket p ending hwork =>
      cases hst
      have hdr := drops_finishFrame (C := C) s.state ticket ending (encodeFrame C ticket presented)
      have ht : s.touches (.encoded presented) = some ticket.channel := by
        unfold touches
        rw [hwork]
      change Floor.Step C s.floor ((s.touches (.encoded presented)).bind (s.abandons _)) _
      rw [ht]
      refine step_drops ?_ ?_ rfl
      · change Drops s.state.board ticket.channel (handOut _ _).2.board
        rw [handOut_board]
        exact hdr
      · unfold semanticWork
        rw [hwork]
        rfl
    · cases hst
  | encodedSemantics encoded => exact hstep.floor_encodedSemantics

end Connection

theorem Queue.get {a b : Board P} (h : Queue (a.set c (some k)) c b) : ∃ k', b.standing c = some k' := by
  cases h with
  | idle => exact ⟨k, Board.set_same ..⟩
  | push | fail => exact ⟨_, Board.set_same ..⟩

/-! ## Runs -/

structure Heard (P : Payloads) where
  connection : Connection P := {}
  log : List (Channel × Signal) := []

namespace Heard
variable {h h' : Heard P}

def event (C : Postcard P) (h : Heard P) (e : Event P) : Option (Heard P) :=
  (h.connection.event C e).map fun t => ⟨t, h.log ++ (h.connection.signal C t e).toList⟩

def Step (C : Postcard P) (h : Heard P) (e : Event P) (h' : Heard P) : Prop := h.event C e = some h'

def signals (h : Heard P) (c : Channel) : List Signal := h.log.filterMap fun p => if p.1 = c then some p.2 else none

structure Inv (h : Heard P) : Prop where
  sound : ∀ c, Sound h.connection.floor c
  accepted : ∀ c, ∃ x, (h.signals c).foldlM Exchange.next {} = some x ∧
    (∀ k, h.connection.state.board.standing c = some k → k.exchange = x) ∧ (c ∉ h.connection.opened → x = {})

theorem inv_init : Inv ({} : Heard P) where
  sound c := by
    have hnone (k : Standing P) : ({} : Heard P).connection.floor.board.standing c ≠ some k := by
      simp [Connection.floor, State.board]
    refine ⟨?_, fun k hk => absurd hk (hnone k), fun k hk => absurd hk (hnone k), fun k hk => absurd hk (hnone k),
      fun k _ hk => absurd hk (hnone k), fun k _ _ hk => absurd hk (hnone k), fun k _ _ hk => absurd hk (hnone k)⟩
    rintro (hs | ht | ⟨w, hw, -⟩)
    · obtain ⟨k, hk⟩ := Option.isSome_iff_exists.mp hs
      exact absurd hk (hnone k)
    · cases ht
    · cases hw
  accepted c := by
    refine ⟨{}, rfl, fun k hk => ?_, fun _ => rfl⟩
    simp [State.board] at hk

theorem signals_snoc (h : Heard P) (t : Connection P) (σ : Option (Channel × Signal)) (c : Channel) :
    signals ⟨t, h.log ++ σ.toList⟩ c =
      h.signals c ++ (σ.bind fun p => if p.1 = c then some p.2 else none).toList := by
  unfold signals
  rw [List.filterMap_append]
  congr 1
  cases σ with
  | none => rfl
  | some p =>
    by_cases hp : p.1 = c
    · simp [hp]
    · simp [hp]

theorem opened_mono {s t : Floor P} {σ : Option (Channel × Signal)} (hs : Floor.Step C s σ t) (hc : c ∈ s.opened) :
    c ∈ t.opened := by
  cases hs with
  | opens => exact List.mem_cons_of_mem _ hc
  | _ => exact hc

theorem Inv.step {e : Event P} (hi : Inv h) (hst : Step C h e h') : Inv h' := by
  obtain ⟨t, he, rfl⟩ := Option.map_eq_some_iff.mp hst
  have hf := Connection.Step.floor hi.sound he
  have hfo := hf.follows hi.sound
  refine ⟨hf.sound hi.sound, fun c => ?_⟩
  obtain ⟨x, hx, hstanding, hfr⟩ := hi.accepted c
  rw [signals_snoc]
  by_cases ho : ∃ signal, h.connection.signal C t e = some (c, signal)
  · obtain ⟨signal, hσ⟩ := ho
    obtain ⟨k, x', hk, hne, ha⟩ := hfo.own c signal hσ
    rw [hstanding k hk] at hne
    refine ⟨x', ?_, ha, fun hc => ?_⟩
    · rw [hσ, List.foldlM_append, hx]
      simp [hne]
    · refine absurd (opened_mono hf ((hi.sound c).known (.inl ?_))) hc
      exact Option.isSome_iff_exists.mpr ⟨k, hk⟩
  have hsi (signal : Signal) : h.connection.signal C t e ≠ some (c, signal) := fun hσ => ho ⟨signal, hσ⟩
  have hnone : ((h.connection.signal C t e).bind fun p => if p.1 = c then some p.2 else none) = none := by
    cases hσ : h.connection.signal C t e with
    | none => rfl
    | some p =>
      have hp : p.1 ≠ c := by
        rintro rfl
        exact hsi p.2 hσ
      simp [hp]
  refine ⟨x, ?_, fun k' hk' => ?_, fun hc => hfr fun hc' => hc (opened_mono hf hc')⟩
  · rw [hnone]
    simpa using hx
  · rcases hfo.others c k' hsi hk' with ⟨k, hk, hs⟩ | ⟨hc, hempty⟩
    · exact hs.trans (hstanding k hk)
    · exact hempty.trans (hfr hc).symm

/-- Along any interleaving of calls and taken frames. What the client of a channel is told is a run of
its exchange: a revision begins only while none is in transfer, from the base acknowledged last in its
generation, and only its own messages are written until its acknowledgement, or until it is abandoned.
The acknowledgement of a written revision returns the credit. While the outbox is not closing, a visible
channel that is not ending and has a model to start with credit, or messages of its revision left, has
its turn in L1 or the message being encoded. -/
theorem semantic_credit {events : List (Event P)} (hrun : Run (Step C) {} events h) (c : Channel) :
    (∃ x, (h.signals c).foldlM Exchange.next {} = some x ∧
      ∀ slot, h.connection.state.channels[c]? = some slot → slot.standing.exchange = x) ∧
    (∀ slot generation revision x t, h.connection.state.channels[c]? = some slot →
      slot.standing.exchange.next (.acknowledged generation revision) = some x →
      h.connection.event C (.acknowledgeSemantics c generation revision) = some t →
      ∃ slot', t.state.channels[c]? = some slot' ∧ slot'.standing.exchange = x) ∧
    ∀ slot demand, h.connection.state.closing = false → h.connection.state.channels[c]? = some slot →
      slot.visible = true → slot.ending = none → slot.semantics.demand = some demand →
      (demand.inFlight = none ∧ demand.pending.isSome ∨
        ∃ flight, demand.inFlight = some flight ∧ flight.rest.isWritten = false) →
      .semantics c ∈ h.connection.state.l1 ∨ ∃ w, h.connection.work = some (.semantics w) ∧ w.channel = c ∧
        ∃ flight, demand.inFlight = some flight ∧ w.serial = flight.serial := by
  have hi : Inv h := hrun.invariant inv_init fun h hst => h.step hst
  have hso := hi.sound c
  refine ⟨?_, ?_, ?_⟩
  · obtain ⟨x, hx, hstanding, -⟩ := hi.accepted c
    exact ⟨x, hx, fun slot hs => hstanding _ (State.board_get hs)⟩
  · intro slot generation revision x t hs hne he
    cases he
    rcases board_acknowledgeSemantics (C := C) h.connection.state c generation revision
      (fun k demand hk hdemand => hso.generation k demand hk hdemand) with
      ⟨-, hnone⟩ | ⟨k, demand, flight, hk, hdemand, rfl, hflight, rfl, hwritten, hqueue⟩
    · rw [hnone _ (State.board_get hs)] at hne
      cases hne
    have hst := Floor.Step.acknowledges (C := C) (a := h.connection.floor) hk hdemand hflight hwritten hqueue
    obtain ⟨k₁, x', hk₁, hne', ha⟩ := (hst.follows hi.sound).own c _ rfl
    obtain rfl := Option.some.inj ((State.board_get hs).symm.trans hk₁)
    obtain rfl := Option.mem_unique hne hne'
    obtain ⟨k', hk'⟩ := hqueue.get
    obtain ⟨slot', hs', rfl⟩ := Option.map_eq_some_iff.mp hk'
    exact ⟨slot', hs', ha _ hk'⟩
  intro slot demand hcl hs hvisible hending hdemand hleft
  have hk := State.board_get hs
  -- a turn that is due is queued, and a queued one is in L1
  have ht (hwork : slot.semantics.hasWork = true) : .semantics c ∈ h.connection.state.l1 := by
    have hneeds := hso.due _ hk hcl
    have hqueued : slot.semantics.queued = true := by
      simpa [Standing.needsTurn, Slot.standing, hvisible, hending, hwork] using hneeds
    have hmem : c ∈ h.connection.state.l1.filterMap Entry.turn? := hso.entry _ hk hqueued hcl
    obtain ⟨entry, hentry, ht⟩ := List.mem_filterMap.mp hmem
    cases entry with
    | semantics d =>
      obtain rfl : d = c := Option.some.inj ht
      exact hentry
    | _ => cases ht
  rcases hleft with ⟨hflight, hpending⟩ | ⟨flight, hflight, hwritten⟩
  · refine .inl (ht ?_)
    simp [SemanticSlot.hasWork, hdemand, hflight, hpending]
  cases hrest : flight.rest with
  | ready encoding =>
    refine .inl (ht ?_)
    simp [SemanticSlot.hasWork, hdemand, hflight, hrest, Rest.isReady]
  | encoding =>
    obtain ⟨w, hw, hc, hserial⟩ := (hso.held _ demand flight hk hdemand hflight).mp hrest
    refine .inr ⟨w, ?_, hc, flight, hflight, hserial⟩
    change h.connection.semanticWork = some w at hw
    unfold Connection.semanticWork at hw
    split at hw
    · next hwork =>
      cases hw
      exact hwork
    · cases hw
  | written =>
    rw [hrest] at hwritten
    cases hwritten

/-- A model is offered, written in one message and acknowledged. -/
def transferred : List (Event plain) :=
  [.openChannel 1, .view 1 true, .startSemantics 1 1, .semantics 1 (), .take .l2,
    .encodedSemantics (some ((), ())), .acknowledgeSemantics 1 1 0]

theorem semantic_credit_transferred : ∃ h : Heard plain, Run (Step plainCard) {} transferred h ∧
    h.signals 1 = [.demanded 1, .began 1 ⟨1, 0, none⟩, .wrote 1 true, .acknowledged 1 0] ∧
    ∃ x, (h.signals 1).foldlM Exchange.next {} = some x := by
  have hr : ∃ h : Heard plain, transferred.foldlM (event plainCard) {} = some h ∧
      h.signals 1 = [.demanded 1, .began 1 ⟨1, 0, none⟩, .wrote 1 true, .acknowledged 1 0] := ⟨_, rfl, rfl⟩
  obtain ⟨h, hf, hs⟩ := hr
  have hru : Run (Step plainCard) {} transferred h := Run.of_foldlM hf
  obtain ⟨⟨x, hx, -⟩, -⟩ := semantic_credit hru 1
  exact ⟨h, hru, hs, x, hx⟩

end Heard
end SpaceTerm.Outbox
