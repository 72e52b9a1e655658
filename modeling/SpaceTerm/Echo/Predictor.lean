import SpaceTerm.Lib.Run
import Mathlib

/-! # Predictive local echo

`core_session/prediction.rs`. Times are in milliseconds, and the digest of the cells left of a
prediction is the list of their texts. Three fields are of the model only: how many resets there were
(`resets`, also when a prediction was made) and how wide its row was then (`width`). -/

namespace SpaceTerm.Echo

def activeRoundTrip : Nat := 30
def inactiveRoundTrip : Nat := 20
def roundTripSamples : Nat := 8
def echoGrace : Nat := 100
def maxTimed : Nat := 64
def maxPredictions : Nat := 512

/-! ## Input -/

structure Key where
  text : Option String
  modifiers : Nat
  action : Nat

/-- Alt, Control and the platform key, left and right. -/
def commandModifiers : Nat := 0b1110001110
def keyRelease : Nat := 2

inductive Typed
  | printable (text : Char)
  | other
  deriving DecidableEq

def classify (key : Key) : Typed :=
  match (key.text.getD "").toList with
  | [c] => if ' ' ≤ c ∧ c ≤ '~' ∧ key.modifiers &&& commandModifiers = 0 then .printable c else .other
  | _ => .other

/-- `Request`, by what `typed` reads of it. -/
inductive Request
  | keys (keys : List Key)
  | key (key : Key)
  | interactive
  | resize
  | clearScreenAndScrollback
  | none

def Request.typed : Request → List Typed
  | .keys ks => (ks.filter (·.action != keyRelease)).map classify
  | .key k => if k.action = keyRelease then [] else [classify k]
  | .interactive | .resize | .clearScreenAndScrollback => [.other]
  | .none => []

/-! ## Screens -/

structure Cell where
  text : String
  spacerTail : Bool := false
  deriving DecidableEq

structure Screen where
  rows : List (List Cell)
  primary : Bool := true
  cursorVisible : Bool := true
  cursorPosition : Option (Nat × Nat)
  deriving DecidableEq

def Screen.cursor (s : Screen) : Option (Nat × Nat) :=
  if s.primary && s.cursorVisible then s.cursorPosition else none

def Screen.cell (s : Screen) (row column : Nat) : Option String :=
  ((s.rows[row]?).bind (·[column]?)).bind fun c => if c.spacerTail then none else some c.text

def isText (cell : String) (text : Char) : Bool := cell.toList == [text]

structure LineMode where
  canonical : Bool
  echo : Bool
  signals : Bool
  shellForeground : Bool
  deriving DecidableEq

def LineMode.lineEditor (m : LineMode) : Bool :=
  !m.canonical && !m.echo && m.signals && m.shellForeground

structure LineState where
  epoch : Nat
  mode : LineMode
  deriving DecidableEq

/-! ## The round trip -/

structure RoundTrip where
  samples : List Nat := []
  active : Bool := false
  deriving DecidableEq

def RoundTrip.estimate (r : RoundTrip) : Option Nat := r.samples.min?

def RoundTrip.sample (r : RoundTrip) (sample : Nat) : RoundTrip :=
  let samples := (if r.samples.length = roundTripSamples then r.samples.tail else r.samples) ++ [sample]
  match samples.min? with
  | none => { r with samples := samples }
  | some estimate =>
    { samples := samples
      active := if estimate ≥ activeRoundTrip then true
        else if estimate < inactiveRoundTrip then false else r.active }

/-! ## Predictions -/

structure Prediction where
  serial : Nat
  epoch : Nat
  row : Nat
  column : Nat
  text : Char
  original : String
  left : List String
  shown : Bool
  due : Nat
  resets : Nat
  width : Nat
  deriving DecidableEq

structure Predictor where
  roundTrip : RoundTrip := {}
  lineState : Option LineState := none
  timed : List (Nat × Nat) := []
  sent : Nat := 0
  covered : Nat := 0
  resume : Option Nat := none
  predictions : List Prediction := []
  epoch : Nat := 0
  confirmed : Bool := false
  screen : Option Screen := none
  resets : Nat := 0
  deriving DecidableEq

def leftOf (screen : Screen) (row column : Nat) (predictions : List Prediction) : Option (List String) :=
  (screen.rows[row]?).map fun cells => ((cells.take column).zipIdx).filterMap fun (cell, index) =>
    match predictions.find? fun p => p.row == row && p.column == index with
    | some p => some (String.singleton p.text)
    | none => if cell.spacerTail then none else if cell.text.isEmpty then some " " else some cell.text

namespace Predictor

def suspend (p : Predictor) (serial : Nat) : Predictor :=
  let serial := max serial (p.resume.getD 0)
  { p with
    epoch := p.epoch + 1
    confirmed := false
    resume := if serial > p.covered then some serial else none }

def reset (p : Predictor) : Predictor :=
  { p with predictions := [], resets := p.resets + 1 }.suspend p.sent

def confirm (p : Predictor) : Predictor :=
  { p with
    confirmed := true
    predictions := p.predictions.map fun q => { q with shown := q.shown || q.epoch == p.epoch } }

/-- Where the next key would show. -/
def place (p : Predictor) (screen : Screen) : Option (Nat × Nat) :=
  match p.predictions.getLast? with
  | some last => some (last.row, last.column + 1)
  | none => screen.cursor

def predict (p : Predictor) (serial : Nat) (text : Char) (sentAt : Nat) : Option Prediction := do
  let estimate ← p.roundTrip.estimate
  if p.roundTrip.active = false ∨ p.resume.isSome = true ∨ p.lineState.any (·.mode.lineEditor) = false ∨
      p.predictions.length ≥ maxPredictions then none
  let screen ← p.screen
  let (row, column) ← p.place screen
  -- The last column wraps, which the line editor draws in its own way.
  let _ ← screen.cell row (column + 1)
  let original ← screen.cell row column
  let left ← leftOf screen row column p.predictions
  return {
    serial := serial
    epoch := p.epoch
    row := row
    column := column
    text := text
    original := original
    left := left
    shown := p.confirmed
    due := sentAt + estimate + echoGrace
    resets := p.resets
    width := ((screen.rows[row]?).getD []).length }

/-- One key of `sent`. -/
def type (p : Predictor) (serial : Option Nat) (sentAt : Nat) (typed : Typed) : Predictor :=
  match serial with
  | none => p.reset
  | some serial =>
    let p := if p.timed.getLast?.all (·.1 != serial) then
      { p with timed := (if p.timed.length = maxTimed then p.timed.tail else p.timed) ++ [(serial, sentAt)] }
      else p
    match typed with
    | .printable text =>
      match p.predict serial text sentAt with
      | some prediction => { p with predictions := p.predictions ++ [prediction] }
      | none => p.suspend serial
    | .other => p.suspend serial

def send (p : Predictor) (request : Request) (serial : Option Nat) (sentAt : Nat) : Predictor :=
  request.typed.foldl (fun p typed => p.type serial sentAt typed)
    { p with sent := max p.sent (serial.getD 0) }

def setLine (p : Predictor) (line : LineState) : Predictor :=
  let changed := p.lineState.any (· != line)
  let p := { p with lineState := some line }
  if changed || !line.mode.lineEditor then p.reset else p

inductive Judged
  | wrong
  | kept (rest : List Prediction) (credit : Option Prediction)

def judge (epoch covered : Nat) (screen : Screen) (now : Nat) : List Prediction → Option Prediction → Judged
  | [], credit => .kept [] credit
  | q :: qs, credit =>
    if q.serial > covered then .kept (q :: qs) credit
    else if (screen.cell q.row q.column).any (isText · q.text) then
      judge epoch covered screen now qs
        (if q.epoch = epoch ∧ isText q.original q.text = false ∧
          leftOf screen q.row q.column (q :: qs) = some q.left then some q else none)
    else if screen.cell q.row q.column = some q.original ∧ now < q.due then .kept (q :: qs) credit
    else .wrong

def measure (p : Predictor) (input now : Nat) : Predictor :=
  match (p.timed.takeWhile (·.1 ≤ input)).getLast? with
  | none => p
  | some (_, sentAt) =>
    let sampled := { p with
      timed := p.timed.dropWhile (·.1 ≤ input)
      roundTrip := p.roundTrip.sample (now - sentAt) }
    if p.roundTrip.active && !sampled.roundTrip.active then sampled.reset else sampled

/-- The frame's screen, which has no place for a key where the cursor is hidden. -/
def cover (p : Predictor) (screen : Screen) (input : Nat) : Predictor :=
  let p := { p with covered := max p.covered input, screen := some screen }
  if screen.cursor = none then p.reset else p

def endWait (p : Predictor) : Predictor :=
  if p.resume.any (· ≤ p.covered) then { p with resume := none } else p

/-- The part of `frame` before it judges: the round trip, the screen and the waiting. -/
def receive (p : Predictor) (screen : Screen) (input now : Nat) : Predictor :=
  ((p.measure input now).cover screen input).endWait

/-- `frame`, and the prediction whose echo confirmed the epoch. -/
def frame (p : Predictor) (screen : Screen) (input now : Nat) : Predictor × Option Prediction :=
  let p := p.receive screen input now
  match judge p.epoch p.covered screen now p.predictions none with
  | .wrong => (p.reset, none)
  | .kept rest credit =>
    let p := { p with predictions := rest }
    match credit with
    | some q => if screen.cursor = some (q.row, q.column + 1) then (p.confirm, some q) else (p, none)
    | none => (p, none)

def deadline (p : Predictor) : Option Nat := (p.predictions.map (·.due)).min?

def expire (p : Predictor) (now : Nat) : Predictor :=
  if p.deadline.any (· ≤ now) then p.reset else p

def discarded (p : Predictor) (serial : Nat) : Predictor :=
  if p.predictions.any (·.serial ≥ serial) then p.reset else p

def overlay (p : Predictor) : Option (List (Nat × Nat × Char) × (Nat × Nat)) :=
  if p.roundTrip.active = false then none
  else
    let cells := (p.predictions.filter (·.shown)).map fun q => (q.row, q.column, q.text)
    cells.getLast?.map fun last => (cells, (last.1, last.2.1 + 1))

end Predictor
end SpaceTerm.Echo
