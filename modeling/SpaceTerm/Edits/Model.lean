import SpaceTerm.Hierarchy.Host

/-! # Edits between clients and the host

`WorkspaceHost::edit`, `answer_waiting`, `mutate` and `resolve` over the organization, with the
connections that carry their requests and the operation journal of each client
(`spaceterm-cli/src/journal.rs`). A request is in flight from when a client sends it until the host
takes it, and an edit that finds a Worktree write pending is parked in `waiting`. -/

namespace SpaceTerm.Edits
open Lib Hierarchy

/-- One edit a client dispatched. `tag` is its place among all dispatches. -/
structure Op where
  tag : Nat
  device : Id
  sequence : Nat
  mutation : Mutation

/-- `Operation::Mutate`, or `Operation::Resolve` for the operation a client has pending. -/
inductive Request
  | mutate (op : Op)
  | resolve (op : Op)

inductive Answer
  | outcome (record : RetainedOutcome)
  | pending
  | refused (refusal : Refusal)

/-- What the host reads of its surroundings when it settles a request. -/
structure Surroundings where
  /-- What `ready` refuses with. -/
  blocked : Option Refusal
  /-- Whether the lock for Worktree writes is free. -/
  worktreeLock : Bool
  live : Option (CloseInventory × (Id → List Text))
  directory : PathBuf
  validatePin : PathBuf → Bool
  fresh : Nat → Option Id
  /-- What becomes of a new location template. -/
  location : Outcome

structure Exchange where
  state : State
  /-- Requests whose reply waits for a Worktree write to settle, with their connection. -/
  waiting : List (Id × Request)
  /-- Requests in flight, with their connection, in the order they were sent. -/
  wire : List (Id × Request)
  /-- Open connections with their client. -/
  connections : List (Id × Id)
  /-- `ClientJournal::pending` of each client. -/
  pending : Id → Option Op
  /-- The operations for which a client was answered that the host holds no outcome. -/
  missing : List Op
  /-- Every operation dispatched. -/
  ops : List Op
  executed : List Nat
  /-- The tags of the operations abandoned. -/
  abandoned : List Nat

inductive Event
  | connect (connection device : Id)
  | close (connection : Id)
  | dispatch (connection : Id) (sequence : Nat) (mutation : Mutation)
  | ask (connection : Id)
  | deliver (connection : Id) (surroundings : Surroundings)
  | answerWaiting (surroundings : Nat → Surroundings)
  | serve (op : HostOp)
  | restore (state : State)
  | abandon (device : Id)
  | retire (device : Id)

def answerOf (record : RetainedOutcome) : Answer :=
  if record.outcome == .pending then .pending else .outcome record

def hasPendingWorktrees (s : State) : Bool :=
  s.devices.any fun d => d.pending.any (·.outcome == .pending)

/-- A location template is checked at once. -/
def finishLocation (s : State) (op : Op) (location : Outcome) : Except Refusal State :=
  match op.mutation with
  | .worktree (.setLocation _ _) => s.finishWorktree op.device op.sequence location
  | _ => .ok s

/-- What `mutate` applies an edit with: a Worktree operation sees no live facts. -/
def applyOp (s : State) (e : Surroundings) (op : Op) : Except Refusal State := do
  let seen := if op.mutation.isWorktree then s else HostOp.observed s e.live
  let validatePin := if op.mutation.isWorktree then fun _ => false else e.validatePin
  let (next, _) ← seen.apply op.device op.sequence op.mutation e.directory validatePin e.fresh
  finishLocation next op e.location

namespace Exchange

def mutate (s : Exchange) (e : Surroundings) (op : Op) : Exchange × Answer :=
  match s.state.outcome op.device op.sequence with
  | some old =>
    if old.mutation == op.mutation then (s, answerOf old) else (s, .refused .stale)
  | none =>
    if hasPendingWorktrees s.state then (s, .pending)
    else if op.mutation.isWorktree && !e.worktreeLock then (s, .refused .storageUnavailable)
    else match applyOp s.state e op with
      | .error refusal => (s, .refused refusal)
      | .ok next =>
        match next.outcome op.device op.sequence with
        | none => (s, .refused .failed)
        | some record =>
          ({ s with state := next.withoutLive, executed := s.executed ++ [op.tag] }, answerOf record)

def resolve (s : Exchange) (op : Op) : Answer :=
  match s.state.outcome op.device op.sequence with
  | none => .refused .missing
  | some record => answerOf record

/-- `WorkspaceHost::settle`. -/
def settle (s : Exchange) (e : Surroundings) (request : Request) : Exchange × Answer :=
  match e.blocked with
  | some refusal => (s, .refused refusal)
  | none =>
    match request with
    | .mutate op => s.mutate e op
    | .resolve op => (s, s.resolve op)

def handle (s : Exchange) (e : Surroundings) (x : Id × Request) : Exchange :=
  let (s, answer) := s.settle e x.2
  match answer, x.2 with
  | .pending, _ => { s with waiting := s.waiting ++ [x] }
  | .refused .missing, .resolve op => { s with missing := s.missing ++ [op] }
  | _, _ => s

def answerWaiting (s : Exchange) (e : Nat → Surroundings) : Exchange :=
  s.waiting.zipIdx.foldl (fun s x => s.handle (e x.2) x.1) { s with waiting := [] }

def client? (s : Exchange) (connection : Id) : Option Id :=
  (s.connections.find? (·.1 == connection)).map (·.2)

def setPending (s : Exchange) (device : Id) (op : Option Op) : Exchange :=
  { s with pending := fun d => if d = device then op else s.pending d }

def event (s : Exchange) : Event → Option Exchange
  | .connect connection device =>
    if (s.client? connection).isSome then none
    else some { s with connections := s.connections ++ [(connection, device)] }
  -- The host notices that a connection closed.
  | .close connection =>
    some { s with
      connections := s.connections.filter (·.1 != connection)
      wire := s.wire.filter (·.1 != connection)
      waiting := s.waiting.filter (·.1 != connection) }
  -- `dispatch`: one edit at a time, recorded before it is sent.
  | .dispatch connection sequence mutation => do
    let device ← s.client? connection
    if (s.pending device).isSome then none
    else
      let op : Op := { tag := s.ops.length, device, sequence, mutation }
      some (({ s with
        ops := s.ops ++ [op], wire := s.wire ++ [(connection, .mutate op)] } : Exchange).setPending
          device (some op))
  | .ask connection => do
    let device ← s.client? connection
    let op ← s.pending device
    some { s with wire := s.wire ++ [(connection, .resolve op)] }
  | .deliver connection e => do
    let x ← s.wire.find? (·.1 == connection)
    some (({ s with wire := s.wire.eraseP (·.1 == connection) } : Exchange).handle e x)
  | .answerWaiting e => some (s.answerWaiting e)
  -- Everything else that changes the organization.
  | .serve op =>
    match op with
    | .apply _ _ _ _ _ _ _ => none
    | op => some { s with state := op.run s.state }
  | .restore state => some { s with state }
  -- `resolve` of the client: the answer is `Missing`.
  | .abandon device => do
    let op ← s.pending device
    if s.missing.any (·.tag == op.tag) then
      some (({ s with abandoned := s.abandoned ++ [op.tag] } : Exchange).setPending device none)
    else none
  -- The outcome arrived.
  | .retire device => some (s.setPending device none)

def Step (s : Exchange) (e : Event) (s' : Exchange) : Prop := s.event e = some s'

/-- A host that has not served anyone. -/
def start (state : State) : Exchange where
  state
  waiting := []
  wire := []
  connections := []
  pending _ := none
  missing := []
  ops := []
  executed := []
  abandoned := []

end Exchange

end SpaceTerm.Edits
