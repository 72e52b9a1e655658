import SpaceTerm.Direct.Agents
import SpaceTerm.Lib.Proc
import Mathlib

/-! # The host's direct-network state

`host.rs` and `storage.rs`: the record of paired devices with its saved copy, the listener generation,
the invitations and claims that live in memory, and the registered paired connections. A save may fail
with the old or the new record retained; the host is then `uncertain` and loads the record again
before it does anything else. Digests are the values they are taken of. -/

namespace SpaceTerm.Direct
open Lib

inductive DirectError
  | disabled | wrongMachine | authenticationRefused | revoked | expired | invalidInvitation
  | substituted | alreadyDecided | capacity | rejected | invalidRequest | policyChanged | pinMismatch
  | storageUnavailable | invalidAddress | portInUse | addressUnavailable | transport
  deriving DecidableEq

/-- `ClaimId`: the digest of an invitation and a key, or the operation of a setup, whose first bytes
are its generation. -/
inductive ClaimId
  | prepared (invitation key : Nat)
  | operation (generation nonce : Nat)
  deriving DecidableEq

/-- `setup_generation`. The first bytes of a digest are no generation that a record reaches. -/
def setupGeneration : ClaimId → Nat
  | .prepared _ _ => 2 ^ 64
  | .operation generation _ => generation

/-- `OperationId` of a revocation: given by its caller, or the digest of a cancelled claim. -/
inductive OperationId
  | given (id : Nat)
  | cancel (claim : ClaimId) (pairing : Nat)
  deriving DecidableEq

inductive Identity
  | own (client : Nat)
  | agent (client : Nat) (name : Name)
  deriving DecidableEq

structure Device where
  claim : ClaimId
  pairing : Nat
  client : Nat
  key : Nat
  name : Nat
  revoked : Bool := false
  agents : List Name := []
  deriving DecidableEq

def Device.clients (d : Device) : List Identity :=
  .own d.client :: d.agents.map (.agent d.client)

structure Revocation where
  actor : Option Nat
  operation : OperationId
  target : Nat
  deriving DecidableEq

structure SetupReservation where
  generation : Nat
  nonce : Nat
  expectedPolicy : Option Nat
  expectedEnabled : Bool
  endpoint : Nat
  policy : Nat
  key : Nat
  name : Nat
  deriving DecidableEq

def SetupReservation.operation (r : SetupReservation) : ClaimId := .operation r.generation r.nonce

structure Record where
  policy : Option Nat := none
  enabled : Bool := false
  setupGeneration : Nat := 0
  setups : List SetupReservation := []
  devices : List Device := []
  revocations : List Revocation := []
  deriving DecidableEq

def MAX_DEVICES : Nat := 256
def MAX_REVOCATIONS : Nat := 512
def MAX_PENDING : Nat := 32
def INVITATION_SECONDS : Nat := 300

namespace Record

/-- `find(|d| d.info.pairing == pairing)`. -/
def device (r : Record) (pairing : Nat) : Option Device := r.devices.find? (·.pairing == pairing)

/-- `find(|d| d.claim == claim)`. -/
def claimed (r : Record) (claim : ClaimId) : Option Device := r.devices.find? (·.claim == claim)

def modifyDevice (r : Record) (pairing : Nat) (f : Device → Device) : Record :=
  { r with devices := r.devices.map fun d => if d.pairing == pairing then f d else d }

/-- The part of `validate_record` about devices. -/
def ValidDevices (r : Record) : Prop :=
  (r.devices.map (·.claim)).Nodup ∧ (r.devices.map (·.pairing)).Nodup ∧ (r.devices.map (·.client)).Nodup ∧
    ∀ d ∈ r.devices, d.pairing ≠ 0 ∧ d.client ≠ 0 ∧ d.key ≠ 0 ∧ d.claim ≠ .operation 0 0 ∧
      d.agents.length ≤ MAX_AGENTS ∧ d.agents.Nodup

/-- The part about setups. -/
def ValidSetups (r : Record) : Prop :=
  (r.setups.map (·.operation)).Nodup ∧
    ∀ setup ∈ r.setups, setup.operation ≠ .operation 0 0 ∧ setup.key ≠ 0 ∧
      Direct.setupGeneration setup.operation < r.setupGeneration ∧
      (setup.expectedEnabled = true → setup.expectedPolicy.isSome = true) ∧
      ∀ d ∈ r.claimed setup.operation, d.key = setup.key ∧ d.name = setup.name

/-- The part about revocations. -/
def ValidRevocations (r : Record) : Prop :=
  (r.revocations.map fun v => (v.actor, v.operation)).Nodup ∧
    ∀ v ∈ r.revocations, v.operation ≠ .given 0 ∧ (∃ d ∈ r.devices, d.pairing = v.target ∧ d.revoked = true) ∧
      ∀ actor ∈ v.actor, ∃ d ∈ r.devices, d.pairing = actor

/-- `validate_record`. The setup generation is a `u64`. -/
def Valid (r : Record) : Prop :=
  r.setupGeneration < 2 ^ 64 ∧ r.setups.length ≤ MAX_DEVICES ∧ r.devices.length ≤ MAX_DEVICES ∧
    r.revocations.length ≤ MAX_REVOCATIONS ∧ (r.enabled = true → r.policy.isSome = true) ∧
    r.ValidSetups ∧ r.ValidDevices ∧ r.ValidRevocations

instance (r : Record) : Decidable r.ValidDevices := inferInstanceAs (Decidable (_ ∧ _))
instance (r : Record) : Decidable r.ValidSetups := inferInstanceAs (Decidable (_ ∧ _))
instance (r : Record) : Decidable r.ValidRevocations := inferInstanceAs (Decidable (_ ∧ _))
instance (r : Record) : Decidable r.Valid := inferInstanceAs (Decidable (_ ∧ _))

end Record

inductive ListenerState
  | off | listening | starting
  | failed (e : DirectError)
  deriving DecidableEq

structure Invitation where
  id : Nat
  token : Nat
  expires : Nat
  used : Bool := false
  deriving DecidableEq

structure PairingClaim where
  id : ClaimId
  invitation : Nat
  core : Nat
  key : Nat
  name : Nat
  expires : Nat
  exchange : Nat
  deriving DecidableEq

/-- What `DeviceInfo` and `PairedDevice` name of an enrolled device. -/
structure Paired where
  core : Nat
  pairing : Nat
  client : Nat
  deriving DecidableEq

structure PendingClaim where
  claim : PairingClaim
  decision : Option (Except DirectError Paired) := none

structure PairedEntry where
  connection : Nat
  client : Identity
  pairing : Nat
  generation : Nat
  deriving DecidableEq

/-- What `prepare_listener` readied for a policy that is on. -/
inductive Readied
  | keep | fresh | deferred
  deriving DecidableEq

/-- What a request finds around the host: the clock, the disk, random values and sockets. -/
structure Env where
  now : Nat := 0
  load : Bool := true
  save : Saved := .done
  recovery : Option Nat := none
  generation : Option Nat := none
  pairing : Option Nat := none
  client : Option Nat := none
  invitation : Option Nat := none
  token : Option Nat := none
  /-- The address is one of this machine's. -/
  address : Bool := true
  opens : ListenerState := .listening
  readies : Except DirectError Readied := .ok .keep

structure Host where
  core : Nat
  record : Record := {}
  stored : Record := {}
  uncertain : Bool := false
  generation : Nat
  listener : ListenerState := .off
  invitations : List Invitation := []
  claims : List PendingClaim := []
  connections : List PairedEntry := []
  /-- History: the invitations issued, the claim each one was used for, the claims that were named
  by an approval, the agents admitted and not evicted since, and the names that an admission dropped
  from the record although it failed. -/
  issued : List Nat := []
  submitted : Nat → Option PairingClaim := fun _ => none
  approvals : List PairingClaim := []
  admitted : List (Nat × Name) := []
  lost : List (Nat × Name) := []

namespace Host

abbrev M := Proc Host DirectError

open Proc

def listen (env : Env) : M Unit :=
  modify fun s => { s with
    listener := if s.record.enabled && s.record.policy.isSome then env.opens else .off }

/-- The record is loaded again. A new generation starts, which no connection belongs to. -/
def reload (env : Env) : M Unit := do
  require env.load .storageUnavailable
  modify fun s => { s with record := s.stored, uncertain := false }
  let generation ← ofOption env.recovery .storageUnavailable
  modify fun s => { s with generation }
  listen env

def recover (env : Env) : M Unit := fun s =>
  if s.uncertain then reload env s else (.ok (), s)

/-- The host after a failed save that retained `stored`. -/
def failSave (s : Host) (stored : Record) : Host :=
  { s with
    stored, uncertain := true, connections := [], listener := .failed .storageUnavailable }

/-- `commit`: an invalid record is refused before it is written. -/
def commit (next : Record) (env : Env) : M Unit := fun s =>
  if next.Valid then
    match env.save with
    | .done => (.ok (), { s with record := next, stored := next })
    | .failedNew => (.error .storageUnavailable, s.failSave next)
    | .failedOld => (.error .storageUnavailable, s.failSave s.stored)
  else (.error .storageUnavailable, s.failSave s.stored)

def authorized (paired : Paired) (env : Env) : M Device := do
  recover env
  let s ← read
  require (s.listener == .listening) .disabled
  require (paired.core == s.core) .wrongMachine
  let d ← ofOption (s.record.device paired.pairing) .authenticationRefused
  require (d.client == paired.client) .authenticationRefused
  require (!d.revoked) .revoked
  pure d

def current (paired : Paired) (generation : Nat) (env : Env) : M Unit := do
  let _ ← authorized paired env
  let s ← read
  require (generation == s.generation) .disabled

def register (paired : Paired) (generation connection : Nat) (client : Identity) (env : Env) : M Unit := do
  current paired generation env
  let s ← read
  require (decide (s.connections.length < MAX_PAIRED_CONNECTIONS)) .capacity
  modify fun s => { s with
    connections := s.connections ++ [⟨connection, client, paired.pairing, generation⟩] }

/-- Where the save of an admission takes effect although it fails, the evicted name is out of the
record and nobody learns of it. -/
def noteLost (pairing : Nat) (agent : Name) (evicted : Option Name) (failed : Bool) : M Unit :=
  modify fun s => if failed then
      { s with
        lost := s.lost.filter (· != (pairing, agent)) ++ evicted.toList.map (pairing, ·) }
    else s

def admitAgent (paired : Paired) (agent : Name) (settled : Name → Bool) (env : Env) : M (Option Name) := do
  let d ← authorized paired env
  let s ← read
  let (agents, evicted) ← ofOption
    (admitName d.agents agent fun n =>
      settled n && !s.connections.any (·.client == .agent d.client n)) .capacity
  if d.agents.getLast? = some agent then
    modify fun s => { s with admitted := (paired.pairing, agent) :: s.admitted }
    pure none
  else
    let next := s.record.modifyDevice paired.pairing fun d => { d with agents }
    noteLost paired.pairing agent evicted (decide (env.save = .failedNew ∧ next.Valid))
    commit next env
    modify fun s => { s with
      admitted := (paired.pairing, agent) ::
        s.admitted.filter fun x => !evicted.toList.contains x.2 || x.1 != paired.pairing
      lost := s.lost.filter (· != (paired.pairing, agent)) }
    pure evicted

def unregister (connection : Nat) : M Unit :=
  modify fun s => { s with connections := s.connections.filter (·.connection != connection) }

/-- `prepare_listener`; `none` when Network Access turns off. -/
def prepareListener (next : Record) (env : Env) : M (Option Readied) := do
  if next.enabled && next.policy.isSome then
    match env.readies with
    | .error e => fail e
    | .ok .keep => do
      let s ← read
      require (s.listener == .listening) .addressUnavailable
      pure (some .keep)
    | .ok r => pure (some r)
  else pure none

def decideAll (claims : List PendingClaim) (p : PendingClaim → Bool) (e : DirectError) : List PendingClaim :=
  claims.map fun c => if p c && c.decision.isNone then { c with decision := some (.error e) } else c

def switchListener (prepared : Option Readied) (generation : Nat) (env : Env) : M Unit :=
  match prepared with
  | some .keep => pure ()
  | _ => do
    modify fun s => { s with
      generation
      connections := s.connections.filter (·.generation == generation)
      invitations := []
      claims := decideAll s.claims (fun _ => true) .alreadyDecided }
    match prepared with
    | some .fresh => modify fun s => { s with listener := .listening }
    | _ => listen env

def expire (env : Env) : M Unit :=
  modify fun s => { s with
    invitations := s.invitations.filter fun v => env.now < v.expires
    claims := s.claims.filter fun c => env.now < c.claim.expires }

def setPolicy (policy : Option Nat) (enabled : Bool) (env : Env) : M Unit := do
  let s ← read
  require (!(enabled && policy.isNone && s.record.policy.isNone)) .invalidRequest
  require env.address .invalidAddress
  let generation ← ofOption env.generation .storageUnavailable
  let next := { s.record with policy := policy.or s.record.policy, enabled }
  let prepared ← prepareListener next env
  commit next env
  switchListener prepared generation env

/-- `revoke`, with the clients it retires. -/
def revoke (actor : Option Nat) (operation : OperationId) (target : Nat) (env : Env) : M (List Identity) := do
  require (actor.all (· == target)) .authenticationRefused
  recover env
  require (operation != .given 0) .invalidRequest
  let s ← read
  let d ← ofOption (s.record.device target) .authenticationRefused
  match s.record.revocations.find? fun v => v.actor == actor && v.operation == operation with
  | some original =>
    require (original.target == target) .substituted
    modify fun s => { s with connections := s.connections.filter (·.pairing != target) }
    pure d.clients
  | none =>
    if d.revoked && actor == some target then pure d.clients
    else
      require (actor.all fun actor => (s.record.device actor).any (!·.revoked))
        .authenticationRefused
      require (decide (s.record.revocations.length < MAX_REVOCATIONS)) .capacity
      let next := s.record.modifyDevice target fun d => { d with revoked := true }
      commit { next with
        setups := next.setups.filter (·.operation != d.claim)
        revocations := next.revocations ++ [⟨actor, operation, target⟩] } env
      modify fun s => { s with connections := s.connections.filter (·.pairing != target) }
      pure d.clients

def cancelReservation (operation : ClaimId) (key : Option Nat) (accountLocal : Bool) (env : Env) : M Unit := do
  let s ← read
  match s.record.setups.find? (·.operation == operation) with
  | some setup =>
    require (key.all (· == setup.key)) .substituted
    commit { s.record with setups := s.record.setups.filter (·.operation != operation) } env
  | none =>
    let generation := setupGeneration operation
    if generation < s.record.setupGeneration then pure ()
    else
      require (accountLocal && generation == s.record.setupGeneration) .expired
      require (decide (generation + 1 < 2 ^ 64)) .capacity
      commit { s.record with setupGeneration := generation + 1 } env

def checkSetup (core : Nat) (requested : SetupReservation) : M Unit := do
  let s ← read
  require (core == s.core) .pinMismatch
  require ((s.record.setups.find? (·.operation == requested.operation)).all (· == requested))
    .substituted
  require (!(requested.expectedEnabled && requested.expectedPolicy.isNone) &&
    requested.operation != .operation 0 0 && requested.key != 0) .invalidRequest

inductive Management
  | status
  | prepareSetup (generation core : Nat) (requested : SetupReservation)
  | setup (generation core : Nat) (requested : SetupReservation)
  | cancelSetup (core : Nat) (operation : ClaimId)
  | setPolicy (policy : Option Nat) (enabled : Bool)
  | invite
  | withdraw (invitation : Nat)
  | claims
  | approve (claim : PairingClaim)
  | reject (claim : ClaimId)
  | devices
  | revoke (operation : OperationId) (target : Nat)

inductive ManagementReply
  | status | setupPrepared | claims | devices
  | setup (paired : Paired)
  | setupCancelled (clients : List Identity)
  | invitation (id : Nat)
  | rejected
  | approved (paired : Paired)
  | revoked (clients : List Identity)

def prepareSetup (generation core : Nat) (requested : SetupReservation) (env : Env) : M ManagementReply := do
  require (setupGeneration requested.operation == generation) .substituted
  checkSetup core requested
  let s ← read
  require ((s.record.claimed requested.operation).isSome ||
    (s.record.policy == requested.expectedPolicy && s.record.enabled == requested.expectedEnabled))
    .policyChanged
  if s.record.setups.any (·.operation == requested.operation) then pure .setupPrepared
  else
    require (generation == s.record.setupGeneration) .alreadyDecided
    require (decide (s.record.setups.length < MAX_DEVICES && generation + 1 < 2 ^ 64)) .capacity
    commit { s.record with
      setupGeneration := generation + 1, setups := s.record.setups ++ [requested] } env
    pure .setupPrepared

def setup (generation core : Nat) (requested : SetupReservation) (env : Env) : M ManagementReply := do
  require (setupGeneration requested.operation == generation) .substituted
  checkSetup core requested
  let s ← read
  require ((s.record.claimed requested.operation).all (!·.revoked)) .revoked
  require (s.record.setups.any (·.operation == requested.operation))
    (if generation < s.record.setupGeneration then .alreadyDecided else .invalidRequest)
  match s.record.claimed requested.operation with
  | some d => pure (.setup ⟨s.core, d.pairing, d.client⟩)
  | none =>
    require (s.record.policy == requested.expectedPolicy &&
      s.record.enabled == requested.expectedEnabled) .policyChanged
    require (decide (s.record.devices.length < MAX_DEVICES)) .capacity
    let pairing ← ofOption env.pairing .storageUnavailable
    let client ← ofOption env.client .storageUnavailable
    let newGeneration ← ofOption env.generation .storageUnavailable
    let next := { s.record with
      policy := some requested.policy
      enabled := true
      devices := s.record.devices ++
        [⟨requested.operation, pairing, client, requested.key, requested.name, false, []⟩] }
    let prepared ← prepareListener next env
    commit next env
    switchListener prepared newGeneration env
    pure (.setup ⟨s.core, pairing, client⟩)

/-- `CancelSetup`. The network restore that may follow is a `SetPolicy`. -/
def cancelSetup (core : Nat) (operation : ClaimId) (env : Env) : M ManagementReply := do
  let s ← read
  require (core == s.core) .pinMismatch
  require (operation != .operation 0 0) .invalidRequest
  match s.record.claimed operation with
  | some d =>
    let clients ← revoke (some d.pairing) (.cancel operation d.pairing) d.pairing env
    pure (.setupCancelled clients)
  | none =>
    cancelReservation operation none true env
    pure (.setupCancelled [])

def invite (env : Env) : M ManagementReply := do
  let s ← read
  require (s.listener == .listening && env.address) .disabled
  require (decide (s.invitations.length < MAX_PENDING)) .capacity
  let id ← ofOption env.invitation .storageUnavailable
  let token ← ofOption env.token .storageUnavailable
  modify fun s => { s with
    invitations := s.invitations ++ [⟨id, token, env.now + INVITATION_SECONDS, false⟩]
    issued := id :: s.issued }
  pure (.invitation id)

def withdraw (invitation : Nat) : M ManagementReply := do
  modify fun s => { s with
    invitations := s.invitations.filter (·.id != invitation)
    claims := decideAll s.claims (·.claim.invitation == invitation) .alreadyDecided }
  pure .rejected

def setDecision (claims : List PendingClaim) (id : ClaimId)
    (decision : Except DirectError Paired) : List PendingClaim :=
  claims.map fun c => if c.claim.id == id then { c with decision := some decision } else c

def approve (claim : PairingClaim) (env : Env) : M ManagementReply := do
  let s ← read
  require (claim.core == s.core) .wrongMachine
  let pending ← ofOption (s.claims.find? (·.claim.id == claim.id)) .expired
  require (pending.claim == claim) .substituted
  require pending.decision.isNone .alreadyDecided
  require (decide (s.record.devices.length < MAX_DEVICES)) .capacity
  let pairing ← ofOption env.pairing .storageUnavailable
  let client ← ofOption env.client .storageUnavailable
  modify fun s => { s with approvals := claim :: s.approvals }
  commit { s.record with devices := s.record.devices ++
    [⟨claim.id, pairing, client, claim.key, claim.name, false, []⟩] } env
  modify fun s => { s with claims := setDecision s.claims claim.id (.ok ⟨s.core, pairing, client⟩) }
  pure (.approved ⟨s.core, pairing, client⟩)

def reject (id : ClaimId) : M ManagementReply := do
  let s ← read
  let pending ← ofOption (s.claims.find? (·.claim.id == id)) .expired
  require pending.decision.isNone .alreadyDecided
  modify fun s => { s with claims := setDecision s.claims id (.error .rejected) }
  pure .rejected

/-- What a paired peer may ask for. -/
def Management.allows (actor : Option Nat) : Management → Bool
  | .status | .claims | .devices => true
  | .revoke _ target => actor.all (· == target)
  | _ => actor.isNone

/-- The requests of `manage`. -/
def answer (actor : Option Nat) (request : Management) (env : Env) : M ManagementReply :=
  match request with
  | .status => pure .status
  | .prepareSetup generation core requested => prepareSetup generation core requested env
  | .setup generation core requested => setup generation core requested env
  | .cancelSetup core operation => cancelSetup core operation env
  | .setPolicy policy enabled => do
    setPolicy policy enabled env
    pure .status
  | .invite => invite env
  | .withdraw invitation => withdraw invitation
  | .claims => pure .claims
  | .approve claim => approve claim env
  | .reject claim => reject claim
  | .devices => pure .devices
  | .revoke operation target => do
    let clients ← revoke actor operation target env
    pure (.revoked clients)

def manage (actor : Option Nat) (request : Management) (env : Env) : M ManagementReply := do
  require (request.allows actor) .authenticationRefused
  recover env
  expire env
  answer actor request env

inductive Action
  | connect (paired : Paired)
  | claim (id : ClaimId) (token key name exchange : Nat)
  | finish (claim : ClaimId) (key : Nat)
  | revoke (actor : Paired) (operation : OperationId) (target : Nat)
  | cancel (claim : ClaimId) (key : Nat)
  deriving DecidableEq

inductive Answer
  | connected
  | claim (claim : PairingClaim)
  | enrollment (paired : Option Paired)
  | revoked (clients : List Identity)
  | cancelled (clients : List Identity)

/-- The `Claim` of `authenticate`, after the proof is verified. -/
def submit (id : ClaimId) (token key name exchange : Nat) : M Answer := do
  let s ← read
  let v ← ofOption (s.invitations.find? (·.token == token)) .invalidInvitation
  require (ClaimId.prepared v.id key == id) .substituted
  match s.claims.find? (·.claim.id == id) with
  | some pending =>
    require (pending.claim.key == key && pending.claim.name == name) .substituted
    match pending.decision with
    | some (.error e) => fail e
    | _ => pure (.claim pending.claim)
  | none =>
    require (!v.used) .alreadyDecided
    require (decide (s.claims.length < MAX_PENDING)) .capacity
    let claim : PairingClaim := ⟨id, v.id, s.core, key, name, v.expires, exchange⟩
    modify fun s => { s with
      invitations := s.invitations.map fun w => if w.id == v.id then { w with used := true } else w
      claims := s.claims ++ [{ claim }]
      submitted := Function.update s.submitted v.id (some claim) }
    pure (.claim claim)

def finish (claim : ClaimId) (key : Nat) : M Answer := do
  let s ← read
  match s.record.claimed claim with
  | some d =>
    require (d.key == key) .substituted
    require (!d.revoked) .revoked
    pure (.enrollment (some ⟨s.core, d.pairing, d.client⟩))
  | none =>
    let pending ← ofOption (s.claims.find? (·.claim.id == claim)) .expired
    require (pending.claim.key == key) .substituted
    match pending.decision with
    | none => pure (.enrollment none)
    | some (.error e) => fail e
    | some (.ok paired) =>
      require (!s.record.devices.any fun d => d.pairing == paired.pairing && d.revoked) .revoked
      pure (.enrollment (some paired))

def cancel (claim : ClaimId) (key : Nat) (env : Env) : M Answer := do
  let s ← read
  match s.record.claimed claim with
  | some d =>
    require (d.key == key) .substituted
    let clients ← revoke (some d.pairing) (.cancel claim d.pairing) d.pairing env
    pure (.cancelled clients)
  | none =>
    if s.record.setups.any (·.operation == claim) then
      cancelReservation claim (some key) false env
      pure (.cancelled [])
    else
      match s.claims.find? (·.claim.id == claim) with
      | some pending =>
        require (pending.claim.key == key) .substituted
        modify fun s => { s with claims := setDecision s.claims claim (.error .alreadyDecided) }
        pure (.cancelled [])
      | none =>
        if s.invitations.any fun v => ClaimId.prepared v.id key == claim then
          modify fun s => { s with
            invitations := s.invitations.map fun v =>
              if ClaimId.prepared v.id key == claim then { v with used := true } else v }
          pure (.cancelled [])
        else
          require (decide (setupGeneration claim < s.record.setupGeneration)) .expired
          pure (.cancelled [])

/-- A `Claim` of an invitation that has expired is told so. -/
def checkToken (action : Action) (env : Env) : M Unit := do
  let s ← read
  match action with
  | .claim _ token _ _ _ =>
    require (!s.invitations.any fun v => v.token == token && decide (v.expires ≤ env.now)) .expired
  | _ => pure ()

/-- The authority of the key that must have made the proof. -/
def checkAuthority (action : Action) (env : Env) : M Unit := do
  match action with
  | .connect paired => do
    let _ ← authorized paired env
    pure ()
  | .revoke actor _ target =>
    let s ← read
    require (actor.core == s.core) .wrongMachine
    require (actor.pairing == target) .authenticationRefused
    require (s.record.devices.any fun d => d.pairing == actor.pairing && d.client == actor.client)
      .authenticationRefused
  | _ => pure ()

/-- The actions of `authenticate`, once the proof is verified. -/
def perform (action : Action) (env : Env) : M Answer :=
  match action with
  | .connect _ => pure .connected
  | .claim id token key name exchange => submit id token key name exchange
  | .finish claim key => finish claim key
  | .revoke actor operation target => do
    let clients ← revoke (some actor.pairing) operation target env
    pure (.revoked clients)
  | .cancel claim key => cancel claim key env

/-- `authenticate`. `verified` is whether the proof is the device's. -/
def authenticate (generation : Nat) (action : Action) (verified : Bool) (env : Env) : M Answer := do
  recover env
  checkToken action env
  expire env
  let s ← read
  require (generation == s.generation && s.listener == .listening) .disabled
  checkAuthority action env
  require verified .authenticationRefused
  perform action env

/-- `stop`, and then `open` in the next run of the host. -/
def restart (generation : Nat) (env : Env) : M Unit := do
  modify fun s => { s with
    record := s.stored, uncertain := false, generation, connections := [], invitations := [],
    claims := [] }
  listen env

end Host

end SpaceTerm.Direct
