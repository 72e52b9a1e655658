import Mathlib

/-! # The OSC 52 filter

`terminal/native_services/osc52.rs`: clipboard sequences are taken out of a terminal's output and
become effects; every other byte is passed on. One byte does one thing to what a feed collects
(`Action`): `feed_with_context` is a loop of `Filter.byte`. -/

namespace SpaceTerm.Osc52

abbrev Bytes := List UInt8

def maxContentBytes : Nat := 1024 * 1024
def maxEncodedBytes : Nat := (maxContentBytes + 2) / 3 * 4

def ESC : UInt8 := 0x1b
def BEL : UInt8 := 0x07
def CAN : UInt8 := 0x18
def SUB : UInt8 := 0x1a
def BACKSLASH : UInt8 := 0x5c

/-- `OSC52_PREFIX`: `ESC ] 5 2 ;`. -/
def introducer : Bytes := [ESC, 0x5d, 0x35, 0x32, 0x3b]

inductive Target
  | default | standard | selection | primary
  deriving DecidableEq

inductive Terminator
  | bell | stringTerminator
  deriving DecidableEq

inductive Operation
  | read (target : Target) (terminator : Terminator)
  | write (target : Target) (text : String)
  deriving DecidableEq

inductive Rejection
  | malformed | oversized | unsupportedTarget | invalidBase64 | invalidUtf8
  deriving DecidableEq

inductive Effect
  | terminal (bytes : Bytes)
  | operation (operation : Operation)
  | rejected (rejection : Rejection)
  deriving DecidableEq

/-! ## Parsing one sequence -/

def base64Value (byte : UInt8) : Except Rejection UInt8 :=
  if 0x41 ≤ byte ∧ byte ≤ 0x5a then .ok (byte - 0x41)
  else if 0x61 ≤ byte ∧ byte ≤ 0x7a then .ok (byte - 0x61 + 26)
  else if 0x30 ≤ byte ∧ byte ≤ 0x39 then .ok (byte - 0x30 + 52)
  else if byte = 0x2b then .ok 62
  else if byte = 0x2f then .ok 63
  else .error .invalidBase64

/-- One group of four characters. -/
def decodeGroup (w x y z : UInt8) (last : Bool) : Except Rejection Bytes := do
  let padding ← match y == 0x3d, z == 0x3d with
    | true, true => pure 2
    | false, true => pure 1
    | false, false => pure 0
    | true, false => throw .invalidBase64
  if padding ≠ 0 ∧ last = false then throw .invalidBase64
  let a ← base64Value w
  let b ← base64Value x
  let c ← if padding = 2 then pure 0 else base64Value y
  let d ← if padding = 0 then base64Value z else pure 0
  if (padding = 2 ∧ b &&& 0x0f ≠ 0) ∨ (padding = 1 ∧ c &&& 0x03 ≠ 0) then throw .invalidBase64
  return [(a <<< 2) ||| (b >>> 4)] ++ (if padding < 2 then [(b <<< 4) ||| (c >>> 2)] else []) ++
    (if padding = 0 then [(c <<< 6) ||| d] else [])

/-- `decode_base64`: an input whose length is not a multiple of four ends in a short group. -/
def decodeBase64 : Bytes → Except Rejection Bytes
  | [] => .ok []
  | w :: x :: y :: z :: rest => do
    let group ← decodeGroup w x y z rest.isEmpty
    return group ++ (← decodeBase64 rest)
  | _ => .error .invalidBase64

def Target.parse (name : Bytes) : Option Target :=
  if name = [] then some .default
  else if name = [0x63] then some .standard
  else if name = [0x73] then some .selection
  else if name = [0x70] then some .primary
  else none

/-- `parse_osc52` of a sequence without its terminator. -/
def parseBody (body : Bytes) (terminator : Terminator) : Except Rejection Operation := do
  if (0x3b : UInt8) ∈ body then
    let some target := Target.parse (body.takeWhile (· != 0x3b)) | throw .unsupportedTarget
    let payload := (body.dropWhile (· != 0x3b)).drop 1
    if payload = [0x3f] then return .read target terminator
    if payload.length > maxEncodedBytes then throw .oversized
    -- A short group is found before any other, as the source checks the length first.
    if payload.length % 4 ≠ 0 then throw .invalidBase64
    let decoded ← decodeBase64 payload
    if decoded.length > maxContentBytes then throw .oversized
    let some text := String.fromUTF8? ⟨decoded.toArray⟩ | throw .invalidUtf8
    return .write target text
  else throw .malformed

def parseOsc52 (raw : Bytes) : Except Rejection Operation :=
  if [ESC, BACKSLASH] <:+ raw then
    if raw.length - 2 < introducer.length then .error .malformed
    else parseBody ((raw.drop introducer.length).dropLast.dropLast) .stringTerminator
  else if raw.getLast? = some BEL then
    if raw.length - 1 < introducer.length then .error .malformed
    else parseBody ((raw.drop introducer.length).dropLast) .bell
  else .error .malformed

/-! ## The filter -/

inductive FilterState
  | ground
  | prefixed
  | osc52 (escapePending : Bool)
  | discardOversized (escapePending : Bool)
  | otherString (bell escapePending : Bool)
  deriving DecidableEq

variable {Context : Type}

structure Filter (Context : Type) where
  state : FilterState := .ground
  candidate : Bytes := []
  context : Context

/-- What one byte does to the output of its feed. -/
inductive Action
  | none
  | flush
  | text (bytes : Bytes)
  | effect (effect : Effect)

/-- The state after the candidate turned out to be no prefix of the introducer. -/
def afterCandidate (candidate : Bytes) (byte : UInt8) : FilterState :=
  if byte = CAN ∨ byte = SUB ∨ (candidate.take 2 = [ESC, 0x5d] ∧ byte = BEL) then .ground
  else if candidate.take 2 = [ESC, 0x5d] then .otherString true (byte = ESC)
  else if candidate[1]? = some 0x50 ∨ candidate[1]? = some 0x5f ∨ candidate[1]? = some 0x5e ∨
      candidate[1]? = some 0x58 then .otherString false (byte = ESC)
  else .ground

/-- One turn of the loop of `feed_with_context`. -/
def Filter.byte (f : Filter Context) (byte : UInt8) (context : Context) : Filter Context × Action :=
  match f.state with
  | .ground =>
    if byte = ESC then
      ({ f with candidate := f.candidate ++ [byte], context := context, state := .prefixed }, .flush)
    else (f, .text [byte])
  | .prefixed =>
    let candidate := f.candidate ++ [byte]
    if candidate <+: introducer then
      ({ f with
          candidate := candidate
          state := if candidate.length = introducer.length then .osc52 false else .prefixed }, .none)
    else if afterCandidate candidate byte = .ground ∧ byte = ESC then
      -- The byte cuts the candidate off and begins another one.
      ({ candidate := [byte], context := context, state := .prefixed }, .text candidate.dropLast)
    else ({ f with candidate := [], state := afterCandidate candidate byte }, .text candidate)
  | .otherString bell escapePending =>
    let ended := (bell && byte == BEL) || (escapePending && byte == BACKSLASH) || byte == CAN || byte == SUB
    ({ f with state := if ended then .ground else .otherString bell (byte = ESC) }, .text [byte])
  | .osc52 escapePending =>
    if byte = CAN ∨ byte = SUB then
      ({ f with candidate := [], state := .ground }, .effect (.rejected .malformed))
    else
      let candidate := f.candidate ++ [byte]
      if byte = BEL ∨ (escapePending = true ∧ byte = BACKSLASH) then
        ({ f with candidate := [], state := .ground },
          .effect (match parseOsc52 candidate with
            | .ok operation => .operation operation
            | .error rejection => .rejected rejection))
      else if candidate.length > maxEncodedBytes + 16 then
        ({ f with candidate := [], state := .discardOversized (byte = ESC) }, .none)
      else ({ f with candidate := candidate, state := .osc52 (byte = ESC) }, .none)
  | .discardOversized escapePending =>
    if byte = BEL ∨ (escapePending = true ∧ byte = BACKSLASH) ∨ byte = CAN ∨ byte = SUB then
      ({ f with state := .ground }, .effect (.rejected .oversized))
    else ({ f with state := .discardOversized (byte = ESC) }, .none)

structure Feed (Context : Type) where
  filter : Filter Context
  effects : List (Effect × Context) := []
  terminal : Bytes := []

def Feed.flush (feed : Feed Context) (context : Context) : Feed Context :=
  if feed.terminal = [] then feed
  else { feed with effects := feed.effects ++ [(.terminal feed.terminal, context)], terminal := [] }

def Feed.act (feed : Feed Context) (context : Context) : Action → Feed Context
  | .none => feed
  | .flush => feed.flush context
  | .text bytes => { feed with terminal := feed.terminal ++ bytes }
  | .effect effect => { feed with effects := feed.effects ++ [(effect, feed.filter.context)] }

def Feed.step (context : Context) (feed : Feed Context) (byte : UInt8) : Feed Context :=
  let (filter, action) := feed.filter.byte byte context
  { feed.act context action with filter := filter }

def feedWithContext (filter : Filter Context) (bytes : Bytes) (context : Context) :
    Filter Context × List (Effect × Context) :=
  let feed := (bytes.foldl (Feed.step context) { filter := filter }).flush context
  (feed.filter, feed.effects)

/-- Feeds one after the other. -/
def feedAll (filter : Filter Context) (context : Context) : List Bytes → List (Effect × Context)
  | [] => []
  | chunk :: chunks =>
    let (filter, effects) := feedWithContext filter chunk context
    effects ++ feedAll filter context chunks

end SpaceTerm.Osc52
