import SpaceTerm.Hierarchy.Types

/-! # Messages of SpaceTerm Core

`CoreMessage` and its `validate`, the kinds of frame and their bounds (`protocol/message.rs`,
`protocol/frame.rs`, `protocol/limits.rs`). What a connection carries and never looks into is a
parameter: `Payloads` names those types, with the checks that `validate` makes of them. -/

namespace SpaceTerm.Wire
open Hierarchy (Refusal maxPanes maxTitleChars maxCommandChars maxDirectoryChars maxMachineChars)
open Lib (Text)

abbrev Bytes := List UInt8
abbrev Channel := Nat
abbrev RequestId := Nat

/-- The types a connection carries whole. -/
structure Payloads where
  Page : Type
  validPage : Page → Bool
  Graphics : Type
  /-- The bodies of a reply that are not bulk. -/
  SmallReply : Type
  ScreenUpdate : Type
  validScreen : ScreenUpdate → Bool
  /-- `accessibility::Update`. -/
  SemanticUpdate : Type
  validSemantic : SemanticUpdate → Bool
  /-- Whether the update carries a tail, so that it is the last of its revision. -/
  hasTail : SemanticUpdate → Bool
  PaneEvent : Type
  /-- `PaneEvent::Failed`. -/
  failed : PaneEvent
  Inventory : Type
  validInventory : Inventory → Bool
  /-- The fields of `UpdateFacts` that its check does not read. -/
  OtherFacts : Type
  /-- `Box<dyn Presentation>`: a captured screen. -/
  Presentation : Type
  /-- `Arc<dyn Semantics>`: a captured semantic model. -/
  Model : Type
  revision : Model → Nat
  /-- `Box<dyn SemanticEncoding>`: the rest of a revision. -/
  Encoding : Type

inductive Fatal
  | protocolViolation | capacity | stalled | revoked | stopping | incompatible | internal
  deriving Repr, DecidableEq

inductive ReplyBody (P : Payloads)
  | page (page : P.Page)
  | graphics (graphics : P.Graphics)
  | small (body : P.SmallReply)

def ReplyBody.bulk {P : Payloads} : ReplyBody P → Bool
  | .page _ | .graphics _ => true
  | .small _ => false

def ReplyBody.validate {P : Payloads} : ReplyBody P → Bool
  | .page p => P.validPage p
  | .graphics _ | .small _ => true

/-! ### Update facts -/

def maxDeviceNameBytes : Nat := 192
def maxStranded : Nat := 256
def overdueAfter : Nat := 86400

structure PendingVersion where
  breaking : Bool
  installedAt : Nat
  overdueSince : Option Nat
  /-- The names of the stranded devices. -/
  stranded : List Text
  deriving DecidableEq

def PendingVersion.validate (p : PendingVersion) : Bool :=
  let overdue := p.overdueSince.all fun since =>
    -- `checked_add` of a `u64`
    p.installedAt + overdueAfter < 2 ^ 64 && since == p.installedAt + overdueAfter
  let stranded := p.stranded.length ≤ maxStranded && (p.breaking || p.stranded.isEmpty) &&
    p.stranded.all fun name => name.utf8Len ≤ maxDeviceNameBytes
  overdue && stranded

inductive UpdateOperation
  | checking
  | installing (received total : Nat)
  | restarting
  | stopping
  | uninstalling
  deriving DecidableEq

structure UpdateFacts (P : Payloads) where
  pending : Option PendingVersion
  operation : Option UpdateOperation
  other : P.OtherFacts

def UpdateFacts.validate {P : Payloads} (facts : UpdateFacts P) : Bool :=
  facts.pending.all PendingVersion.validate &&
    match facts.operation with
    | some (.installing received total) => received ≤ total
    | _ => true

/-! ### Messages -/

structure Frame (P : Payloads) where
  channel : Channel
  frame : Nat
  base : Option Nat
  input : Nat
  update : P.ScreenUpdate

inductive CoreMessage (P : Payloads)
  | reply (id : RequestId) (result : Except Refusal (ReplyBody P))
  | frame (frame : Frame P)
  | accessibility (channel : Channel) (update : P.SemanticUpdate)
  | pane (channel : Channel) (event : P.PaneEvent)
  | inventory (inventory : P.Inventory) (nextSequence : Nat)
  | updateFacts (facts : UpdateFacts P)
  | ping (nonce : Nat)
  | pong (nonce : Nat)
  | goodbye (fatal : Fatal)

namespace CoreMessage

variable {P : Payloads}

def validate : CoreMessage P → Bool
  | .frame f => f.base.all (· < f.frame) && P.validScreen f.update
  | .accessibility _ update => P.validSemantic update
  | .reply _ (.ok body) => body.validate
  | .reply _ (.error _) => true
  | .inventory i _ => P.validInventory i
  | .updateFacts facts => facts.validate
  | .pane _ _ | .ping _ | .pong _ | .goodbye _ => true

def bulk : CoreMessage P → Bool
  | .reply _ (.ok body) => body.bulk
  | _ => false

end CoreMessage

/-! ### Limits -/

def headerBytes : Nat := 5
def maxFrameBytes : Nat := 1024 * 1024
def maxFrameBody : Nat := maxFrameBytes - headerBytes
def bulkChunkBytes : Nat := 64 * 1024
def maxClipboardBytes : Nat := 1024 * 1024
def maxRequestBytes : Nat := maxFrameBody
def maxInputBytes : Nat := 64 * 1024
def maxControlBytes : Nat := 256
def maxEffectDoneBytes : Nat := maxClipboardBytes + 1024
def maxUpdateBytes : Nat := 16 * 1024 * 1024
def maxAccessibilityBytes : Nat := 32 * 1024
def maxReplyBytes : Nat := 16 * 1024 * 1024
def maxPaneEventBytes : Nat := maxClipboardBytes + 64 * 1024
def maxPaneMetadataBytes : Nat :=
  4 * (2 * maxTitleChars + maxTitleChars + 2 * maxDirectoryChars + 2 * maxMachineChars + maxCommandChars)
def maxPathBytes : Nat := 4096
def maxInventoryBytes : Nat := 2 * maxPanes * (maxPaneMetadataBytes + 4 * maxPathBytes)
def maxUpdateFactsBytes : Nat := maxStranded * (32 + 2 + maxDeviceNameBytes) + 4096

/-! ### Kinds -/

inductive Kind
  | request | input | frameAck | view | effectDone | acknowledge | cancel | clientPing | clientPong
  | accessibilityAck
  | reply | bulkReply | frame | pane | inventory | corePing | corePong | goodbye | accessibility
  | updateFacts
  deriving Repr, DecidableEq

namespace Kind

/-- The kind as its byte: `self as u8`. -/
def byte : Kind → UInt8
  | request => 0x01 | input => 0x02 | frameAck => 0x03 | view => 0x04 | effectDone => 0x05
  | acknowledge => 0x06 | cancel => 0x07 | clientPing => 0x08 | clientPong => 0x09
  | accessibilityAck => 0x0a
  | reply => 0x41 | bulkReply => 0x42 | frame => 0x43 | pane => 0x44 | inventory => 0x45
  | corePing => 0x46 | corePong => 0x47 | goodbye => 0x48 | accessibility => 0x49
  | updateFacts => 0x4a

/-- The continuation bit: more frames of the kind follow. -/
def more : UInt8 := 0x80

def fromByte (b : UInt8) : Option Kind :=
  match b &&& ~~~more with
  | 0x01 => some request | 0x02 => some input | 0x03 => some frameAck | 0x04 => some view
  | 0x05 => some effectDone | 0x06 => some acknowledge | 0x07 => some cancel
  | 0x08 => some clientPing | 0x09 => some clientPong | 0x0a => some accessibilityAck
  | 0x41 => some reply | 0x42 => some bulkReply | 0x43 => some frame | 0x44 => some pane
  | 0x45 => some inventory | 0x46 => some corePing | 0x47 => some corePong | 0x48 => some goodbye
  | 0x49 => some accessibility | 0x4a => some updateFacts
  | _ => none

def fromClient (k : Kind) : Bool := k.byte < 0x40

def maxMessage : Kind → Nat
  | request => maxRequestBytes
  | input => maxInputBytes
  | effectDone => maxEffectDoneBytes
  | frameAck | accessibilityAck | view | acknowledge | cancel | clientPing | clientPong
  | corePing | corePong | goodbye => maxControlBytes
  | reply | bulkReply => maxReplyBytes
  | frame => maxUpdateBytes
  | accessibility => maxAccessibilityBytes
  | pane => maxPaneEventBytes
  | inventory => maxInventoryBytes
  | updateFacts => maxUpdateFactsBytes

def maxFrameBody : Kind → Nat
  | bulkReply => bulkChunkBytes
  | _ => Wire.maxFrameBody

end Kind

/-- The kind `encode_core` writes a message as. -/
def CoreMessage.kind {P : Payloads} : CoreMessage P → Kind
  | .reply id result => if (CoreMessage.reply id result).bulk then .bulkReply else .reply
  | .frame _ => .frame
  | .accessibility _ _ => .accessibility
  | .pane _ _ => .pane
  | .inventory _ _ => .inventory
  | .updateFacts _ => .updateFacts
  | .ping _ => .corePing
  | .pong _ => .corePong
  | .goodbye _ => .goodbye

end SpaceTerm.Wire
