import SpaceTerm.Wire.Message

/-! # Frames

`len:u32be | kind:u8 | body` (`protocol/frame.rs`): `encode` splits a message into frames,
`FrameReader` splits a byte stream into frames again and `Assembler` joins them into messages. The
serialization itself, postcard, is a parameter. -/

namespace SpaceTerm.Wire

inductive DecodeError
  | oversized | unknownKind | wrongDirection | malformed | outOfBounds
  deriving Repr, DecidableEq

inductive EncodeError
  | tooLarge | unencodable
  deriving Repr, DecidableEq

structure Postcard (P : Payloads) where
  toExtend : CoreMessage P → Option Bytes
  takeFromBytes : Kind → Bytes → Option (CoreMessage P × Bytes)

/-- Decoding inverts encoding. -/
def Postcard.Inverts {P : Payloads} (C : Postcard P) : Prop :=
  ∀ m b, C.toExtend m = some b → C.takeFromBytes m.kind b = some (m, [])

structure RawFrame where
  kind : UInt8
  body : Bytes
  deriving DecidableEq

def RawFrame.continued (f : RawFrame) : Bool := f.kind &&& Kind.more != 0

def toBeBytes (n : Nat) : Bytes :=
  [.ofNat (n / 2 ^ 24), .ofNat (n / 2 ^ 16), .ofNat (n / 2 ^ 8), .ofNat n]

/-- `u32::from_be_bytes`. -/
def fromBeBytes (a b c d : UInt8) : Nat :=
  a.toNat * 2 ^ 24 + b.toNat * 2 ^ 16 + c.toNat * 2 ^ 8 + d.toNat

/-- A frame as it is written: `write_header`, then the body. -/
def RawFrame.bytes (f : RawFrame) : Bytes := toBeBytes (f.body.length + 1) ++ f.kind :: f.body

/-! ### Writing -/

/-- `slice::chunks`. -/
def chunks (n : Nat) (bytes : Bytes) : List Bytes :=
  if _h : bytes = [] ∨ n = 0 then [] else
    bytes.take n :: chunks n (bytes.drop n)
termination_by bytes.length
decreasing_by
  have := List.length_pos_of_ne_nil (not_or.mp _h).1
  simp only [List.length_drop]
  omega

/-- Every part but the last is marked as continued. -/
def frameParts (kind : Kind) : List Bytes → List RawFrame
  | [] => []
  | [part] => [⟨kind.byte, part⟩]
  | part :: next :: parts => ⟨kind.byte ||| Kind.more, part⟩ :: frameParts kind (next :: parts)

def encodeCore {P : Payloads} (C : Postcard P) (m : CoreMessage P) : Except EncodeError (List RawFrame) :=
  match C.toExtend m with
  | none => .error .unencodable
  | some body =>
    if body.length > m.kind.maxMessage then .error .tooLarge
    else if body.length ≤ m.kind.maxFrameBody then .ok [⟨m.kind.byte, body⟩]
    else .ok (frameParts m.kind (chunks m.kind.maxFrameBody body))

/-! ### Reading -/

def parsePrefix : Bytes → Except DecodeError (Option (RawFrame × Nat))
  | a :: b :: c :: d :: kindByte :: rest =>
    let len := fromBeBytes a b c d
    if len = 0 then .error .malformed
    else match Kind.fromByte kindByte with
      | none => .error .unknownKind
      | some kind =>
        if len - 1 > kind.maxFrameBody then .error .oversized
        else if rest.length < len - 1 then .ok none
        else .ok (some (⟨kindByte, rest.take (len - 1)⟩, 4 + len))
  | _ => .ok none

structure FrameReader where
  buffer : Bytes := []
  /-- Bytes before this offset are already returned as frames. -/
  read : Nat := 0

namespace FrameReader

def feed (r : FrameReader) (bytes : Bytes) : FrameReader :=
  if r.read > 0 then { buffer := r.buffer.drop r.read ++ bytes, read := 0 }
  else { r with buffer := r.buffer ++ bytes }

def nextFrame (r : FrameReader) : Except DecodeError (Option RawFrame × FrameReader) :=
  match parsePrefix (r.buffer.drop r.read) with
  | .error e => .error e
  | .ok none => .ok (none, r)
  | .ok (some (frame, used)) => .ok (some frame, { r with read := r.read + used })

end FrameReader

/-- `Vec::swap_remove`. -/
def swapRemove {α : Type} (xs : List α) (i : Nat) : List α :=
  match xs.getLast? with
  | none => []
  | some last => (xs.set i last).dropLast

structure Assembler where
  /-- The kinds of which a message is partly received, with its bytes so far. -/
  partials : List (Kind × Bytes) := []

namespace Assembler

def finish (kind : Kind) (body : Bytes) (a : Assembler) : Except DecodeError (Option (Kind × Bytes) × Assembler) :=
  if body.length > kind.maxMessage then .error .oversized else .ok (some (kind, body), a)

def join (a : Assembler) (frame : RawFrame) (fromClient : Bool) :
    Except DecodeError (Option (Kind × Bytes) × Assembler) :=
  match Kind.fromByte frame.kind with
  | none => .error .unknownKind
  | some kind =>
    if kind.fromClient != fromClient then .error .wrongDirection
    else if frame.body.length > kind.maxFrameBody then .error .oversized
    else match a.partials.findIdx? (·.1 == kind) with
      | some index =>
        let body := (a.partials[index]?.elim [] (·.2)) ++ frame.body
        if body.length > kind.maxMessage then .error .oversized
        else if frame.continued then .ok (none, ⟨a.partials.set index (kind, body)⟩)
        else finish kind body ⟨swapRemove a.partials index⟩
      | none =>
        if frame.continued then .ok (none, ⟨a.partials ++ [(kind, frame.body)]⟩)
        else finish kind frame.body a

variable {P : Payloads}

/-- `decode`: the bytes of a message, without any left over. -/
def decode (C : Postcard P) (kind : Kind) (body : Bytes) : Except DecodeError (CoreMessage P) :=
  match C.takeFromBytes kind body with
  | some (m, []) => .ok m
  | _ => .error .malformed

/-- Client side: the next message of the server, once its last frame arrives. -/
def core (C : Postcard P) (a : Assembler) (frame : RawFrame) :
    Except DecodeError (Option (CoreMessage P) × Assembler) := do
  let (joined, next) ← a.join frame false
  match joined with
  | none => return (none, next)
  | some (kind, body) =>
    let message ← decode C kind body
    if message.validate then return (some message, next) else throw .outOfBounds

end Assembler

/-! ### Receiving -/

theorem parsePrefix_used {bytes : Bytes} {frame : RawFrame} {used : Nat}
    (h : parsePrefix bytes = .ok (some (frame, used))) : 0 < used ∧ used ≤ bytes.length := by
  unfold parsePrefix at h
  split at h
  · dsimp only at h
    repeat' split at h
    all_goals cases h
    simp only [List.length_cons]
    omega
  · cases h

theorem FrameReader.nextFrame_read {r next : FrameReader} {frame : RawFrame}
    (h : r.nextFrame = .ok (some frame, next)) :
    next.buffer.length - next.read < r.buffer.length - r.read := by
  unfold nextFrame at h
  split at h
  · cases h
  · cases h
  rename_i used hp
  cases h
  have := parsePrefix_used hp
  simp only [List.length_drop] at this ⊢
  omega

end SpaceTerm.Wire
