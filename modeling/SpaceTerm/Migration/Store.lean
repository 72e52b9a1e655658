import SpaceTerm.Lib.FMap

/-! # Bringing a data root to this build's generation

`migration.rs`: a root keeps its files and a generation marker, a backup area with a marker of its own
and an area of files set aside. A run of the migrator is the list of its durable steps, in order, with
the outcome it returns; a run that stops has taken a part of that list from its front. Credentials,
notices and the record of a pending reset are left out. -/

namespace SpaceTerm.Migration
open Lib

inductive DataKind
  | view | workspaceOrder | updateHistory | settings | managedSshHosts | backgroundImages
  | workspaceOrganization | machineId | pairings | savedConnections | clientRecords | coreRecords
  deriving DecidableEq

namespace DataKind

/-- `automatic`: rebuildable client state resets without asking. -/
def automatic : DataKind → Bool
  | view | workspaceOrder | updateHistory => true
  | _ => false

def all : List DataKind :=
  [view, workspaceOrder, updateHistory, settings, managedSshHosts, backgroundImages,
    workspaceOrganization, machineId, pairings, savedConnections, clientRecords, coreRecords]

end DataKind

section Registry
variable (Path Name Bytes Value : Type)

structure FileRule where
  name : Name
  kind : DataKind
  read : Value → Bool
  /-- Sets the field that repeats the root's generation, where the rule has one. -/
  stamp : Nat → Value → Value

structure ArtifactRule where
  covers : Path → Bool
  kind : DataKind
  current : Bool

inductive Admission
  | generationOne
  | marked (artifacts : List (ArtifactRule Path)) (currentUnmarked : Path → Bool)

inductive Step
  | file (name : Name) (apply : Value → Option Value)
  | root (apply : FMap Path Value → Option (FMap Path Value))

/-- A registry is consistent: its steps span the generations it declares. -/
structure Registry where
  admission : Admission Path
  oldest : Nat
  current : Nat
  steps : List (List (Step Path Name Value))
  files : List (FileRule Name Value)
  /-- The last component of a path. -/
  nameOf : Path → Name
  parse : Bytes → Option Value
  print : Value → Bytes
  oldest_pos : 1 ≤ oldest
  oldest_le : oldest ≤ current
  steps_length : steps.length = current - oldest

end Registry

structure Dir (Path Bytes : Type) where
  files : FMap Path Bytes
  marker : Option Nat

structure Store (Path Bytes : Type) where
  root : Dir Path Bytes
  backup : Dir Path Bytes
  /-- The files set aside, with the generation of the root they come from. -/
  reset : List (Nat × Path × Bytes)

inductive Area
  | root | backup
  deriving DecidableEq

/-- The durable steps. -/
inductive Op (Path Bytes : Type)
  | write (area : Area) (path : Path) (bytes : Bytes)
  | remove (area : Area) (path : Path)
  | mark (area : Area) (generation : Nat)
  | unmark (area : Area)
  | archive (generation : Nat) (path : Path)
  deriving DecidableEq

section
variable {Path Name Bytes Value : Type} [DecidableEq Path]

def Store.modify (s : Store Path Bytes) (area : Area) (f : Dir Path Bytes → Dir Path Bytes) : Store Path Bytes :=
  match area with
  | .root => { s with root := f s.root }
  | .backup => { s with backup := f s.backup }

def Op.apply (s : Store Path Bytes) : Op Path Bytes → Store Path Bytes
  | .write area path bytes => s.modify area fun d => { d with files := d.files.insert path bytes }
  | .remove area path => s.modify area fun d => { d with files := d.files.erase path }
  | .mark area generation => s.modify area fun d => { d with marker := some generation }
  | .unmark area => s.modify area fun d => { d with marker := none }
  | .archive generation path =>
    match s.root.files.get path with
    | some bytes =>
      { s with
        root := { s.root with files := s.root.files.erase path }
        reset := s.reset ++ [(generation, path, bytes)] }
    | none => s

def exec (s : Store Path Bytes) (ops : List (Op Path Bytes)) : Store Path Bytes :=
  ops.foldl Op.apply s

end

inductive ResetReason
  | tooOld | unmigratable | invalid
  deriving DecidableEq

inductive Outcome
  | current | migrated (from_ : Nat) | restored | reset
  deriving DecidableEq

inductive Refusal
  | newer
  | reset (reason : ResetReason) (kinds : List DataKind)
  deriving DecidableEq

/-- The durable steps of a run and what it returns. -/
abbrev Plan (Path Bytes : Type) := List (Op Path Bytes) × Except Refusal Outcome

namespace Registry
variable {Path Name Bytes Value : Type} [LinearOrder Path] [DecidableEq Name]
  (r : Registry Path Name Bytes Value)

def rule (p : Path) : Option (FileRule Name Value) := r.files.find? (·.name == r.nameOf p)

def artifact (p : Path) : Option (ArtifactRule Path) :=
  match r.admission with
  | .generationOne => none
  | .marked artifacts _ => artifacts.find? (·.covers p)

def kind (p : Path) : Option DataKind :=
  ((r.rule p).map (·.kind)).or ((r.artifact p).map (·.kind))

def named (p : Path) : Bool := (r.kind p).isSome

/-- `members`: the files the registry names, in order. -/
def members (files : FMap Path Bytes) : List Path := files.sorted.filter r.named

def readable (p : Path) (bytes : Bytes) : Bool :=
  match r.rule p with
  | some rule => (r.parse bytes).any rule.read
  | none => false

def validateCurrent (files : FMap Path Bytes) : Bool :=
  (r.members files).all fun p =>
    match r.artifact p with
    | some artifact => artifact.current
    | none => (files.get p).all (r.readable p)

def resetRebuildable (files : FMap Path Bytes) (generation : Nat) (reason : ResetReason) : Plan Path Bytes :=
  let waiting := DataKind.all.filter fun k =>
    !k.automatic && (r.members files).any fun p => r.kind p == some k
  if waiting.isEmpty then
    ((r.members files).map (.archive generation) ++ [.mark .root r.current], .ok .reset)
  else ([], .error (.reset reason waiting))

def settleBackup (s : Store Path Bytes) (generation : Nat) : List (Op Path Bytes) :=
  let saved := r.members s.backup.files
  saved.filterMap (fun p => (s.backup.files.get p).map (.write .root p)) ++
    ((r.members s.root.files).filter fun p => !saved.contains p).map (.remove .root) ++
    [.mark .root generation, .unmark .backup]

def takeBackup (s : Store Path Bytes) (generation : Nat) : List (Op Path Bytes) :=
  s.backup.files.sorted.map (.remove .backup) ++ [.unmark .backup] ++
    (r.members s.root.files).filterMap (fun p => (s.root.files.get p).map (.write .backup p)) ++
    [.mark .backup generation]

def applyStep (files : FMap Path Value) : Step Path Name Value → Option (FMap Path Value)
  | .file name apply =>
    files.traverse fun p v => if r.nameOf p == name then apply v else some v
  | .root apply => apply files

/-- The JSON files of the root; `none` where an artifact may not stay or a file does not parse. -/
def parsed (files : FMap Path Bytes) : Option (FMap Path Value) :=
  if (r.members files).all fun p => (r.artifact p).all (·.current) then
    (files.restrict fun p => r.named p && (r.artifact p).isNone).traverse fun _ b => r.parse b
  else none

/-- The steps from generation `from_` on, and the strict readers. -/
def carry (files : FMap Path Value) (from_ : Nat) : Except ResetReason (FMap Path Value) :=
  match (r.steps.drop (from_ - r.oldest)).flatten.foldlM r.applyStep files with
  | none => .error .unmigratable
  | some files =>
    match files.traverse fun p v =>
      match r.rule p with
      | some rule => if rule.read (rule.stamp r.current v) then some (rule.stamp r.current v) else none
      | none => none with
    | none => .error .invalid
    | some files => .ok files

/-- What follows the backup in `migrate`, of a root with these files. -/
def rewrite (files : FMap Path Bytes) (from_ : Nat) : Plan Path Bytes :=
  match r.parsed files with
  | none => r.resetRebuildable files from_ .invalid
  | some values =>
    match r.carry values from_ with
    | .error reason => r.resetRebuildable files from_ reason
    | .ok values =>
      (values.sorted.filterMap (fun p => (values.get p).map fun v => .write .root p (r.print v)) ++
        ((r.members files).filter fun p => (r.artifact p).isNone && (values.get p).isNone).map
          (.remove .root) ++
        [.mark .root r.current], .ok (.migrated from_))

def migrate (s : Store Path Bytes) (from_ : Nat) : Plan Path Bytes :=
  let (ops, result) := r.rewrite s.root.files from_
  (r.takeBackup s from_ ++ ops, result)

/-- What `bring` does once a backup of the root's own generation is settled. Files of an unmarked root
are set aside under `label` 0. -/
def bringSettled (returned : Bool) (s : Store Path Bytes) (generation label : Nat) : Plan Path Bytes :=
  if generation = r.current then
    match r.admission with
    | .marked _ _ =>
      if r.validateCurrent s.root.files then ([], .ok .current)
      else r.resetRebuildable s.root.files label .invalid
    | .generationOne => ([], .ok .current)
  else if r.current < generation then
    if returned && s.backup.marker == some r.current then
      (r.settleBackup s r.current, .ok .restored)
    else ([], .error .newer)
  else if generation < r.oldest then r.resetRebuildable s.root.files generation .tooOld
  else r.migrate s generation

def bringAt (returned : Bool) (s : Store Path Bytes) (generation label : Nat) : Plan Path Bytes :=
  if s.backup.marker = some generation then
    let settle := r.settleBackup s generation
    let (ops, result) := r.bringSettled returned (exec s settle) generation label
    (settle ++ ops, result)
  else r.bringSettled returned s generation label

/-- The marker that an unmarked root at its current generation gets, and the reset of one that is
not. -/
def bringUnmarked (returned : Bool) (s : Store Path Bytes) : Plan Path Bytes :=
  if (r.members s.root.files).isEmpty then ([.mark .root r.current], .ok .current)
  else
    match r.admission with
    | .generationOne =>
      let (ops, result) := r.bringAt returned s 1 0
      (ops ++ if r.current = 1 then [.mark .root r.current] else [], result)
    | .marked _ currentUnmarked =>
      if (r.members s.root.files).all currentUnmarked then
        let (ops, result) := r.bringAt returned s r.current 0
        match result with
        | .ok .current => (ops ++ [.mark .root r.current], result)
        | _ => (ops, result)
      else r.resetRebuildable s.root.files 0 .invalid

def bring (returned : Bool) (s : Store Path Bytes) : Plan Path Bytes :=
  match s.root.marker with
  | some generation => r.bringAt returned s generation generation
  | none => r.bringUnmarked returned s

end Registry

end SpaceTerm.Migration
