import SpaceTerm.Migration.Branches

/-! # The records beside a data root

`migration.rs` with what the reset area holds: the archives that `set_aside` writes, the notice of the
rebuildable kinds that were reset, and the pending reset that `run_recorded` leaves for another
process. A call is the list of its durable steps with its result, as for a `Plan`. -/

namespace SpaceTerm.Migration
open Lib

structure PendingReset where
  reason : ResetReason
  kinds : List DataKind
  deriving DecidableEq

/-- A root with its areas. `store.reset` lists every file that was moved, in order; the archives are
where `set_aside` put them, under `gen-<generation>` or `gen-<generation>-<attempt>`. -/
structure Home (Path Bytes : Type) where
  store : Store Path Bytes
  archives : FMap (Nat × Nat × Path) Bytes
  notice : Option (Finset DataKind)
  pending : Option PendingReset

/-- The durable steps of a call. -/
inductive Act (Path Bytes : Type)
  | store (op : Op Path Bytes)
  | save (generation attempt : Nat) (path : Path) (bytes : Bytes)
  /-- `add_notice`: the kinds join those of the notice that is there. -/
  | note (kinds : Finset DataKind)
  | pend (pending : PendingReset)
  | unpend
  deriving DecidableEq

inductive Failure
  | refused (refusal : Refusal)
  /-- `StoreError::Unavailable`: every archive name of a file is taken. -/
  | unavailable
  deriving DecidableEq

/-- The durable steps of a call and what it returns. -/
abbrev Course (Path Bytes α : Type) := List (Act Path Bytes) × Except Failure α

section
variable {Path Bytes : Type} [DecidableEq Path]

def Act.apply (h : Home Path Bytes) : Act Path Bytes → Home Path Bytes
  | .store op => { h with store := op.apply h.store }
  | .save generation attempt path bytes =>
    { h with archives := h.archives.insert (generation, attempt, path) bytes }
  | .note kinds => { h with notice := some (h.notice.getD ∅ ∪ kinds) }
  | .pend pending => { h with pending := some pending }
  | .unpend => { h with pending := none }

def Home.exec (h : Home Path Bytes) (acts : List (Act Path Bytes)) : Home Path Bytes :=
  acts.foldl Act.apply h

end

def Admission.unmarkedGeneration {Path : Type} : Admission Path → Nat
  | .generationOne => 1
  | .marked _ _ => 0

namespace Home
variable {Path Name Bytes Value : Type} [LinearOrder Path] [DecidableEq Name] [DecidableEq Bytes]
  (r : Registry Path Name Bytes Value)

/-- The first of the sixteen archive names that is free or already holds these bytes. -/
def attempt (h : Home Path Bytes) (generation : Nat) (path : Path) (bytes : Bytes) : Option Nat :=
  (List.range 16).find? fun attempt =>
    match h.archives.get (generation, attempt, path) with
    | some earlier => earlier == bytes
    | none => true

/-- `set_aside` of each path in turn; `false` where one finds no archive name. -/
def setAside (generation : Nat) : Home Path Bytes → List Path → List (Act Path Bytes) × Bool
  | _, [] => ([], true)
  | h, path :: paths =>
    match h.store.root.files.get path with
    | none => setAside generation h paths
    | some bytes =>
      match h.attempt generation path bytes with
      | none => ([], false)
      | some attempt =>
        let acts := [.save generation attempt path bytes, .store (.archive generation path)]
        let (rest, ok) := setAside generation (h.exec acts) paths
        (acts ++ rest, ok)

def addNotice (kinds : Finset DataKind) : List (Act Path Bytes) :=
  if kinds = ∅ then [] else [.note kinds]

def kinds (h : Home Path Bytes) : Finset DataKind :=
  ((r.members h.store.root.files).filterMap r.kind).toFinset

def resetRebuildable (h : Home Path Bytes) (generation : Nat) (reason : ResetReason) : Course Path Bytes Outcome :=
  let members := r.members h.store.root.files
  let waiting := DataKind.all.filter fun k => !k.automatic && members.any fun p => r.kind p == some k
  if waiting.isEmpty then
    match setAside generation h members with
    | (acts, true) =>
      (acts ++ addNotice (h.kinds r) ++ [.store (.mark .root r.current)], .ok .reset)
    | (acts, false) => (acts, .error .unavailable)
  else ([], .error (.refused (.reset reason waiting)))

/-- Steps of the store alone, and then a call from the state they leave. -/
def after {α : Type} (h : Home Path Bytes) (ops : List (Op Path Bytes))
    (next : Home Path Bytes → Course Path Bytes α) : Course Path Bytes α :=
  let acts := ops.map Act.store
  let (rest, result) := next (h.exec acts)
  (acts ++ rest, result)

/-- What follows the backup in `migrate`. -/
def rewrite (h : Home Path Bytes) (from_ : Nat) : Course Path Bytes Outcome :=
  let files := h.store.root.files
  match r.parsed files with
  | none => h.resetRebuildable r from_ .invalid
  | some values =>
    match r.carry values from_ with
    | .error reason => h.resetRebuildable r from_ reason
    | .ok values =>
      (((values.sorted.filterMap fun p => (values.get p).map fun v => Op.write .root p (r.print v)) ++
        ((r.members files).filter fun p => (r.artifact p).isNone && (values.get p).isNone).map
          (Op.remove .root) ++
        [Op.mark .root r.current]).map Act.store, .ok (.migrated from_))

def migrate (h : Home Path Bytes) (from_ : Nat) : Course Path Bytes Outcome :=
  h.after (r.takeBackup h.store from_) fun h => h.rewrite r from_

/-- What `bring` does once a backup of the root's own generation is settled. -/
def bringSettled (returned : Bool) (h : Home Path Bytes) (generation label : Nat) : Course Path Bytes Outcome :=
  if generation = r.current then
    match r.admission with
    | .marked _ _ =>
      if r.validateCurrent h.store.root.files then ([], .ok .current)
      else h.resetRebuildable r label .invalid
    | .generationOne => ([], .ok .current)
  else if r.current < generation then
    if returned && h.store.backup.marker == some r.current then
      ((r.settleBackup h.store r.current).map .store, .ok .restored)
    else ([], .error (.refused .newer))
  else if generation < r.oldest then h.resetRebuildable r generation .tooOld
  else h.migrate r generation

def bringAt (returned : Bool) (h : Home Path Bytes) (generation label : Nat) : Course Path Bytes Outcome :=
  if h.store.backup.marker = some generation then
    h.after (r.settleBackup h.store generation) fun h => bringSettled r returned h generation label
  else bringSettled r returned h generation label

def bringUnmarked (returned : Bool) (h : Home Path Bytes) : Course Path Bytes Outcome :=
  if (r.members h.store.root.files).isEmpty then ([.store (.mark .root r.current)], .ok .current)
  else
    match r.admission with
    | .generationOne =>
      let (acts, result) := bringAt r returned h 1 0
      (acts ++ if r.current = 1 then [.store (.mark .root r.current)] else [], result)
    | .marked _ currentUnmarked =>
      if (r.members h.store.root.files).all currentUnmarked then
        let (acts, result) := bringAt r returned h r.current 0
        match result with
        | .ok .current => (acts ++ [.store (.mark .root r.current)], result)
        | _ => (acts, result)
      else h.resetRebuildable r 0 .invalid

/-- `bring`, which is `run`. -/
def bring (returned : Bool) (h : Home Path Bytes) : Course Path Bytes Outcome :=
  match h.store.root.marker with
  | some generation => bringAt r returned h generation generation
  | none => bringUnmarked r returned h

def runRecorded (returned : Bool) (h : Home Path Bytes) : Course Path Bytes Outcome :=
  let (acts, result) := bring r returned h
  match result with
  | .error (.refused (.reset reason kinds)) => (acts ++ [.pend ⟨reason, kinds⟩], result)
  | .ok _ => (acts ++ [.unpend], result)
  | .error _ => (acts, result)

/-- What `reset_confirmed` does with a root that `run` refused. -/
def resetAll (h : Home Path Bytes) : Course Path Bytes (List DataKind) :=
  let generation := h.store.root.marker.getD r.admission.unmarkedGeneration
  match setAside generation h (r.members h.store.root.files) with
  | (acts, true) =>
    (acts ++ addNotice ((h.kinds r).filter fun k => k.automatic = true) ++
      [.store (.mark .root r.current), .unpend],
      .ok (DataKind.all.filter fun k => k ∈ h.kinds r))
  | (acts, false) => (acts, .error .unavailable)

def resetConfirmed (h : Home Path Bytes) : Course Path Bytes (List DataKind) :=
  let (acts, result) := bring r false h
  match result with
  | .error (.refused (.reset _ _)) =>
    let (rest, result) := (h.exec acts).resetAll r
    (acts ++ rest, result)
  | .ok _ => (acts, .ok [])
  | .error refusal => (acts, .error refusal)

def pendingNotice (h : Home Path Bytes) : Finset DataKind := h.notice.getD ∅

/-- `acknowledge_notice`, and what `take_notice` leaves. -/
def acknowledgeNotice (h : Home Path Bytes) : Home Path Bytes := { h with notice := none }

end Home

/-! ## The steps on the store -/

def Act.op? {Path Bytes : Type} : Act Path Bytes → Option (Op Path Bytes)
  | .store op => some op
  | _ => none

namespace Home
variable {Path Name Bytes Value : Type} [LinearOrder Path] {h : Home Path Bytes}
  {acts : List (Act Path Bytes)}

@[simp] theorem exec_nil : h.exec [] = h := rfl

@[simp] theorem exec_cons (act : Act Path Bytes) : h.exec (act :: acts) = (act.apply h).exec acts := rfl

@[simp] theorem exec_append (acts' : List (Act Path Bytes)) : h.exec (acts ++ acts') = (h.exec acts).exec acts' :=
  List.foldl_append

theorem exec_store (acts : List (Act Path Bytes)) :
    (h.exec acts).store = Migration.exec h.store (acts.filterMap Act.op?) := by
  induction acts generalizing h with
  | nil => rfl
  | cons act acts ih =>
    rw [exec_cons, ih]
    cases act with
    | store op | save | note | pend | unpend => rfl

omit [LinearOrder Path] in
@[simp] theorem filterMap_store (ops : List (Op Path Bytes)) : (ops.map Act.store).filterMap Act.op? = ops := by
  induction ops with
  | nil => rfl
  | cons op ops ih =>
    show op :: (ops.map Act.store).filterMap Act.op? = _
    rw [ih]

theorem exec_map_store (ops : List (Op Path Bytes)) :
    h.exec (ops.map Act.store) = { h with store := Migration.exec h.store ops } := by
  induction ops generalizing h with
  | nil => rfl
  | cons op ops ih => rw [List.map_cons, exec_cons, ih]; rfl

/-! ## The result of a plan -/

/-- The result of a plan as that of a call. -/
def lift : Except Refusal Outcome → Except Failure Outcome
  | .ok outcome => .ok outcome
  | .error refusal => .error (.refused refusal)

end Home

end SpaceTerm.Migration
