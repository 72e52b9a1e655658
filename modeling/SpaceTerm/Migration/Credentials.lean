import SpaceTerm.Lib.Along
import SpaceTerm.Migration.Repaired
import Mathlib

/-! # The credential items of a migration

`migration.rs` with its credential store. A migration copies the items that its steps replace before it
writes the root, lists the replaced ones in `retire.json` of the backup area and leaves them until the
next migration, whose `retire` removes them. A migration that does not commit removes its copies. A run
is the list of its steps with its result, as for a `Plan`; which copies, removals and writes fail is
given with it. -/

namespace SpaceTerm.Migration
open Lib

/-- A root with its retire record and its credential store. -/
structure Keep (Path Bytes Item : Type) where
  store : Store Path Bytes
  /-- `retire.json`. -/
  listed : Option (List Item)
  present : Item → Bool
  /-- The items that committed migrations replaced and that no return took back and no copy made anew. -/
  replaced : List Item

inductive KeepAct (Path Bytes Item : Type)
  | store (op : Op Path Bytes)
  | list (items : List Item)
  | unlist
  | copy (from_ to_ : Item) (ok : Bool)
  | remove (item : Item) (ok : Bool)
  /-- The marker of a finished migration, which replaced these items. -/
  | commit (generation : Nat) (items : List Item)
  /-- The marker of a restored root: the items of the undone migration are in use again. -/
  | restored (generation : Nat)

/-- What fails in a run. -/
structure Weather (Item : Type) where
  copies : Item → Bool
  removes : Item → Bool
  /-- The write or removal of a root file, or of the record after them, that fails. -/
  write : Option Nat

/-- A build: its registry and the replacements its steps ask for, of a root's values at a
generation. -/
structure Build (Path Name Bytes Value Item : Type) where
  registry : Registry Path Name Bytes Value
  asks : Nat → FMap Path Value → List (Item × Item)

section
variable {Path Bytes Item : Type} [DecidableEq Path] [DecidableEq Item]

def KeepAct.apply (k : Keep Path Bytes Item) : KeepAct Path Bytes Item → Keep Path Bytes Item
  | .store op => { k with store := op.apply k.store }
  | .list items => { k with listed := some items }
  | .unlist => { k with listed := none }
  | .copy _ to_ ok =>
    if ok then
      { k with
        present := fun i => i == to_ || k.present i
        replaced := k.replaced.filter (· != to_) }
    else k
  | .remove item ok =>
    if ok then { k with present := fun i => i != item && k.present i } else k
  | .commit generation items =>
    { k with
      store := (Op.mark .root generation).apply k.store
      replaced := k.replaced ++ items }
  | .restored generation =>
    { k with
      store := (Op.mark .root generation).apply k.store
      replaced := k.replaced.filter fun i => !(k.listed.getD []).contains i }

def Keep.exec (k : Keep Path Bytes Item) (acts : List (KeepAct Path Bytes Item)) : Keep Path Bytes Item :=
  acts.foldl KeepAct.apply k

end

abbrev KeepCourse (Path Bytes Item : Type) := List (KeepAct Path Bytes Item) × Except Failure Outcome

section
variable {Path Bytes Item : Type}

/-- Removals in order, up to the first that fails, and whether none did. -/
def removals (removes : Item → Bool) : List Item → List (KeepAct Path Bytes Item) × Bool
  | [] => ([], true)
  | i :: is =>
    if removes i then
      let rest := removals removes is
      (.remove i true :: rest.1, rest.2)
    else ([.remove i false], false)

def retire (removes : Item → Bool) (listed : Option (List Item)) : List (KeepAct Path Bytes Item) :=
  match listed with
  | none => []
  | some items =>
    let removed := removals removes items
    removed.1 ++ if removed.2 then [.unlist] else []

/-- `replace_credential` for each replacement, up to the first copy that fails, with those made and
whether no copy failed. -/
def replaceCredentials (copies : Item → Bool) :
    List (Item × Item) → List (KeepAct Path Bytes Item) × List (Item × Item) × Bool
  | [] => ([], [], true)
  | (from_, to_) :: rest =>
    if copies to_ then
      let rest := replaceCredentials copies rest
      (.copy from_ to_ true :: rest.1, (from_, to_) :: rest.2.1, rest.2.2)
    else ([.copy from_ to_ false], [], false)

def abandon (removes : Item → Bool) (made : List (Item × Item)) : List (KeepAct Path Bytes Item) :=
  made.map fun (_, to_) => .remove to_ (removes to_)

end

namespace Registry
variable {Path Name Bytes Value : Type} [LinearOrder Path] [DecidableEq Name]
  (r : Registry Path Name Bytes Value)

def restoreBackup (s : Store Path Bytes) : List (Op Path Bytes) :=
  let saved := r.members s.backup.files
  saved.filterMap (fun p => (s.backup.files.get p).map (.write .root p)) ++
    ((r.members s.root.files).filter fun p => !saved.contains p).map (.remove .root)

def changeOps (files : FMap Path Bytes) (values : FMap Path Value) : List (Op Path Bytes) :=
  (values.sorted.filterMap fun p => (values.get p).map fun v => .write .root p (r.print v)) ++
    ((r.members files).filter fun p => (r.artifact p).isNone && (values.get p).isNone).map (.remove .root)

end Registry

namespace Keep
variable {Path Name Bytes Value Item : Type} [LinearOrder Path] [DecidableEq Name] [DecidableEq Item]
  (build : Build Path Name Bytes Value Item) (w : Weather Item)

def settleBackup (k : Keep Path Bytes Item) (generation : Nat) : List (KeepAct Path Bytes Item) :=
  (build.registry.restoreBackup k.store).map .store ++ [.restored generation, .unlist, .store (.unmark .backup)]

def resetRebuildable (k : Keep Path Bytes Item) (generation : Nat) (reason : ResetReason) :
    KeepCourse Path Bytes Item :=
  let plan := build.registry.resetRebuildable k.store.root.files generation reason
  (plan.1.map .store, Home.lift plan.2)

/-- `take_backup`, which deletes every file of the backup area, the retire record too. -/
def takeBackup (k : Keep Path Bytes Item) (generation : Nat) : List (KeepAct Path Bytes Item) :=
  .unlist :: (build.registry.takeBackup k.store generation).map .store

/-- What follows the steps of a migration once they succeeded. -/
def write (k : Keep Path Bytes Item) (from_ : Nat) (values : FMap Path Value) (made : List (Item × Item)) :
    KeepCourse Path Bytes Item :=
  let ops := build.registry.changeOps k.store.root.files values
  match w.write with
  | some n => ((ops.take n).map .store ++ .unlist :: abandon w.removes made, .error .unavailable)
  | none =>
    (ops.map .store ++ (if made.isEmpty then [] else [.list (made.map Prod.fst)]) ++
      [.commit build.registry.current (made.map Prod.fst)], .ok (.migrated from_))

/-- A migration whose steps did not succeed. -/
def failed (k : Keep Path Bytes Item) (from_ : Nat) (made : List (Item × Item)) (reason : ResetReason) :
    KeepCourse Path Bytes Item :=
  let reset := k.resetRebuildable build from_ reason
  (abandon w.removes made ++ reset.1, reset.2)

/-- What follows the backup in `migrate`. -/
def rewrite (k : Keep Path Bytes Item) (from_ : Nat) : KeepCourse Path Bytes Item :=
  match build.registry.parsed k.store.root.files with
  | none => k.resetRebuildable build from_ .invalid
  | some values =>
    let (acts, made, copied) := replaceCredentials w.copies (build.asks from_ values)
    let rest :=
      if copied then
        match build.registry.carry values from_ with
        | .error reason => k.failed build w from_ made reason
        | .ok values => k.write build w from_ values made
      else k.failed build w from_ made .unmigratable
    (acts ++ rest.1, rest.2)

def migrate (k : Keep Path Bytes Item) (from_ : Nat) : KeepCourse Path Bytes Item :=
  let before := retire w.removes k.listed ++ k.takeBackup build from_
  let rest := (k.exec before).rewrite build w from_
  (before ++ rest.1, rest.2)

/-- What `bring` does once a backup of the root's own generation is settled. -/
def bringSettled (returned : Bool) (k : Keep Path Bytes Item) (generation label : Nat) :
    KeepCourse Path Bytes Item :=
  if generation = build.registry.current then
    match build.registry.admission with
    | .marked _ _ =>
      if build.registry.validateCurrent k.store.root.files then ([], .ok .current)
      else k.resetRebuildable build label .invalid
    | .generationOne => ([], .ok .current)
  else if build.registry.current < generation then
    if returned && k.store.backup.marker == some build.registry.current then
      (k.settleBackup build build.registry.current, .ok .restored)
    else ([], .error (.refused .newer))
  else if generation < build.registry.oldest then k.resetRebuildable build generation .tooOld
  else k.migrate build w generation

def bringAt (returned : Bool) (k : Keep Path Bytes Item) (generation label : Nat) : KeepCourse Path Bytes Item :=
  if k.store.backup.marker = some generation then
    let settle := k.settleBackup build generation
    let rest := bringSettled build w returned (k.exec settle) generation label
    (settle ++ rest.1, rest.2)
  else bringSettled build w returned k generation label

def bringUnmarked (returned : Bool) (k : Keep Path Bytes Item) : KeepCourse Path Bytes Item :=
  if (build.registry.members k.store.root.files).isEmpty then
    ([.store (.mark .root build.registry.current)], .ok .current)
  else
    match build.registry.admission with
    | .generationOne =>
      let course := bringAt build w returned k 1 0
      (course.1 ++ if build.registry.current = 1 then [.store (.mark .root build.registry.current)] else [],
        course.2)
    | .marked _ currentUnmarked =>
      if (build.registry.members k.store.root.files).all currentUnmarked then
        let course := bringAt build w returned k build.registry.current 0
        match course.2 with
        | .ok .current => (course.1 ++ [.store (.mark .root build.registry.current)], course.2)
        | _ => course
      else k.resetRebuildable build 0 .invalid

/-- `bring`, which is `run`. -/
def bring (returned : Bool) (k : Keep Path Bytes Item) : KeepCourse Path Bytes Item :=
  match k.store.root.marker with
  | some generation => bringAt build w returned k generation generation
  | none => bringUnmarked build w returned k

/-! ## The steps on the store -/

/-- What a step does to the store. -/
def op? : KeepAct Path Bytes Item → Option (Op Path Bytes)
  | .store op => some op
  | .commit generation _ | .restored generation => some (.mark .root generation)
  | _ => none

omit [LinearOrder Path] in
theorem exec_append [DecidableEq Path] (k : Keep Path Bytes Item) (acts acts' : List (KeepAct Path Bytes Item)) :
    k.exec (acts ++ acts') = (k.exec acts).exec acts' :=
  List.foldl_append

theorem exec_store (k : Keep Path Bytes Item) (acts : List (KeepAct Path Bytes Item)) :
    (k.exec acts).store = Migration.exec k.store (acts.filterMap op?) := by
  induction acts generalizing k with
  | nil => rfl
  | cons act acts ih =>
    refine (ih (act.apply k)).trans ?_
    cases act with
    | store op | list items | unlist => rfl
    | copy from_ to_ ok =>
      cases ok with
      | true | false => rfl
    | remove item ok =>
      cases ok with
      | true | false => rfl
    | commit generation items | restored generation => rfl

omit [LinearOrder Path] [DecidableEq Item] in
theorem filterMap_store (ops : List (Op Path Bytes)) :
    (ops.map (KeepAct.store : Op Path Bytes → KeepAct Path Bytes Item)).filterMap op? = ops := by
  rw [List.filterMap_map]
  exact List.filterMap_some

end Keep

end SpaceTerm.Migration
