import SpaceTerm.Migration.Store
import SpaceTerm.Lib.ListEdit

/-! # What the phases of a run leave behind

A root at generation `g` with a backup marked `g` stands for the files of the backup (`settled`):
that is what the next run restores first. Every phase of a migration keeps what the root stands for
until the new generation's marker is written. -/

namespace SpaceTerm.Migration
open Lib
variable {Path Name Bytes Value : Type} [LinearOrder Path] [DecidableEq Name]
  {r : Registry Path Name Bytes Value} {s t : Store Path Bytes} {ops : List (Op Path Bytes)}

@[simp] theorem exec_nil : exec s [] = s := rfl

@[simp] theorem exec_cons (op : Op Path Bytes) : exec s (op :: ops) = exec (op.apply s) ops := rfl

@[simp] theorem exec_append (ops' : List (Op Path Bytes)) : exec s (ops ++ ops') = exec (exec s ops) ops' :=
  List.foldl_append

/-! ## Steps that change only files that the registry names -/

/-- Writes and removals of root files with a name in `q`. -/
inductive RootOp (q : Path → Bool) : Op Path Bytes → Prop
  | write {p : Path} (b : Bytes) (named : q p = true) : RootOp q (.write .root p b)
  | remove {p : Path} (named : q p = true) : RootOp q (.remove .root p)
  | archive (g : Nat) {p : Path} (named : q p = true) : RootOp q (.archive g p)

/-- Steps in the backup that do not mark it. -/
inductive BackupOp : Op Path Bytes → Prop
  | write (p : Path) (b : Bytes) : BackupOp (.write .backup p b)
  | remove (p : Path) : BackupOp (.remove .backup p)
  | unmark : BackupOp (.unmark .backup)

theorem exec_rootOps {q : Path → Bool} (h : ∀ op ∈ ops, RootOp q op) :
    (exec s ops).backup = s.backup ∧ (exec s ops).root.marker = s.root.marker ∧
      ∀ p, q p = false → (exec s ops).root.files.get p = s.root.files.get p := by
  induction ops generalizing s with
  | nil => exact ⟨rfl, rfl, fun _ _ => rfl⟩
  | cons op ops ih =>
    obtain ⟨hb, hma, hf⟩ := @ih (op.apply s) fun op ho => h op (List.mem_cons_of_mem _ ho)
    have hne : ∀ {p p' : Path}, q p = false → q p' = true → p ≠ p' := by
      rintro p p' hp hp' rfl
      rw [hp] at hp'
      cases hp'
    rw [exec_cons]
    cases h op (List.mem_cons_self ..) with
    | write b named | remove named =>
      refine ⟨hb, hma, fun p hp => (hf p hp).trans ?_⟩
      simp [Op.apply, Store.modify, hne hp named]
    | @archive g p' named =>
      cases hget : s.root.files.get p' with
      | none =>
        have ha : Op.apply s (.archive g p') = s := by simp only [Op.apply, hget]
        rw [ha] at hb hma hf ⊢
        exact ⟨hb, hma, hf⟩
      | some b =>
        have ha : Op.apply s (.archive g p') = { s with
            root := { s.root with files := s.root.files.erase p' }
            reset := s.reset ++ [(g, p', b)] } := by simp only [Op.apply, hget]
        rw [ha] at hb hma hf ⊢
        refine ⟨hb, hma, fun p hp => (hf p hp).trans ?_⟩
        simp [hne hp named]

theorem exec_backupOps (h : ∀ op ∈ ops, BackupOp op) :
    (exec s ops).root = s.root ∧ (exec s ops).reset = s.reset ∧
      ((exec s ops).backup.marker = s.backup.marker ∨ (exec s ops).backup.marker = none) := by
  induction ops generalizing s with
  | nil => exact ⟨rfl, rfl, .inl rfl⟩
  | cons op ops ih =>
    obtain ⟨hro, hr, hma⟩ := @ih (op.apply s) fun op ho => h op (List.mem_cons_of_mem _ ho)
    rw [exec_cons]
    cases h op (List.mem_cons_self ..) with
    | write | remove => exact ⟨hro, hr, hma⟩
    | unmark => exact ⟨hro, hr, .inr (hma.elim id id)⟩

/-! ## Runs of writes and removals -/

def Store.dir (s : Store Path Bytes) : Area → Dir Path Bytes
  | .root => s.root
  | .backup => s.backup

omit [LinearOrder Path] in
@[simp] theorem Store.dir_modify (area : Area) (f : Dir Path Bytes → Dir Path Bytes) :
    (s.modify area f).dir area = f (s.dir area) := by
  cases area <;> rfl

theorem exec_writes (area : Area) (f : Path → Option Bytes) (ps : List Path) (p : Path) :
    ((exec s (ps.filterMap fun p => (f p).map (.write area p))).dir area).files.get p =
      if p ∈ ps then (f p).or ((s.dir area).files.get p) else (s.dir area).files.get p := by
  induction ps generalizing s with
  | nil => simp
  | cons q ps ih =>
    cases hq : f q with
    | none =>
      rw [List.filterMap_cons_none (by rw [hq]; rfl), ih]
      by_cases hp : p = q
      · subst hp
        simp [hq]
      · simp [hp]
    | some b =>
      rw [List.filterMap_cons_some (by rw [hq]; rfl), exec_cons, ih]
      simp only [Op.apply, Store.dir_modify, FMap.get_insert]
      by_cases hp : p = q
      · subst hp
        simp [hq]
      · simp [hp]

theorem exec_removes (area : Area) (ps : List Path) (p : Path) :
    ((exec s (ps.map (.remove area))).dir area).files.get p =
      if p ∈ ps then none else (s.dir area).files.get p := by
  induction ps generalizing s with
  | nil => simp
  | cons q ps ih =>
    rw [List.map_cons, exec_cons, ih]
    simp only [Op.apply, Store.dir_modify, FMap.get_erase, List.mem_cons]
    by_cases hp : p = q <;> simp [hp]

/-! ## What a root stands for -/

namespace Registry
variable (r) in
/-- The file that the root stands for at this name: the backup's, if the backup is of the root's
generation `g` and the registry names the file. -/
def settled (g : Nat) (s : Store Path Bytes) (p : Path) : Option Bytes :=
  if r.named p = true ∧ s.backup.marker = some g then s.backup.files.get p else s.root.files.get p

omit [LinearOrder Path] in
theorem settled_of_ne {g : Nat} (h : s.backup.marker ≠ some g) (p : Path) : r.settled g s p = s.root.files.get p :=
  if_neg fun h' => h h'.2

@[simp] theorem mem_members (files : FMap Path Bytes) (p : Path) :
    p ∈ r.members files ↔ (files.get p).isSome = true ∧ r.named p = true := by
  simp [members]

variable (r) in
/-- The files that `settle_backup` puts back, before it moves a marker. -/
def restoreOps (s : Store Path Bytes) : List (Op Path Bytes) :=
  (r.members s.backup.files).filterMap (fun p => (s.backup.files.get p).map (.write .root p)) ++
    ((r.members s.root.files).filter fun p => !(r.members s.backup.files).contains p).map
      (.remove .root)

theorem settleBackup_eq (g : Nat) : r.settleBackup s g = r.restoreOps s ++ [.mark .root g, .unmark .backup] := rfl

theorem restoreOps_root : ∀ op ∈ r.restoreOps s, RootOp r.named op := by
  intro op ho
  rcases List.mem_append.mp ho with ho | ho
  · obtain ⟨p, hp, ho⟩ := List.mem_filterMap.mp ho
    obtain ⟨b, -, rfl⟩ := Option.map_eq_some_iff.mp ho
    exact .write b ((mem_members _ _).mp hp).2
  · obtain ⟨p, hp, rfl⟩ := List.mem_map.mp ho
    exact .remove ((mem_members _ _).mp (List.mem_filter.mp hp).1).2

variable {p : Path}

/-- After the files are put back the root holds the backup's files under every name of the
registry. -/
theorem restoreOps_files (hp : r.named p = true) :
    (exec s (r.restoreOps s)).root.files.get p = s.backup.files.get p := by
  unfold restoreOps
  rw [exec_append]
  refine (exec_removes .root _ p).trans ?_
  rw [exec_writes .root]
  change (if _ then none else if _ then (s.backup.files.get p).or (s.root.files.get p) else
    s.root.files.get p) = _
  cases hb : s.backup.files.get p with
  | some b => simp [hb, hp]
  | none =>
    cases hr : s.root.files.get p with
    | some b => simp [hb, hr, hp]
    | none => simp [hb]

variable (r) in
def settle (g : Nat) (s : Store Path Bytes) : Store Path Bytes :=
  if s.backup.marker = some g then exec s (r.settleBackup s g) else s

variable {g : Nat}

theorem settle_of_ne (h : s.backup.marker ≠ some g) : r.settle g s = s := if_neg h

/-- A settled backup leaves the root marked, with the files it stood for, and no backup of its
generation. -/
theorem exec_settleBackup (h : s.backup.marker = some g) : (exec s (r.settleBackup s g)).root.marker = some g ∧
    (exec s (r.settleBackup s g)).backup.marker = none ∧
    ∀ p, (exec s (r.settleBackup s g)).root.files.get p = r.settled g s p := by
  rw [settleBackup_eq, exec_append]
  refine ⟨rfl, rfl, fun p => ?_⟩
  change (exec s (r.restoreOps s)).root.files.get p = _
  unfold settled
  cases hp : r.named p with
  | true => rw [if_pos ⟨rfl, h⟩, restoreOps_files hp]
  | false => rw [if_neg (fun h' => nomatch h'.1), (exec_rootOps restoreOps_root).2.2 p hp]

theorem settle_root (h : s.root.marker = some g) :
    (r.settle g s).root.marker = some g ∧ (r.settle g s).backup.marker ≠ some g ∧
      ∀ p, (r.settle g s).root.files.get p = r.settled g s p := by
  unfold settle
  split
  case isTrue hb =>
    obtain ⟨hr, hba, hf⟩ := exec_settleBackup (r := r) hb
    exact ⟨hr, by rw [hba]; exact (nomatch ·), hf⟩
  case isFalse hb => exact ⟨h, hb, fun p => (settled_of_ne hb p).symm⟩

/-! ## Runs of a marked root -/

theorem exec_bring (returned : Bool) (h : s.root.marker = some g) :
    exec s (r.bring returned s).1 = exec (r.settle g s) (r.bringSettled returned (r.settle g s) g g).1 ∧
    (r.bring returned s).2 = (r.bringSettled returned (r.settle g s) g g).2 := by
  unfold bring bringAt settle
  rw [h]
  by_cases hb : s.backup.marker = some g
  · simp only [hb, if_true, exec_append, and_self]
  · simp only [hb, if_false, and_self]

theorem takeBackup_eq (g : Nat) : ∃ ops, r.takeBackup s g = ops ++ [.mark .backup g] ∧
    (∀ op ∈ ops, BackupOp op) ∧ (exec s ops).backup.marker = none ∧
    ∀ p, r.named p = true → (exec s ops).backup.files.get p = s.root.files.get p := by
  refine ⟨_, rfl, fun op ho => ?_, ?_, fun p hp => ?_⟩
  · rcases List.mem_append.mp ho with ho | ho
    · rcases List.mem_append.mp ho with ho | ho
      · obtain ⟨p, -, rfl⟩ := List.mem_map.mp ho
        exact .remove p
      · cases List.mem_singleton.mp ho
        exact .unmark
    · obtain ⟨p, -, ho⟩ := List.mem_filterMap.mp ho
      obtain ⟨b, -, rfl⟩ := Option.map_eq_some_iff.mp ho
      exact .write p b
  · rw [exec_append, exec_append]
    have hw : ∀ op ∈ (r.members s.root.files).filterMap
        (fun p => (s.root.files.get p).map (.write .backup p : Bytes → Op Path Bytes)), BackupOp op := by
      intro op ho
      obtain ⟨p, -, ho⟩ := List.mem_filterMap.mp ho
      obtain ⟨b, -, rfl⟩ := Option.map_eq_some_iff.mp ho
      exact .write p b
    rcases (exec_backupOps (s := exec (exec s (s.backup.files.sorted.map (.remove .backup)))
      [.unmark .backup]) hw).2.2 with h | h
    · exact h
    · exact h
  · rw [exec_append, exec_append]
    refine (exec_writes .backup _ _ p).trans ?_
    have hempty : ((exec s (s.backup.files.sorted.map (.remove .backup))).dir
        .backup).files.get p = none := by
      rw [exec_removes]
      split
      · rfl
      case isFalse h =>
        rw [FMap.mem_sorted] at h
        exact Option.not_isSome_iff_eq_none.mp h
    change (if _ then (s.root.files.get p).or (((exec s (s.backup.files.sorted.map
      (.remove .backup))).dir .backup).files.get p) else ((exec s (s.backup.files.sorted.map
      (.remove .backup))).dir .backup).files.get p) = _
    rw [hempty]
    cases hget : s.root.files.get p with
    | none => simp
    | some b => simp [hget, hp]

theorem resetRebuildable_eq (files : FMap Path Bytes) (g : Nat) (reason : ResetReason) :
    (r.resetRebuildable files g reason =
      ((r.members files).map (.archive g) ++ [.mark .root r.current], .ok .reset)) ∨
    ∃ kinds, r.resetRebuildable files g reason = ([], .error (.reset reason kinds)) := by
  unfold resetRebuildable
  dsimp only
  split
  · exact .inl rfl
  · exact .inr ⟨_, rfl⟩

theorem archives_root (files : FMap Path Bytes) (g : Nat) :
    ∀ op ∈ (r.members files).map (.archive g : Path → Op Path Bytes), RootOp r.named op := by
  intro op ho
  obtain ⟨p, hp, rfl⟩ := List.mem_map.mp ho
  exact .archive g ((mem_members _ _).mp hp).2

omit [LinearOrder Path] in
theorem named_of_rule {rule : FileRule Name Value} (h : r.rule p = some rule) : r.named p = true := by
  simp [named, kind, h]

omit [LinearOrder Path] in
theorem carry_named {files values : FMap Path Value} (h : r.carry files g = .ok values) (hp : (values.get p).isSome = true) : r.named p = true := by
  unfold carry at h
  split at h
  · cases h
  split at h
  · cases h
  case h_2 values' hr =>
    cases h
    unfold FMap.traverse at hr
    split at hr
    · cases hr
      cases hru : r.rule p with
      | some rule => exact named_of_rule hru
      | none =>
        simp only [hru] at hp
        rw [Option.bind_eq_none_iff.mpr fun _ _ => rfl] at hp
        cases hp
    · cases hr

theorem rewrite_eq (files : FMap Path Bytes) (g : Nat) :
    (∃ ops outcome, r.rewrite files g = (ops ++ [.mark .root r.current], .ok outcome) ∧
      ∀ op ∈ ops, RootOp r.named op) ∨ ∃ error, r.rewrite files g = ([], .error error) := by
  have hr : ∀ reason, (∃ ops outcome, r.resetRebuildable files g reason =
      (ops ++ [.mark .root r.current], .ok outcome) ∧ ∀ op ∈ ops, RootOp r.named op) ∨
      ∃ error, r.resetRebuildable files g reason = ([], .error error) := by
    intro reason
    rcases resetRebuildable_eq (r := r) files g reason with h | ⟨kinds, h⟩
    · exact .inl ⟨_, _, h, archives_root files g⟩
    · exact .inr ⟨_, h⟩
  unfold rewrite
  split
  · exact hr _
  split
  · exact hr _
  case h_2 values hc =>
    refine .inl ⟨_, _, rfl, fun op ho => ?_⟩
    rcases List.mem_append.mp ho with ho | ho
    · obtain ⟨p, hp, ho⟩ := List.mem_filterMap.mp ho
      obtain ⟨v, -, rfl⟩ := Option.map_eq_some_iff.mp ho
      exact .write _ (carry_named hc ((FMap.mem_sorted _ _).mp hp))
    · obtain ⟨p, hp, rfl⟩ := List.mem_map.mp ho
      exact .remove ((mem_members _ _).mp (List.mem_filter.mp hp).1).2

end Registry

end SpaceTerm.Migration
