import SpaceTerm.Migration.Phases

/-! # Runs that stop

A run stops before one of its steps, or it is refused. Until the new generation's marker is written,
neither changes what the root stands for (`Standing`), unless the run sets files aside with no backup
to return to. -/

namespace SpaceTerm.Migration
open Lib
variable {Path Name Bytes Value : Type} [LinearOrder Path] [DecidableEq Name]
  {r : Registry Path Name Bytes Value} {s t : Store Path Bytes} {pre : List (Op Path Bytes)}
  {g : Nat} {returned : Bool} {f : Path → Option Bytes}

omit [LinearOrder Path] in
/-- The plan stops after the steps `pre`: steps are left, or it was refused. -/
def Plan.Stops (plan : Plan Path Bytes) (pre : List (Op Path Bytes)) : Prop :=
  ∃ post, plan.1 = pre ++ post ∧ (post = [] → ∃ e, plan.2 = .error e)

omit [LinearOrder Path] in
theorem part_of_snoc_eq {ops post : List (Op Path Bytes)} {op : Op Path Bytes}
    (h : ops ++ [op] = pre ++ post) (hpost : post ≠ []) : pre <+: ops := by
  obtain ⟨post, last, rfl⟩ := List.eq_nil_or_concat post |>.resolve_left hpost
  rw [List.concat_eq_append, ← List.append_assoc] at h
  obtain ⟨rfl, -⟩ := List.append_inj' h rfl
  exact List.prefix_append _ _

namespace Plan.Stops

omit [LinearOrder Path] in
theorem nil {result : Except Refusal Outcome} (h : Plan.Stops ([], result) pre) :
    pre = [] ∧ ∃ e, result = .error e := by
  obtain ⟨post, he, her⟩ := h
  obtain ⟨rfl, rfl⟩ := List.nil_eq_append_iff.mp he
  exact ⟨rfl, her rfl⟩

omit [LinearOrder Path] in
theorem append {ops ops' : List (Op Path Bytes)} {result : Except Refusal Outcome}
    (h : Plan.Stops (ops ++ ops', result) pre) :
    (∃ post, post ≠ [] ∧ ops = pre ++ post) ∨ ∃ pre', pre = ops ++ pre' ∧ Plan.Stops (ops', result) pre' := by
  obtain ⟨post, he, her⟩ := h
  rcases List.append_eq_append_iff.mp he with ⟨pre', hp, ho⟩ | ⟨post', ho, hpost⟩
  · exact .inr ⟨pre', hp, post, ho, her⟩
  cases post' with
  | nil =>
    rw [List.nil_append] at hpost
    exact .inr ⟨[], by simpa using ho.symm, ops', rfl, hpost ▸ her⟩
  | cons op post' => exact .inl ⟨op :: post', List.cons_ne_nil _ _, ho⟩

omit [LinearOrder Path] in
theorem snoc {ops : List (Op Path Bytes)} {op : Op Path Bytes} {outcome : Outcome}
    (h : Plan.Stops (ops ++ [op], .ok outcome) pre) : pre <+: ops := by
  obtain ⟨post, heq, her⟩ := h
  have hpost : post ≠ [] := by
    rintro rfl
    obtain ⟨e, he⟩ := her rfl
    cases he
  exact part_of_snoc_eq heq hpost

end Plan.Stops

namespace Registry

variable (r) in
structure Standing (g : Nat) (f : Path → Option Bytes) (s : Store Path Bytes) : Prop where
  marker : s.root.marker = some g
  files : ∀ p, r.settled g s p = f p

variable (r) in
/-- The root is at generation `g` with a finished backup of generation `from_` and, under the names
the registry does not know, the files of `f`. -/
structure Committed (g from_ : Nat) (f : Path → Option Bytes) (s : Store Path Bytes) : Prop where
  marker : s.root.marker = some g
  backup : s.backup.marker = some from_
  saved : ∀ p, r.named p = true → s.backup.files.get p = f p
  others : ∀ p, r.named p = false → s.root.files.get p = f p

theorem Standing.settle (h : r.Standing g f s) : r.Standing g f (r.settle g s) := by
  obtain ⟨hma, hb, hf⟩ := settle_root (r := r) h.marker
  exact ⟨hma, fun p => by rw [settled_of_ne hb, hf, h.files]⟩

theorem Standing.settle_get (h : r.Standing g f s) (p : Path) : (r.settle g s).root.files.get p = f p := by
  rw [(settle_root h.marker).2.2, h.files]

/-! ## One phase that stops -/

/-- `settle_backup` keeps the backup until its last step. -/
theorem settleBackup_stops {post : List (Op Path Bytes)} (he : r.settleBackup s g = pre ++ post)
    (hpost : post ≠ []) :
    (exec s pre).backup = s.backup ∧
    (∀ p, r.named p = false → (exec s pre).root.files.get p = s.root.files.get p) ∧
    ((exec s pre).root.marker = s.root.marker ∨ (exec s pre).root.marker = some g) := by
  rw [settleBackup_eq] at he
  have hs : (∀ op ∈ pre, op ∈ r.restoreOps s) ∨ pre = r.restoreOps s ++ [.mark .root g] := by
    rcases List.append_eq_append_iff.mp he with ⟨pre', rfl, hop⟩ | ⟨post', hop, -⟩
    · cases pre' with
      | nil => exact .inl fun op ho => by simpa using ho
      | cons op pre' =>
        rw [List.cons_append] at hop
        obtain ⟨rfl, hrest⟩ := List.cons.inj hop
        cases pre' with
        | nil => exact .inr rfl
        | cons op' pre' =>
          rw [List.cons_append] at hrest
          obtain ⟨-, hni⟩ := List.cons.inj hrest
          exact absurd (List.nil_eq_append_iff.mp hni).2 hpost
    · exact .inl fun op ho => hop ▸ List.mem_append_left _ ho
  rcases hs with hmem | rfl
  · obtain ⟨hb, hma, hf⟩ :=
      exec_rootOps (s := s) fun op ho => restoreOps_root op (hmem op ho)
    exact ⟨hb, hf, .inl hma⟩
  · obtain ⟨hb, -, hf⟩ := exec_rootOps (s := s) (restoreOps_root (r := r) (s := s))
    rw [exec_append]
    exact ⟨hb, hf, .inr rfl⟩

omit [LinearOrder Path] in
theorem Standing.of_settling (h : r.Standing g f s) (hb : t.backup = s.backup) (hma : t.root.marker = some g)
    (ho : ∀ p, r.named p = false → t.root.files.get p = s.root.files.get p)
    (hs : s.backup.marker = some g) : r.Standing g f t := by
  refine ⟨hma, fun p => ?_⟩
  rw [← h.files]
  unfold settled
  rw [hb]
  cases hp : r.named p with
  | true => simp [hs]
  | false => simp [ho p hp]

theorem migrate_stops (h : r.Standing g f s) (hb : s.backup.marker ≠ some g)
    (hst : (r.migrate s g).Stops pre) : r.Standing g f (exec s pre) := by
  have hf : ∀ p, s.root.files.get p = f p := fun p => by rw [← h.files, settled_of_ne hb]
  obtain ⟨ops, hop, hba, -, hs⟩ := takeBackup_eq (r := r) (s := s) g
  change Plan.Stops (r.takeBackup s g ++ (r.rewrite s.root.files g).1, (r.rewrite s.root.files g).2) pre at hst
  rcases hst.append with ⟨post, hpost, he⟩ | ⟨pre', rfl, hst'⟩
  · -- the backup is not marked yet, and the root is as it was
    rw [hop] at he
    obtain ⟨hro, -, hma⟩ :=
      exec_backupOps (s := s) fun op ho => hba op ((part_of_snoc_eq he hpost).subset ho)
    have hne : (exec s pre).backup.marker ≠ some g := by
      rcases hma with hma | hma
      · rwa [hma]
      · rw [hma]
        exact (nomatch ·)
    exact ⟨by rw [hro]; exact h.marker, fun p => by rw [settled_of_ne hne, hro, hf]⟩
  -- the backup is complete, and only named files of the root change
  have hroo : ∀ op ∈ pre', RootOp r.named op := by
    rcases rewrite_eq (r := r) s.root.files g with ⟨rops, outcome, hr, hrop⟩ | ⟨e, hr⟩
    · rw [hr] at hst'
      exact fun op ho => hrop op (hst'.snoc.subset ho)
    rw [hr] at hst'
    obtain ⟨rfl, -⟩ := hst'.nil
    exact nofun
  obtain ⟨hke, hma, hot⟩ :=
    exec_rootOps (s := exec s (r.takeBackup s g)) hroo
  have hro : (exec s (r.takeBackup s g)).root = s.root := by
    rw [hop, exec_append]
    exact (exec_backupOps hba).1
  have hfu : (exec s (r.takeBackup s g)).backup.marker = some g ∧
      ∀ p, r.named p = true → (exec s (r.takeBackup s g)).backup.files.get p = s.root.files.get p := by
    rw [hop, exec_append]
    exact ⟨rfl, hs⟩
  rw [exec_append]
  refine ⟨by rw [hma, hro]; exact h.marker, fun p => ?_⟩
  unfold settled
  rw [hke]
  cases hp : r.named p with
  | true => rw [if_pos ⟨rfl, hfu.1⟩, hfu.2 p hp, hf]
  | false => rw [if_neg (fun h => nomatch h.1), hot p hp, hro, hf]

theorem bring_stops (hm : s.root.marker = some g) (hs : (r.bring returned s).Stops pre) :
    (s.backup.marker = some g ∧ ∃ post, post ≠ [] ∧ r.settleBackup s g = pre ++ post) ∨
    ∃ pre', exec s pre = exec (r.settle g s) pre' ∧ (r.bringSettled returned (r.settle g s) g g).Stops pre' := by
  unfold bring bringAt at hs
  rw [hm] at hs
  unfold settle
  by_cases hb : s.backup.marker = some g
  · simp only [hb, if_true] at hs ⊢
    rcases hs.append with h | ⟨pre', rfl, h⟩
    · exact .inl ⟨trivial, h⟩
    · exact .inr ⟨pre', exec_append _, h⟩
  · simp only [hb, if_false] at hs ⊢
    exact .inr ⟨pre, rfl, hs⟩

/-- What the root stands for is kept while a backup of its generation is settled; what follows is a
run of the settled store. -/
theorem Standing.bring_stops (h : r.Standing g f s) (hs : (r.bring returned s).Stops pre) :
    (r.Standing g f (exec s pre) ∧ (exec s pre).backup = s.backup) ∨
    ∃ pre', exec s pre = exec (r.settle g s) pre' ∧ (r.bringSettled returned (r.settle g s) g g).Stops pre' := by
  rcases Registry.bring_stops h.marker hs with ⟨hb, post, hpost, he⟩ | h'
  · obtain ⟨hba, ho, hma⟩ := settleBackup_stops he hpost
    have hma : (exec s pre).root.marker = some g := by
      rcases hma with hma | hma
      · rw [hma, h.marker]
      · exact hma
    exact .inl ⟨h.of_settling hba hma ho hb, hba⟩
  · exact .inr h'

end Registry

end SpaceTerm.Migration
