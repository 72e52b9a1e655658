import SpaceTerm.Migration.Stopped

/-! # The branches of a run

What a run does with a root once a backup of the root's own generation is settled, and what the runs
that end at the registry's current generation leave. -/

namespace SpaceTerm.Migration
open Lib
variable {Path Name Bytes Value : Type} [LinearOrder Path] [DecidableEq Name]
  {r : Registry Path Name Bytes Value} {s : Store Path Bytes} {g : Nat} {returned : Bool}
  {f : Path → Option Bytes}

namespace Registry

variable (r) in
/-- One run that stopped, or was refused. -/
def Stopped (returned : Bool) (s t : Store Path Bytes) : Prop :=
  ∃ pre, (r.bring returned s).Stops pre ∧ t = exec s pre

variable (r) in
def Accepts (files : FMap Path Bytes) : Prop :=
  r.admission = .generationOne ∨ r.validateCurrent files = true

variable (r) in
/-- `bring` puts the backup of an earlier activation back. -/
def Returns (returned : Bool) (g : Nat) (s : Store Path Bytes) : Prop :=
  r.current < g ∧ returned = true ∧ s.backup.marker = some r.current

theorem bringSettled_current (hg : g = r.current) (h : r.Accepts s.root.files) :
    r.bringSettled returned s g g = ([], .ok .current) := by
  unfold bringSettled
  rw [if_pos hg]
  rcases h with h | h
  · rw [h]
  · cases r.admission <;> simp [h]

theorem bringSettled_newer (hg : r.current < g) (h : ¬ r.Returns returned g s) :
    r.bringSettled returned s g g = ([], .error .newer) := by
  unfold bringSettled
  rw [if_neg (by omega), if_pos hg, if_neg]
  intro h'
  obtain ⟨hr, hb⟩ := Bool.and_eq_true_iff.mp h'
  exact h ⟨hg, hr, beq_iff_eq.mp hb⟩

theorem bringSettled_returns (h : r.Returns returned g s) :
    r.bringSettled returned s g g = (r.settleBackup s r.current, .ok .restored) := by
  obtain ⟨hg, hr, hb⟩ := h
  unfold bringSettled
  rw [if_neg (by omega), if_pos hg, if_pos (by simp [hr, hb])]

theorem bringSettled_tooOld (hg : g < r.oldest) :
    r.bringSettled returned s g g = r.resetRebuildable s.root.files g .tooOld := by
  have := r.oldest_le
  unfold bringSettled
  rw [if_neg (by omega), if_neg (by omega), if_pos hg]

theorem bringSettled_migrate (hold : r.oldest ≤ g) (hg : g < r.current) :
    r.bringSettled returned s g g = r.migrate s g := by
  unfold bringSettled
  rw [if_neg (by omega), if_neg (by omega), if_neg (by omega)]

theorem bringSettled_resets (returned : Bool) (hg : g = r.current ∨ g < r.oldest) :
    (∃ result, r.bringSettled returned s g g = ([], result)) ∨
      ∃ reason, r.bringSettled returned s g g = r.resetRebuildable s.root.files g reason := by
  rcases hg with hg | hg
  · unfold bringSettled
    rw [if_pos hg]
    split
    · split
      · exact .inl ⟨_, rfl⟩
      · exact .inr ⟨_, rfl⟩
    · exact .inl ⟨_, rfl⟩
  · exact .inr ⟨_, bringSettled_tooOld hg⟩

/-! ## Runs that end at the current generation -/

theorem Standing.finish_current (h : r.Standing r.current f s) {files : FMap Path Bytes}
    (hget : ∀ p, files.get p = f p) (ha : r.Accepts files) (returned : Bool) :
    (exec s (r.bring returned s).1).root.marker = some r.current ∧
    (∀ p, (exec s (r.bring returned s).1).root.files.get p = f p) ∧
    (r.bring returned s).2 = .ok .current := by
  have hf : (r.settle r.current s).root.files = files := FMap.ext fun p => by rw [h.settle_get, hget]
  obtain ⟨he, hr⟩ := exec_bring (r := r) returned h.marker
  rw [he, hr, bringSettled_current rfl (hf ▸ ha)]
  exact ⟨h.settle.marker, h.settle_get, rfl⟩

theorem Committed.settle {from_ : Nat} (h : r.Committed g from_ f s) (hne : from_ ≠ g) : r.settle g s = s :=
  settle_of_ne fun hb => hne (Option.mem_unique h.backup hb)

theorem Committed.finish (h : r.Committed g r.current f s) (hre : r.Returns returned g s) :
    (exec s (r.bring returned s).1).root.marker = some r.current ∧
    (∀ p, (exec s (r.bring returned s).1).root.files.get p = f p) ∧
    (r.bring returned s).2 = .ok .restored := by
  obtain ⟨he, hr⟩ := exec_bring (r := r) returned h.marker
  have hl := hre.1
  rw [he, hr, h.settle (by omega), bringSettled_returns hre]
  obtain ⟨hma, -, hf⟩ := exec_settleBackup (r := r) h.backup
  refine ⟨hma, fun p => (hf p).trans ?_, rfl⟩
  unfold settled
  cases hp : r.named p with
  | true => rw [if_pos ⟨rfl, h.backup⟩, h.saved p hp]
  | false => rw [if_neg (fun h => nomatch h.1), h.others p hp]

def counted : Registry Nat Nat Nat Nat where
  admission := .generationOne
  oldest := 1
  current := 2
  steps := [[.file 1 fun v => some (v + 1)]]
  files := [⟨1, .view, fun _ => true, fun _ v => v⟩]
  nameOf := id
  parse := some
  print := id
  oldest_pos := by decide
  oldest_le := by decide
  steps_length := rfl

/-- The build before it. -/
def countedBefore : Registry Nat Nat Nat Nat where
  admission := .generationOne
  oldest := 1
  current := 1
  steps := []
  files := [⟨1, .view, fun _ => true, fun _ v => v⟩]
  nameOf := id
  parse := some
  print := id
  oldest_pos := by decide
  oldest_le := by decide
  steps_length := rfl

def countedStore : Store Nat Nat :=
  ⟨⟨FMap.empty.insert 1 7, some 1⟩, ⟨FMap.empty, none⟩, []⟩

end Registry

end SpaceTerm.Migration
