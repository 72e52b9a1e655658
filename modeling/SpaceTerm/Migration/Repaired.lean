import SpaceTerm.Migration.Notice
import Mathlib

/-! # Files repaired after a refusal

A run that refuses a root leaves it for the person to repair or to reset. The next call takes the
repaired files as they are, unless the refused run was a migration: its backup is marked with the
root's own generation, and the next call restores that backup over the repaired files. -/

namespace SpaceTerm.Migration
open Lib
namespace Registry
variable {Path Name Bytes Value : Type} [LinearOrder Path] [DecidableEq Name]
  (r : Registry Path Name Bytes Value)

/-- The generation at which `bring` takes a root. -/
def generationOf (root : Dir Path Bytes) : Nat :=
  match root.marker with
  | some g => g
  | none =>
    if (r.members root.files).isEmpty then r.current
    else
      match r.admission with
      | .generationOne => 1
      | .marked _ currentUnmarked =>
        if (r.members root.files).all currentUnmarked then r.current else 0

/-- The registry can migrate and read the files: they pass its check at the current generation, or its
steps and readers carry them there as `values`. -/
inductive Carries (root : Dir Path Bytes) : Option (FMap Path Value) → Prop
  | current (generation : r.generationOf root = r.current) (accepts : r.Accepts root.files) : Carries root none
  | migrated {parsed values : FMap Path Value} (oldest : r.oldest ≤ r.generationOf root)
      (current : r.generationOf root < r.current) (parses : r.parsed root.files = some parsed)
      (carries : r.carry parsed (r.generationOf root) = .ok values) : Carries root (some values)

/-- The files at the current generation: the migrated values, and every file that no step sees. -/
def carried (root : Dir Path Bytes) : Option (FMap Path Value) → Path → Option Bytes
  | none, p => root.files.get p
  | some values, p =>
    match values.get p with
    | some v => some (r.print v)
    | none => if r.named p && (r.artifact p).isNone then none else root.files.get p

/-- How a root whose files the registry carries reaches the current generation. -/
def arrival (root : Dir Path Bytes) : Option (FMap Path Value) → Outcome
  | none => .current
  | some _ => .migrated (r.generationOf root)

def carryOps (s : Store Path Bytes) : Option (FMap Path Value) → List (Op Path Bytes)
  | none => if s.root.marker.isNone then [.mark .root r.current] else []
  | some values =>
    r.takeBackup s (r.generationOf s.root) ++
      ((values.sorted.filterMap fun p => (values.get p).map fun v => .write .root p (r.print v)) ++
        ((r.members s.root.files).filter fun p => (r.artifact p).isNone && (values.get p).isNone).map
          (.remove .root) ++
        [.mark .root r.current])

end Registry

def Survives {Path Bytes : Type} (s : Store Path Bytes) (p : Path) (b : Bytes) : Prop :=
  s.root.files.get p = some b ∨ s.backup.files.get p = some b ∨ ∃ g, (g, p, b) ∈ s.reset

namespace Home
variable {Path Name Bytes Value : Type} [LinearOrder Path] [DecidableEq Name] [DecidableEq Bytes]
  {r : Registry Path Name Bytes Value} {h : Home Path Bytes} {values : Option (FMap Path Value)}

/-! ## The call on a root that is carried -/

theorem bringSettled_accepts (returned : Bool) (label : Nat) (ha : r.Accepts h.store.root.files) :
    bringSettled r returned h r.current label = ([], .ok .current) := by
  unfold bringSettled
  rw [if_pos rfl]
  rcases ha with ho | hv
  · rw [ho]
  · cases r.admission <;> simp [hv]

theorem bringSettled_carries (returned : Bool) (label : Nat) {g : Nat} {parsed values : FMap Path Value}
    (hg : r.generationOf h.store.root = g) (ho : r.oldest ≤ g) (hcu : g < r.current)
    (hp : r.parsed h.store.root.files = some parsed) (hc : r.carry parsed g = .ok values) :
    bringSettled r returned h g label = ((r.carryOps h.store (some values)).map .store, .ok (.migrated g)) := by
  have hr : (h.exec ((r.takeBackup h.store g).map .store)).store.root = h.store.root := by
    obtain ⟨ops, hop, hb, -⟩ := Registry.takeBackup_eq (r := r) (s := h.store) g
    rw [exec_store, filterMap_store, hop, Migration.exec_append]
    exact (exec_backupOps hb).1
  unfold bringSettled
  rw [if_neg (by omega), if_neg (by omega), if_neg (by omega)]
  unfold migrate after rewrite Registry.carryOps
  dsimp only
  rw [hr, hp, hg]
  dsimp only
  rw [hc]
  dsimp only
  rw [← List.map_append]

theorem bring_carries (returned : Bool) (hc : r.Carries h.store.root values)
    (hb : h.store.backup.marker ≠ some (r.generationOf h.store.root)) :
    bring r returned h = ((r.carryOps h.store values).map .store, .ok (r.arrival h.store.root values)) := by
  unfold bring
  cases hma : h.store.root.marker with
  | some g =>
    have hg : r.generationOf h.store.root = g := by
      unfold Registry.generationOf
      rw [hma]
    rw [hg] at hb
    dsimp only
    unfold bringAt
    rw [if_neg hb]
    cases hc with
    | current generation accepts =>
      rw [← hg, generation, bringSettled_accepts returned _ accepts]
      simp [Registry.carryOps, hma, Registry.arrival]
    | migrated ho hcu hp hca =>
      rw [hg] at ho hcu hca
      rw [bringSettled_carries returned g hg ho hcu hp hca]
      simp only [Registry.arrival, hg]
  | none =>
    have hg : r.generationOf h.store.root =
        if (r.members h.store.root.files).isEmpty then r.current
        else
          match r.admission with
          | .generationOne => 1
          | .marked _ currentUnmarked =>
            if (r.members h.store.root.files).all currentUnmarked then r.current else 0 := by
      unfold Registry.generationOf
      rw [hma]
    have ho := r.oldest_pos
    have hl := r.oldest_le
    dsimp only
    unfold bringUnmarked
    by_cases hempty : (r.members h.store.root.files).isEmpty = true
    · rw [if_pos hempty] at hg ⊢
      cases hc with
      | current => simp [Registry.carryOps, hma, Registry.arrival]
      | migrated _ hcu => omega
    rw [if_neg hempty] at hg ⊢
    cases ha : r.admission with
    | generationOne =>
      rw [ha] at hg
      dsimp only at hg ⊢
      unfold bringAt
      rw [hg] at hb
      rw [if_neg hb]
      cases hc with
      | current generation accepts =>
        have hon : r.current = 1 := generation.symm.trans hg
        have hs := bringSettled_accepts (h := h) returned 0 accepts
        rw [hon] at hs
        rw [hs, if_pos hon]
        simp [Registry.carryOps, hma, Registry.arrival]
      | migrated hold hcu hp hca =>
        rw [hg] at hold hcu hca
        rw [bringSettled_carries returned 0 hg hold hcu hp hca, if_neg (by omega)]
        simp only [Registry.arrival, hg, List.append_nil]
    | marked artifacts currentUnmarked =>
      rw [ha] at hg
      dsimp only at hg ⊢
      by_cases hal : (r.members h.store.root.files).all currentUnmarked = true
      · rw [if_pos hal] at hg ⊢
        unfold bringAt
        rw [hg] at hb
        rw [if_neg hb]
        cases hc with
        | current generation accepts =>
          rw [bringSettled_accepts returned 0 accepts]
          simp [Registry.carryOps, hma, Registry.arrival]
        | migrated _ hcu => omega
      · rw [if_neg hal] at hg
        cases hc with
        | current generation | migrated hold => omega

/-! ## What the steps leave -/

end Home

section Steps
variable {Path Name Bytes Value : Type} [LinearOrder Path] [DecidableEq Name]
  {r : Registry Path Name Bytes Value} {s : Store Path Bytes}

theorem exec_root_of_backup {ops : List (Op Path Bytes)}
    (hop : ∀ op ∈ ops, BackupOp op ∨ ∃ g, op = .mark .backup g) :
    (exec s ops).root = s.root ∧ (exec s ops).reset = s.reset := by
  induction ops generalizing s with
  | nil => exact ⟨rfl, rfl⟩
  | cons op ops ih =>
    obtain ⟨hro, hr⟩ := ih (s := op.apply s) fun op ho => hop op (List.mem_cons_of_mem _ ho)
    rw [exec_cons, hro, hr]
    rcases hop op (List.mem_cons_self ..) with ho | ⟨g, rfl⟩
    · cases ho with
      | write | remove | unmark => exact ⟨rfl, rfl⟩
    · exact ⟨rfl, rfl⟩

/-- Root steps with the root's marker among them leave the backup's files, every file of another
name, and the files set aside. -/
theorem exec_backup_of_root {q : Path → Bool} {ops : List (Op Path Bytes)}
    (hop : ∀ op ∈ ops, (RootOp q op ∧ ∀ g p, op ≠ .archive g p) ∨ ∃ g, op = .mark .root g) :
    (exec s ops).backup = s.backup ∧ (exec s ops).reset = s.reset ∧
      ∀ p, q p = false → (exec s ops).root.files.get p = s.root.files.get p := by
  induction ops generalizing s with
  | nil => exact ⟨rfl, rfl, fun _ _ => rfl⟩
  | cons op ops ih =>
    obtain ⟨hb, hr, hf⟩ :=
      ih (s := op.apply s) fun op ho => hop op (List.mem_cons_of_mem _ ho)
    rw [exec_cons, hb, hr]
    rcases hop op (List.mem_cons_self ..) with ⟨ho, ha⟩ | ⟨g, rfl⟩
    · have hs : ∀ op' ∈ [op], RootOp q op' := fun op' ho' => by
        cases List.mem_singleton.mp ho'
        exact ho
      obtain ⟨-, -, hot⟩ := exec_rootOps (s := s) hs
      have hf' : ∀ p, q p = false → (exec (op.apply s) ops).root.files.get p = s.root.files.get p :=
        fun p hp => (hf p hp).trans (hot p hp)
      cases ho with
      | write | remove => exact ⟨rfl, rfl, hf'⟩
      | archive g => exact (ha _ _ rfl).elim
    · exact ⟨rfl, rfl, fun p hp => (hf p hp).trans rfl⟩

namespace Registry

theorem takeBackup_ops (s : Store Path Bytes) (g : Nat) :
    ∀ op ∈ r.takeBackup s g, BackupOp op ∨ ∃ g, op = .mark .backup g := by
  obtain ⟨ops, hop, hb, -⟩ := takeBackup_eq (r := r) (s := s) g
  rw [hop]
  intro op ho
  rcases List.mem_append.mp ho with ho | ho
  · exact .inl (hb op ho)
  · exact .inr ⟨g, List.mem_singleton.mp ho⟩

def writeOps (r : Registry Path Name Bytes Value) (s : Store Path Bytes) (values : FMap Path Value) :
    List (Op Path Bytes) :=
  (values.sorted.filterMap fun p => (values.get p).map fun v => .write .root p (r.print v)) ++
    ((r.members s.root.files).filter fun p => (r.artifact p).isNone && (values.get p).isNone).map
      (.remove .root) ++
    [.mark .root r.current]

theorem writeOps_root {values : FMap Path Value} (hna : ∀ p, (values.get p).isSome = true → r.named p = true) :
    ∀ op ∈ r.writeOps s values, (RootOp r.named op ∧ ∀ g p, op ≠ .archive g p) ∨ ∃ g, op = .mark .root g := by
  intro op ho
  rcases List.mem_append.mp ho with ho | ho
  · refine .inl ?_
    rcases List.mem_append.mp ho with ho | ho
    · obtain ⟨p, hp, ho⟩ := List.mem_filterMap.mp ho
      obtain ⟨v, -, rfl⟩ := Option.map_eq_some_iff.mp ho
      exact ⟨.write _ (hna p ((FMap.mem_sorted _ _).mp hp)), nofun⟩
    · obtain ⟨p, hp, rfl⟩ := List.mem_map.mp ho
      exact ⟨.remove ((mem_members _ _).mp (List.mem_filter.mp hp).1).2, nofun⟩
  · exact .inr ⟨_, List.mem_singleton.mp ho⟩

theorem writeOps_files {values : FMap Path Value} {t : Store Path Bytes} (hr : t.root = s.root) (p : Path) :
    (exec t (r.writeOps s values)).root.files.get p = r.carried s.root (some values) p := by
  unfold writeOps
  rw [exec_append, exec_append]
  show ((exec (exec t _) (((r.members s.root.files).filter _).map (.remove .root))).dir
    .root).files.get p = _
  rw [exec_removes]
  have hw : ((exec t (values.sorted.filterMap fun p =>
      (values.get p).map fun v => .write .root p (r.print v))).dir .root).files.get p =
      ((values.get p).map r.print).or (s.root.files.get p) := by
    have hget := exec_writes (s := t) .root (fun p => (values.get p).map r.print) values.sorted p
    simp only [Option.map_map] at hget
    refine hget.trans ?_
    show (if p ∈ values.sorted then ((values.get p).map r.print).or (t.root.files.get p)
      else t.root.files.get p) = _
    rw [hr]
    cases hv : values.get p with
    | none => simp
    | some v => simp [hv]
  rw [hw]
  unfold carried
  cases hv : values.get p with
  | some v => simp [hv]
  | none =>
    cases hget : s.root.files.get p with
    | none | some b => simp [hv, hget]

end Registry

end Steps

namespace Home
variable {Path Name Bytes Value : Type} [LinearOrder Path] [DecidableEq Name] [DecidableEq Bytes]
  {r : Registry Path Name Bytes Value} {h : Home Path Bytes} {values : Option (FMap Path Value)}

omit [DecidableEq Bytes] in
theorem carryOps_eq (s : Store Path Bytes) (values : FMap Path Value) :
    r.carryOps s (some values) = r.takeBackup s (r.generationOf s.root) ++ r.writeOps s values := rfl

omit [DecidableEq Bytes] in
theorem carryOps_arrives {s : Store Path Bytes} (hc : r.Carries s.root values) :
    (Migration.exec s (r.carryOps s values)).root.marker = some r.current ∧
      ∀ p, (Migration.exec s (r.carryOps s values)).root.files.get p = r.carried s.root values p := by
  cases hc with
  | current generation accepts =>
    unfold Registry.carryOps
    cases hma : s.root.marker with
    | none => exact ⟨rfl, fun p => rfl⟩
    | some g =>
      have hg : g = r.current := by
        rw [← generation]
        unfold Registry.generationOf
        rw [hma]
      exact ⟨by rw [← hg]; exact hma, fun p => rfl⟩
  | @migrated parsed values =>
    have hr := (exec_root_of_backup (s := s) (Registry.takeBackup_ops (r := r) s (r.generationOf s.root))).1
    rw [carryOps_eq, Migration.exec_append]
    refine ⟨?_, Registry.writeOps_files hr⟩
    unfold Registry.writeOps
    rw [Migration.exec_append]
    rfl

omit [DecidableEq Bytes] in
/-- However far the steps are taken, every file of the root is there or was copied, and nothing is set
aside. -/
theorem carryOps_survive {s : Store Path Bytes} (hc : r.Carries s.root values) (n : Nat) :
    (Migration.exec s ((r.carryOps s values).take n)).reset = s.reset ∧
      ∀ p b, s.root.files.get p = some b → Survives (Migration.exec s ((r.carryOps s values).take n)) p b := by
  cases hc with
  | current generation accepts =>
    have hops : ∀ op ∈ (r.carryOps s none).take n, op = .mark .root r.current := by
      intro op hop
      have hop : op ∈ if s.root.marker.isNone then [Op.mark .root r.current] else [] :=
        List.mem_of_mem_take hop
      split at hop
      · exact List.mem_singleton.mp hop
      · cases hop
    obtain ⟨-, hr, hf⟩ := exec_backup_of_root (s := s) (q := fun _ => false)
      fun op hop => .inr ⟨_, hops op hop⟩
    exact ⟨hr, fun p b hb => .inl ((hf p rfl).trans hb)⟩
  | @migrated parsed values ho hcu hpa hca =>
    rw [carryOps_eq, List.take_append, Migration.exec_append]
    have ht : ∀ op ∈ (r.takeBackup s (r.generationOf s.root)).take n, BackupOp op ∨ ∃ g, op = .mark .backup g :=
      fun op hop => Registry.takeBackup_ops s _ op (List.mem_of_mem_take hop)
    obtain ⟨hro, hr⟩ := exec_root_of_backup (s := s) ht
    rcases Nat.le_total n (r.takeBackup s (r.generationOf s.root)).length with hn | hn
    · -- the backup is being taken, and the root is as it was
      have hz : n - (r.takeBackup s (r.generationOf s.root)).length = 0 := by omega
      rw [hz]
      refine ⟨hr, fun p b hb => .inl ?_⟩
      show (Migration.exec s ((r.takeBackup s (r.generationOf s.root)).take n)).root.files.get p = some b
      rw [hro, hb]
    -- the backup holds every file that is written over
    rw [List.take_of_length_le hn] at hro hr ⊢
    have hw : ∀ op ∈ (r.writeOps s values).take (n - (r.takeBackup s (r.generationOf s.root)).length),
        (RootOp r.named op ∧ ∀ g p, op ≠ .archive g p) ∨ ∃ g, op = .mark .root g := fun op hop =>
      Registry.writeOps_root (s := s) (fun p hp => Registry.carry_named hca hp) op
        (List.mem_of_mem_take hop)
    obtain ⟨hba, hr', hot⟩ :=
      exec_backup_of_root (s := Migration.exec s (r.takeBackup s (r.generationOf s.root))) hw
    refine ⟨hr'.trans hr, fun p b hb => ?_⟩
    cases hp : r.named p with
    | false => exact .inl (by rw [hot p hp, hro, hb])
    | true =>
      obtain ⟨ops, hops, -, -, hs⟩ :=
        Registry.takeBackup_eq (r := r) (s := s) (r.generationOf s.root)
      refine .inr (.inl ?_)
      rw [hba, hops, Migration.exec_append]
      exact (hs p hp).trans hb

/-! ## The calls -/

/-- Take a root whose files the registry can migrate and read, such as one that was repaired after any
number of refused runs, with no backup of its own generation. The next run, recorded or not, brings
these files to the current generation. The next confirmed reset returns no kinds and moves nothing
aside. However far any of the calls gets, every file that the root held is in the root, in the backup
or set aside. -/
theorem repaired_files_carried (hcarries : r.Carries h.store.root values)
    (hbackup : h.store.backup.marker ≠ some (r.generationOf h.store.root)) :
    (∀ returned, ∀ course ∈ [bring r returned h, runRecorded r returned h],
      course.2 = .ok (r.arrival h.store.root values) ∧
      (h.exec course.1).store.root.marker = some r.current ∧
      ∀ p, (h.exec course.1).store.root.files.get p = r.carried h.store.root values p) ∧
    ((resetConfirmed r h).2 = .ok [] ∧
      ∀ n, (h.exec ((resetConfirmed r h).1.take n)).store.reset = h.store.reset ∧
        (h.exec ((resetConfirmed r h).1.take n)).archives = h.archives) ∧
    ∀ returned, ∀ acts ∈ [(bring r returned h).1, (runRecorded r returned h).1, (resetConfirmed r h).1],
      ∀ n p b, h.store.root.files.get p = some b → Survives (h.exec (acts.take n)).store p b := by
  have hbr := fun returned => bring_carries returned hcarries hbackup
  have hr : ∀ returned, runRecorded r returned h =
      ((r.carryOps h.store values).map .store ++ [.unpend], .ok (r.arrival h.store.root values)) := by
    intro returned
    unfold runRecorded
    rw [hbr returned]
  have hc : resetConfirmed r h = ((r.carryOps h.store values).map .store, .ok []) := by
    unfold resetConfirmed
    rw [hbr false]
  have he : h.exec ((r.carryOps h.store values).map .store) =
      { h with store := Migration.exec h.store (r.carryOps h.store values) } := exec_map_store _
  obtain ⟨hma, hf⟩ := carryOps_arrives hcarries
  have hp : ∀ n, h.exec (((r.carryOps h.store values).map .store).take n) =
      { h with store := Migration.exec h.store ((r.carryOps h.store values).take n) } := by
    intro n
    rw [← List.map_take, exec_map_store]
  refine ⟨fun returned course hco => ?_, ⟨by rw [hc], fun n => ?_⟩, fun returned acts ha n p b hb => ?_⟩
  · rcases List.mem_cons.mp hco with rfl | hco
    · rw [hbr returned, he]
      exact ⟨rfl, hma, hf⟩
    cases List.mem_singleton.mp hco
    rw [hr returned, exec_append, he]
    exact ⟨rfl, hma, hf⟩
  · rw [hc, hp]
    exact ⟨(carryOps_survive hcarries n).1, rfl⟩
  have hsu := (carryOps_survive hcarries n).2 p b hb
  rcases List.mem_cons.mp ha with rfl | ha
  · rw [hbr returned, hp]
    exact hsu
  rcases List.mem_cons.mp ha with rfl | ha
  · -- dropping the pending record changes no file
    have hs : (h.exec ((runRecorded r returned h).1.take n)).store =
        Migration.exec h.store ((r.carryOps h.store values).take n) := by
      rw [hr returned, List.take_append, exec_append, hp, exec_store]
      have hnone : (List.take (n - ((r.carryOps h.store values).map Act.store).length)
          [(Act.unpend : Act Path Bytes)]).filterMap Act.op? = [] := by
        rcases Nat.eq_zero_or_pos (n - ((r.carryOps h.store values).map Act.store).length) with hm | hm
        · rw [hm]
          rfl
        · rw [List.take_of_length_le hm]
          rfl
      rw [hnone]
      rfl
    rw [hs]
    exact hsu
  · cases List.mem_singleton.mp ha
    rw [hc, hp]
    exact hsu

theorem mended_range : 2 ≤ 3 := Nat.le_succ 2

def mended : Registry Nat Nat Nat Nat where
  admission := .generationOne
  oldest := 2
  current := 3
  steps := [[.file 1 fun v => if v = 0 then none else some (v + 1)]]
  files := [⟨1, .settings, fun _ => true, fun _ v => v⟩]
  nameOf := id
  parse := some
  print := id
  oldest_pos := Nat.two_pos
  oldest_le := mended_range
  steps_length := rfl

def mendedHome (generation value : Nat) : Home Nat Nat where
  store := ⟨⟨FMap.empty.insert 1 value, some generation⟩, ⟨FMap.empty, none⟩, []⟩
  archives := FMap.empty
  notice := none
  pending := none

/-- A root that is refused as too old, replaced by one of the next generation. -/
theorem repaired_files_carried_replaced :
    ∃ refused, refused = (mendedHome 1 4).exec (bring mended false (mendedHome 1 4)).1 ∧
      (bring mended false (mendedHome 1 4)).2 = .error (.refused (.reset .tooOld [.settings])) ∧
      (bring mended false { refused with store.root := (mendedHome 2 7).store.root }).2 = .ok (.migrated 2) := by
  refine ⟨_, rfl, by decide +kernel, ?_⟩
  have hc : mended.Carries (mendedHome 2 7).store.root _ :=
    .migrated (by decide) (by decide) rfl rfl
  exact ((repaired_files_carried hc (by decide +kernel)).1 false _ (List.mem_cons_self ..)).1

/-- A migration is refused, the person repairs the file, and the next run puts the broken file back:
the repaired bytes are nowhere, the run is refused again, and a confirmed reset sets the broken file
aside and names its kind. -/
theorem repaired_file_overwritten :
    ∃ refused repaired, refused = (mendedHome 2 0).exec (bring mended false (mendedHome 2 0)).1 ∧
      (bring mended false (mendedHome 2 0)).2 = .error (.refused (.reset .unmigratable [.settings])) ∧
      repaired = { refused with store.root := (mendedHome 2 7).store.root } ∧
      (∃ values, mended.Carries repaired.store.root values) ∧
      (bring mended false repaired).2 = .error (.refused (.reset .unmigratable [.settings])) ∧
      (repaired.exec (bring mended false repaired).1).store.root.files.get 1 = some 0 ∧
      ¬ Survives (repaired.exec (bring mended false repaired).1).store 1 7 ∧
      (resetConfirmed mended repaired).2 = .ok [.settings] ∧
      (repaired.exec (resetConfirmed mended repaired).1).store.reset = [(2, 1, 0)] := by
  refine ⟨_, _, rfl, by decide +kernel, rfl, ⟨_, .migrated (by decide) (by decide) rfl rfl⟩,
    by decide +kernel, by decide +kernel, ?_, by decide +kernel, by decide +kernel⟩
  rintro (hro | hb | ⟨g, hr⟩)
  · exact absurd hro (by decide +kernel)
  · exact absurd hb (by decide +kernel)
  · -- neither of the two runs set a file aside
    exact absurd (List.mem_map.mpr ⟨_, hr, rfl⟩ : (1, 7) ∈ List.map Prod.snd _) (by decide +kernel)

end Home

end SpaceTerm.Migration
