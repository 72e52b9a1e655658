import SpaceTerm.Migration.Branches

/-! # Returning to the build before

Build `b` migrates a root that build `a` left at its current generation, with any number of stopped
and completed runs. A run of `a` that knows of the return finds the files as they were. -/

namespace SpaceTerm.Migration
open Lib
namespace Registry
variable {Path NameA ValueA NameB ValueB Bytes : Type} [LinearOrder Path] [DecidableEq NameA]
  [DecidableEq NameB] {a : Registry Path NameA Bytes ValueA} {b : Registry Path NameB Bytes ValueB}
  {s t : Store Path Bytes} {g : Nat} {f : Path → Option Bytes}

variable (b) in
/-- A run of the build, stopped at any step or completed. -/
def Ran (s t : Store Path Bytes) : Prop :=
  ∃ returned pre post, (b.bring returned s).1 = pre ++ post ∧ t = exec s pre

theorem Ran.cases (h : b.Ran s t) :
    ∃ returned, b.Stopped returned s t ∨
      ∃ outcome, (b.bring returned s).2 = .ok outcome ∧ t = exec s (b.bring returned s).1 := by
  obtain ⟨returned, pre, post, hp, rfl⟩ := h
  refine ⟨returned, ?_⟩
  by_cases hpost : post = []
  · subst hpost
    rw [List.append_nil] at hp
    cases hr : (b.bring returned s).2 with
    | error e => exact .inl ⟨pre, ⟨[], by rw [hp, List.append_nil], fun _ => ⟨e, hr⟩⟩, rfl⟩
    | ok outcome => exact .inr ⟨outcome, rfl, by rw [hp]⟩
  · exact .inl ⟨pre, ⟨post, hp, fun h => absurd h hpost⟩, rfl⟩

variable (b) in
/-- What `b` leaves of a root that stood for the files `f` at generation `g`: the root still stands
for them, or it is at the new generation and they are in the backup. -/
def Recoverable (g : Nat) (f : Path → Option Bytes) (s : Store Path Bytes) : Prop :=
  b.Standing g f s ∨ b.Committed b.current g f s

theorem migrate_commits {outcome : Outcome} (h : b.Standing g f s) (hb : s.backup.marker ≠ some g)
    (ho : (b.migrate s g).2 = .ok outcome) :
    b.Committed b.current g f (exec s (b.migrate s g).1) := by
  have hf : ∀ p, s.root.files.get p = f p := fun p => by rw [← h.files, settled_of_ne hb]
  obtain ⟨ops, hop, hba, -, hs⟩ := takeBackup_eq (r := b) (s := s) g
  change (b.rewrite s.root.files g).2 = .ok outcome at ho
  change b.Committed b.current g f (exec s (b.takeBackup s g ++ (b.rewrite s.root.files g).1))
  rcases rewrite_eq (r := b) s.root.files g with ⟨rops, outcome, hr, hrop⟩ | ⟨e, hr⟩
  · rw [hr, hop, exec_append, exec_append, exec_append]
    obtain ⟨hke, -, hot⟩ := exec_rootOps (s := exec (exec s ops) [.mark .backup g]) hrop
    have hro : (exec (exec s ops) [.mark .backup g]).root = s.root := (exec_backupOps hba).1
    refine ⟨rfl, (congrArg Dir.marker hke).trans rfl, fun p hp => ?_, fun p hp => ?_⟩
    · exact (congrArg (·.files.get p) hke).trans ((hs p hp).trans (hf p))
    · exact (hot p hp).trans (by rw [hro, hf])
  · rw [hr] at ho
    cases ho

/-- At the new generation `b` changes only files that it names, and never the backup. -/
theorem Committed.ran (h : b.Committed b.current g f s) (hne : g ≠ b.current) (hr : b.Ran s t) :
    b.Committed b.current g f t := by
  obtain ⟨returned, pre, post, hpl, rfl⟩ := hr
  have hba : s.backup.marker ≠ some b.current := fun hb =>
    hne (Option.mem_unique h.backup hb)
  have hbr : b.bring returned s = b.bringSettled returned s b.current b.current := by
    unfold bring bringAt
    rw [h.marker]
    exact if_neg hba
  rw [hbr] at hpl
  have hke : ∀ {ops : List (Op Path Bytes)}, (∀ op ∈ ops, RootOp b.named op) →
      b.Committed b.current g f (exec s ops) := by
    intro ops hop
    obtain ⟨hkep, hma, hot⟩ := exec_rootOps (s := s) hop
    exact ⟨hma.trans h.marker, hkep ▸ h.backup, fun p hp => hkep ▸ h.saved p hp,
      fun p hp => (hot p hp).trans (h.others p hp)⟩
  have hni : ([] : List (Op Path Bytes)) = pre ++ post → b.Committed b.current g f (exec s pre) := by
    intro hni
    obtain ⟨rfl, -⟩ := List.nil_eq_append_iff.mp hni
    exact h
  rcases bringSettled_resets (r := b) (s := s) returned (.inl rfl) with
    ⟨result, hempty⟩ | ⟨reason, hre⟩
  · exact hni (by rw [← hpl, hempty])
  rw [hre] at hpl
  rcases resetRebuildable_eq (r := b) s.root.files b.current reason with hop | ⟨kinds, hop⟩
  · rw [hop] at hpl
    by_cases hpost : post = []
    · -- the whole reset: its marker is the one the root has
      subst hpost
      rw [List.append_nil] at hpl
      subst hpl
      rw [exec_append]
      have ha := hke (archives_root (r := b) s.root.files b.current)
      exact { ha with marker := rfl }
    · exact hke fun op ho => archives_root _ _ op ((part_of_snoc_eq hpl hpost).subset ho)
  · exact hni (by rw [← hpl, hop])

/-- One run of `b` keeps the files recoverable. -/
theorem Recoverable.ran (hold : b.oldest ≤ g) (hl : g < b.current) (h : b.Recoverable g f s)
    (hr : b.Ran s t) : b.Recoverable g f t := by
  rcases h with h | h
  · obtain ⟨returned, hs | ⟨outcome, ho, rfl⟩⟩ := hr.cases
    · obtain ⟨pre, hs, rfl⟩ := hs
      rcases h.bring_stops hs with ⟨h, -⟩ | ⟨pre', he, hs⟩
      · exact .inl h
      · rw [bringSettled_migrate hold hl] at hs
        exact .inl (he ▸ migrate_stops h.settle (settle_root h.marker).2.1 hs)
    · obtain ⟨hex, hre⟩ := exec_bring (r := b) returned h.marker
      rw [hre, bringSettled_migrate hold hl] at ho
      rw [hex, bringSettled_migrate hold hl]
      exact .inr (migrate_commits h.settle (settle_root h.marker).2.1 ho)
  · exact .inr (h.ran (by omega) hr)

theorem Recoverable.run (hold : b.oldest ≤ g) (hl : g < b.current) (h : b.Recoverable g f s)
    (hru : Relation.ReflTransGen b.Ran s t) : b.Recoverable g f t := by
  induction hru with
  | refl => exact h
  | tail _ hr ih => exact ih.ran hold hl hr

section Names
variable (hnames : ∀ p, a.named p = b.named p)
include hnames

omit [LinearOrder Path] in
theorem settled_names (p : Path) : a.settled g s p = b.settled g s p := by
  unfold settled
  rw [hnames p]

omit [LinearOrder Path] in
theorem Standing.names (h : b.Standing g f s) : a.Standing g f s :=
  ⟨h.marker, fun p => (settled_names hnames p).trans (h.files p)⟩

omit [LinearOrder Path] in
theorem Committed.names {from_ : Nat} (h : b.Committed g from_ f s) : a.Committed g from_ f s :=
  ⟨h.marker, h.backup, fun p hp => h.saved p (hnames p ▸ hp), fun p hp => h.others p (hnames p ▸ hp)⟩

/-- After any runs of `b`, a run of `a` that knows of the return gives back the files that the root
stood for and its marker; one that does not know of it refuses and changes nothing, unless `b` never
committed. -/
theorem return_restores (hold : b.oldest ≤ a.current) (hlt : a.current < b.current)
    (hmarked : s.root.marker = some a.current)
    (haccepts : a.Accepts (a.settle a.current s).root.files)
    (hruns : Relation.ReflTransGen b.Ran s t) :
    (((a.bring true t).2 = .ok .current ∨ (a.bring true t).2 = .ok .restored) ∧
      (exec t (a.bring true t).1).root.marker = some a.current ∧
      ∀ p, (exec t (a.bring true t).1).root.files.get p = a.settled a.current s p) ∧
    ((t.root.marker = some b.current ∧ a.bring false t = ([], .error .newer)) ∨
      (t.root.marker = some a.current ∧ (a.bring false t).2 = .ok .current ∧
        (exec t (a.bring false t).1).root.marker = some a.current ∧
        ∀ p, (exec t (a.bring false t).1).root.files.get p = a.settled a.current s p)) := by
  have hs : b.Recoverable a.current (a.settled a.current s) s :=
    .inl ⟨hmarked, fun p => (settled_names hnames p).symm⟩
  rcases hs.run hold hlt hruns with h | h
  · -- not committed: `a` finds its own generation and settles the backup of it
    have hcur := (h.names hnames).finish_current (settle_root hmarked).2.2 haccepts
    obtain ⟨hma, hf, hr⟩ := hcur true
    obtain ⟨hma', hf', hr'⟩ := hcur false
    exact ⟨⟨.inl hr, hma, hf⟩, .inr ⟨h.marker, hr', hma', hf'⟩⟩
  have ha := h.names hnames
  have hre : a.Returns true b.current t := ⟨hlt, rfl, h.backup⟩
  obtain ⟨hma, hf, hr⟩ := ha.finish hre
  refine ⟨⟨.inr hr, hma, hf⟩, .inl ⟨h.marker, ?_⟩⟩
  have hba : t.backup.marker ≠ some b.current := fun hb => by
    have := Option.mem_unique h.backup hb
    omega
  have hbr : a.bring false t = a.bringSettled false t b.current b.current := by
    unfold bring bringAt
    rw [h.marker]
    exact if_neg hba
  rw [hbr]
  exact bringSettled_newer hlt fun h => nomatch h.2.1

end Names

/-- The file that `counted` rewrote comes back. -/
theorem return_restores_counted :
    ∃ t, t.root.files.get 1 = some 8 ∧ t.root.marker = some 2 ∧ (countedBefore.bring true t).2 = .ok .restored ∧
      (exec t (countedBefore.bring true t).1).root.files.get 1 = some 7 := by
  have hr : counted.Ran countedStore (exec countedStore (counted.bring false countedStore).1) :=
    ⟨false, _, [], (List.append_nil _).symm, rfl⟩
  have h := return_restores (a := countedBefore) (b := counted) (fun _ => rfl) (by decide) (by decide)
    rfl (.inl rfl) (Relation.ReflTransGen.single hr)
  exact ⟨_, by decide +kernel, by decide +kernel, by decide +kernel, (h.1.2.2 1).trans rfl⟩

/-- A root with an unfinished backup of its own generation. -/
def unsettledStore : Store Nat Nat :=
  ⟨⟨FMap.empty.insert 1 7, some 1⟩, ⟨FMap.empty.insert 1 3, some 1⟩, []⟩

/-- The backup counts, not the file that the root held when the next build first ran. -/
theorem unsettled_backup_returns :
    ∃ t, counted.Ran unsettledStore t ∧ unsettledStore.root.files.get 1 = some 7 ∧
      (countedBefore.bring true t).2 = .ok .restored ∧
      (exec t (countedBefore.bring true t).1).root.files.get 1 = some 3 :=
  ⟨_, ⟨false, _, [], (List.append_nil _).symm, rfl⟩, by decide +kernel, by decide +kernel, by decide +kernel⟩

end Registry
end SpaceTerm.Migration
