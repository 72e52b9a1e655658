import SpaceTerm.Migration.Retired
import Mathlib

/-! # Credential items over the builds of a root

The running build brings the root with any number of runs, each stopped anywhere, and its program saves
the root's files. An activation puts a candidate beside a build that brought the root to its generation;
it completes, or returns to that build. -/

namespace SpaceTerm.Migration
open Lib

/-- The root with the build that runs and the one an activation may return to. -/
structure Reign (Path Name Bytes Value Item : Type) where
  keep : Keep Path Bytes Item
  build : Build Path Name Bytes Value Item
  previous : Option (Build Path Name Bytes Value Item)
  returned : Bool

inductive ReignEvent (Path Name Bytes Value Item : Type)
  /-- A run of the migrator that stops after `n` steps. -/
  | run (w : Weather Item) (n : Nat)
  | edit (files : FMap Path Bytes)
  | activate (candidate : Build Path Name Bytes Value Item)
  | complete
  | return_

/-- An unmarked root is at generation 1. -/
def Build.one {Path Name Bytes Value Item : Type} (build : Build Path Name Bytes Value Item) : Bool :=
  match build.registry.admission with
  | .generationOne => true
  | .marked _ _ => false

namespace Reign
variable {Path Name Bytes Value Item : Type} [LinearOrder Path] [DecidableEq Name] [DecidableEq Item]

def acts (s : Reign Path Name Bytes Value Item) (w : Weather Item) : List (KeepAct Path Bytes Item) :=
  (Keep.bring s.build w s.returned s.keep).1

def step (s : Reign Path Name Bytes Value Item) :
    ReignEvent Path Name Bytes Value Item → Reign Path Name Bytes Value Item
  | .run w n => { s with keep := s.keep.exec ((s.acts w).take n) }
  | .edit files => { s with keep.store.root.files := files }
  | .activate candidate => { s with build := candidate, previous := some s.build, returned := false }
  | .complete => { s with previous := none }
  | .return_ =>
    match s.previous with
    | some build => { s with build := build, previous := none, returned := true }
    | none => s

def era (s : Reign Path Name Bytes Value Item) : Era where
  one := s.build.one
  current := s.build.registry.current
  returned := s.returned
  previous := s.previous.map (·.registry.current)

def level (s : Reign Path Name Bytes Value Item) : Option Nat := s.keep.level s.build.one

variable (refs : Path → Bytes → List Item)

/-- No run goes on to delete the retire record after a removal failed. The program saves files that refer
to no listed item. A candidate's steps are careful, and it is put beside a build whose root is at its
generation. -/
def Allowed (s : Reign Path Name Bytes Value Item) : ReignEvent Path Name Bytes Value Item → Prop
  | .run w n => Keep.Heeds ((s.acts w).take n)
  | .edit files => ∀ i ∈ s.keep.listed.getD [], ¬ Refers refs files i
  | .activate candidate => s.level = some s.build.registry.current ∧ Keep.Careful refs candidate ∧
    candidate.one = s.build.one
  | _ => True

variable {refs} {s : Reign Path Name Bytes Value Item}

omit [LinearOrder Path] [DecidableEq Name] [DecidableEq Item] in
theorem during (s : Reign Path Name Bytes Value Item) : Keep.During s.era s.build s.returned := by
  refine ⟨rfl, rfl, ?_⟩
  show s.build.one = true ↔ _
  unfold Build.one
  cases s.build.registry.admission with
  | generationOne => exact ⟨fun _ => rfl, fun _ => rfl⟩
  | marked artifacts currentUnmarked => exact ⟨nofun, nofun⟩

variable (refs) in
structure Inv (s : Reign Path Name Bytes Value Item) : Prop where
  keep : Keep.Inv refs s.era s.keep
  careful : Keep.Careful refs s.build
  previous : ∀ build, s.previous = some build → Keep.Careful refs build ∧ build.one = s.build.one

theorem Inv.run_along (hi : Inv refs s) (w : Weather Item) (n : Nat) (h : Keep.Heeds ((s.acts w).take n)) :
    Along KeepAct.apply (Keep.Good refs s.era) s.keep ((s.acts w).take n) :=
  Keep.bring_take hi.careful hi.keep s.during h

theorem Inv.step (hin : Inv refs s) {e : ReignEvent Path Name Bytes Value Item} (h : s.Allowed refs e) :
    Inv refs (s.step e) := by
  cases e with
  | run w n =>
    refine ⟨?_, hin.careful, hin.previous⟩
    exact (hin.run_along w n h).invariant hin.keep fun _ hgo => hgo.1
  | edit files =>
    refine ⟨⟨hin.keep.accounted, fun items hit _ i hi => ?_, hin.keep.ordered, hin.keep.between⟩,
      hin.careful, hin.previous⟩
    have hit : s.keep.listed = some items := hit
    exact h i (by rw [hit]; exact hi)
  | activate candidate =>
    obtain ⟨hle, hc, ho⟩ := h
    have ho' : Keep.level candidate.one s.keep = Keep.level s.build.one s.keep := by rw [ho]
    refine ⟨⟨hin.keep.accounted, fun items hit hno => ?_, fun b hb => ?_, fun p hp => ?_⟩, hc, fun build hbu => ?_⟩
    · refine hin.keep.unreferred items hit fun hr => hno ?_
      rcases hr with ⟨hso, hs⟩ | ⟨-, hb⟩
      · exact .inl ⟨hso, hs.trans ho'.symm⟩
      -- a backup of the running build's generation is of the root's own
      have hb : s.keep.store.backup.marker = some s.build.registry.current := hb
      exact .inl ⟨Option.isSome_iff_exists.mpr ⟨_, hb⟩, hb.trans (hle.symm.trans ho'.symm)⟩
    · obtain ⟨g, hg, hl⟩ := hin.keep.ordered b hb
      exact ⟨g, ho'.trans hg, hl⟩
    · cases hp
      exact ⟨rfl, .inl (ho'.trans hle)⟩
    · cases hbu
      exact ⟨hin.careful, ho.symm⟩
  | complete =>
    exact ⟨⟨hin.keep.accounted, hin.keep.unreferred, hin.keep.ordered, nofun⟩,
      hin.careful, nofun⟩
  | return_ =>
    simp only [Reign.step]
    cases hpr : s.previous with
    | none => exact hin
    | some build =>
      obtain ⟨hc, ho⟩ := hin.previous build hpr
      have ho' : Keep.level build.one s.keep = Keep.level s.build.one s.keep := by rw [ho]
      obtain ⟨hre, -⟩ := hin.keep.between build.registry.current
        (by show s.previous.map _ = _; rw [hpr]; rfl)
      refine ⟨⟨hin.keep.accounted, fun items hit hno => ?_, fun b hb => ?_, nofun⟩,
        hc, nofun⟩
      · refine hin.keep.unreferred items hit fun hr => hno ?_
        rcases hr with ⟨hso, hs⟩ | ⟨ht, -⟩
        · exact .inl ⟨hso, hs.trans ho'.symm⟩
        · rw [hre] at ht
          cases ht
      · obtain ⟨g, hg, hl⟩ := hin.keep.ordered b hb
        exact ⟨g, ho'.trans hg, hl⟩

theorem acts_migrate {g : Nat} (hma : s.keep.store.root.marker = some g)
    (ho : s.build.registry.oldest ≤ g) (hc : g < s.build.registry.current)
    (hb : s.keep.store.backup.marker ≠ some g) (w : Weather Item) :
    ∃ rest, s.acts w = retire w.removes s.keep.listed ++ rest := by
  unfold acts Keep.bring
  rw [hma]
  dsimp only
  unfold Keep.bringAt
  rw [if_neg hb]
  unfold Keep.bringSettled
  rw [if_neg (by omega), if_neg (by omega), if_neg (by omega)]
  unfold Keep.migrate
  dsimp only
  rw [List.append_assoc]
  exact ⟨_, rfl⟩

/-- Over every sequence of runs stopped anywhere, saves, activations and returns that are allowed, from
a root that was never migrated: an item that a committed migration replaced is removed or listed; a run
removes no item that must stay; and a run that migrates, with every removal done, has removed what was
listed before it goes on. -/
theorem credentials_accounted {keep : Keep Path Bytes Item} {build : Build Path Name Bytes Value Item}
    (hcareful : Keep.Careful refs build)
    (hnew : keep.listed = none ∧ keep.store.backup.marker = none ∧ keep.replaced = [])
    {es : List (ReignEvent Path Name Bytes Value Item)}
    (hrun : Run (fun s e t => s.Allowed refs e ∧ t = s.step e) ⟨keep, build, none, false⟩ es s) :
    (∀ i ∈ s.keep.replaced, s.keep.present i = false ∨ ∃ items, s.keep.listed = some items ∧ i ∈ items) ∧
    (∀ w n, Keep.Heeds ((s.acts w).take n) → ∀ pre i ok post,
      (s.acts w).take n = pre ++ .remove i ok :: post → ¬ Keep.Needed refs s.era (s.keep.exec pre) i) ∧
    ∀ g, s.keep.store.root.marker = some g → s.build.registry.oldest ≤ g →
      g < s.build.registry.current → s.keep.store.backup.marker ≠ some g → ∀ w : Weather Item,
      (∀ i ∈ s.keep.listed.getD [], w.removes i = true) → ∃ first rest, s.acts w = first ++ rest ∧
        (s.keep.exec first).store = s.keep.store ∧
        ∀ i ∈ s.keep.listed.getD [], (s.keep.exec first).present i = false := by
  have hst : Inv refs (⟨keep, build, none, false⟩ : Reign Path Name Bytes Value Item) := by
    obtain ⟨hli, hb, hre⟩ := hnew
    refine ⟨⟨fun i hi => ?_, fun items hit => ?_, fun b hb' => ?_, nofun⟩, hcareful,
      nofun⟩
    · rw [hre] at hi
      cases hi
    · rw [hli] at hit
      cases hit
    · rw [hb] at hb'
      cases hb'
  have hin : Inv refs s := hrun.invariant hst fun hs hste => by
    rw [hste.2]
    exact hs.step hste.1
  refine ⟨hin.keep.accounted, fun w n hh pre i ok post ha => ?_, fun g hma ho hc hb w hr => ?_⟩
  · have hal := hin.run_along w n hh
    rw [ha] at hal
    exact hal.at_.2 i ok rfl
  obtain ⟨rest, ha⟩ := acts_migrate hma ho hc hb w
  have hl : s.keep.level s.era.one = some g := by
    rw [Keep.level, hma]
    rfl
  obtain ⟨-, k, rfl, hend⟩ := Keep.retire_along hin.keep hl hc hb w.removes
  obtain ⟨-, hsto, hg⟩ := hend hr
  exact ⟨_, rest, ha, hsto, hg⟩

/-- A build that takes a root from generation `n` to the next one: its settings file holds an item, and
the item `n + 10` is replaced by `n + 11`. -/
def renewing (n : Nat) (hn : 1 ≤ n) : Build Nat Nat Nat Nat Nat where
  registry := {
    admission := .generationOne
    oldest := n
    current := n + 1
    steps := [[.root fun _ => some (FMap.empty.insert 1 (n + 11))]]
    files := [⟨1, .settings, fun _ => true, fun _ v => v⟩]
    nameOf := id
    parse := fun b => if b = n + 11 then none else some b
    print := id
    oldest_pos := hn
    oldest_le := Nat.le_succ n
    steps_length := by simp }
  asks := fun g _ => if g ≤ n then [(n + 10, n + 11)] else []

def settingsItem (p b : Nat) : List Nat := if p = 1 then [b] else []

theorem refers_settings {files : FMap Nat Nat} {i : Nat} (h : Refers settingsItem files i) :
    files.get 1 = some i := by
  obtain ⟨p, b, hp, hi⟩ := h
  unfold settingsItem at hi
  split at hi
  case isTrue he =>
    rw [← he, hp, List.mem_singleton.mp hi]
  · cases hi

theorem renewing_careful (n : Nat) (hn : 1 ≤ n) : Keep.Careful settingsItem (renewing n hn) := by
  have hask : ∀ {g values ask}, ask ∈ (renewing n hn).asks g values → g ≤ n ∧ ask = (n + 10, n + 11) := by
    intro g values ask hmem
    have hmem : ask ∈ if g ≤ n then [(n + 10, n + 11)] else [] := hmem
    split at hmem
    case isTrue hg => exact ⟨hg, List.mem_singleton.mp hmem⟩
    · cases hmem
  refine ⟨fun p b h => ?_, fun files g values hp ask hmem hr => ?_, fun s g values values' _ hc ask hmem hr => ?_⟩
  · unfold settingsItem at h
    split at h
    case isTrue he =>
      subst he
      rfl
    · exact absurd rfl h
  · obtain ⟨-, rfl⟩ := hask hmem
    have hget := refers_settings hr
    -- the file with the new item does not parse
    have hre : (files.restrict fun p => (renewing n hn).registry.named p &&
        ((renewing n hn).registry.artifact p).isNone).get 1 = some (n + 11) := hget
    unfold Registry.parsed at hp
    split at hp
    · unfold FMap.traverse at hp
      split at hp
      case isTrue ha =>
        have hf := ha 1 ((FMap.mem_keys _ _).mpr (by rw [hre]; rfl))
        rw [hre] at hf
        simp [renewing] at hf
      · cases hp
    · cases hp
  obtain ⟨hg, rfl⟩ := hask hmem
  have hget := refers_settings hr
  have hs : ((renewing n hn).registry.steps.drop (g - n)).flatten.foldlM
      (renewing n hn).registry.applyStep values = some (FMap.empty.insert 1 (n + 11)) := by
    rw [Nat.sub_eq_zero_of_le hg]
    rfl
  have hv : values'.get 1 = some (n + 11) := by
    unfold Registry.carry at hc
    rw [show (renewing n hn).registry.oldest = n from rfl, hs] at hc
    dsimp only at hc
    split at hc
    · cases hc
    case h_2 he =>
      cases hc
      unfold FMap.traverse at he
      split at he
      · cases he
        rfl
      · cases he
  have hw : (values'.sorted.filterMap fun p => (values'.get p).map fun v =>
      (Op.write .root p ((renewing n hn).registry.print v) : Op Nat Nat)) =
        values'.sorted.filterMap fun p => (values'.get p).map (.write .root p) := rfl
  have hfi : ((exec s ((renewing n hn).registry.changeOps s.root.files values')).dir .root).files.get 1 =
      some (n + 11) := by
    rw [Registry.changeOps, exec_append, exec_removes, hw, exec_writes, hv]
    simp [hv]
  have he : n + 11 = n + 10 := Option.mem_unique hfi hget
  omega

/-- A root at generation 1 whose settings hold the item 11. -/
def firstKeep : Keep Nat Nat Nat where
  store := ⟨⟨FMap.empty.insert 1 11, some 1⟩, ⟨FMap.empty, none⟩, []⟩
  listed := none
  present := fun i => i == 11
  replaced := []

def firstReign : Reign Nat Nat Nat Nat Nat := ⟨firstKeep, renewing 1 Nat.one_pos, none, false⟩

/-- Nothing fails but the removal of the given items. -/
def keeping (items : List Nat) : Weather Nat := ⟨fun _ => true, fun i => !items.contains i, none⟩

def failedRemoval : KeepAct Nat Nat Nat → Bool
  | .remove _ ok => !ok
  | _ => false

theorem heeds_of_none_failed {acts : List (KeepAct Nat Nat Nat)} (h : acts.any failedRemoval = false) :
    Keep.Heeds acts := by
  rintro pre i post rfl
  rw [List.any_append, List.any_cons] at h
  simp [failedRemoval] at h

/-- The first migration commits with its item listed, and the next build's run removes the item before it
goes on. -/
theorem credentials_accounted_next : ∃ s : Reign Nat Nat Nat Nat Nat,
    s = (firstReign.step (.run (keeping []) 99)).step (.activate (renewing 2 (by decide))) ∧
    s.keep.replaced = [11] ∧ s.keep.listed = some [11] ∧ s.keep.present 11 = true ∧
    ∃ first rest, s.acts (keeping []) = first ++ rest ∧ (s.keep.exec first).store = s.keep.store ∧
      (s.keep.exec first).present 11 = false := by
  have hr : Run (fun s e t => s.Allowed settingsItem e ∧ t = s.step e) firstReign
      [.run (keeping []) 99, .activate (renewing 2 (by decide))]
      ((firstReign.step (.run (keeping []) 99)).step (.activate (renewing 2 (by decide)))) :=
    .cons ⟨heeds_of_none_failed (by decide +kernel), rfl⟩
      (.single ⟨⟨by decide +kernel, renewing_careful 2 (by decide), rfl⟩, rfl⟩)
  obtain ⟨first, rest, ha, hs, hg⟩ :=
    (credentials_accounted (renewing_careful 1 (by decide)) ⟨rfl, rfl, rfl⟩ hr).2.2 2 (by decide +kernel)
      (by decide +kernel) (by decide +kernel) (by decide +kernel) (keeping []) (fun _ _ => rfl)
  exact ⟨_, rfl, by decide +kernel, by decide +kernel, by decide +kernel, first, rest, ha, hs,
    hg 11 (by decide +kernel)⟩

/-- The removal of the first migration's item fails, and the second migration deletes the record that
lists it: the item stays, and nothing tells a later run to remove it. -/
theorem failed_removal_forgotten : ∃ s : Reign Nat Nat Nat Nat Nat,
    Run (fun s e t => t = s.step e) firstReign
      [.run (keeping []) 99, .activate (renewing 2 (by decide)), .run (keeping [11]) 99] s ∧
    11 ∈ s.keep.replaced ∧ s.keep.present 11 = true ∧ s.keep.listed = some [12] ∧
    s.keep.store.root.marker = some 3 := by
  refine ⟨_, .cons rfl (.cons rfl (.single rfl)), ?_⟩
  decide +kernel

end Reign

end SpaceTerm.Migration
