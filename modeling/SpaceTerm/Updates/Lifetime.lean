import SpaceTerm.Updates.Install
import SpaceTerm.Lib.Run

/-! # Versions over the life of a Core

Installs by any engine under the service lock, restarts into the Pending Version, activations that
complete or return, and `reconcile`, which carries an activation's outcome from the activation journal
to the update record, in a release build. A crash between the two records is a `reconcile` that comes
later. An archive's digest names its version. -/

namespace SpaceTerm.Updates
open Lib

/-- How an activation ended, as far as its journal says. -/
inductive Ending
  | pending
  /-- `Completed` while the service is stopped: the candidate is approved and was not ready yet. -/
  | waiting
  | completed
  | returned (failure : StartFailure)
  deriving DecidableEq

/-- Whether `Operation::outcome` gives an outcome. -/
def Ending.isOutcome : Ending → Bool
  | .pending | .waiting => false
  | .completed | .returned _ => true

/-- The activation in the service record. -/
structure Activation (R C D : Type) where
  id : Nat
  previous : Stored R C D
  candidate : Stored R C D
  ending : Ending

/-- The two records, the version that is approved, which activations had their outcome reconciled, and the
releases that failed to start since when no newer release was installed. -/
structure Core (R C D : Type) where
  site : Site R C D
  running : Version R C
  activation : Option (Activation R C D)
  next : Nat
  applied : List Nat
  barred : List (Version R C)

inductive CoreEvent (R C D : Type) [LinearOrder R]
  /-- An install by an engine that was opened when `running` ran. -/
  | install (running : Version R C) (candidate : Candidate R C) (archive : Archive R C D)
      (steppingStone : Bool) (faults : Faults R D)
  /-- A silent restart records its attempt. -/
  | attempt (boot : Nat)
  /-- The attempt was refused, or settled while the server runs on. -/
  | attemptEnds
  | activate
  /-- The candidate was ready, or is approved for a later start of the stopped service. -/
  | completes (ready : Bool)
  /-- The candidate was not ready in time, and the previous version is approved again. -/
  | fails (failure : StartFailure)
  | reconcile

section Records
variable {R C D : Type} [DecidableEq D]

/-- `record_completed`. -/
def Record.completed (record : Record R C D) (candidate : D) : Record R C D :=
  { record with
    pending := record.pending.filter fun pending => pending.digest != candidate
    silent := none }

/-- `record_start_failure`. -/
def Record.startFailed (record : Record R C D) (activation : Nat) (candidate : Stored R C D)
    (failure : StartFailure) : Record R C D :=
  if record.activation = some activation then record
  else
    let record :=
      { record with
        activation := some activation
        failures := record.failures + 1
        lastFailure := some ⟨record.failures + 1, candidate.version, .start failure⟩ }
    if failure = .notReady then
      { record with
        skipped := some candidate.version
        pending := record.pending.filter fun pending => pending.digest != candidate.digest }
    else record

/-- `reconcile` of the record. -/
def Record.reconciled (record : Record R C D) (activation : Option (Activation R C D)) : Record R C D :=
  match activation with
  | some ⟨_, _, candidate, .completed⟩ => record.completed candidate.digest
  | some ⟨id, _, candidate, .returned failure⟩ => record.startFailed id candidate failure
  | _ => record

variable {record : Record R C D} {id : Nat} {x p : Stored R C D} {failure : StartFailure}

theorem startFailed_pending (h : (record.startFailed id x failure).pending = some p) :
    record.pending = some p := by
  unfold Record.startFailed at h
  split at h
  · exact h
  dsimp only at h
  split at h
  · exact (Option.filter_eq_some_iff.mp h).1
  · exact h

theorem startFailed_again (h : record.activation = some id) : record.startFailed id x failure = record :=
  if_pos h

theorem startFailed_first (h : record.activation ≠ some id) :
    (record.startFailed id x failure).activation = some id ∧
      (record.startFailed id x failure).lastFailure = some ⟨record.failures + 1, x.version, .start failure⟩ ∧
      (failure = .notReady → (record.startFailed id x failure).skipped = some x.version) ∧
      (failure ≠ .notReady → (record.startFailed id x failure).skipped = record.skipped ∧
        (record.startFailed id x failure).pending = record.pending) := by
  unfold Record.startFailed
  rw [if_neg h]
  split
  case isTrue hready => exact ⟨rfl, rfl, fun _ => rfl, fun hne => absurd hready hne⟩
  case isFalse hready => exact ⟨rfl, rfl, fun h => absurd h hready, fun _ => ⟨rfl, rfl⟩⟩

theorem filter_digest {pending : Option (Stored R C D)} (hp : pending = some p)
    (digest : D) :
    (pending.filter fun pending => pending.digest != digest) ≠ some p ↔ digest = p.digest := by
  rw [hp, ne_eq, Option.filter_eq_some_iff]
  constructor
  · intro h
    by_contra hne
    exact h ⟨rfl, bne_iff_ne.mpr (Ne.symm hne)⟩
  · rintro rfl ⟨-, h⟩
    exact bne_iff_ne.mp h rfl

end Records

namespace Core
variable {R C D : Type} [LinearOrder R] [DecidableEq C] [DecidableEq D]

def activating (s : Core R C D) : Bool := s.activation.any fun a => a.ending == .pending

/-- What an install meets: `Busy` while an activation is under way. -/
def met (s : Core R C D) (faults : Faults R D) : Faults R D :=
  if s.activating then { faults with state := some .busy } else faults

def outcomeId (s : Core R C D) : Option Nat :=
  s.activation.bind fun a => if a.ending.isOutcome then some a.id else none

/-- Changes an activation that has no outcome yet. -/
def settle (s : Core R C D) (change : Activation R C D → Core R C D) : Core R C D :=
  match s.activation with
  | some a => if a.ending.isOutcome then s else change a
  | none => s

def install (s : Core R C D) (running : Version R C) (candidate : Candidate R C) (archive : Archive R C D)
    (steppingStone : Bool) (faults : Faults R D) : Core R C D :=
  match s.site.install running candidate archive steppingStone (s.met faults) with
  | (site, .ok stored) => { s with site, barred := s.barred.filter fun v => !stored.version.above v }
  | (site, .error _) => { s with site }

def step (s : Core R C D) : CoreEvent R C D → Core R C D
  | .install running candidate archive steppingStone faults =>
    s.install running candidate archive steppingStone faults
  | .attempt boot =>
    { s with site.record.silent := (s.site.record.pending.map fun p => ⟨boot, p.digest⟩).or s.site.record.silent }
  | .attemptEnds => { s with site.record.silent := none }
  | .activate =>
    match s.site.record.pending with
    | some pending =>
      if s.activating ∨ pending.digest = s.site.installation then s
      else { s with
        activation := some ⟨s.next, ⟨s.site.installation, s.running⟩, pending, .pending⟩
        next := s.next + 1 }
    | none => s
  | .completes ready => s.settle fun a =>
    { s with
      activation := some { a with ending := if ready then .completed else .waiting }
      running := a.candidate.version
      site.installation := a.candidate.digest }
  | .fails failure => s.settle fun a =>
    { s with
      activation := some { a with ending := .returned failure }
      running := a.previous.version
      site.installation := a.previous.digest
      barred := if failure = .notReady then a.candidate.version :: s.barred else s.barred }
  | .reconcile =>
    { s with
      site.record := s.site.record.reconciled s.activation
      applied := s.applied ++ s.outcomeId.toList.filter fun id => id ∉ s.applied }

def Release (versionOf : D → Version R C) : CoreEvent R C D → Prop
  | .install _ candidate archive _ _ =>
    candidate.version.release?.isSome = true ∧ archive.version = versionOf archive.digest
  | _ => True

/-- An install's engine was opened when the version that is approved now was, and the install does not
fail after it cleared a Pending Version. No release fails to start while another one that failed is still
to be refused. A completed activation is not reconciled again after a silent restart was recorded. -/
def Quiet (s : Core R C D) : CoreEvent R C D → Prop
  | .install running candidate archive steppingStone faults =>
    running = s.running ∧
      ∀ point error, (s.site.install running candidate archive steppingStone (s.met faults)).2 =
        .error (point, error) → point.disturbs s.site.record.pending.isSome = false
  | .fails failure => failure = .notReady → ∀ a, s.activation = some a → a.ending.isOutcome = false →
    ∀ v ∈ s.barred, v = a.candidate.version
  | .reconcile => ∀ a, s.activation = some a → a.ending = .completed → a.id ∈ s.applied →
    s.site.record.silent = none
  | _ => True

end Core

/-! ## What an install does to the record -/

section Install
variable {R C D : Type} [LinearOrder R] [DecidableEq C] [DecidableEq D] {s : Site R C D}
  {running : Version R C} {candidate : Candidate R C} {archive : Archive R C D} {steppingStone : Bool}
  {faults : Faults R D}

structure Admitted (s : Site R C D) (running : Version R C) (candidate : Candidate R C)
    (archive : Archive R C D) (steppingStone : Bool) (t : Site R C D) (stored : Stored R C D) : Prop where
  admitted : admitCandidate candidate running (s.record.pending.map Stored.version) s.record.skipped = .ok ()
  document : archive.version = candidate.version
  eq : stored = ⟨archive.digest, candidate.version⟩
  record : t.record = { s.record with pending := none }.installed stored steppingStone

/-- An install that failed keeps the record's entries, unless it failed after clearing one. -/
structure Failed (s : Site R C D) (point : Point) (t : Site R C D) : Prop where
  kept : point.disturbs s.record.pending.isSome = false →
    t.record.pending = s.record.pending ∧ t.record.skipped = s.record.skipped
  activation : t.record.activation = s.record.activation

omit [LinearOrder R] [DecidableEq C] [DecidableEq D] in
theorem Failed.refl (point : Point) : Failed s point s := ⟨fun _ => ⟨rfl, rfl⟩, rfl⟩

/-- What an install leaves, however it ended. -/
def Leaves (s : Site R C D) (running : Version R C) (candidate : Candidate R C) (archive : Archive R C D)
    (steppingStone : Bool) (faults : Faults R D) : Site R C D × Except (Point × InstallError R) (Stored R C D) → Prop
  | (t, .ok stored) => faults.state = none ∧ Admitted s running candidate archive steppingStone t stored
  | (t, .error (point, _)) => Failed s point t

theorem replace_leaves (hs : faults.state = none)
    (ha : admitCandidate candidate running (s.record.pending.map Stored.version) s.record.skipped = .ok ())
    (hd : archive.version = candidate.version) :
    Leaves s running candidate archive steppingStone faults (s.replace candidate archive steppingStone faults) := by
  have hnone : s.record.pending.isSome = false → none = s.record.pending := fun h => by
    cases hpending : s.record.pending with
    | none => rfl
    | some stored => rw [hpending] at h; cases h
  unfold Site.replace
  cases hc : faults.clear with
  | failed new =>
    cases new with
    | true => exact ⟨fun h => ⟨hnone (by simpa [Point.disturbs] using h), rfl⟩, rfl⟩
    | false => exact Failed.refl _
  | stored =>
    cases hp : faults.prune with
    | some left => exact ⟨fun h => ⟨hnone h, rfl⟩, rfl⟩
    | none =>
      cases hst : faults.stage with
      | some failure => exact ⟨fun h => ⟨hnone h, rfl⟩, rfl⟩
      | none =>
        cases hsave : faults.save with
        | stored => exact ⟨hs, ha, hd, rfl, rfl⟩
        | failed new =>
          cases new with
          | true => exact ⟨fun h => by simp [Point.disturbs] at h, rfl⟩
          | false => exact ⟨fun h => ⟨hnone (by simpa [Point.disturbs] using h), rfl⟩, rfl⟩

theorem installNow_leaves :
    Leaves s running candidate archive steppingStone faults
      (s.installNow running candidate archive steppingStone faults) := by
  rcases @installNow_early R C D _ _ _ s running candidate archive steppingStone faults with
    ⟨early, error, he, -⟩ | ⟨hs, hd, ha, he⟩
  · rw [he]
    exact Failed.refl _
  · rw [he]
    exact replace_leaves hs ha hd

theorem install_leaves :
    Leaves s running candidate archive steppingStone faults
      (s.install running candidate archive steppingStone faults) := by
  have hnow := @installNow_leaves R C D _ _ _ s running candidate archive steppingStone faults
  obtain ⟨t, he, hk, ha, hs⟩ :=
    install_noted (Prod.mk.eta (p := s.installNow running candidate archive steppingStone faults)).symm
  rw [he]
  generalize s.installNow running candidate archive steppingStone faults = now at hnow hk ha hs
  obtain ⟨t', out⟩ := now
  cases out with
  | ok stored =>
    cases hs stored rfl
    exact hnow
  | error failure =>
    refine ⟨fun hp => ?_, ha.trans hnow.activation⟩
    obtain ⟨hpending, hsk⟩ := hnow.kept hp
    exact ⟨hk.pending.trans hpending, hk.skipped.trans hsk⟩

end Install

/-! ## The version order -/

section Order
variable {R C : Type} [LinearOrder R]

theorem Version.above_of_not {v w : Version R C} (hv : v.release?.isSome = true)
    (hw : w.release?.isSome = true) (hne : w ≠ v) (h : w.above v = false) : v.above w = true := by
  cases v with
  | development => cases hv
  | release r =>
    cases w with
    | development => cases hw
    | release q =>
      have hl : ¬ r < q := by simpa [Version.above, Version.release?] using h
      have hneq : q ≠ r := fun he => hne (by rw [he])
      simpa [Version.above, Version.release?] using lt_of_le_of_ne (not_lt.mp hl) hneq

theorem Version.above_irrefl (v : Version R C) : v.above v = false := by
  cases v with
  | development => rfl
  | release r => simp [Version.above, Version.release?]

theorem Version.above_ne {v w : Version R C} (h : v.above w = true) : v ≠ w := by
  rintro rfl
  rw [above_irrefl] at h
  cases h

/-- `v` is `w` or a release above it. -/
def Version.AtLeast (v w : Version R C) : Prop := v.above w = true ∨ v = w

theorem Version.above_trans {u v w : Version R C} (h : u.above v = true) (h' : v.above w = true) :
    u.above w = true := by
  cases u <;> cases v <;> cases w <;> simp_all [Version.above, Version.release?]
  exact h'.trans h

theorem Version.AtLeast.trans {u v w : Version R C} (h : u.AtLeast v) (h' : v.AtLeast w) : u.AtLeast w := by
  rcases h with h | rfl
  · rcases h' with h' | rfl
    · exact .inl (above_trans h h')
    · exact .inl h
  · exact h'

theorem Version.above_of_atLeast {u v w : Version R C} (h : u.above v = true) (h' : v.AtLeast w) :
    u.above w = true := by
  rcases h' with h' | rfl
  · exact above_trans h h'
  · exact h

variable [DecidableEq C] {candidate : Candidate R C} {running : Version R C} {pending skipped : Option (Version R C)}

/-- What an admitted release is: neither skipped nor below what runs or waits, with its floor at most
the running release. -/
theorem admitCandidate_ok (hr : candidate.version.release?.isSome = true)
    (h : admitCandidate candidate running pending skipped = .ok ()) :
    skipped ≠ some candidate.version ∧ running ≠ candidate.version ∧ running.above candidate.version = false ∧
      (∀ p, pending = some p → p ≠ candidate.version ∧ p.above candidate.version = false) ∧
      ∀ floor, candidate.floor = some floor → floorAdmits floor running = true := by
  unfold admitCandidate at h
  dsimp only at h
  split at h
  · cases h
  case isFalse hs =>
    split at h
    · cases h
    case isFalse hd =>
      obtain ⟨hru, hpending⟩ := not_or.mp hd
      split at h
      case h_1 hnone =>
        rw [hnone] at hr
        cases hr
      split at h
      · cases h
      case isFalse hne =>
        rw [Bool.not_eq_true, Bool.or_eq_false_iff] at hne
        refine ⟨hs, hru, hne.1, fun p hp => ⟨fun he => hpending (he ▸ hp), ?_⟩, fun floor hf => ?_⟩
        · have ha := hne.2
          rw [hp] at ha
          exact ha
        rw [hf] at h
        dsimp only at h
        split at h
        case isTrue hadm => exact hadm
        · cases h

theorem admitCandidate_refuses (h : skipped = some candidate.version ∨
    (∃ p, pending = some p ∧ p.AtLeast candidate.version) ∨ running.AtLeast candidate.version) :
    ∃ refusal, admitCandidate candidate running pending skipped = .error refusal := by
  unfold admitCandidate
  dsimp only
  split
  · exact ⟨_, rfl⟩
  case isFalse hs =>
    split
    · exact ⟨_, rfl⟩
    case isFalse hne =>
      -- What is left is a release above the candidate, which is then a release too.
      have hab : running.above candidate.version = true ∨
          ∃ p, pending = some p ∧ p.above candidate.version = true := by
        rcases h with h | ⟨p, hp, h | rfl⟩ | h | h
        · exact absurd h hs
        · exact .inr ⟨p, hp, h⟩
        · exact absurd (.inr hp) hne
        · exact .inl h
        · exact absurd (.inl h) hne
      split
      case h_1 hnone =>
        rcases hab with h | ⟨p, -, h⟩ <;> simp [Version.above, hnone] at h
      rw [if_pos]
      · exact ⟨_, rfl⟩
      rw [Bool.or_eq_true]
      refine hab.imp_right ?_
      rintro ⟨p, rfl, hp⟩
      exact hp

end Order

/-! ## The invariant of the two records -/

namespace Core
variable {R C D : Type} [LinearOrder R] [DecidableEq C] [DecidableEq D] {s : Core R C D}
  {versionOf : D → Version R C}

def fresh (site : Site R C D) (running : Version R C) : Core R C D :=
  ⟨{ site with record := { site.record with pending := none, activation := none } }, running, none, 0, [], []⟩

/-- No engine opened now admits `v`. -/
def Refuses (s : Core R C D) (v : Version R C) : Prop :=
  s.site.record.skipped = some v ∨ (∃ p, s.site.record.pending = some p ∧ p.version.AtLeast v) ∨ s.running.AtLeast v

/-- An activation without an outcome: what waits is no older than its candidate, and that no older than
what is approved. -/
structure Unsettled (s : Core R C D) (a : Activation R C D) : Prop where
  unapplied : a.id ∉ s.applied
  pending : ∃ p, s.site.record.pending = some p ∧ p.version.AtLeast a.candidate.version
  running : a.candidate.version.AtLeast s.running

structure Inv (versionOf : D → Version R C) (s : Core R C D) : Prop where
  running : s.running.release?.isSome = true
  named : ∀ p, s.site.record.pending = some p → p.version.release?.isSome = true ∧ p.version = versionOf p.digest
  order : ∀ p, s.site.record.pending = some p → p.version.AtLeast s.running
  candidate : ∀ a, s.activation = some a → a.id < s.next ∧ a.candidate.version.release?.isSome = true ∧
    a.candidate.version = versionOf a.candidate.digest
  previous : ∀ a, s.activation = some a →
    a.previous.version.release?.isSome = true ∧ a.candidate.version.AtLeast a.previous.version
  unsettled : ∀ a, s.activation = some a → a.ending.isOutcome = false → s.Unsettled a
  completed : ∀ a, s.activation = some a → a.ending = .completed →
    s.running = a.candidate.version ∧
      (a.id ∈ s.applied → ∀ p, s.site.record.pending = some p → p.digest ≠ a.candidate.digest)
  returned : ∀ a failure, s.activation = some a → a.ending = .returned failure →
    (a.id ∈ s.applied → s.site.record.activation = some a.id) ∧
      (failure = .notReady → ∀ v ∈ s.barred, v = a.candidate.version)
  recorded : ∀ id, s.site.record.activation = some id → id ∈ s.applied
  applied_lt : ∀ id ∈ s.applied, id < s.next
  refused : ∀ v ∈ s.barred, s.Refuses v

omit [DecidableEq C] [DecidableEq D] in
theorem inv_fresh {site : Site R C D} {running : Version R C} (hr : running.release?.isSome = true) :
    Inv versionOf (fresh site running) where
  running := hr
  named := nofun
  order := nofun
  candidate := nofun
  previous := nofun
  unsettled := nofun
  completed := nofun
  returned := nofun
  recorded := nofun
  applied_lt := nofun
  refused := nofun

section Install
variable {running : Version R C} {candidate : Candidate R C} {archive : Archive R C D}
  {steppingStone : Bool} {faults : Faults R D}

/-- What a successful install makes pending: a release above what runs and what waits, not skipped,
with its floor at most the running release. -/
structure Newer (versionOf : D → Version R C) (s : Core R C D) (candidate : Candidate R C)
    (stored : Stored R C D) : Prop where
  version : stored.version = candidate.version
  named : stored.version = versionOf stored.digest
  running : stored.version.above s.running = true
  pending : ∀ p, s.site.record.pending = some p → stored.version.above p.version = true
  skipped : s.site.record.skipped ≠ some stored.version
  floor : ∀ floor, candidate.floor = some floor → floorAdmits floor s.running = true

theorem Inv.newer (hi : Inv versionOf s)
    (hr : Release versionOf (.install running candidate archive steppingStone faults))
    (hq : s.Quiet (.install running candidate archive steppingStone faults)) {t : Site R C D}
    {stored : Stored R C D}
    (h : s.site.install running candidate archive steppingStone (s.met faults) = (t, .ok stored)) :
    Newer versionOf s candidate stored ∧
      t.record = { s.site.record with pending := none }.installed stored steppingStone := by
  have hleaves := @install_leaves R C D _ _ _ s.site running candidate archive steppingStone (s.met faults)
  rw [h] at hleaves
  obtain ⟨-, hadm⟩ := hleaves
  obtain ⟨hv, hd⟩ := hr
  obtain ⟨rfl, -⟩ := hq
  obtain ⟨hs, hru, ha, hpending, hf⟩ := admitCandidate_ok hv hadm.admitted
  have he : stored.version = candidate.version := by rw [hadm.eq]
  refine ⟨⟨he, ?_, ?_, fun p hp => ?_, he ▸ hs, hf⟩, hadm.record⟩
  · rw [hadm.eq]
    exact hadm.document.symm.trans hd
  · rw [he]
    exact Version.above_of_not hv hi.running hru ha
  · obtain ⟨hne, hno⟩ := hpending p.version (by rw [hp]; rfl)
    rw [he]
    exact Version.above_of_not hv (hi.named p hp).1 hne hno

theorem failed_same (hq : s.Quiet (.install running candidate archive steppingStone faults))
    {t : Site R C D} {failure : Point × InstallError R}
    (h : s.site.install running candidate archive steppingStone (s.met faults) = (t, .error failure)) :
    t.record.pending = s.site.record.pending ∧ t.record.skipped = s.site.record.skipped ∧
      t.record.activation = s.site.record.activation := by
  have hfailed := @install_leaves R C D _ _ _ s.site running candidate archive steppingStone (s.met faults)
  rw [h] at hfailed
  have hp := hq.2 failure.1 failure.2 (by rw [h])
  exact ⟨(hfailed.kept hp).1, (hfailed.kept hp).2, hfailed.activation⟩

theorem Inv.install (hin : Inv versionOf s)
    (hrel : Release versionOf (.install running candidate archive steppingStone faults))
    (hq : s.Quiet (.install running candidate archive steppingStone faults)) :
    Inv versionOf (s.install running candidate archive steppingStone faults) := by
  unfold Core.install
  split
  case h_1 t stored h =>
    obtain ⟨hne, hr⟩ := hin.newer hrel hq h
    have hpending : t.record.pending = some stored := by rw [hr]; rfl
    have hski : ∀ v, s.site.record.skipped = some v → stored.version.above v = false →
        t.record.skipped = some v := by
      intro v hv hab
      rw [hr]
      simp [Record.installed, hv, hab]
    have hact : t.record.activation = s.site.record.activation := by rw [hr]; rfl
    have hleft : ∀ v ∈ s.barred.filter fun v => !stored.version.above v,
        v ∈ s.barred ∧ stored.version.above v = false := fun v hv => by simpa using hv
    have hst : ∀ p, t.record.pending = some p → p = stored := fun p hp =>
      (Option.mem_unique hpending hp).symm
    refine ⟨hin.running, fun p hp => ?_, fun p hp => ?_, hin.candidate, hin.previous, fun a ha hending => ?_,
      fun a ha hending => ⟨(hin.completed a ha hending).1, fun _ p hp => ?_⟩,
      fun a failure ha hending => ⟨fun hmem => ?_, fun hready v hv => ?_⟩, fun id hi => ?_,
      hin.applied_lt, fun v hv => ?_⟩
    · rw [hst p hp]
      refine ⟨?_, hne.named⟩
      rw [hne.version]
      exact hrel.1
    · rw [hst p hp]
      exact .inl hne.running
    · obtain ⟨hmem, ⟨p, hp, hle⟩, hru⟩ := hin.unsettled a ha hending
      exact ⟨hmem, ⟨stored, hpending, .inl (Version.above_of_atLeast (hne.pending p hp) hle)⟩, hru⟩
    · -- the new version is above the one that runs, so its digest is another one
      rw [hst p hp]
      intro hd
      refine Version.above_ne hne.running ?_
      rw [(hin.completed a ha hending).1, hne.named, (hin.candidate a ha).2.2, hd]
    · rw [hact]
      exact (hin.returned a failure ha hending).1 hmem
    · exact (hin.returned a failure ha hending).2 hready v (hleft v hv).1
    · exact hin.recorded id (hact.symm.trans hi)
    · obtain ⟨hmem, hab⟩ := hleft v hv
      rcases hin.refused v hmem with hs | ⟨p, hp, hle⟩ | hle
      · exact .inl (hski v hs hab)
      · rw [Version.above_of_atLeast (hne.pending p hp) hle] at hab
        cases hab
      · rw [Version.above_of_atLeast hne.running hle] at hab
        cases hab
  case h_2 t failure h =>
    obtain ⟨hpending, hski, hact⟩ := failed_same hq h
    have hrec : ∀ v, s.Refuses v → Refuses { s with site := t } v := fun v hv => by
      simpa only [Refuses, hpending, hski] using hv
    exact { hin with
      named := hpending ▸ hin.named
      order := hpending ▸ hin.order
      unsettled := fun a ha hending =>
        let h := hin.unsettled a ha hending
        ⟨h.unapplied, hpending ▸ h.pending, h.running⟩
      completed := hpending ▸ hin.completed
      returned := hact ▸ hin.returned
      recorded := hact ▸ hin.recorded
      refused := fun v hv => hrec v (hin.refused v hv) }

end Install

theorem Inv.activate (hin : Inv versionOf s) : Inv versionOf (s.step .activate) := by
  simp only [step]
  split
  case h_2 => exact hin
  case h_1 pending hpending =>
    split
    · exact hin
    have hne : s.next ∉ s.applied := fun hmem => Nat.lt_irrefl _ (hin.applied_lt _ hmem)
    have hle := hin.order pending hpending
    refine ⟨hin.running, hin.named, hin.order, ?_, ?_, ?_, ?_, ?_, hin.recorded,
      fun id hi => Nat.lt_succ_of_lt (hin.applied_lt id hi), hin.refused⟩
    · rintro a ⟨⟩
      exact ⟨Nat.lt_succ_self _, hin.named pending hpending⟩
    · rintro a ⟨⟩
      exact ⟨hin.running, hle⟩
    · rintro a ⟨⟩ _
      exact ⟨hne, ⟨pending, hpending, .inr rfl⟩, hle⟩
    · rintro a ⟨⟩ hending
      cases hending
    · rintro a failure ⟨⟩ hending
      cases hending

theorem Inv.completes (hin : Inv versionOf s) (ready : Bool) : Inv versionOf (s.step (.completes ready)) := by
  simp only [step, settle]
  split
  case h_2 => exact hin
  case h_1 a hac =>
    split
    case isTrue => exact hin
    case isFalse hending =>
      obtain ⟨hf, ⟨p, hp, hle⟩, hru⟩ := hin.unsettled a hac (by simpa using hending)
      have hc := hin.candidate a hac
      refine ⟨hc.2.1, hin.named, fun q hq => ?_, ?_, ?_, ?_, ?_, ?_, hin.recorded, hin.applied_lt, fun v hv => ?_⟩
      · obtain rfl := Option.mem_unique hp hq
        exact hle
      · rintro b ⟨⟩
        exact hc
      · rintro b ⟨⟩
        exact hin.previous a hac
      · rintro b ⟨⟩ _
        exact ⟨hf, ⟨p, hp, hle⟩, .inr rfl⟩
      · rintro b ⟨⟩ _
        exact ⟨rfl, fun hmem => absurd hmem hf⟩
      · rintro b failure ⟨⟩ hre
        cases ready <;> cases hre
      · exact (hin.refused v hv).imp_right fun h => h.imp_right hru.trans

theorem Inv.fails (hi : Inv versionOf s) {failure : StartFailure} (hq : s.Quiet (.fails failure)) :
    Inv versionOf (s.step (.fails failure)) := by
  simp only [step, settle]
  split
  case h_2 => exact hi
  case h_1 a ha =>
    split
    case isTrue => exact hi
    case isFalse hending =>
      have hno : a.ending.isOutcome = false := by simpa using hending
      obtain ⟨hf, ⟨p, hp, hle⟩, -⟩ := hi.unsettled a ha hno
      have hc := hi.candidate a ha
      obtain ⟨hpr, hback⟩ := hi.previous a ha
      have hb : ∀ v ∈ (if failure = .notReady then a.candidate.version :: s.barred else s.barred),
          v ∈ s.barred ∨ v = a.candidate.version := by
        intro v hv
        split at hv
        · exact (List.mem_cons.mp hv).symm
        · exact .inl hv
      refine ⟨hpr, hi.named, fun q hq => ?_, ?_, ?_, ?_, ?_, ?_, hi.recorded, hi.applied_lt, fun v hv => ?_⟩
      · obtain rfl := Option.mem_unique hp hq
        exact hle.trans hback
      · rintro b ⟨⟩
        exact hc
      · rintro b ⟨⟩
        exact ⟨hpr, hback⟩
      · rintro b ⟨⟩ hno
        cases hno
      · rintro b ⟨⟩ hno
        cases hno
      · rintro b failure' ⟨⟩ ⟨⟩
        refine ⟨fun hmem => absurd hmem hf, fun hready v hv => ?_⟩
        exact (hb v hv).elim (hq hready a ha hno v) id
      · -- What waits is no older than what was approved until now, so it refuses as much.
        rcases hb v hv with hmem | rfl
        · rcases hi.refused v hmem with hs | hw | hru
          · exact .inl hs
          · exact .inr (.inl hw)
          · exact .inr (.inl ⟨p, hp, (hi.order p hp).trans hru⟩)
        · exact .inr (.inl ⟨p, hp, hle⟩)

omit [DecidableEq C] [DecidableEq D] in
theorem Inv.attempt (hin : Inv versionOf s) (silent : Option (Attempt D)) :
    Inv versionOf { s with site.record.silent := silent } :=
  ⟨hin.running, hin.named, hin.order, hin.candidate, hin.previous,
    fun a ha hending => let h := hin.unsettled a ha hending; ⟨h.unapplied, h.pending, h.running⟩,
    hin.completed, hin.returned, hin.recorded, hin.applied_lt, hin.refused⟩

/-! ## Reconciling -/

section Reconcile

omit [DecidableEq C] [DecidableEq D] in
theorem Inv.applied_snoc_lt (hin : Inv versionOf s) {a : Activation R C D} (ha : s.activation = some a) :
    ∀ i ∈ s.applied ++ [a.id], i < s.next := by
  intro i hi
  rcases List.mem_append.mp hi with hi | hi
  · exact hin.applied_lt i hi
  · rw [List.mem_singleton.mp hi]
    exact (hin.candidate _ ha).1

theorem Inv.reconcile_again (hin : Inv versionOf s) {id : Nat} (ho : s.outcomeId = some id)
    (hmem : id ∈ s.applied) (hq : s.Quiet .reconcile) : s.step .reconcile = s := by
  obtain ⟨⟨id', previous, x, ending⟩, ha, hi⟩ := Option.bind_eq_some_iff.mp ho
  have hr : s.site.record.reconciled s.activation = s.site.record := by
    rw [ha]
    cases ending with
    | pending | waiting => cases hi
    | completed =>
      cases hi
      show s.site.record.completed x.digest = _
      unfold Record.completed
      have hf : (s.site.record.pending.filter fun pending => pending.digest != x.digest) =
          s.site.record.pending := by
        cases hp : s.site.record.pending with
        | none => rfl
        | some p =>
          have hne := (hin.completed _ ha rfl).2 hmem p hp
          exact Option.filter_eq_some_iff.mpr ⟨rfl, by simpa using hne⟩
      rw [hf, ← hq _ ha rfl hmem]
    | returned failure =>
      cases hi
      exact startFailed_again ((hin.returned _ failure ha rfl).1 hmem)
  simp only [step, hr, ho]
  simp [hmem]

omit [DecidableEq C] in
theorem Inv.reconcile_completed (hin : Inv versionOf s) {id : Nat} {previous x : Stored R C D}
    (ha : s.activation = some ⟨id, previous, x, .completed⟩) :
    Inv versionOf { s with
      site.record := s.site.record.completed x.digest
      applied := s.applied ++ [id] } := by
  have hke : ∀ p, (s.site.record.completed x.digest).pending = some p →
      s.site.record.pending = some p ∧ p.digest ≠ x.digest := fun p hp => by
    obtain ⟨hp, hne⟩ := Option.filter_eq_some_iff.mp hp
    exact ⟨hp, bne_iff_ne.mp hne⟩
  have hs : ∀ {a}, s.activation = some a → a = ⟨id, previous, x, .completed⟩ := fun ha' =>
    Option.mem_unique ha' ha
  refine ⟨hin.running, fun p hp => hin.named p (hke p hp).1, fun p hp => hin.order p (hke p hp).1,
    hin.candidate, hin.previous, fun a ha' hending => ?_, fun a ha' hending => ?_, fun a failure ha' hending => ?_,
    fun i hi => List.mem_append_left _ (hin.recorded i hi), hin.applied_snoc_lt ha, fun v hv => ?_⟩
  · cases hs ha'
    cases hending
  · refine ⟨(hin.completed a ha' hending).1, fun _ p hp => ?_⟩
    cases hs ha'
    exact (hke p hp).2
  · cases hs ha'
    cases hending
  rcases hin.refused v hv with hsk | ⟨p, hp, hle⟩ | hr
  · exact .inl hsk
  · -- what is cleared is what runs now: a digest names its version
    by_cases hd : p.digest = x.digest
    · refine .inr (.inr ?_)
      have he : s.running = p.version := by
        rw [(hin.completed _ ha rfl).1, (hin.named p hp).2, hd]
        exact (hin.candidate _ ha).2.2
      exact he ▸ hle
    · exact .inr (.inl ⟨p, Option.filter_eq_some_iff.mpr ⟨hp, bne_iff_ne.mpr hd⟩, hle⟩)
  · exact .inr (.inr hr)

omit [DecidableEq C] in
theorem Inv.reconcile_returned (hin : Inv versionOf s) {id : Nat} {previous x : Stored R C D}
    {failure : StartFailure} (ha : s.activation = some ⟨id, previous, x, .returned failure⟩) (hmem : id ∉ s.applied) :
    Inv versionOf { s with
      site.record := s.site.record.startFailed id x failure
      applied := s.applied ++ [id] } := by
  have hno : s.site.record.activation ≠ some id := fun h => hmem (hin.recorded _ h)
  obtain ⟨hac, -, hsk, hke⟩ := @startFailed_first R C D _ _ id x failure hno
  have hkep : ∀ p, (s.site.record.startFailed id x failure).pending = some p →
      s.site.record.pending = some p := fun p hp => startFailed_pending hp
  have hs : ∀ {a}, s.activation = some a → a = ⟨id, previous, x, .returned failure⟩ := fun ha' =>
    Option.mem_unique ha' ha
  refine ⟨hin.running, fun p hp => hin.named p (hkep p hp), fun p hp => hin.order p (hkep p hp),
    hin.candidate, hin.previous, fun a ha' hending => ?_, fun a ha' hending => ?_, fun a failure' ha' hending => ?_,
    fun i hi => ?_, hin.applied_snoc_lt ha, fun v hv => ?_⟩
  · cases hs ha'
    cases hending
  · cases hs ha'
    cases hending
  · refine ⟨fun _ => ?_, (hin.returned a failure' ha' hending).2⟩
    cases hs ha'
    exact hac
  · obtain rfl := Option.mem_unique hac hi
    exact List.mem_append_right _ (List.mem_singleton_self _)
  · show (s.site.record.startFailed id x failure).skipped = some v ∨
      (∃ p, (s.site.record.startFailed id x failure).pending = some p ∧ p.version.AtLeast v) ∨ s.running.AtLeast v
    by_cases hready : failure = .notReady
    · rw [(hin.returned _ failure ha rfl).2 hready v hv]
      exact .inl (hsk hready)
    · rw [(hke hready).1, (hke hready).2]
      exact hin.refused v hv

/-- Without an outcome `reconcile` does nothing. -/
theorem reconcile_none (h : s.outcomeId = none) : s.step .reconcile = s := by
  have hr : s.site.record.reconciled s.activation = s.site.record := by
    cases ha : s.activation with
    | none => rfl
    | some a =>
      obtain ⟨id, previous, x, ending⟩ := a
      rw [outcomeId, ha, Option.bind_some] at h
      cases ending with
      | pending | waiting => rfl
      | completed | returned => cases h
  simp [step, hr, h]

theorem Inv.reconcile (hin : Inv versionOf s) (hq : s.Quiet .reconcile) : Inv versionOf (s.step .reconcile) := by
  cases ho : s.outcomeId with
  | none =>
    rw [reconcile_none ho]
    exact hin
  | some id =>
    by_cases hmem : id ∈ s.applied
    · rw [hin.reconcile_again ho hmem hq]
      exact hin
    obtain ⟨⟨id', previous, x, ending⟩, ha, hi⟩ := Option.bind_eq_some_iff.mp ho
    have hap : s.outcomeId.toList.filter (fun id => id ∉ s.applied) = [id] := by
      simp [ho, hmem]
    simp only [Core.step, hap]
    cases ending with
    | pending | waiting => cases hi
    | completed =>
      cases hi
      have hr : s.site.record.reconciled s.activation = s.site.record.completed x.digest := by
        rw [ha]
        rfl
      rw [hr]
      exact hin.reconcile_completed ha
    | returned failure =>
      cases hi
      have hr : s.site.record.reconciled s.activation = s.site.record.startFailed id' x failure := by
        rw [ha]
        rfl
      rw [hr]
      exact hin.reconcile_returned ha hmem

end Reconcile

theorem Inv.step (hi : Inv versionOf s) {e : CoreEvent R C D} (hr : Release versionOf e)
    (hq : s.Quiet e) : Inv versionOf (s.step e) := by
  cases e with
  | install running candidate archive steppingStone faults => exact hi.install hr hq
  | attempt boot => exact hi.attempt _
  | attemptEnds => exact hi.attempt none
  | activate => exact hi.activate
  | completes ready => exact hi.completes ready
  | fails failure => exact hi.fails hq
  | reconcile => exact hi.reconcile hq

/-- An event that clears or replaces the pending `p`: a newer install, or the outcome of its own
activation, if it completed or was not ready. -/
def Clears (s : Core R C D) (p : Stored R C D) : CoreEvent R C D → Prop
  | .install running candidate archive steppingStone faults =>
    ∃ t stored, s.site.install running candidate archive steppingStone (s.met faults) = (t, .ok stored)
  | .reconcile => ∃ a, s.activation = some a ∧ a.candidate.digest = p.digest ∧
    (a.ending = .completed ∨ a.ending = .returned .notReady ∧ a.id ∉ s.applied)
  | _ => False

theorem Inv.reconcile_clears (hi : Inv versionOf s) {p : Stored R C D}
    (hp : s.site.record.pending = some p) :
    (s.step .reconcile).site.record.pending ≠ some p ↔ s.Clears p .reconcile := by
  show (s.site.record.reconciled s.activation).pending ≠ some p ↔ _
  cases ha : s.activation with
  | none =>
    refine ⟨fun h => absurd hp h, ?_⟩
    rintro ⟨a, ha', -⟩
    rw [ha] at ha'
    cases ha'
  | some a =>
    obtain ⟨id, previous, x, ending⟩ := a
    have hc : s.Clears p .reconcile ↔ x.digest = p.digest ∧
        (ending = .completed ∨ ending = .returned .notReady ∧ id ∉ s.applied) := by
      simp [Clears, ha]
    rw [hc]
    cases ending with
    | pending | waiting => simp [Record.reconciled, hp]
    | completed =>
      have hf := filter_digest hp x.digest
      simpa [Record.reconciled, Record.completed] using hf
    | returned failure =>
      by_cases hmem : id ∈ s.applied
      · have hac := (hi.returned _ failure ha rfl).1 hmem
        simp [Record.reconciled, startFailed_again hac, hp, hmem]
      have hno : s.site.record.activation ≠ some id := fun h => hmem (hi.recorded _ h)
      have hf := filter_digest hp x.digest
      cases failure with
      | notReady => simpa [Record.reconciled, Record.startFailed, hno, hmem] using hf
      | portInUse | diskFull => simp [Record.reconciled, Record.startFailed, hno, hp]

theorem Inv.clears (hi : Inv versionOf s) {p : Stored R C D} (hp : s.site.record.pending = some p)
    {e : CoreEvent R C D} (hrel : Release versionOf e) (hq : s.Quiet e) :
    (s.step e).site.record.pending ≠ some p ↔ s.Clears p e := by
  cases e with
  | install running candidate archive steppingStone faults =>
    show (s.install running candidate archive steppingStone faults).site.record.pending ≠ some p ↔ _
    unfold Core.install
    split
    case h_1 t stored h =>
      obtain ⟨hnewe, hr⟩ := hi.newer hrel hq h
      refine ⟨fun _ => ⟨t, stored, h⟩, fun _ hpending => ?_⟩
      have hs : t.record.pending = some stored := by rw [hr]; rfl
      cases Option.mem_unique hs hpending
      exact Version.above_ne (hnewe.pending p hp) rfl
    case h_2 t failure h =>
      refine ⟨fun hne => absurd ((failed_same hq h).1.trans hp) hne, ?_⟩
      rintro ⟨t', stored, h'⟩
      rw [h] at h'
      cases h'
  | activate =>
    refine ⟨fun hne => hne ?_, fun h => h.elim⟩
    simp only [Core.step]
    split
    · split
      · exact hp
      · exact hp
    · exact hp
  | attempt boot | attemptEnds => exact ⟨fun hne => hne hp, fun h => h.elim⟩
  | completes ready | fails failure =>
    refine ⟨fun hne => hne ?_, fun h => h.elim⟩
    simp only [Core.step, settle]
    split
    · split
      · exact hp
      · exact hp
    · exact hp
  | reconcile => exact hi.reconcile_clears hp

/-- In a release build, along every run whose events are quiet: an install makes pending only a release
above the approved and the pending one, not the skipped one, with its floor at most the approved release.
A release that was not ready is refused until a newer one is installed, and skipped once its outcome is
reconciled. An outcome that was reconciled before changes nothing. The Pending Version changes exactly when
a newer one is installed or its own activation completed or was not ready. -/
theorem versions_ordered {site : Site R C D} {running : Version R C}
    (hrunning : running.release?.isSome = true) {es : List (CoreEvent R C D)}
    (hrun : Run (fun s e t => (Release versionOf e ∧ s.Quiet e) ∧ t = s.step e) (fresh site running) es s) :
    (∀ engine candidate archive steppingStone faults,
      Release versionOf (.install engine candidate archive steppingStone faults) →
      s.Quiet (.install engine candidate archive steppingStone faults) → ∀ t stored,
      s.site.install engine candidate archive steppingStone (s.met faults) = (t, .ok stored) →
        t.record.pending = some stored ∧ Newer versionOf s candidate stored) ∧
    (∀ v ∈ s.barred, ∀ candidate : Candidate R C, candidate.version = v → ∃ refusal,
      admitCandidate candidate s.running (s.site.record.pending.map Stored.version) s.site.record.skipped =
        .error refusal) ∧
    ((∀ id, s.outcomeId = some id → id ∈ s.applied → s.Quiet .reconcile → s.step .reconcile = s) ∧
      ∀ id previous x failure, s.activation = some ⟨id, previous, x, .returned failure⟩ → id ∉ s.applied →
        (s.step .reconcile).site.record.lastFailure =
          some ⟨s.site.record.failures + 1, x.version, .start failure⟩ ∧
        (failure = .notReady → (s.step .reconcile).site.record.skipped = some x.version)) ∧
    ∀ p, s.site.record.pending = some p → ∀ e, Release versionOf e → s.Quiet e →
      ((s.step e).site.record.pending ≠ some p ↔ s.Clears p e) := by
  have hi : Inv versionOf s := hrun.invariant (inv_fresh hrunning) fun hs hst => by
    rw [hst.2]
    exact hs.step hst.1.1 hst.1.2
  refine ⟨fun engine candidate archive steppingStone faults hre hq t stored h => ?_,
    fun v hv candidate hve => ?_, ⟨fun id ho hmem hq => hi.reconcile_again ho hmem hq,
    fun id previous x failure ha hmem => ?_⟩, fun p hp e hre hq => hi.clears hp hre hq⟩
  · obtain ⟨hne, hr⟩ := hi.newer hre hq h
    exact ⟨by rw [hr]; rfl, hne⟩
  · refine admitCandidate_refuses ?_
    rw [hve]
    refine (hi.refused v hv).imp_right fun h => h.imp_left ?_
    rintro ⟨p, hp, hle⟩
    exact ⟨p.version, by rw [hp]; rfl, hle⟩
  · have hno : s.site.record.activation ≠ some id := fun h => hmem (hi.recorded _ h)
    have hr : (s.step .reconcile).site.record = s.site.record.startFailed id x failure := by
      simp only [Core.step, ha, Record.reconciled]
    rw [hr]
    obtain ⟨-, hl, hski, -⟩ := startFailed_first (x := x) hno
    exact ⟨hl, hski⟩

/-- Release 1 runs, from the installation 1; a digest is its release's number. -/
def firstRelease : Core Nat Nat Nat :=
  fresh ⟨⟨none, none, none, 0, none, none, none⟩, fun d => d == 1, 1⟩ (.release 1)

/-- An install of release `n` that meets no fault, by an engine that was opened under `running`. -/
def installOf (running n : Nat) : CoreEvent Nat Nat Nat :=
  .install (.release running) ⟨.release n, some 0, Nat.zero_le n⟩ ⟨n, .release n, some 0, .feed⟩ false
    ⟨none, none, none, none, false, .stored, none, none, .stored, .stored⟩

/-- Release 2 is installed and approved for a stopped service, is not ready at its first start and is
refused. -/
theorem versions_ordered_skipped : ∃ s : Core Nat Nat Nat,
    s = [installOf 1 2, .activate, .completes false, .fails .notReady, .reconcile].foldl Core.step firstRelease ∧
    s.barred = [.release 2] ∧ ∃ refusal,
      admitCandidate ⟨.release 2, some 0, Nat.zero_le 2⟩ s.running (s.site.record.pending.map Stored.version)
        s.site.record.skipped = .error refusal := by
  have hq : ∀ s : Core Nat Nat Nat, s = firstRelease → s.Quiet (installOf 1 2) := by
    rintro s rfl
    exact ⟨rfl, nofun⟩
  have hr : Run (fun s e t => (Release Version.release e ∧ s.Quiet e) ∧ t = s.step e) firstRelease
      [installOf 1 2, .activate, .completes false, .fails .notReady, .reconcile]
      ([installOf 1 2, .activate, .completes false, .fails .notReady, .reconcile].foldl Core.step firstRelease) :=
    .cons ⟨⟨⟨rfl, rfl⟩, hq _ rfl⟩, rfl⟩ (.cons ⟨⟨trivial, trivial⟩, rfl⟩ (.cons ⟨⟨trivial, trivial⟩, rfl⟩
      (.cons ⟨⟨trivial, nofun⟩, rfl⟩ (.single ⟨⟨trivial, nofun⟩, rfl⟩))))
  exact ⟨_, rfl, rfl, (versions_ordered rfl hr).2.1 _ (List.mem_singleton_self _) _ rfl⟩

/-- Release 3 is not ready and skipped; release 2, which is admitted, is not ready either and takes its
place as the skipped one. Release 3 is installed again, though no newer release was. And the outcome of a
completed activation is applied again: it takes away the attempt of a later silent restart. -/
theorem skipped_release_returns :
    (∃ s t : Core Nat Nat Nat,
      Run (fun s e t => t = s.step e) firstRelease
        [installOf 1 3, .activate, .fails .notReady, .reconcile] s ∧
      s.site.record.skipped = some (.release 3) ∧
      Run (fun s e t => t = s.step e) s
        [installOf 1 2, .activate, .fails .notReady, .reconcile] t ∧
      t.barred = [.release 2, .release 3] ∧ t.running = .release 1 ∧
      (t.step (installOf 1 3)).site.record.pending = some ⟨3, .release 3⟩) ∧
    ∃ s : Core Nat Nat Nat,
      Run (fun s e t => t = s.step e) firstRelease
        [installOf 1 2, .activate, .completes true, .reconcile, installOf 2 3, .attempt 7] s ∧
      s.applied = [0] ∧ s.site.record.silent = some ⟨7, 3⟩ ∧ (s.step .reconcile).site.record.silent = none :=
  ⟨⟨_, _, .cons rfl (.cons rfl (.cons rfl (.single rfl))), rfl,
    .cons rfl (.cons rfl (.cons rfl (.single rfl))), rfl, rfl, rfl⟩,
    _, .cons rfl (.cons rfl (.cons rfl (.cons rfl (.cons rfl (.single rfl))))), rfl, rfl, rfl⟩

end Core

end SpaceTerm.Updates
