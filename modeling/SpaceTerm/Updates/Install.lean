import Mathlib

/-! # Installing an update

`update/ordering.rs` and `install_now` of `service/runtime/updates.rs`: the version order, the update
record, and an install with every step at which it can fail. An install clears the Pending Version and
prunes every installation but the running one before it unpacks its archive, and records the new
Pending Version last. -/

namespace SpaceTerm.Updates

inductive Version (R C : Type)
  | release (release : R)
  | development (commit : C)
  deriving DecidableEq

def Version.release? {R C : Type} : Version R C → Option R
  | .release r => some r
  | .development _ => none

section Ordering
variable {R C : Type} [LinearOrder R] [DecidableEq C]

structure Candidate (R C : Type) [LinearOrder R] where
  version : Version R C
  floor : Option R
  valid : match version, floor with
    | .release release, some floor => floor ≤ release
    | .development _, none => True
    | _, _ => False

inductive OrderRefusal (R : Type)
  | notNewer | skipped | belowFloor (floor : R)
  deriving DecidableEq

def floorAdmits (floor : R) (running : Version R C) : Bool :=
  running.release?.all fun running => decide (floor ≤ running)

/-- `version` is a release above the release `other`. -/
def Version.above (version other : Version R C) : Bool :=
  match version.release?, other.release? with
  | some version, some other => decide (other < version)
  | _, _ => false

/-- `ordering::admit`. -/
def admitCandidate (candidate : Candidate R C) (running : Version R C) (pending skipped : Option (Version R C)) :
    Except (OrderRefusal R) Unit :=
  let version := candidate.version
  if skipped = some version then .error .skipped
  else if running = version ∨ pending = some version then .error .notNewer
  else
    match version.release? with
    | none => .ok ()
    | some _ =>
      if running.above version || pending.any (·.above version) then .error .notNewer
      else
        match candidate.floor with
        | some floor => if floorAdmits floor running then .ok () else .error (.belowFloor floor)
        | none => .ok ()

end Ordering

inductive InstallFailure
  | diskFull | download | verification
  deriving DecidableEq

inductive StartFailure
  | notReady | portInUse | diskFull
  deriving DecidableEq

inductive FailureKind
  | install (failure : InstallFailure)
  | start (failure : StartFailure)
  deriving DecidableEq

structure UpdateFailure (R C : Type) where
  id : Nat
  version : Version R C
  kind : FailureKind
  deriving DecidableEq

/-- The Pending Version: the installation it is in and its version. -/
structure Stored (R C D : Type) where
  digest : D
  version : Version R C
  deriving DecidableEq

/-- A silent restart: the boot it was tried in and the installation it went into. -/
structure Attempt (D : Type) where
  boot : Nat
  digest : D
  deriving DecidableEq

/-- `updates.json`. -/
structure Record (R C D : Type) where
  pending : Option (Stored R C D)
  skipped : Option (Version R C)
  lastFailure : Option (UpdateFailure R C)
  failures : Nat
  /-- The last silent restart, which is tried once. -/
  silent : Option (Attempt D)
  /-- The activation whose start failure was recorded last. -/
  activation : Option Nat
  steppingStone : Option (Version R C)
  deriving DecidableEq

structure Site (R C D : Type) where
  record : Record R C D
  complete : D → Bool
  installation : D

inductive InstallError (R : Type)
  | notNewer | skipped | belowFloor (floor : R) | busy
  | failed (failure : InstallFailure)
  | core
  deriving DecidableEq

inductive Source
  | feed | push | local_
  deriving DecidableEq

/-- A write of the record: it is replaced, or the write fails and keeps the old or the new content. -/
inductive Save
  | stored
  | failed (new : Bool)
  deriving DecidableEq

def Save.apply {α : Type} (old new : α) : Save → α
  | .stored => new
  | .failed kept => if kept then new else old

/-- What an install meets on its way. -/
structure Faults (R D : Type) where
  /-- `inspect_update_candidate` refuses the archive. -/
  inspect : Option (InstallError R)
  /-- The service lock is held or cannot be taken. -/
  lock : Option (InstallError R)
  /-- The service state cannot be read, there is none, or an activation is pending. -/
  state : Option (InstallError R)
  load : Option (InstallError R)
  full : Bool
  clear : Save
  /-- `prune` fails, with the installations that it left. -/
  prune : Option (D → Bool)
  stage : Option (InstallError R)
  save : Save
  /-- The write of `record_failure`. -/
  note : Save

/-- An archive and what its signed build document says. -/
structure Archive (R C D : Type) where
  digest : D
  version : Version R C
  floor : Option R
  source : Source

/-- Where an install failed. -/
inductive Point
  | inspect | document | lock | state | load | order | space
  | clear (new : Bool) | prune | stage
  | save (new : Bool)
  deriving DecidableEq

section Install
variable {R C D : Type} [LinearOrder R] [DecidableEq C] [DecidableEq D]

def orderError : OrderRefusal R → InstallError R
  | .notNewer => .notNewer
  | .skipped => .skipped
  | .belowFloor floor => .belowFloor floor

def Record.installed (record : Record R C D) (stored : Stored R C D) (steppingStone : Bool) : Record R C D :=
  { record with
    pending := some stored
    steppingStone := if steppingStone then some stored.version else none
    skipped := if record.skipped.any (stored.version.above ·) then none else record.skipped }

/-- What `install_now` does once its candidate is admitted and there is space. -/
def Site.replace (s : Site R C D) (candidate : Candidate R C) (archive : Archive R C D)
    (steppingStone : Bool) (faults : Faults R D) :
    Site R C D × Except (Point × InstallError R) (Stored R C D) :=
  let cleared := { s.record with pending := none }
  let s := { s with record := faults.clear.apply s.record cleared }
  match faults.clear with
  | .failed new => (s, .error (.clear new, .core))
  | .stored =>
    match faults.prune with
    | some left =>
      ({ s with complete := fun d => s.complete d && (d == s.installation || left d) }, .error (.prune, .core))
    | none =>
      let s := { s with complete := fun d => s.complete d && d == s.installation }
      match faults.stage with
      | some error => (s, .error (.stage, error))
      | none =>
        let s := { s with complete := fun d => s.complete d || d == archive.digest }
        let stored : Stored R C D := ⟨archive.digest, candidate.version⟩
        let s := { s with record := faults.save.apply s.record (s.record.installed stored steppingStone) }
        match faults.save with
        | .failed new => (s, .error (.save new, .core))
        | .stored => (s, .ok stored)

def Site.installNow (s : Site R C D) (running : Version R C) (candidate : Candidate R C)
    (archive : Archive R C D) (steppingStone : Bool) (faults : Faults R D) :
    Site R C D × Except (Point × InstallError R) (Stored R C D) :=
  match faults.inspect with
  | some error => (s, .error (.inspect, error))
  | none =>
    if archive.version ≠ candidate.version ∨ archive.floor ≠ candidate.floor then
      (s, .error (.document, .failed .verification))
    else
      match faults.lock with
      | some error => (s, .error (.lock, error))
      | none =>
        match faults.state with
        | some error => (s, .error (.state, error))
        | none =>
          match faults.load with
          | some error => (s, .error (.load, error))
          | none =>
            match admitCandidate candidate running (s.record.pending.map Stored.version) s.record.skipped with
            | .error refusal => (s, .error (.order, orderError refusal))
            | .ok () =>
              if faults.full then (s, .error (.space, .failed .diskFull))
              else s.replace candidate archive steppingStone faults

def Record.noteFailure (record : Record R C D) (version : Version R C) (failure : InstallFailure) : Record R C D :=
  { record with
    failures := record.failures + 1
    lastFailure := some ⟨record.failures + 1, version, .install failure⟩ }

/-- `Installing::install`. Its last look at the facts, whose Pending Version another process may have
changed by then, is left out. -/
def Site.install (s : Site R C D) (running : Version R C) (candidate : Candidate R C)
    (archive : Archive R C D) (steppingStone : Bool) (faults : Faults R D) :
    Site R C D × Except (Point × InstallError R) (Stored R C D) :=
  match s.installNow running candidate archive steppingStone faults with
  | (s, .error (point, .failed failure)) =>
    if archive.source = .feed ∨ (archive.source = .push ∧ failure = .verification) then
      ({ s with record := faults.note.apply s.record (s.record.noteFailure candidate.version failure) },
        .error (point, .failed failure))
    else (s, .error (point, .failed failure))
  | result => result

/-! ## What a failed install leaves -/

structure Kept (s t : Site R C D) : Prop where
  pending : t.record.pending = s.record.pending
  skipped : t.record.skipped = s.record.skipped
  steppingStone : t.record.steppingStone = s.record.steppingStone
  complete : ∀ stored, s.record.pending = some stored → t.complete stored.digest = true

/-- The failure came after the Pending Version was cleared, or the write of the new one failed and was
kept. -/
def Point.disturbs (pending : Bool) : Point → Bool
  | .clear new => pending && new
  | .prune => pending
  | .stage => pending
  | .save new => pending || new
  | _ => false

variable {s : Site R C D} {running : Version R C} {candidate : Candidate R C} {archive : Archive R C D}
  {steppingStone : Bool} {faults : Faults R D} {point : Point} {error : InstallError R}

omit [LinearOrder R] [DecidableEq C] [DecidableEq D] in
theorem Kept.refl (hc : ∀ stored, s.record.pending = some stored → s.complete stored.digest = true) : Kept s s :=
  ⟨rfl, rfl, rfl, hc⟩

omit [LinearOrder R] [DecidableEq C] [DecidableEq D] in
theorem not_kept_of_pending {t : Site R C D} (h : t.record.pending ≠ s.record.pending) : ¬ Kept s t :=
  fun hke => h hke.pending

theorem admitCandidate_ne_pending {pending skipped : Option (Version R C)}
    (ha : admitCandidate candidate running pending skipped = .ok ()) : pending ≠ some candidate.version := by
  intro hpending
  unfold admitCandidate at ha
  dsimp only at ha
  split at ha
  · cases ha
  · rw [if_pos (.inr hpending)] at ha
    cases ha

omit [DecidableEq C] in
theorem replace_kept_iff (hco : ∀ stored, s.record.pending = some stored → s.complete stored.digest = true)
    (ha : s.record.pending.map Stored.version ≠ some candidate.version)
    (he : (s.replace candidate archive steppingStone faults).2 = .error (point, error)) :
    Kept s (s.replace candidate archive steppingStone faults).1 ↔
      point.disturbs s.record.pending.isSome = false := by
  -- with nothing pending, clearing changes no entry and no installation counts
  have hnone : ∀ complete, s.record.pending = none →
      Kept s { s with record := { s.record with pending := none }, complete := complete } :=
    fun complete hpending => ⟨hpending.symm, rfl, rfl, fun stored h => by rw [hpending] at h; cases h⟩
  have hso : ∀ t : Site R C D, t.record.pending = none → s.record.pending.isSome = true → ¬ Kept s t := by
    intro t ht hpending
    refine not_kept_of_pending ?_
    rw [ht]
    intro h
    rw [← h] at hpending
    cases hpending
  have hl : ∀ t : Site R C D, t.record.pending = none → (s.record.pending = none → Kept s t) →
      (Kept s t ↔ s.record.pending.isSome = false) := by
    intro t ht hke
    cases hpending : s.record.pending with
    | none => exact ⟨fun _ => rfl, fun _ => hke hpending⟩
    | some stored =>
      exact ⟨fun h => absurd h (hso t ht (by rw [hpending]; rfl)), nofun⟩
  unfold Site.replace at he ⊢
  dsimp only at he ⊢
  cases hc : faults.clear with
  | failed new =>
    rw [hc] at he
    cases he
    cases new with
    | true =>
      show Kept s { s with record := { s.record with pending := none } } ↔ _
      rw [hl _ rfl (hnone s.complete)]
      simp [Point.disturbs]
    | false =>
      show Kept s s ↔ _
      simp [Point.disturbs, Kept.refl hco]
  | stored =>
    rw [hc] at he
    dsimp only at he ⊢
    cases hp : faults.prune with
    | some left =>
      rw [hp] at he
      cases he
      exact hl _ rfl (hnone _)
    | none =>
      rw [hp] at he
      dsimp only at he ⊢
      cases hst : faults.stage with
      | some failure =>
        rw [hst] at he
        cases he
        exact hl _ rfl (hnone _)
      | none =>
        rw [hst] at he
        dsimp only at he ⊢
        cases hs : faults.save with
        | stored =>
          rw [hs] at he
          cases he
        | failed new =>
          rw [hs] at he
          cases he
          cases new with
          | false =>
            show Kept s { s with record := { s.record with pending := none }, complete := _ } ↔ _
            rw [hl _ rfl (hnone _)]
            simp [Point.disturbs]
          | true =>
            -- the new Pending Version is not the one before
            simp only [Point.disturbs, Bool.or_true, Bool.true_eq_false, iff_false]
            refine not_kept_of_pending ?_
            show some (Stored.mk archive.digest candidate.version) ≠ s.record.pending
            intro h
            exact ha (by rw [← h]; rfl)

theorem installNow_early :
    (∃ point error, s.installNow running candidate archive steppingStone faults = (s, .error (point, error)) ∧
      ∀ pending, point.disturbs pending = false) ∨
    (faults.state = none ∧ archive.version = candidate.version ∧
      admitCandidate candidate running (s.record.pending.map Stored.version) s.record.skipped = .ok () ∧
      s.installNow running candidate archive steppingStone faults =
        s.replace candidate archive steppingStone faults) := by
  unfold Site.installNow
  cases faults.inspect with
  | some failure => exact .inl ⟨_, _, rfl, fun _ => rfl⟩
  | none =>
    dsimp only
    split
    · exact .inl ⟨_, _, rfl, fun _ => rfl⟩
    case isFalse hd =>
      cases faults.lock with
      | some failure => exact .inl ⟨_, _, rfl, fun _ => rfl⟩
      | none =>
        cases hs : faults.state with
        | some failure => exact .inl ⟨_, _, rfl, fun _ => rfl⟩
        | none =>
          cases faults.load with
          | some failure => exact .inl ⟨_, _, rfl, fun _ => rfl⟩
          | none =>
            dsimp only
            cases admitCandidate candidate running (s.record.pending.map Stored.version) s.record.skipped with
            | error refusal => exact .inl ⟨_, _, rfl, fun _ => rfl⟩
            | ok value =>
              dsimp only
              split
              · exact .inl ⟨_, _, rfl, fun _ => rfl⟩
              · exact .inr ⟨rfl, not_not.mp fun h => hd (.inl h), rfl, rfl⟩

theorem installNow_kept_iff (hc : ∀ stored, s.record.pending = some stored → s.complete stored.digest = true)
    (her : (s.installNow running candidate archive steppingStone faults).2 = .error (point, error)) :
    Kept s (s.installNow running candidate archive steppingStone faults).1 ↔
      point.disturbs s.record.pending.isSome = false := by
  rcases @installNow_early R C D _ _ _ s running candidate archive steppingStone faults with
    ⟨early, error', heq, he⟩ | ⟨-, -, ha, heq⟩
  · rw [heq] at her ⊢
    cases her
    exact iff_of_true (Kept.refl hc) (he _)
  · rw [heq] at her ⊢
    exact replace_kept_iff hc (admitCandidate_ne_pending ha) her

/-- Two sites with the same kept entries and installations. -/
structure Same (s t : Site R C D) : Prop where
  pending : s.record.pending = t.record.pending
  skipped : s.record.skipped = t.record.skipped
  steppingStone : s.record.steppingStone = t.record.steppingStone
  complete : s.complete = t.complete

omit [DecidableEq D] [LinearOrder R] [DecidableEq C] in
theorem Same.kept_iff {t u : Site R C D} (h : Same t u) : Kept s t ↔ Kept s u := by
  constructor
  · intro hke
    exact ⟨h.pending.symm.trans hke.pending, h.skipped.symm.trans hke.skipped,
      h.steppingStone.symm.trans hke.steppingStone, h.complete ▸ hke.complete⟩
  · intro hke
    exact ⟨h.pending.trans hke.pending, h.skipped.trans hke.skipped,
      h.steppingStone.trans hke.steppingStone, h.complete ▸ hke.complete⟩

omit [DecidableEq D] [LinearOrder R] [DecidableEq C] in
theorem same_note (t : Site R C D) (version : Version R C) (failure : InstallFailure) (save : Save) :
    Same { t with record := save.apply t.record (t.record.noteFailure version failure) } t := by
  cases save with
  | stored => exact ⟨rfl, rfl, rfl, rfl⟩
  | failed new =>
    cases new with
    | true | false => exact ⟨rfl, rfl, rfl, rfl⟩

/-- An install is `install_now` up to the failure it notes. -/
theorem install_noted {t result}
    (h : s.installNow running candidate archive steppingStone faults = (t, result)) :
    ∃ t', s.install running candidate archive steppingStone faults = (t', result) ∧ Same t' t ∧
      t'.record.activation = t.record.activation ∧ ∀ stored, result = .ok stored → t' = t := by
  unfold Site.install
  rw [h]
  cases result with
  | ok stored => exact ⟨t, rfl, ⟨rfl, rfl, rfl, rfl⟩, rfl, fun _ _ => rfl⟩
  | error failure =>
    obtain ⟨point, failure⟩ := failure
    cases failure with
    | failed failure =>
      dsimp only
      split
      · refine ⟨_, rfl, same_note t _ _ _, ?_, nofun⟩
        cases faults.note with
        | stored => rfl
        | failed new => cases new <;> rfl
      · exact ⟨t, rfl, ⟨rfl, rfl, rfl, rfl⟩, rfl, nofun⟩
    | notNewer | skipped | belowFloor | busy | core => exact ⟨t, rfl, ⟨rfl, rfl, rfl, rfl⟩, rfl, nofun⟩

/-- A failed install keeps the record's Pending Version, skipped and Stepping Stone entries and the
Pending Version's installation exactly if it failed before it cleared a Pending Version that was
recorded, and no failed write kept its own new one. -/
theorem failed_install_keeps_iff
    (hcomplete : ∀ stored, s.record.pending = some stored → s.complete stored.digest = true)
    (herror : (s.install running candidate archive steppingStone faults).2 = .error (point, error)) :
    Kept s (s.install running candidate archive steppingStone faults).1 ↔
      point.disturbs s.record.pending.isSome = false := by
  obtain ⟨t, he, hs, -⟩ :=
    install_noted (Prod.mk.eta (p := s.installNow running candidate archive steppingStone faults)).symm
  rw [he] at herror ⊢
  rw [hs.kept_iff]
  exact installNow_kept_iff hcomplete herror

end Install

def pendingSite : Site Nat Nat Nat where
  record := ⟨some ⟨22, .release 2⟩, none, none, 0, none, none, none⟩
  complete := fun d => d == 11 || d == 22
  installation := 11

def newerCandidate : Candidate Nat Nat := ⟨.release 3, some 1, by decide⟩

def newerArchive : Archive Nat Nat Nat := ⟨33, .release 3, some 1, .push⟩

def noFaults : Faults Nat Nat := ⟨none, none, none, none, false, .stored, none, none, .stored, .stored⟩

/-- Without space for the archive the Pending Version stays. -/
theorem failed_install_keeps_iff_full :
    Kept pendingSite
      (pendingSite.install (.release 1) newerCandidate newerArchive false { noFaults with full := true }).1 := by
  have he : (pendingSite.install (.release 1) newerCandidate newerArchive false
      { noFaults with full := true }).2 = .error (.space, .failed .diskFull) := rfl
  have hc : ∀ stored, pendingSite.record.pending = some stored → pendingSite.complete stored.digest = true := by
    intro stored h
    cases h
    rfl
  exact (failed_install_keeps_iff hc he).mpr rfl

/-- An archive that does not unpack costs the Pending Version and its installation. -/
theorem failed_install_loses_pending :
    ∃ faults : Faults Nat Nat, ∃ t : Site Nat Nat Nat,
      pendingSite.install (.release 1) newerCandidate newerArchive false faults =
        (t, .error (.stage, .failed .verification)) ∧
      pendingSite.record.pending = some ⟨22, .release 2⟩ ∧ pendingSite.complete 22 = true ∧
      t.record.pending = none ∧ t.complete 22 = false :=
  ⟨{ noFaults with stage := some (.failed .verification) }, _, rfl, rfl, rfl, rfl, rfl⟩

end SpaceTerm.Updates
