import SpaceTerm.Service.Activation

/-! # An activation is safe in every run

Every change of the record goes to a later step, and a native call follows the write of its dispatch
marker, so no marker is written twice and no call is made twice. A candidate that became ready and a
return exclude each other: one holds the record at `Completed` for good, the other has passed it. -/

namespace SpaceTerm.Service.Activation
open Lib
variable {Doc : Type}

namespace State
variable {s : State Doc}

/-- What `ready` leaves, and when it returns `Ok`. -/
theorem markReady_cases : s.markReady = (false, s) ∨
    (s.step = .returnStartDispatched ∧ s.markReady = (true, { s with step := .returned })) ∨
    ((s.step = .startDispatched ∨ s.step = .completed) ∧
      s.markReady = (true, { s with ready := true, step := .completed })) ∨
    (s.markReady = (true, s) ∧ (s.step = .returned ∨ s.step = .completed ∧
      (s.ready = true ∨ s.stopped = true))) := by
  unfold markReady
  split
  next h => exact .inr (.inl ⟨h.1, rfl⟩)
  next hr =>
    split
    next h =>
      split
      next => exact .inl rfl
      next => exact .inr (.inr (.inl ⟨h.1, rfl⟩))
    next hma =>
      split
      next => exact .inl rfl
      next hpending =>
        refine .inr (.inr (.inr ⟨rfl, ?_⟩))
        simp only [pending, Bool.and_eq_true, bne_iff_ne, ne_eq, not_and_or, not_not] at hpending
        rcases hpending with hs | hs
        · refine .inr ⟨hs, ?_⟩
          by_contra hno
          simp only [not_or, Bool.not_eq_true] at hno
          exact hma ⟨.inr hs, hno⟩
        · exact .inl hs

theorem markReady_rank : s.step.rank ≤ s.markReady.2.step.rank := by
  rcases s.markReady_cases with h | ⟨hs, h⟩ | ⟨hs | hs, h⟩ | ⟨h, -⟩ <;> simp [*]

/-- `admit_run` records at most the candidate's run. -/
theorem admitRun_cases {run : ServerRun} {t : State Doc} (h : s.admitRun run = some t) :
    t = s ∨ t = { s with candidateRun := some run } := by
  unfold admitRun at h
  split at h
  next => exact .inl (Option.some.inj h).symm
  next =>
    split at h
    next =>
      split at h
      next => simp at h
      next => exact .inr (Option.some.inj h).symm
    next => exact .inl (Option.some.inj h).symm

end State

namespace System
variable {s t : System Doc}

def Quiet (live : List Process) : Prop := ∀ p ∈ live, p.run = none

/-- Where the record stands while the helper is at its point. -/
def Point (s : System Doc) : Prop :=
  match s.pc with
  | .idle | .removeCopies _ => True
  | .branch read =>
    (read.step = s.state.step ∧ read.saved = s.state.saved) ∨ read.permitsStart = true
  | .call c => c.marker.rank ≤ s.state.step.rank
  | .copyOut rest => s.state.step = .stopDispatched ∧ Quiet s.live ∧ ∀ file ∉ rest, s.copy file = s.files file
  | .replaced => s.state.step = .quiescent ∧ s.registration = .candidate
  | .startReported => True
  | .copyBack rest => s.state.step = .returnStopDispatched ∧ Quiet s.live ∧
    s.state.saved = some s.copy ∧ ∀ file ∉ rest, s.files file = s.copy file
  | .returning => s.state.step = .returnStopDispatched ∧ Quiet s.live ∧ s.state.saved = some s.files

/-- Every call was made at most once, and not before its marker or while it is still to come. The
step has reached `floor`. -/
structure Calls (floor : Nat) (step : Step) (pc : Pc Doc) (calls : Call → Nat) : Prop where
  floor : floor ≤ step.rank
  once : ∀ c, calls c ≤ 1
  before : ∀ c, step.rank < c.marker.rank ∨ pc = .call c → calls c = 0

/-- Readiness is recorded at `Completed`, and no candidate has a run once the return is recorded.
What was reported with `since` stays reported. -/
structure Readiness (since : Bool) (state : State Doc) (live : List Process)
    (candidateReady : Bool) : Prop where
  kept : since = true → candidateReady = true
  completed : state.ready = true → state.step = .completed
  reported : candidateReady = true → state.ready = true
  installation : 9 ≤ state.step.rank → state.installation = .previous
  running : ∀ p ∈ live, p.run.isSome = true → p.build = .candidate → state.stopped = false ∧ state.step.rank ≤ 8

structure Returns (step : Step) (digest : Option (File → Option Doc)) (registration : Build)
    (quiescent : Option (List Process × (File → Option Doc)))
    (restored : Option (File → Option Doc)) (restores : Nat) : Prop where
  registration : 3 ≤ step.rank → step.rank ≤ 7 → registration = .candidate
  saved : digest = quiescent.map Prod.snd
  quiet : ∀ live files, quiescent = some (live, files) → Quiet live
  restores : restores ≠ 0 → 8 ≤ step.rank
  restored : ∀ files, restored = some files → 9 ≤ step.rank ∧ digest = some files

structure Inv (floor : Nat) (since : Bool) (s : System Doc) : Prop where
  point : s.Point
  calls : Calls floor s.state.step s.pc s.calls
  readiness : Readiness since s.state s.live s.candidateReady
  returns : Returns s.state.step s.state.saved s.registration s.quiescent s.restored s.restores

variable {floor : Nat} {since : Bool}

theorem Calls.later {step step' : Step} {pc pc' : Pc Doc} {calls : Call → Nat}
    (h : Calls floor step pc calls) (hr : step.rank ≤ step'.rank)
    (hp : ∀ c, pc' = .call c → pc = .call c ∨ step.rank < c.marker.rank) :
    Calls floor step' pc' calls := by
  refine ⟨h.floor.trans hr, h.once, ?_⟩
  rintro c (hl | hc)
  · exact h.before c (.inl (hr.trans_lt hl))
  · exact h.before c (hp c hc).symm

variable {pc : Pc Doc}

theorem Calls.made {step : Step} {calls : Call → Nat} {c : Call}
    (h : Calls floor step (.call c : Pc Doc) calls) (hma : c.marker.rank ≤ step.rank)
    (hp : ∀ c, pc ≠ .call c) : Calls floor step pc (Function.update calls c (calls c + 1)) := by
  refine ⟨h.floor, fun d => ?_, ?_⟩
  · by_cases hd : d = c
    · subst hd
      rw [Function.update_self, h.before d (.inr rfl)]
    · rw [Function.update_of_ne hd]
      exact h.once d
  rintro d (hl | hc)
  · have hd : d ≠ c := by
      rintro rfl
      exact absurd hl (not_lt.mpr hma)
    rw [Function.update_of_ne hd]
    exact h.before d (.inl hl)
  · exact absurd hc (hp d)

theorem Returns.later {step step' : Step} {saved restored : Option (File → Option Doc)}
    {quiescent : Option (List Process × (File → Option Doc))} {registration : Build} {restores : Nat}
    (h : Returns step saved registration quiescent restored restores) (hr : step.rank ≤ step'.rank)
    (hre : step.rank < 3 → 3 ≤ step'.rank → step'.rank ≤ 7 → registration = .candidate) :
    Returns step' saved registration quiescent restored restores := by
  refine ⟨?_, h.saved, h.quiet, fun hne => (h.restores hne).trans hr,
    fun files hf => ⟨(h.restored files hf).1.trans hr, (h.restored files hf).2⟩⟩
  intro hl hh
  by_cases hs : 3 ≤ step.rank
  · exact h.registration hs (hr.trans hh)
  · exact hre (by omega) hl hh

variable {state : State Doc} {candidateReady : Bool}

theorem Readiness.later {live : List Process}
    (h : Readiness since state live candidateReady) (step : Step) (hready : state.ready = false)
    (hi : 9 ≤ step.rank → state.installation = .previous)
    (hrun : Quiet live ∨ step.rank ≤ 8) :
    Readiness since { state with step := step } live candidateReady := by
  refine ⟨h.kept, fun hr => ?_, h.reported, hi, ?_⟩
  · rw [hready] at hr
    cases hr
  intro p hp hru hb
  refine ⟨(h.running p hp hru hb).1, ?_⟩
  rcases hrun with hq | hl
  · rw [hq p hp] at hru
    cases hru
  · exact hl

theorem Readiness.fewer {live live' : List Process}
    (h : Readiness since state live candidateReady) (hs : ∀ p ∈ live', p ∈ live ∨ p.run = none) :
    Readiness since state live' candidateReady := by
  refine { h with running := ?_ }
  intro p hp hr hb
  rcases hs p hp with hmem | hnone
  · exact h.running p hmem hr hb
  · rw [hnone] at hr
    cases hr

theorem Readiness.unready {live : List Process}
    (h : Readiness since state live candidateReady) (hs : state.step ≠ .completed) :
    state.ready = false := by
  by_contra hready
  exact hs (h.completed (by simpa using hready))

theorem quiet_of_isEmpty {live : List Process} (h : live.isEmpty = true) : Quiet live := by
  intro p hp
  rw [List.isEmpty_iff.mp h] at hp
  cases hp

/-! ## The helper -/

theorem Inv.setStep (h : s.Inv floor since) {step : Step}
    (hco : s.state.step ≠ .completed) (hr : s.state.step.rank ≤ step.rank)
    (hpo : (s.setStep step pc).Point)
    (hp : ∀ c, pc = .call c → s.state.step.rank < c.marker.rank)
    (hre : s.state.step.rank < 3 → 3 ≤ step.rank → step.rank ≤ 7 → s.registration = .candidate)
    (hi : 9 ≤ step.rank → 9 ≤ s.state.step.rank)
    (hru : Quiet s.live ∨ step.rank ≤ 8) : (s.setStep step pc).Inv floor since where
  point := hpo
  calls := h.calls.later hr fun c hc => .inr (hp c hc)
  readiness := h.readiness.later _ (h.readiness.unready hco)
    (fun hl => h.readiness.installation (hi hl)) hru
  returns := h.returns.later hr hre

theorem Inv.goto (h : s.Inv floor since) {copy : File → Option Doc}
    (hpo : ({ s with copy := copy, pc := pc } : System Doc).Point) (hp : ∀ c, pc ≠ .call c) :
    ({ s with copy := copy, pc := pc } : System Doc).Inv floor since where
  point := hpo
  calls := h.calls.later le_rfl fun c hc => absurd hc (hp c)
  readiness := h.readiness
  returns := h.returns

theorem Inv.startFailed (h : s.Inv floor since) :
    ({ s with state := s.state.startFailed, pc := .idle } : System Doc).Inv floor since := by
  unfold State.startFailed
  split
  next hs =>
    have hc : s.state.step ≠ .completed := by rw [hs]; decide
    refine h.setStep hc (by simp [hs]) trivial (by simp) (by simp [hs])
      (by simp) (.inr (by simp))
  next => exact h.goto trivial (by simp)

theorem copied_cons {source target : File → Option Doc} {file : File} {rest : List File}
    (h : ∀ other ∉ file :: rest, target other = source other) :
    ∀ other ∉ rest, Function.update target file (source file) other = source other := by
  intro other hother
  by_cases he : other = file
  · subst he
    exact Function.update_self ..
  · rw [Function.update_of_ne he]
    exact h other (by simp [he, hother])

theorem Inv.read (h : s.Inv floor since) {read : State Doc} (hp : s.pc = .branch read)
    (hf : read.permitsStart = false) :
    s.state.step = read.step ∧ s.state.saved = read.saved := by
  have hpo := h.point
  simp only [Point, hp, hf, Bool.false_eq_true, or_false] at hpo
  exact ⟨hpo.1.symm, hpo.2.symm⟩

theorem quiet_of_require {read : State Doc} (h : s.requireQuiescent read = true) : Quiet s.live := by
  simp only [requireQuiescent, Bool.and_eq_true] at h
  exact quiet_of_isEmpty h.1

theorem quiet_of_wait {expected : Option ServerRun} {unready : Bool}
    (h : s.waitQuiescent expected unready = true) : Quiet s.live := by
  simp only [waitQuiescent, Bool.and_eq_true] at h
  exact quiet_of_isEmpty h.1.1

section
variable [DecidableEq Doc] {reported : Bool} {rest : List File}

theorem Inv.copyOut (h : s.Inv floor since) (hpc : s.pc = .copyOut rest) (ha : s.advance reported = some t) :
    t.Inv floor since := by
  have hpo := h.point
  simp only [Point, hpc] at hpo
  obtain ⟨hs, hq, hc⟩ := hpo
  cases rest with
  | cons file rest =>
    simp only [advance, hpc, Option.some.injEq] at ha
    subst ha
    exact h.goto ⟨hs, hq, copied_cons hc⟩ (by simp)
  | nil =>
    simp only [advance, hpc, Option.some.injEq] at ha
    subst ha
    have hu := h.readiness.unready (by simp [hs])
    refine ⟨trivial, h.calls.later (by simp [hs]) (by simp), ?_, ?_⟩
    · refine ⟨h.readiness.kept, fun hr => ?_, h.readiness.reported, by simp, fun p hp hru => ?_⟩
      · exact absurd (hr : s.state.ready = true) (by simp [hu])
      · simp [hq p hp] at hru
    refine ⟨by simp, congrArg some (funext fun file => hc file (by simp)), ?_, fun hne => ?_, fun files hf => ?_⟩
    · intro live files hre
      cases hre
      exact hq
    · have := h.returns.restores hne
      simp [hs] at this
    · have := (h.returns.restored files hf).1
      simp [hs] at this

theorem Inv.copyBack (h : s.Inv floor since) (hp : s.pc = .copyBack rest) (ha : s.advance reported = some t) :
    t.Inv floor since := by
  have hpo := h.point
  simp only [Point, hp] at hpo
  obtain ⟨hst, hq, hs, hf⟩ := hpo
  cases rest with
  | cons file rest =>
    simp only [advance, hp, Option.some.injEq] at ha
    subst ha
    exact ⟨⟨hst, hq, hs, copied_cons hf⟩, h.calls.later le_rfl (by simp), h.readiness,
      ⟨h.returns.registration, h.returns.saved, h.returns.quiet, fun _ => by simp [hst], h.returns.restored⟩⟩
  | nil =>
    simp only [advance, hp, Option.some.injEq] at ha
    subst ha
    have hr : s.copy = s.files := (funext fun file => hf file (by simp)).symm
    refine ⟨⟨hst, hq, hr ▸ hs⟩, h.calls.later le_rfl (by simp),
      h.readiness, ⟨fun _ hh => ?_, h.returns.saved, h.returns.quiet, h.returns.restores, h.returns.restored⟩⟩
    simp [hst] at hh

theorem Inv.returning (h : s.Inv floor since) (hpc : s.pc = .returning) (ha : s.advance reported = some t) :
    t.Inv floor since := by
  have hpo := h.point
  simp only [Point, hpc] at hpo
  obtain ⟨hst, hq, hs⟩ := hpo
  simp only [advance, hpc, Option.some.injEq] at ha
  subst ha
  have hu := h.readiness.unready (by simp [hst])
  refine ⟨trivial, h.calls.later (by simp [hst]) (by simp), ?_, ?_⟩
  · refine ⟨h.readiness.kept, fun hr => ?_, h.readiness.reported, fun _ => rfl, fun p hp hru => ?_⟩
    · exact absurd (hr : s.state.ready = true) (by simp [hu])
    · simp [hq p hp] at hru
  · refine ⟨by simp, h.returns.saved, h.returns.quiet, by simp, fun files hf => ?_⟩
    cases hf
    exact ⟨by simp, hs⟩

variable {read : State Doc}

theorem Inv.forward (h : s.Inv floor since) (hp : s.pc = .branch read)
    (hb : read.step.rank ≤ 4) (ha : s.advance reported = some t) : t.Inv floor since := by
  have hfi : read.permitsStart = false := by
    unfold State.permitsStart
    cases hr : read.step <;> simp [hr] at hb ⊢
  obtain ⟨hat, -⟩ := h.read hp hfi
  cases hr : read.step <;> rw [hr] at hat hb <;> simp only [advance, hp, hr] at ha
  case admitted =>
    cases ha
    refine h.setStep (by simp [hat]) (by simp [hat]) ?_ ?_ (by simp [hat]) (by simp) (.inr (by simp))
    · split
      · trivial
      · exact le_rfl
    intro c hc
    split at hc
    · cases hc
    · cases hc
      simp [hat]
  case stopDispatched =>
    split at ha
    next hq =>
      cases ha
      refine h.goto ⟨hat, quiet_of_wait hq, fun file hf => ?_⟩ (by simp)
      cases file <;> simp [snapshot] at hf
    next => cases ha
  case quiescent =>
    split at ha
    next =>
      cases ha
      exact ⟨⟨hat, rfl⟩, h.calls.later le_rfl (by simp), h.readiness,
        ⟨fun _ _ => rfl, h.returns.saved, h.returns.quiet, h.returns.restores, h.returns.restored⟩⟩
    next => cases ha
  case registrationReplaced =>
    split at ha
    next =>
      cases ha
      have hready := h.readiness.later .approved (h.readiness.unready (by simp [hat])) (by simp)
        (.inr (by simp))
      exact ⟨trivial, h.calls.later (by simp [hat]) (by simp), { hready with installation := (by simp) },
        h.returns.later (by simp [hat]) (by simp [hat])⟩
    next => cases ha
  case approved =>
    split at ha
    next =>
      cases ha
      split
      next =>
        exact h.setStep (by simp [hat]) (by simp [hat]) trivial (by simp)
          (by simp [hat]) (by simp) (.inr (by simp))
      next =>
        refine h.setStep (by simp [hat]) (by simp [hat]) le_rfl ?_ (by simp [hat]) (by simp)
          (.inr (by simp))
        intro c hc
        cases hc
        simp [hat]
    next => cases ha
  all_goals simp at hb

theorem Inv.back (h : s.Inv floor since) (hp : s.pc = .branch read)
    (hfi : read.permitsStart = false) (haf : 7 ≤ read.step.rank)
    (ha : s.advance reported = some t) : t.Inv floor since := by
  obtain ⟨hat, hs⟩ := h.read hp hfi
  cases hr : read.step <;> rw [hr] at hat haf <;> simp only [advance, hp, hr] at ha
  case startFailed =>
    cases ha
    refine h.setStep (by simp [hat]) (by simp [hat]) ?_ ?_ (by simp [hat]) (by simp) (.inr (by simp))
    · split
      · trivial
      · exact le_rfl
    intro c hc
    split at hc
    · cases hc
    · cases hc
      simp [hat]
  case returnStopDispatched =>
    split at ha
    next hq =>
      split at ha
      next saved hr =>
        split at ha
        next hd =>
          cases ha
          have hco : saved = s.copy := by
            funext file
            have := List.all_eq_true.mp hd file (by cases file <;> simp [snapshot])
            exact (eq_of_beq this).symm
          refine h.goto ⟨hat, quiet_of_wait hq, by rw [hs, hr, hco], ?_⟩
            (by simp)
          intro file hf
          cases file <;> simp [snapshot] at hf
        next => cases ha
      next => cases ha
    next => cases ha
  case returnApproved =>
    split at ha
    next hq =>
      cases ha
      have hqu := quiet_of_require hq
      split
      next =>
        exact h.setStep (by simp [hat]) (by simp [hat]) trivial (by simp)
          (by simp [hat]) (by simp [hat]) (.inl hqu)
      next =>
        refine h.setStep (by simp [hat]) (by simp [hat]) le_rfl ?_ (by simp [hat]) (by simp [hat])
          (.inl hqu)
        intro c hc
        cases hc
        simp [hat]
    next => cases ha
  all_goals simp [State.permitsStart, hr] at haf hfi

theorem Inv.serving (h : s.Inv floor since) (hp : s.pc = .branch read)
    (hs : read.permitsStart = true) (ha : s.advance reported = some t) : t.Inv floor since := by
  cases hr : read.step <;> simp only [advance, hp, hr] at ha
  case startDispatched =>
    cases ha
    exact h.startFailed
  case completed =>
    cases ha
    refine h.goto ?_ fun c hc => ?_
    · split <;> trivial
    · split at hc <;> cases hc
  case returnStartDispatched =>
    cases ha
    exact h.goto trivial (by simp)
  case returned =>
    cases ha
    exact h.goto trivial (by simp)
  all_goals simp [State.permitsStart, hr] at hs

theorem Inv.advance (h : s.Inv floor since) (ha : s.advance reported = some t) : t.Inv floor since := by
  cases hp : s.pc with
  | idle =>
    simp only [System.advance, hp, Option.some.injEq] at ha
    subst ha
    exact h.goto (.inl ⟨rfl, rfl⟩) (by simp)
  | branch read =>
    by_cases hs : read.permitsStart = true
    · exact h.serving hp hs ha
    have hf : read.permitsStart = false := by simpa using hs
    by_cases hb : read.step.rank ≤ 4
    · exact h.forward hp hb ha
    refine h.back hp hf ?_ ha
    unfold State.permitsStart at hf
    cases hr : read.step <;> simp [hr] at hf hb ⊢
  | call c =>
    have hma := h.point
    simp only [Point, hp] at hma
    simp only [System.advance, hp, Option.some.injEq] at ha
    subst ha
    refine ⟨?_, (hp ▸ h.calls).made hma ?_, h.readiness, h.returns⟩
    · by_cases hfailed : c = .startCandidate ∧ reported = false <;> simp [Point, hfailed]
    · intro d hd
      split at hd <;> cases hd
  | copyOut rest => exact h.copyOut hp ha
  | replaced =>
    have hpo := h.point
    simp only [Point, hp] at hpo
    obtain ⟨hst, hre⟩ := hpo
    simp only [System.advance, hp, Option.some.injEq] at ha
    subst ha
    exact h.setStep (by simp [hst]) (by simp [hst]) trivial (by simp)
      (fun _ _ _ => hre) (by simp) (.inr (by simp))
  | startReported =>
    simp only [System.advance, hp, Option.some.injEq] at ha
    subst ha
    exact h.startFailed
  | copyBack rest => exact h.copyBack hp ha
  | returning => exact h.returning hp ha
  | removeCopies rest =>
    cases rest <;> simp only [System.advance, hp, Option.some.injEq] at ha <;> subst ha
    · exact h.goto trivial (by simp)
    · exact h.goto trivial (by simp)

end

/-! ## The servers -/

theorem permitsStart_congr {a b : State Doc} (h : a.step = b.step) : a.permitsStart = b.permitsStart := by
  unfold State.permitsStart
  rw [h]

theorem Point.server (h : s.Point) (hp : t.pc = s.pc) (hs : t.state.saved = s.state.saved)
    (hreg : t.registration = s.registration) (hc : t.copy = s.copy)
    (hr : s.state.step.rank ≤ t.state.step.rank)
    (hfix : s.state.permitsStart = false → t.state.step = s.state.step ∧
      (Quiet s.live → Quiet t.live ∧ t.files = s.files)) : t.Point := by
  have hsto (step : Step) (hst : s.state.step = step) (hq : Quiet s.live)
      (hno : step = .stopDispatched ∨ step = .returnStopDispatched) :
      t.state.step = step ∧ Quiet t.live ∧ t.files = s.files := by
    have hf : s.state.permitsStart = false := by
      unfold State.permitsStart
      rw [hst]
      rcases hno with rfl | rfl <;> rfl
    exact ⟨(hfix hf).1.trans hst, (hfix hf).2 hq⟩
  cases ha : s.pc <;> simp only [Point, hp, ha] at h ⊢
  case branch read =>
    by_cases hse : read.permitsStart = true
    · exact .inr hse
    obtain ⟨hst, hre⟩ := h.resolve_right hse
    rw [permitsStart_congr hst, Bool.not_eq_true] at hse
    exact .inl ⟨hst.trans (hfix hse).1.symm, hre.trans hs.symm⟩
  case call c => exact h.trans hr
  case copyOut rest =>
    obtain ⟨hst, hq, hfi⟩ := hsto _ h.1 h.2.1 (.inl rfl)
    rw [hc, hfi]
    exact ⟨hst, hq, h.2.2⟩
  case replaced =>
    have hf : s.state.permitsStart = false := by
      unfold State.permitsStart
      rw [h.1]
      rfl
    rw [hreg]
    exact ⟨(hfix hf).1.trans h.1, h.2⟩
  case copyBack rest =>
    obtain ⟨hst, hq, hfi⟩ := hsto _ h.1 h.2.1 (.inr rfl)
    rw [hc, hfi, hs]
    exact ⟨hst, hq, h.2.2⟩
  case returning =>
    obtain ⟨hst, hq, hfi⟩ := hsto _ h.1 h.2.1 (.inr rfl)
    rw [hfi, hs]
    exact ⟨hst, hq, h.2.2⟩

variable {p : Process}

theorem process_mem {pid : Nat} (h : s.process pid = some p) : p ∈ s.live :=
  List.mem_of_find?_eq_some h

theorem Inv.live (h : s.Inv floor since) {live : List Process} (hl : ∀ p ∈ live, p ∈ s.live ∨ p.run = none) :
    ({ s with live := live } : System Doc).Inv floor since where
  point := by
    refine h.point.server rfl rfl rfl rfl le_rfl fun _ => ⟨rfl, fun hq => ⟨?_, rfl⟩⟩
    intro p hp
    exact (hl p hp).elim (hq p) id
  calls := h.calls
  readiness := h.readiness.fewer hl
  returns := h.returns

theorem Inv.admitRun (h : s.Inv floor since) {token : Nat}
    (ha : s.admitRun p token = some t) : t.Inv floor since := by
  unfold System.admitRun at ha
  split at ha
  case isFalse => cases ha
  case isTrue hg =>
    obtain ⟨-, hsto, hpe, -, hb⟩ := hg
    obtain ⟨state, hst, rfl⟩ := Option.map_eq_some_iff.mp ha
    have hrun : ∀ q ∈ { p with run := some ⟨s.boot, token⟩ } :: s.live.erase p,
        q.run.isSome = true → q.build = .candidate → s.state.stopped = false ∧ s.state.step.rank ≤ 8 := by
      intro q hq hru hc
      rcases List.mem_cons.mp hq with rfl | hq
      · refine ⟨hsto, ?_⟩
        by_contra hlate
        have := h.readiness.installation (by omega)
        rw [← hb] at this
        exact Build.noConfusion (this.symm.trans hc)
      · exact h.readiness.running q (List.mem_of_mem_erase hq) hru hc
    have hpo (t : System Doc) (hp : t.pc = s.pc) (hste : t.state.step = s.state.step)
        (hs : t.state.saved = s.state.saved) (hr : t.registration = s.registration)
        (hco : t.copy = s.copy) : t.Point :=
      h.point.server hp hs hr hco (le_of_eq (congrArg _ hste.symm)) fun hf => by simp [hpe] at hf
    rcases State.admitRun_cases hst with rfl | rfl
    · exact ⟨hpo _ rfl rfl rfl rfl rfl, h.calls, ⟨h.readiness.kept, h.readiness.completed, h.readiness.reported,
        h.readiness.installation, hrun⟩, h.returns⟩
    · exact ⟨hpo _ rfl rfl rfl rfl rfl, h.calls, ⟨h.readiness.kept, h.readiness.completed, h.readiness.reported,
        h.readiness.installation, hrun⟩, h.returns⟩

/-- `ready` of a process with a run. -/
theorem Inv.ready (h : s.Inv floor since) (hp : p ∈ s.live) (hru : p.run.isSome = true) :
    (s.ready p).Inv floor since := by
  have hfi (hf : s.state.permitsStart = false) : s.state.markReady = (false, s.state) := by
    unfold State.permitsStart at hf
    rcases s.state.markReady_cases with hm | ⟨hst, -⟩ | ⟨hst | hst, -⟩ | ⟨-, hst | ⟨hst, -⟩⟩
    · exact hm
    all_goals simp [hst] at hf
  have hsa : s.state.markReady.2.saved = s.state.saved := by
    rcases s.state.markReady_cases with hm | ⟨-, hm⟩ | ⟨-, hm⟩ | ⟨hm, -⟩ <;> rw [hm]
  refine ⟨h.point.server rfl hsa rfl rfl State.markReady_rank fun hf => ?_,
    h.calls.later State.markReady_rank fun c hc => .inl hc, ?_, ?_⟩
  · refine ⟨?_, fun hqu => ⟨hqu, rfl⟩⟩
    change s.state.markReady.2.step = _
    rw [hfi hf]
  · unfold System.ready
    rcases s.state.markReady_cases with hm | ⟨hst, hm⟩ | ⟨hst, hm⟩ | ⟨hm, hst⟩ <;>
      simp only [hm, Bool.false_and, Bool.or_false, Bool.true_and]
    · exact h.readiness
    · have hlate (q : Process) (hq : q ∈ s.live) (hru : q.run.isSome = true) : q.build ≠ .candidate :=
        fun hbu => by simpa [hst] using (h.readiness.running q hq hru hbu).2
      have hu := h.readiness.unready (by simp [hst])
      refine ⟨fun hs => by simp [h.readiness.kept hs], fun hr => ?_, fun hre => ?_,
        fun _ => h.readiness.installation (by simp [hst]), fun q hq hru hbu => absurd hbu (hlate q hq hru)⟩
      · exact absurd (hr : s.state.ready = true) (by simp [hu])
      · exact h.readiness.reported (by simpa [hlate p hp hru] using hre)
    · exact ⟨fun hs => by simp [h.readiness.kept hs], fun _ => rfl, fun _ => rfl, by simp, fun q hq hru hbu =>
        ⟨(h.readiness.running q hq hru hbu).1, by simp⟩⟩
    · refine ⟨fun hs => by simp [h.readiness.kept hs], h.readiness.completed, fun hre => ?_,
        h.readiness.installation, h.readiness.running⟩
      rcases (Bool.or_eq_true _ _).mp hre with hb | hbu
      · exact h.readiness.reported hb
      obtain ⟨hrun, hra⟩ := h.readiness.running p hp hru (eq_of_beq hbu)
      rcases hst with hst | ⟨-, hready | hsto⟩
      · simp [hst] at hra
      · exact hready
      · rw [hrun] at hsto
        cases hsto
  · change Returns s.state.markReady.2.step s.state.markReady.2.saved _ _ _ _
    rw [hsa]
    refine h.returns.later State.markReady_rank fun hl hh _ => ?_
    have hf : s.state.permitsStart = false := by
      unfold State.permitsStart
      cases hst : s.state.step <;> simp [hst] at hl ⊢
    rw [hfi hf] at hh
    exact absurd hh (by simpa using hl)

theorem Inv.runEnd (h : s.Inv floor since) (p : Process) : (s.runEnd p).Inv floor since := by
  have hl : ∀ q ∈ s.live.erase p, q ∈ s.live ∨ q.run = none :=
    fun q hq => .inl (List.mem_of_mem_erase hq)
  have he := h.live hl
  unfold System.runEnd
  split
  · exact ⟨he.point, he.calls, ⟨he.readiness.kept, he.readiness.completed, he.readiness.reported,
      he.readiness.installation, he.readiness.running⟩, he.returns⟩
  · exact he

theorem Inv.write (h : s.Inv floor since) (hp : p ∈ s.live) (hr : p.run.isSome = true)
    (files : File → Option Doc) : ({ s with files := files } : System Doc).Inv floor since where
  point := by
    refine h.point.server rfl rfl rfl rfl le_rfl fun _ => ⟨rfl, fun hq => ?_⟩
    rw [hq p hp] at hr
    cases hr
  calls := h.calls
  readiness := h.readiness
  returns := h.returns

theorem Inv.startupFailed (h : s.Inv floor since) (hp : s.pc = .idle) :
    ({ s with state := s.state.startupFailed } : System Doc).Inv floor since := by
  unfold State.startupFailed
  split
  case isFalse => exact h
  case isTrue hs =>
    obtain ⟨hs, hready⟩ := hs
    refine ⟨by simp [Point, hp], h.calls.later (by simp [hs]) fun c hc => .inl hc,
      h.readiness.later _ hready (by simp) (.inr (by simp)),
      h.returns.later (by simp [hs]) (by simp [hs])⟩

theorem Inv.take [DecidableEq Doc] (h : s.Inv floor since) {e : Event Doc} (hmo : s.Moves e t) : t.Inv floor since := by
  cases e with
  | advance reported => exact h.advance hmo
  | interrupt =>
    cases hmo
    exact h.goto trivial (by simp)
  | launch pid =>
    simp only [Moves, System.take] at hmo
    split at hmo
    case isTrue => cases hmo
    case isFalse =>
      cases hmo
      refine h.live fun p hp => ?_
      rcases List.mem_cons.mp hp with rfl | hp
      · exact .inr rfl
      · exact .inl hp
  | admitRun pid token =>
    simp only [Moves, System.take] at hmo
    split at hmo
    case isTrue => cases hmo
    case isFalse =>
      obtain ⟨p, -, ha⟩ := Option.bind_eq_some_iff.mp hmo
      exact h.admitRun ha
  | ready pid =>
    simp only [Moves, System.take] at hmo
    split at hmo
    case isTrue => cases hmo
    case isFalse =>
      obtain ⟨p, hp, rfl⟩ := Option.map_eq_some_iff.mp hmo
      obtain ⟨hf, hr⟩ := Option.filter_eq_some_iff.mp hp
      exact h.ready (process_mem hf) hr
  | write pid file doc =>
    obtain ⟨p, hp, rfl⟩ := Option.map_eq_some_iff.mp hmo
    obtain ⟨hf, hr⟩ := Option.filter_eq_some_iff.mp hp
    exact h.write (process_mem hf) hr _
  | runEnd pid =>
    simp only [Moves, System.take] at hmo
    split at hmo
    case isTrue => cases hmo
    case isFalse =>
      obtain ⟨p, -, rfl⟩ := Option.map_eq_some_iff.mp hmo
      exact h.runEnd p
  | crash pid =>
    obtain ⟨p, -, rfl⟩ := Option.map_eq_some_iff.mp hmo
    exact h.live fun q hq => .inl (List.mem_of_mem_erase hq)
  | reboot =>
    cases hmo
    have hidle : ({ s with pc := .idle } : System Doc).Inv floor since := h.goto trivial (by simp)
    have he : ({ s with pc := .idle, live := [] } : System Doc).Inv floor since := hidle.live (by simp)
    exact ⟨trivial, he.calls, he.readiness, he.returns⟩
  | start =>
    simp only [Moves, System.take] at hmo
    split at hmo
    case h_2 => cases hmo
    case h_1 hpc =>
      split at hmo
      case isFalse => cases hmo
      case isTrue =>
        cases hmo
        refine ⟨by simp [Point, hpc], h.calls, ⟨h.readiness.kept, h.readiness.completed, h.readiness.reported,
          h.readiness.installation, fun p hp hr hb => ?_⟩, h.returns⟩
        exact ⟨rfl, (h.readiness.running p hp hr hb).2⟩
  | startupFailed =>
    simp only [Moves, System.take] at hmo
    split at hmo
    case h_2 => cases hmo
    case h_1 hpc =>
      cases hmo
      exact h.startupFailed hpc

/-! ## Runs -/

theorem Inv.run [DecidableEq Doc] (h : s.Inv floor since) {es : List (Event Doc)} (hr : Run Moves s es t) :
    t.Inv floor since :=
  hr.invariant h fun h hmo => h.take hmo

theorem Inv.since_now (h : s.Inv floor since) : s.Inv s.state.step.rank s.candidateReady :=
  ⟨h.point, ⟨le_rfl, h.calls.once, h.calls.before⟩, ⟨id, h.readiness.completed, h.readiness.reported,
    h.readiness.installation, h.readiness.running⟩, h.returns⟩

theorem admitted_inv (stopped : Bool) (run : Option ServerRun) (files copy : File → Option Doc)
    (boot : Nat) (pids : List (Nat × Option ServerRun)) :
    (admitted stopped run files copy boot pids).Inv 0 false := by
  refine ⟨trivial, ⟨le_rfl, fun _ => Nat.zero_le _, fun _ _ => rfl⟩, ⟨nofun, nofun, nofun, nofun, ?_⟩,
    ⟨nofun, rfl, nofun, fun hne => absurd rfl hne, nofun⟩⟩
  intro p hp _ hb
  obtain ⟨q, -, rfl⟩ := List.mem_map.mp hp
  cases hb

theorem Inv.reported (h : s.Inv floor true) : s.restores = 0 ∧ s.registration = .candidate := by
  have hs := h.readiness.completed (h.readiness.reported (h.readiness.kept rfl))
  refine ⟨?_, h.returns.registration (by simp [hs]) (by simp [hs])⟩
  by_contra hne
  have := h.returns.restores hne
  simp [hs] at this

theorem Inv.unreported (h : s.Inv floor since) (hf : 7 ≤ floor) : s.candidateReady = false := by
  by_contra hr
  have hs := h.readiness.completed (h.readiness.reported (by simpa using hr))
  have := hf.trans h.calls.floor
  simp [hs] at this

/-- In every run of one activation each native call is made at most once; from the time a candidate
is ready no file is restored and the registration stays with the candidate; from a failed start on no
candidate becomes ready; and what a return restored is what was there, with no process that has a
run, when its digest was recorded. -/
theorem activation_safe [DecidableEq Doc] {stopped : Bool} {run : Option ServerRun} {files copy : File → Option Doc}
    {boot : Nat} {pids : List (Nat × Option ServerRun)} {es : List (Event Doc)}
    (hrun : Run Moves (admitted stopped run files copy boot pids) es s) :
    (∀ c, s.calls c ≤ 1) ∧
    (∀ fs t, Run Moves s fs t → (s.candidateReady = true → t.restores = 0 ∧ t.registration = .candidate) ∧
      (Step.startFailed.rank ≤ s.state.step.rank → t.candidateReady = false)) ∧
    (∀ restored, s.restored = some restored → s.state.saved = some restored ∧
      ∃ live, s.quiescent = some (live, restored) ∧ Quiet live) := by
  have hi := (admitted_inv stopped run files copy boot pids).run hrun
  refine ⟨hi.calls.once, fun fs t hl => ⟨fun hready => ?_, fun hfailed => ?_⟩, fun restored hr => ?_⟩
  · have hno := hi.since_now.run hl
    rw [hready] at hno
    exact hno.reported
  · exact (hi.since_now.run hl).unreported hfailed
  have hs := (hi.returns.restored restored hr).2
  refine ⟨hs, ?_⟩
  obtain ⟨⟨live, kept⟩, hq, hke⟩ :=
    Option.map_eq_some_iff.mp (hi.returns.saved.symm.trans hs)
  obtain rfl : kept = restored := hke
  exact ⟨live, hq, hi.returns.quiet live kept hq⟩

/-- A candidate that writes and misses its deadline: the previous version comes back. -/
def missedDeadline : List (Event Nat) :=
  let helper (n : Nat) : List (Event Nat) := List.replicate n (.advance true)
  helper 3 ++ .runEnd 1 :: helper 14 ++ .launch 2 :: .admitRun 2 7 :: .write 2 .identity (some 9) ::
    helper 5 ++ .crash 2 :: helper 10

theorem activation_safe_missed : ∃ s : System Nat,
    Run Moves (admitted false (some ⟨0, 1⟩) (fun _ => some 3) (fun _ => none) 0 [(1, some ⟨0, 1⟩)])
      missedDeadline s ∧
    s.state.step = .returnStartDispatched ∧ (∀ c, s.calls c = 1) ∧
    ∃ restored, s.restored = some restored ∧ restored .identity = some 3 ∧ s.state.saved = some restored := by
  have hru : ∃ s, missedDeadline.foldlM take (admitted false (some ⟨0, 1⟩) (fun _ => some 3)
      (fun _ => none) 0 [(1, some ⟨0, 1⟩)]) = some s ∧ s.state.step = .returnStartDispatched ∧
      (∀ c, s.calls c = 1) ∧ ∃ restored, s.restored = some restored ∧ restored .identity = some 3 :=
    ⟨_, rfl, rfl, fun c => by cases c <;> rfl, _, rfl, rfl⟩
  obtain ⟨s, hs, hst, hc, restored, hr, hi⟩ := hru
  have hsa := activation_safe (Run.of_foldlM hs)
  exact ⟨s, Run.of_foldlM hs, hst, hc, restored, hr, hi, (hsa.2.2 restored hr).1⟩

end System
end SpaceTerm.Service.Activation
