import Mathlib.Logic.Relation
import SpaceTerm.Journal.Model

/-! # What a returned sync promises

`Retains s a` says that nothing can take the store behind `a`: the record, the state of the host and
every envelope that may still be written descend from `a`. A sync returns `Ok` only for a revision
that is retained in this sense, and every event keeps it (`Retains.step`). -/

namespace SpaceTerm.Journal
open Lib

variable {σ ρ : Type}

namespace Thread

/-- Holds the journal's writer role. -/
def busy : Thread ρ → Bool
  | writing _ _ _ | wrote _ _ _ | reporting _ _ | reported _ => true
  | _ => false

/-- Has written successfully and has yet to give the writer role back. -/
def inReport : Thread ρ → Bool
  | reporting _ _ | reported _ => true
  | _ => false

def inWrite : Thread ρ → Bool
  | writing _ _ _ | wrote _ _ _ => true
  | _ => false

def envelope? : Thread ρ → Option ρ
  | writing _ _ envelope => some envelope
  | _ => none

variable {x : Thread ρ}

theorem envelope?_of_not_busy (h : x.busy = false) : x.envelope? = none := by
  cases x with
  | writing => cases h
  | _ => rfl

theorem busy_of_inReport (h : x.inReport) : x.busy := by
  cases x with
  | reporting | reported => rfl
  | _ => cases h

theorem busy_of_inWrite (h : x.inWrite) : x.busy := by
  cases x with
  | writing | wrote => rfl
  | _ => cases h

end Thread

namespace Progress
variable {p : Progress ρ} {revision : Revision}

theorem pass_takes {number : Nat} {envelope : ρ} (h : p.pass revision = .takes number envelope) :
    p.failed = false ∧ p.writing = false ∧ p.reporting = false ∧ p.pending = some (number, envelope) := by
  unfold pass at h
  split at h
  · cases h
  split at h
  · cases h
  split at h
  · cases h
  rename_i hfailed
  split at h
  · cases h
  rename_i hb
  split at h
  · cases h
  rename_i hpending
  cases h
  simp only [Bool.or_eq_true, not_or, Bool.not_eq_true] at hfailed hb
  exact ⟨hfailed, hb.1, hb.2, hpending⟩

/-- A sync returns `Ok` for a durable revision of this epoch, or by the verdict on an earlier one. -/
theorem pass_returns (h : p.pass revision = .returns true) :
    revision.epoch = p.epoch ∧ revision.number ≤ p.durable ∨
      ∃ durable, (revision.epoch, durable) ∈ p.ended ∧ revision.number ≤ durable := by
  unfold pass at h
  split at h
  · have hv : (p.verdict revision.epoch).any (revision.number ≤ ·) := by simpa using h
    rw [verdict, Option.any_map, Option.any_eq_true] at hv
    obtain ⟨⟨epoch, durable⟩, hf, hl⟩ := hv
    have he : epoch = revision.epoch := by simpa using List.find?_some hf
    exact .inr ⟨durable, he ▸ List.mem_of_find?_eq_some hf, by simpa using hl⟩
  rename_i he
  split at h
  · rename_i hl
    simp only [Bool.and_eq_true, decide_eq_true_eq] at hl
    exact .inl ⟨not_not.mp he, hl.1⟩
  split at h
  · cases h
  split at h
  · cases h
  split at h <;> cases h

end Progress

namespace Server
variable {format : Format σ ρ} {s s' : Server σ ρ} {e : Event σ} {a b : ρ}

@[simp]
theorem threads_setThread (t u : Nat) (x : Thread ρ) :
    (s.setThread t x).threads u = if u = t then x else s.threads u := by
  simp [setThread, Function.update_apply]

variable {x : Thread ρ}

theorem forall_setThread {P : Thread ρ → Prop} {t : Nat} (hx : P x)
    (h : ∀ u, u ≠ t → P (s.threads u)) (u : Nat) : P ((s.setThread t x).threads u) := by
  rw [threads_setThread]
  split
  · exact hx
  · rename_i hne
    exact h u hne

@[simp]
theorem threads_setProgress (p : Progress ρ) : (s.setProgress p).threads = s.threads := rfl

inductive Effect (format : Format σ ρ) (s : Server σ ρ) : Event σ → Server σ ρ → Prop
  | commit (next : σ) :
      Effect format s (.commit next) { s with
        progress := { s.progress with
          submitted := s.progress.submitted + 1
          pending := some (s.progress.submitted + 1, format.envelope (format.kept next)) }
        state := format.kept next
        log := s.log ++ [(⟨s.progress.epoch, s.progress.submitted + 1⟩, format.envelope (format.kept next))]
        lineage := (format.envelope s.state, format.envelope (format.kept next)) :: s.lineage }
  | quiet (e : Event σ) (t : Nat) (x : Thread ρ) (hold : (s.threads t).busy = false)
      (hnew : x.busy = false) : Effect format s e (s.setThread t x)
  | waits (t : Nat) : Effect format s (.pass t) s
  | takes (t : Nat) {revision : Revision} {number : Nat} {envelope : ρ}
      (hthread : s.threads t = .syncing revision) (hfailed : s.progress.failed = false)
      (hwriting : s.progress.writing = false) (hreporting : s.progress.reporting = false)
      (hpending : s.progress.pending = some (number, envelope)) :
      Effect format s (.pass t)
        ((s.setProgress { s.progress with pending := none, writing := true }).setThread t
          (.writing revision ⟨s.progress.epoch, number⟩ envelope))
  | writes (t : Nat) (result : WriteResult) {revision taken : Revision} {envelope : ρ}
      (hthread : s.threads t = .writing revision taken envelope) :
      Effect format s (.write t result)
        (({ s with store := if result == .failedOld then s.store else some envelope }
          : Server σ ρ).setThread t (.wrote revision taken result.isOk))
  | succeeds (t : Nat) {revision taken : Revision}
      (hthread : s.threads t = .wrote revision taken true) :
      Effect format s (.finish t)
        ((s.setProgress { s.progress with
          writing := false, durable := taken.number, reporting := true }).setThread t
            (.reporting revision taken))
  | fails (t : Nat) {revision taken : Revision}
      (hthread : s.threads t = .wrote revision taken false) :
      Effect format s (.finish t)
        ((s.setProgress { s.progress with writing := false, failed := true }).setThread t
          (.syncing revision))
  | called (t : Nat) {revision taken : Revision}
      (hthread : s.threads t = .reporting revision taken) :
      Effect format s (.written t) (s.setThread t (.reported revision))
  | reports (t : Nat) {revision : Revision} (hthread : s.threads t = .reported revision) :
      Effect format s (.report t)
        ((s.setProgress { s.progress with reporting := false }).setThread t (.syncing revision))
  | reads (hfailed : s.progress.failed) : Effect format s .read { s with recovering := some s.store }
  | recovers {record : Option ρ} (hreading : s.recovering = some record) :
      Effect format s .recover { s with
        progress := s.progress.recover, state := format.restore record, recovering := none
        lineage := record.toList.map (fun r => (r, format.envelope (format.restore (some r)))) ++ s.lineage }

theorem Step.effect (h : Step format s e s') : Effect format s e s' := by
  unfold Step at h
  cases e with
  | commit next =>
    simp only [event] at h
    split at h
    · cases h
    · cases h
      exact .commit next
  | call t revision =>
    simp only [event] at h
    split at h
    · rename_i hthread
      cases h
      exact .quiet _ t _ (by rw [hthread]; rfl) rfl
    · rename_i hthread
      cases h
      exact .quiet _ t _ (by rw [hthread]; rfl) rfl
    · cases h
  | pass t =>
    simp only [event] at h
    split at h
    · rename_i revision hthread
      split at h
      · cases h
        exact .quiet _ t _ (by rw [hthread]; rfl) rfl
      · cases h
        exact .waits t
      rename_i number envelope hp
      cases h
      obtain ⟨hfailed, hwriting, hreporting, hpending⟩ := Progress.pass_takes hp
      exact .takes t hthread hfailed hwriting hreporting hpending
    · cases h
  | write t result =>
    simp only [event] at h
    split at h
    · rename_i hthread
      cases h
      exact .writes t result hthread
    · cases h
  | finish t =>
    simp only [event] at h
    split at h
    · rename_i hthread
      cases h
      exact .succeeds t hthread
    · rename_i hthread
      cases h
      exact .fails t hthread
    · cases h
  | written t =>
    simp only [event] at h
    split at h
    · rename_i hthread
      cases h
      exact .called t hthread
    · cases h
  | report t =>
    simp only [event] at h
    split at h
    · rename_i hthread
      cases h
      exact .reports t hthread
    · cases h
  | read =>
    simp only [event] at h
    split at h
    · rename_i hfailed
      cases h
      exact .reads (Bool.and_eq_true_iff.mp hfailed).1
    · cases h
  | recover =>
    simp only [event] at h
    split at h
    · cases h
    rename_i hreading
    cases h
    exact .recovers hreading

/-! ### Descent -/

theorem Effect.descends (h : Effect format s e s') (ha : s.Descends a b) : s'.Descends a b := by
  have hmo : s.lineage ⊆ s'.lineage := by
    cases h with
    | commit next => exact List.subset_cons_self _ _
    | recovers hreading => exact List.subset_append_right _ _
    | _ => exact List.Subset.refl _
  exact Relation.ReflTransGen.mono (fun _ _ hmem => hmo hmem) _ _ ha

def Writes (s : Server σ ρ) (a : ρ) (x : Thread ρ) : Prop := ∀ b ∈ x.envelope?, s.Descends a b

/-- The record, the state and all that may still be written descend from `a`. -/
structure Retains (format : Format σ ρ) (s : Server σ ρ) (a : ρ) : Prop where
  store : ∃ b, s.store = some b ∧ s.Descends a b
  state : s.Descends a (format.envelope s.state)
  pending : ∀ n b, s.progress.pending = some (n, b) → s.Descends a b
  writing : ∀ t, s.Writes a (s.threads t)

structure Phases (s : Server σ ρ) : Prop where
  one : ∀ t u, (s.threads t).busy → (s.threads u).busy → t = u
  writing : ∀ t, (s.threads t).inWrite → s.progress.writing
  reporting : ∀ t, (s.threads t).inReport → s.progress.reporting
  apart : s.progress.writing → s.progress.reporting = false
  certain : s.progress.failed → s.progress.writing = false ∧ s.progress.reporting = false
  reading : ∀ record, s.recovering = some record → s.progress.failed ∧ record = s.store

namespace Phases

theorem not_inWrite (h : Phases s) (hfailed : s.progress.failed) (t : Nat) : (s.threads t).inWrite = false := by
  have hnone := (h.certain hfailed).1
  by_contra hw
  rw [Bool.not_eq_false] at hw
  simp [h.writing t hw] at hnone

theorem not_busy (h : Phases s) (hwriting : s.progress.writing = false)
    (hreporting : s.progress.reporting = false) (t : Nat) : (s.threads t).busy = false := by
  cases ht : s.threads t with
  | writing | wrote =>
    have := h.writing t (by rw [ht]; rfl)
    simp [hwriting] at this
  | reporting | reported =>
    have := h.reporting t (by rw [ht]; rfl)
    simp [hreporting] at this
  | _ => rfl

theorem others (h : Phases s) {t u : Nat} (ht : (s.threads t).busy) (hu : u ≠ t) : (s.threads u).busy = false := by
  by_contra hb
  rw [Bool.not_eq_false] at hb
  exact hu (h.one u t hb ht)

/-- Only thread `t` may have the writer role. -/
theorem of_others {t : Nat} (hot : ∀ u, u ≠ t → (s.threads u).busy = false)
    (hwriting : (s.threads t).inWrite → s.progress.writing)
    (hreporting : (s.threads t).inReport → s.progress.reporting)
    (ha : s.progress.writing → s.progress.reporting = false)
    (hc : s.progress.failed → s.progress.writing = false ∧ s.progress.reporting = false)
    (hreading : ∀ record, s.recovering = some record → s.progress.failed ∧ record = s.store) :
    Phases s := by
  have ho : ∀ u, (s.threads u).busy → u = t := by
    intro u hu
    by_contra hne
    simp [hot u hne] at hu
  refine ⟨fun u v hu hv => (ho u hu).trans (ho v hv).symm, fun u hu => ?_, ?_, ha, hc, hreading⟩
  · obtain rfl : u = t := ho u (Thread.busy_of_inWrite hu)
    exact hwriting hu
  · intro u hu
    obtain rfl : u = t := ho u (Thread.busy_of_inReport hu)
    exact hreporting hu

theorem step (h : Phases s) (hs : Effect format s e s') : Phases s' := by
  cases hs with
  | commit next => exact { h with }
  | quiet e t x hold hnew =>
    have hsa : ∀ u, ((s.setThread t x).threads u).busy → (s.setThread t x).threads u = s.threads u
      := by
      intro u hu
      rw [threads_setThread] at hu ⊢
      split at hu
      · simp [hnew] at hu
      · rename_i hne
        rw [if_neg hne]
    refine ⟨fun u v hu hv => h.one u v (hsa u hu ▸ hu) (hsa v hv ▸ hv), fun u hu => ?_,
      fun u hu => ?_, h.apart, h.certain, h.reading⟩
    · exact h.writing u (hsa u (Thread.busy_of_inWrite hu) ▸ hu)
    · exact h.reporting u (hsa u (Thread.busy_of_inReport hu) ▸ hu)
  | waits t => exact h
  | takes t hthread hfailed hwriting hreporting hpending =>
    refine of_others (t := t) (fun u hu => ?_) (fun _ => rfl) ?_ (fun _ => hreporting) ?_ h.reading
    · simpa [hu] using h.not_busy hwriting hreporting u
    · simp [Thread.inReport]
    · intro hco
      exact absurd (hfailed.symm.trans hco) (by decide)
  | writes t result hthread =>
    have hb : (s.threads t).busy := by rw [hthread]; rfl
    have hi : s.progress.writing := h.writing t (by rw [hthread]; rfl)
    refine of_others (t := t) (fun u hu => ?_) (fun _ => hi) ?_ h.apart h.certain ?_
    · simpa [hu] using h.others hb hu
    · simp [Thread.inReport]
    · intro record hr
      have := (h.certain (h.reading record hr).1).1
      simp [hi] at this
  | succeeds t hthread =>
    have hb : (s.threads t).busy := by rw [hthread]; rfl
    have hc : s.progress.failed = false := by
      by_contra hfailed
      have := h.not_inWrite (by simpa using hfailed) t
      simp [hthread, Thread.inWrite] at this
    refine of_others (t := t) (fun u hu => ?_) ?_ (fun _ => rfl) (by simp [setProgress, setThread]) ?_
      h.reading
    · simpa [hu] using h.others hb hu
    · simp [Thread.inWrite]
    · intro hco
      exact absurd (hc.symm.trans hco) (by decide)
  | fails t hthread =>
    have hb : (s.threads t).busy := by rw [hthread]; rfl
    have hnone := h.apart (h.writing t (by rw [hthread]; rfl))
    refine of_others (t := t) (fun u hu => ?_) ?_ ?_ (fun _ => hnone) (fun _ => ⟨rfl, hnone⟩) ?_
    · simpa [hu] using h.others hb hu
    · simp [Thread.inWrite]
    · simp [Thread.inReport]
    · exact fun record hr => ⟨rfl, (h.reading record hr).2⟩
  | called t hthread =>
    have hb : (s.threads t).busy := by rw [hthread]; rfl
    have hi : s.progress.reporting := h.reporting t (by rw [hthread]; rfl)
    refine of_others (t := t) (fun u hu => ?_) ?_ (fun _ => hi) h.apart h.certain h.reading
    · simpa [hu] using h.others hb hu
    · simp [Thread.inWrite]
  | reports t hthread =>
    have hb : (s.threads t).busy := by rw [hthread]; rfl
    refine of_others (t := t) (fun u hu => ?_) ?_ ?_ (fun _ => rfl) ?_ h.reading
    · simpa [hu] using h.others hb hu
    · simp [Thread.inWrite]
    · simp [Thread.inReport]
    · exact fun hfailed => ⟨(h.certain hfailed).1, rfl⟩
  | reads hfailed =>
    exact { h with reading := fun record hr =>
      ⟨hfailed, (Option.some.inj hr).symm⟩ }
  | recovers hreading =>
    exact { h with certain := (by simp [Progress.recover]), reading := by simp }

end Phases

/-! ### What is retained stays retained -/

theorem Retains.step (h : Retains format s a) (hp : Phases s) (hs : Effect format s e s') :
    Retains format s' a := by
  have hmo : ∀ {b}, s.Descends a b → s'.Descends a b := hs.descends
  obtain ⟨r, hst, hr⟩ := h.store
  cases hs with
  | commit next =>
    have hne := (hmo h.state).tail List.mem_cons_self
    refine ⟨⟨r, hst, hmo hr⟩, hne, fun n b hb => ?_, fun t b hb => hmo (h.writing t b hb)⟩
    obtain ⟨-, rfl⟩ := Prod.mk.inj (Option.some.inj hb)
    exact hne
  | quiet e t x hold hnew =>
    refine { h with writing := forall_setThread (fun b hb => ?_) fun u _ => h.writing u }
    rw [Thread.envelope?_of_not_busy hnew] at hb
    cases hb
  | waits t => exact h
  | takes t hthread hfailed hwriting hreporting hpending =>
    refine ⟨h.store, h.state, fun n b hb => (by cases hb),
      forall_setThread (fun b hb => ?_) fun u _ => h.writing u⟩
    cases hb
    exact h.pending _ _ hpending
  | writes t result hthread =>
    refine ⟨?_, h.state, h.pending, forall_setThread nofun fun u _ => h.writing u⟩
    by_cases hold : result == .failedOld
    · exact ⟨r, (if_pos hold).trans hst, hr⟩
    · exact ⟨_, if_neg hold, h.writing t _ (by rw [hthread]; rfl)⟩
  | succeeds t hthread | fails t hthread | called t hthread | reports t hthread =>
    exact { h with writing := forall_setThread nofun fun u _ => h.writing u }
  | reads hfailed => exact { h with }
  | recovers hreading =>
    -- The record that was read is still the one in the store.
    obtain rfl := (hp.reading _ hreading).2
    refine ⟨⟨r, hst, hmo hr⟩, (hmo hr).tail ?_, fun n b hb => (by cases hb), fun t b hb => hmo (h.writing t b hb)⟩
    rw [hst]
    exact List.mem_cons_self

/-- A writer's revision is of this epoch and not below what is durable, a record it reports is in the
store, and what it calls `written` with is durable. -/
def WriterOk (s : Server σ ρ) : Thread ρ → Prop
  | .writing _ taken b => taken.epoch = s.progress.epoch ∧ s.progress.durable ≤ taken.number ∧ (taken, b) ∈ s.log
  | .wrote _ taken true => taken.epoch = s.progress.epoch ∧ s.progress.durable ≤ taken.number ∧
      ∃ b, (taken, b) ∈ s.log ∧ s.store = some b
  | .reporting _ taken => taken = ⟨s.progress.epoch, s.progress.durable⟩
  | _ => True

theorem WriterOk.of_not_busy (h : x.busy = false) : s.WriterOk x := by
  cases x with
  | writing | wrote | reporting => cases h
  | _ => trivial

theorem WriterOk.mono (h : s.WriterOk x) (hd : s'.progress.durable = s.progress.durable)
    (he : s'.progress.epoch = s.progress.epoch) (hlo : s.log ⊆ s'.log)
    (hs : s'.store = s.store) : s'.WriterOk x := by
  match x, h with
  | .writing _ _ _, ⟨htaken, hl, hmem⟩ => exact ⟨he ▸ htaken, hd ▸ hl, hlo hmem⟩
  | .wrote _ _ true, ⟨htaken, hl, b, hmem, hb⟩ =>
    exact ⟨he ▸ htaken, hd ▸ hl, b, hlo hmem, hs ▸ hb⟩
  | .reporting _ taken, htaken =>
    show taken = ⟨s'.progress.epoch, s'.progress.durable⟩
    rw [he, hd]
    exact htaken
  | .wrote _ _ false, _ | .idle, _ | .syncing _, _ | .reported _, _ | .returned _ _, _ => trivial

structure Ledger (format : Format σ ρ) (s : Server σ ρ) : Prop where
  numbers : ∀ revision a, (revision, a) ∈ s.log → 1 ≤ revision.number ∧
    (revision.epoch = s.progress.epoch ∧ revision.number ≤ s.progress.submitted ∨
      revision.epoch < s.progress.epoch)
  chain : ∀ m n a b, (⟨s.progress.epoch, m⟩, a) ∈ s.log → (⟨s.progress.epoch, n⟩, b) ∈ s.log →
    m ≤ n → s.Descends a b
  state : ∀ m a, (⟨s.progress.epoch, m⟩, a) ∈ s.log → s.Descends a (format.envelope s.state)
  pending : ∀ n b, s.progress.pending = some (n, b) → n = s.progress.submitted ∧ (⟨s.progress.epoch, n⟩, b) ∈ s.log
  durable : s.progress.durable ≤ s.progress.submitted
  writers : ∀ t, s.WriterOk (s.threads t)
  record : s.progress.durable = 0 ∨ ∃ k b, s.progress.durable ≤ k ∧
    (⟨s.progress.epoch, k⟩, b) ∈ s.log ∧ s.store = some b
  ended : ∀ epoch durable, (epoch, durable) ∈ s.progress.ended → epoch < s.progress.epoch ∧
    ∀ n a, (⟨epoch, n⟩, a) ∈ s.log → n ≤ durable → Retains format s a

namespace Ledger

theorem held (h : Ledger format s) {n : Nat} (hn : n ≤ s.progress.durable)
    (ha : (⟨s.progress.epoch, n⟩, a) ∈ s.log) :
    ∃ k b, n ≤ k ∧ (⟨s.progress.epoch, k⟩, b) ∈ s.log ∧ s.store = some b := by
  have hp : 1 ≤ n := (h.numbers _ _ ha).1
  rcases h.record with hz | ⟨k, b, hk, hb, hs⟩
  · omega
  · exact ⟨k, b, hn.trans hk, hb, hs⟩

theorem retains (h : Ledger format s) {n : Nat} (hn : n ≤ s.progress.durable)
    (ha : (⟨s.progress.epoch, n⟩, a) ∈ s.log) : Retains format s a := by
  obtain ⟨k, b, hk, hb, hs⟩ := h.held hn ha
  refine ⟨⟨b, hs, h.chain n k a b ha hb hk⟩, h.state n a ha, fun m c hc => ?_, fun t c hc => ?_⟩
  · obtain ⟨rfl, hc⟩ := h.pending m c hc
    exact h.chain n _ a c ha hc (hn.trans h.durable)
  have hw := h.writers t
  cases hthread : s.threads t with
  | writing revision taken envelope =>
    rw [hthread] at hc hw
    obtain ⟨epoch, m⟩ := taken
    obtain ⟨rfl, hm, hmem⟩ : epoch = _ ∧ _ := hw
    cases hc
    exact h.chain n m a _ ha hmem (hn.trans hm)
  | _ =>
    rw [hthread] at hc
    cases hc

theorem step (h : Ledger format s) (hp : Phases s) (hs : Effect format s e s') : Ledger format s' := by
  have hmo : ∀ {a b}, s.Descends a b → s'.Descends a b := hs.descends
  have hke : ∀ {a}, Retains format s a → Retains format s' a := fun ha => ha.step hp hs
  have hen : s'.progress.ended = s.progress.ended → s'.progress.epoch = s.progress.epoch →
      s'.log = s.log → ∀ epoch durable, (epoch, durable) ∈ s'.progress.ended →
      epoch < s'.progress.epoch ∧ ∀ n a, (⟨epoch, n⟩, a) ∈ s'.log → n ≤ durable → Retains format s' a := by
    intro hen hep hlo epoch durable hmem
    rw [hen] at hmem
    rw [hep, hlo]
    exact ⟨(h.ended _ _ hmem).1, fun n a ha hn => hke ((h.ended _ _ hmem).2 n a ha hn)⟩
  cases hs with
  | commit next =>
    set envelope := format.envelope (format.kept next)
    have hnu : ∀ m a, (⟨s.progress.epoch, m⟩, a) ∈ s.log → m ≤ s.progress.submitted := by
      intro m a ha
      rcases (h.numbers _ _ ha).2 with hsa | he
      · exact hsa.2
      · exact absurd he (Nat.lt_irrefl _)
    have hmem : ∀ rev a, (rev, a) ∈ s.log ++ [(⟨s.progress.epoch, s.progress.submitted + 1⟩, envelope)]
        → (rev, a) ∈ s.log ∨ rev = ⟨s.progress.epoch, s.progress.submitted + 1⟩ ∧ a = envelope := by
      intro rev a ha
      simpa using ha
    have hne : ∀ m a, (⟨s.progress.epoch, m⟩, a) ∈ s.log → _ := fun m a ha =>
      (hmo (h.state m a ha)).tail List.mem_cons_self
    refine ⟨fun rev a ha => ?_, fun m n a b ha hb hle => ?_, fun m a ha => ?_, fun n b hb => ?_,
      h.durable.trans (Nat.le_succ _), fun t => ?_, ?_, fun epoch durable hmem' => ?_⟩
    · rcases hmem rev a ha with ha | ⟨rfl, -⟩
      · obtain ⟨hpo, hsa | he⟩ := h.numbers rev a ha
        · exact ⟨hpo, .inl ⟨hsa.1, hsa.2.trans (Nat.le_succ _)⟩⟩
        · exact ⟨hpo, .inr he⟩
      · exact ⟨Nat.le_add_left 1 _, .inl ⟨rfl, le_rfl⟩⟩
    · rcases hmem _ b hb with hb | ⟨hn, rfl⟩
      · rcases hmem _ a ha with ha | ⟨hm, rfl⟩
        · exact hmo (h.chain m n a b ha hb hle)
        obtain rfl : m = s.progress.submitted + 1 := (Revision.mk.inj hm).2
        have := hnu n b hb
        omega
      · rcases hmem _ a ha with ha | ⟨-, rfl⟩
        · exact hne m a ha
        · exact .refl
    · rcases hmem _ a ha with ha | ⟨-, rfl⟩
      · exact hne m a ha
      · exact .refl
    · obtain ⟨rfl, rfl⟩ := Prod.mk.inj (Option.some.inj hb)
      exact ⟨rfl, by simp⟩
    · exact (h.writers t).mono rfl rfl (List.subset_append_left _ _) rfl
    · rcases h.record with hz | ⟨k, b, hk, hb, hst⟩
      · exact .inl hz
      · exact .inr ⟨k, b, hk, List.mem_append_left _ hb, hst⟩
    · obtain ⟨he, hr⟩ := h.ended epoch durable hmem'
      refine ⟨he, fun n a ha hn => ?_⟩
      rcases hmem _ a ha with ha | ⟨hsa, -⟩
      · exact hke (hr n a ha hn)
      · exact absurd (Revision.mk.inj hsa).1 he.ne
  | quiet e t x hold hnew =>
    exact { h with
      writers := forall_setThread (.of_not_busy hnew) fun u _ => h.writers u
      ended := hen rfl rfl rfl }
  | waits t => exact h
  | takes t hthread hfailed hwriting hreporting hpending =>
    obtain ⟨hl, hmem⟩ := h.pending _ _ hpending
    exact ⟨h.numbers, h.chain, h.state, fun n b hb => (by cases hb), h.durable,
      forall_setThread ⟨rfl, hl ▸ h.durable, hmem⟩ fun u _ => h.writers u, h.record,
      hen rfl rfl rfl⟩
  | @writes t result revision taken envelope hthread =>
    have hw : s.WriterOk (.writing revision taken envelope) := hthread ▸ h.writers t
    obtain ⟨epoch, number⟩ := taken
    obtain ⟨rfl, hle, hmem⟩ : epoch = _ ∧ _ := hw
    have hbu : (s.threads t).busy := by rw [hthread]; rfl
    refine ⟨h.numbers, h.chain, h.state, h.pending, h.durable,
      forall_setThread ?_ fun u hu => .of_not_busy (hp.others hbu hu), ?_, hen rfl rfl rfl⟩
    · cases result with
      | ok => exact ⟨rfl, hle, _, hmem, rfl⟩
      | failedOld | failedNew => trivial
    · cases result with
      | ok | failedNew => exact .inr ⟨_, _, hle, hmem, rfl⟩
      | failedOld => exact h.record
  | @succeeds t revision taken hthread =>
    have hw : s.WriterOk (.wrote revision taken true) := hthread ▸ h.writers t
    obtain ⟨epoch, number⟩ := taken
    obtain ⟨rfl, hle, b, hmem, hst⟩ : epoch = _ ∧ _ := hw
    have hbu : (s.threads t).busy := by rw [hthread]; rfl
    refine ⟨h.numbers, h.chain, h.state, h.pending, ?_,
      forall_setThread rfl fun u hu => .of_not_busy (hp.others hbu hu),
      .inr ⟨_, b, le_rfl, hmem, hst⟩, hen rfl rfl rfl⟩
    rcases (h.numbers _ _ hmem).2 with hsa | he
    · exact hsa.2
    · exact absurd he (Nat.lt_irrefl _)
  | fails t hthread | called t hthread | reports t hthread =>
    exact { h with
      writers := forall_setThread trivial fun u _ => h.writers u
      ended := hen rfl rfl rfl }
  | reads hfailed =>
    exact { h with ended := hen rfl rfl rfl }
  | recovers hreading =>
    obtain ⟨hfailed, -⟩ := hp.reading _ hreading
    have hnone : ∀ m a, (⟨s.progress.epoch + 1, m⟩, a) ∉ s.log := by
      intro m a ha
      rcases (h.numbers _ _ ha).2 with ⟨hsa, -⟩ | he
      · exact absurd hsa (Nat.succ_ne_self _)
      · exact absurd he (by simp)
    refine ⟨fun rev a ha => ?_, fun m n a b ha => absurd ha (hnone m a),
      fun m a ha => absurd ha (hnone m a), fun n b hb => (by cases hb), le_rfl, fun t => ?_, .inl rfl,
      fun epoch durable hmem => ?_⟩
    · obtain ⟨hpo, hsa | he⟩ := h.numbers rev a ha
      · exact ⟨hpo, .inr (Nat.lt_succ_of_le hsa.1.le)⟩
      · exact ⟨hpo, .inr (Nat.lt_succ_of_lt he)⟩
    · obtain ⟨hwriting, hreporting⟩ := hp.certain hfailed
      exact .of_not_busy (hp.not_busy hwriting hreporting t)
    have hv : (epoch, durable) = (s.progress.epoch, s.progress.durable) ∨ (epoch, durable) ∈ s.progress.ended := by
      have hi := List.mem_of_mem_drop hmem
      rw [Progress.insertEnded, List.mem_append, List.mem_cons] at hi
      rcases hi with hi | hi | hi
      · exact .inr (List.mem_of_mem_filter hi)
      · exact .inl hi
      · exact .inr (List.mem_of_mem_filter hi)
    rcases hv with hnew | hold
    · obtain ⟨rfl, rfl⟩ := Prod.mk.inj hnew
      exact ⟨Nat.lt_succ_self _, fun n a ha hn => hke (h.retains hn ha)⟩
    · obtain ⟨he, hr⟩ := h.ended epoch durable hold
      exact ⟨Nat.lt_succ_of_lt he, fun n a ha hn => hke (hr n a ha hn)⟩

end Ledger

/-! ### Every run -/

def Returns (format : Format σ ρ) (s : Server σ ρ) (t : Nat) (revision : Revision)
    (s' : Server σ ρ) : Prop :=
  s.threads t = .syncing revision ∧ s.Step format (.pass t) s' ∧ s'.threads t = .returned revision true

theorem Returns.pass {t : Nat} {revision : Revision} (h : s.Returns format t revision s') :
    s' = s.setThread t (.returned revision true) ∧ s.progress.pass revision = .returns true := by
  obtain ⟨hthread, hs, hr⟩ := h
  simp only [Step, event, hthread] at hs
  split at hs
  · rename_i ok hp
    cases hs
    rw [threads_setThread, if_pos rfl] at hr
    obtain rfl : ok = true := (Thread.returned.inj hr).2
    exact ⟨rfl, hp⟩
  · cases hs
    rw [hthread] at hr
    cases hr
  · cases hs
    rw [threads_setThread, if_pos rfl] at hr
    cases hr

structure Inv (format : Format σ ρ) (s : Server σ ρ) : Prop where
  phases : s.Phases
  ledger : s.Ledger format

namespace Inv

theorem opened (format : Format σ ρ) (record : Option ρ) : Inv format (opened format record) := by
  refine ⟨⟨?_, ?_, ?_, ?_, ?_, ?_⟩, ⟨?_, ?_, ?_, ?_, ?_, fun _ => trivial, .inl rfl, ?_⟩⟩ <;>
    simp [Server.opened, Thread.busy, Thread.inWrite, Thread.inReport]

theorem step (h : Inv format s) (hs : Step format s e s') : Inv format s' :=
  ⟨h.phases.step hs.effect, h.ledger.step h.phases hs.effect⟩

theorem retained (h : Inv format s) {revision : Revision}
    (hp : s.progress.pass revision = .returns true) (ha : (revision, a) ∈ s.log) :
    Retains format s a := by
  rcases Progress.pass_returns hp with ⟨he, hl⟩ | ⟨durable, hmem, hl⟩
  · obtain ⟨epoch, number⟩ := revision
    obtain rfl : epoch = s.progress.epoch := he
    exact h.ledger.retains hl ha
  · exact (h.ledger.ended _ _ hmem).2 _ a ha hl

variable {es : List (Event σ)}

theorem retains_run (h : Inv format s) (ha : Retains format s a)
    (hr : Run (Step format) s es s') : Retains format s' a := by
  have hb := hr.invariant (P := fun u => Inv format u ∧ Retains format u a) ⟨h, ha⟩
    fun hs hst => ⟨hs.1.step hst, hs.2.step hs.1.phases hst.effect⟩
  exact hb.2

theorem failed_run (hfailed : s.progress.failed)
    (hr : Run (Step format) s es s') (hnone : .recover ∉ es) : s'.progress.failed := by
  induction hr with
  | refl => exact hfailed
  | snoc _ hl ih =>
    rw [List.mem_append, not_or] at hnone
    have hs := ih hnone.1
    cases hl.effect with
    | recovers => exact absurd (List.mem_singleton_self _) hnone.2
    | fails => rfl
    | _ => exact hs

theorem durable_step (h : Inv format s) (hs : Effect format s e s') :
    s.progress.epoch ≤ s'.progress.epoch ∧
      (s'.progress.epoch = s.progress.epoch → s.progress.durable ≤ s'.progress.durable) := by
  cases hs with
  | succeeds t hthread =>
    obtain ⟨-, hl, -⟩ : s.WriterOk (.wrote _ _ true) := hthread ▸ h.ledger.writers t
    exact ⟨le_rfl, fun _ => hl⟩
  | recovers hreading =>
    exact ⟨Nat.le_succ _, fun hsa => absurd hsa (Nat.succ_ne_self _)⟩
  | _ => exact ⟨le_rfl, fun _ => le_rfl⟩

theorem durable_run (h : Inv format s) (hr : Run (Step format) s es s') :
    s.progress.epoch ≤ s'.progress.epoch ∧
      (s'.progress.epoch = s.progress.epoch → s.progress.durable ≤ s'.progress.durable) := by
  refine hr.preserves (R := fun s u => s.progress.epoch ≤ u.progress.epoch ∧
      (u.progress.epoch = s.progress.epoch → s.progress.durable ≤ u.progress.durable)) h Inv.step
    (fun s => ⟨le_rfl, fun _ => le_rfl⟩) fun ht hst hste => ?_
  obtain ⟨he, hd⟩ := durable_step ht hste.effect
  exact ⟨hst.1.trans he, fun hs => (hst.2 (by omega)).trans (hd (by omega))⟩

end Inv

end Server

open Server in
/-- A sync that returned `Ok` retained its revision: the record is that revision or a later one of
its epoch while the epoch lasts, and every later record and every later state of the host, a
restored one included, descends from it. Between a failed write and the recovery nobody writes, and
within an epoch the durable revision never goes back. -/
theorem sync_retains (boot : Id) {record : Option Hierarchy.State}
    {es : List (Event Hierarchy.State)} {s : Server Hierarchy.State Hierarchy.State}
    (hrun : Run (Step (organizationFormat boot)) (opened (organizationFormat boot) record) es s) :
    (∀ t revision s' a, s.Returns (organizationFormat boot) t revision s' → (revision, a) ∈ s.log →
      (revision.epoch = s'.progress.epoch → ∃ n b, revision.number ≤ n ∧
        (⟨revision.epoch, n⟩, b) ∈ s'.log ∧ s'.store = some b) ∧
      ∀ fs u, Run (Step (organizationFormat boot)) s' fs u →
        (∃ b, u.store = some b ∧ u.Descends a b) ∧ u.Descends a (envelope u.state)) ∧
    (∀ t s', s.Step (organizationFormat boot) (.finish t) s' → s'.progress.failed →
      ∀ fs u, Run (Step (organizationFormat boot)) s' fs u → .recover ∉ fs → ∀ v, (u.threads v).inWrite = false) ∧
    ∀ fs u, Run (Step (organizationFormat boot)) s fs u → u.progress.epoch = s.progress.epoch →
      s.progress.durable ≤ u.progress.durable := by
  have h : Inv (organizationFormat boot) s := hrun.invariant (.opened _ record) Inv.step
  refine ⟨fun t revision s' a hre ha => ?_, fun t s' hst hfailed fs u hf hnone v => ?_,
    fun fs u hf hsa => (h.durable_run hf).2 hsa⟩
  · have hs' : Inv (organizationFormat boot) s' := h.step hre.2.1
    obtain ⟨rfl, hp⟩ := hre.pass
    have hr : Retains (organizationFormat boot) (s.setThread t (.returned revision true)) a :=
      hs'.retained hp ha
    refine ⟨fun he => ?_, fun fs u hf => ?_⟩
    · obtain ⟨epoch, number⟩ := revision
      obtain rfl : epoch = s.progress.epoch := he
      rcases Progress.pass_returns hp with ⟨-, hl⟩ | ⟨durable, hmem, -⟩
      · exact h.ledger.held hl ha
      · exact absurd (h.ledger.ended _ _ hmem).1 (Nat.lt_irrefl _)
    · have hu := hs'.retains_run hr hf
      exact ⟨hu.store, hu.state⟩
  · have hu : Inv (organizationFormat boot) u := hf.invariant (h.step hst) Inv.step
    exact hu.phases.not_inWrite (Inv.failed_run hfailed hf hnone) v

/-! ### Runs on fixed commits -/

def marked (floor : Nat) : Hierarchy.State := { Hierarchy.State.empty with sequenceFloor := floor }

/-- Thread `t` syncs `revision`, writes successfully and is about to return. -/
def syncing (t : Nat) (revision : Revision) : List (Event Hierarchy.State) :=
  [.call t revision, .pass t, .write t .ok, .finish t, .written t, .report t]

def firstRetained : List (Event Hierarchy.State) := .commit (marked 1) :: syncing 0 ⟨0, 1⟩

open Server in
/-- The sync of a first commit returns, and the store holds it. -/
theorem sync_retains_first_commit :
    ∃ s s' : Server Hierarchy.State Hierarchy.State,
      Run (Step (organizationFormat 1)) (opened (organizationFormat 1) none) firstRetained s ∧
        s.Returns (organizationFormat 1) 0 ⟨0, 1⟩ s' ∧
        ∃ n b, 1 ≤ n ∧ (⟨0, n⟩, b) ∈ s'.log ∧ s'.store = some b := by
  have hso : (firstRetained.foldlM (event (organizationFormat 1))
    (opened (organizationFormat 1) none)).isSome := by decide +kernel
  set s := Option.get _ hso with hs
  have hthread : s.threads 0 = .syncing ⟨0, 1⟩ := rfl
  have hp : s.progress.pass ⟨0, 1⟩ = .returns true := rfl
  have hl : s.log = [(⟨0, 1⟩, envelope (marked 1))] := rfl
  have hru : Run (Step (organizationFormat 1)) (opened (organizationFormat 1) none)
    firstRetained s := .of_foldlM (Option.some_get hso).symm
  have hr : s.Returns (organizationFormat 1) 0 ⟨0, 1⟩
      (s.setThread 0 (.returned ⟨0, 1⟩ true)) := by
    refine ⟨hthread, ?_, by simp⟩
    simp only [Step, event, hthread, hp]
  exact ⟨s, _, hru, hr, ((sync_retains 1 hru).1 0 ⟨0, 1⟩ _ (envelope (marked 1)) hr
    (by simp [hl])).1 rfl⟩

/-- The write of a second commit fails, and the first commit of the next epoch is retained before
thread 1 asks for the first commit. -/
def epochEnded : List (Event Hierarchy.State) :=
  firstRetained ++
    [.pass 0, .commit (marked 2), .call 0 ⟨0, 2⟩, .pass 0, .write 0 .failedOld, .finish 0, .pass 0, .read,
      .recover] ++
    .commit (marked 3) :: syncing 0 ⟨1, 1⟩ ++ [.call 1 ⟨0, 1⟩]

open Server in
/-- A sync of a revision of an epoch that ended returns `Ok` although the store holds a record of a
later epoch. -/
theorem sync_returns_past_its_epoch :
    ∃ (es : List (Event Hierarchy.State)) (s s' : Server Hierarchy.State Hierarchy.State)
      (t : Nat) (revision : Revision) (a : Hierarchy.State),
      Run (Step (organizationFormat 1)) (opened (organizationFormat 1) none) es s ∧
        s.Returns (organizationFormat 1) t revision s' ∧ (revision, a) ∈ s.log ∧
        ¬∃ n b, revision.number ≤ n ∧ (⟨revision.epoch, n⟩, b) ∈ s'.log ∧ s'.store = some b := by
  have hso : (epochEnded.foldlM (event (organizationFormat 1))
    (opened (organizationFormat 1) none)).isSome := by decide +kernel
  set s := Option.get _ hso with hs
  have hthread : s.threads 1 = .syncing ⟨0, 1⟩ := rfl
  have hp : s.progress.pass ⟨0, 1⟩ = .returns true := rfl
  have hl : s.log = [(⟨0, 1⟩, envelope (marked 1)), (⟨0, 2⟩, envelope (marked 2)),
    (⟨1, 1⟩, envelope (marked 3))] := rfl
  have hst : s.store = some (envelope (marked 3)) := rfl
  refine ⟨epochEnded, s, s.setThread 1 (.returned ⟨0, 1⟩ true), 1, ⟨0, 1⟩, envelope (marked 1),
    .of_foldlM (Option.some_get hso).symm, ⟨hthread, ?_, by simp⟩, by simp [hl], ?_⟩
  · simp only [Step, event, hthread, hp]
  rintro ⟨n, b, -, hmem, hb⟩
  have hf : b.sequenceFloor = 3 := by
    obtain rfl := Option.mem_unique hst hb
    rfl
  have hmem : (⟨0, n⟩, b) ∈ s.log := hmem
  rw [hl] at hmem
  simp only [List.mem_cons, Prod.mk.injEq, Revision.mk.injEq, List.not_mem_nil, or_false] at hmem
  rcases hmem with ⟨-, rfl⟩ | ⟨-, rfl⟩ | ⟨⟨he, -⟩, -⟩
  · cases hf
  · cases hf
  · cases he

end SpaceTerm.Journal
