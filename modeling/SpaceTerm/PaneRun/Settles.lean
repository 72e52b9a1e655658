import SpaceTerm.PaneRun.Worker

/-! # An ended run settles

A run settles when the marker that ends it passes the follower's and the subscription's buffers. Both
drop markers beyond their bound, the ending one included, and put one `Unowned` in their place, which
never settles a run. -/

namespace SpaceTerm.PaneRun
open Lib

structure Followed where
  pane : Id
  table : RunTable
  tracker : Tracker
  queue : List Observation
  /-- Whether the owning shell reported a finish or a fresh prompt since the admission. -/
  ended : Bool := false

inductive Event
  /-- A marker in the output, with or without the Prompt Owner. -/
  | mark (mark : Mark) (isOwner : Bool) (now : Nat)
  | report
  | input (bytes : Nat)
  /-- The end of one read: `observe_run_markers` and `deliver_run_observations`. -/
  | deliver (position : Position) (now : Nat)
  /-- The worker's answer reaches the table. -/
  | answered (run : RunId) (start : Position) (finishedCommands : Nat)
  /-- The host applies what the subscription kept. -/
  | drain

namespace Followed

/-- Whether a marker is the owning shell's finish or its fresh prompt. -/
def ending (s : Followed) (mark : Mark) (isOwner : Bool) : Bool :=
  isOwner && match mark with
    | .finish _ => true
    | .prompt => s.tracker.ownerReported
    | _ => false

def observations (s : Followed) (position : Position) (now : Nat) : List Observation :=
  (s.tracker.takeRunMarkers now).2.map fun m => ⟨m.marker, m.finishedCommands, position, m.time⟩

def step (s : Followed) : Event → Followed
  | .mark mark isOwner now => { s with
      tracker := s.tracker.applySemanticPrompt mark isOwner now
      ended := s.ended || s.ending mark isOwner }
  | .report => { s with tracker := { s.tracker with ownerReported := true } }
  | .input bytes => { s with tracker := s.tracker.noteInput bytes }
  | .deliver position now => { s with
      tracker := (s.tracker.takeRunMarkers now).1
      queue := runObservations s.queue (s.observations position now) }
  | .answered run start finishedCommands => { s with
      table := s.table.admitted run start finishedCommands }
  | .drain => { s with
      table := s.queue.foldl (fun t o => t.observeMarker s.pane o) s.table
      queue := [] }

/-- Both buffers have room for the marker that ends the run: the follower when it is recorded, the
subscription for it and the markers before it when the read is delivered. -/
def Keeps (s : Followed) : Event → Prop
  | .mark mark isOwner _ => s.ending mark isOwner = true → ∀ run, s.tracker.run = some run →
      run.finished = false → run.markers.length < maxRunMarkers
  | .deliver _ _ => ∀ run, s.tracker.run = some run → ∀ i m, run.markers[i]? = some m → m.marker.ends = true →
      s.queue.length + i + 1 < maxRunObservations
  | _ => True

def Moves (s : Followed) (e : Event) (t : Followed) : Prop := t = s.step e
def KeepingMoves (s : Followed) (e : Event) (t : Followed) : Prop := s.Keeps e ∧ s.Moves e t

/-- No marker waits in a buffer. -/
def Drained (s : Followed) : Prop := (∀ run, s.tracker.run = some run → run.markers = []) ∧ s.queue = []

end Followed

/-! ## The Pane's pending entries -/

namespace RunTable

def pendingIn (pane : Id) (l : List Entry) : List Entry :=
  l.filter fun e => e.admission.pane == pane && e.pending

variable {pane : Id}

theorem check_pending {t : RunTable} (h : pendingIn pane t.receipts = []) : t.check pane ≠ .error .runPending := by
  have hnone : t.receipts.any (fun e => e.admission.pane == pane && e.pending) = false := by
    rw [← Bool.not_eq_true, List.any_eq_true]
    rintro ⟨e, he, hp⟩
    have hi : e ∈ pendingIn pane t.receipts := List.mem_filter.mpr ⟨he, hp⟩
    rw [h] at hi
    cases hi
  unfold check
  rw [hnone]
  simp only [Bool.false_eq_true, if_false]
  split <;> simp

theorem pendingIn_cons_pending {e : Entry} (l : List Entry)
    (h : e.admission.pane = pane ∧ e.pending = true) : pendingIn pane (e :: l) = e :: pendingIn pane l := by
  simp [pendingIn, h]

theorem pendingIn_cons_other {e : Entry} (l : List Entry)
    (h : ¬(e.admission.pane = pane ∧ e.pending = true)) : pendingIn pane (e :: l) = pendingIn pane l := by
  simp only [pendingIn, List.filter_cons, Bool.and_eq_true, beq_iff_eq, if_neg h]

theorem pendingIn_changePending {f : Entry → Entry} (l : List Entry) :
    (pendingIn pane (changePending pane f l)).length ≤ (pendingIn pane l).length := by
  induction l with
  | nil => exact le_rfl
  | cons e l ih =>
    unfold changePending
    split
    next h =>
      rw [pendingIn_cons_pending l h, pendingIn, List.filter_cons]
      split <;> simp [pendingIn]
    next h =>
      rw [pendingIn_cons_other _ h, pendingIn_cons_other _ h]
      exact ih

theorem pendingIn_settled {f : Entry → Entry} (l : List Entry)
    (hf : ∀ e, e.pending = true → (f e).pending = false) :
    pendingIn pane (changePending pane f l) = (pendingIn pane l).tail := by
  induction l with
  | nil => rfl
  | cons e l ih =>
    unfold changePending
    split
    next h =>
      rw [pendingIn_cons_pending l h, List.tail_cons]
      simp [pendingIn, hf e h.2]
    next h =>
      rw [pendingIn_cons_other _ h, pendingIn_cons_other _ h]
      exact ih

end RunTable

namespace Entry

theorem settle_pending (e : Entry) {state : RunState} {finish : Option Position}
    (h : state ≠ .admitted ∧ state ≠ .running) : (e.settle state finish).pending = false := by
  obtain ⟨h1, h2⟩ := h
  unfold settle pending
  cases state <;> cases hd : e.doubt <;> simp_all

theorem observe_ends {e : Entry} {o : Observation} (hpending : e.pending = true)
    (he : o.marker.ends = true) : (e.observe o).pending = false := by
  unfold observe
  rw [if_neg (by simp [hpending])]
  split
  case h_1 h => simp [h, Marker.ends] at he
  case h_2 h => simp [h, Marker.ends] at he
  case h_3 h _ => simp [h, Marker.ends] at he
  case h_4 h _ => simp [h, Marker.ends] at he
  case h_5 => exact settle_pending _ (by simp)
  case h_6 => exact settle_pending _ (by simp)
  case h_7 exitStatus _ _ => cases exitStatus <;> exact settle_pending _ (by simp)
  case h_8 => exact settle_pending _ (by simp)

end Entry

/-! ## The buffers -/

namespace Tracker
variable {t : Tracker}

def Holds (t : Tracker) : Prop :=
  ∃ run, t.run = some run ∧ run.finished = true ∧ ∃ m ∈ run.markers, m.marker.ends = true

/-- The follower still records. -/
def Records (t : Tracker) : Prop := ∃ run, t.run = some run ∧ run.finished = false

theorem recordRunMarker_holds (h : t.Holds) (marker : Marker) (now : Nat) :
    (t.recordRunMarker marker now).Holds := by
  obtain ⟨run, hr, hf, hm⟩ := h
  unfold recordRunMarker
  rw [hr]
  simp only [hf, if_true]
  exact ⟨run, hr, hf, hm⟩

theorem recordRunMarker_records (h : t.Records) {marker : Marker} (he : marker.ends = false)
    (now : Nat) : (t.recordRunMarker marker now).Records := by
  obtain ⟨run, hr, hf⟩ := h
  unfold recordRunMarker
  rw [hr]
  simp only [hf, Bool.false_eq_true, if_false]
  split
  · exact ⟨_, rfl, he⟩
  · exact ⟨_, rfl, he⟩

theorem recordRunMarker_ends (h : t.Records) {marker : Marker} (he : marker.ends = true) (now : Nat)
    (hr : ∀ run, t.run = some run → run.finished = false → run.markers.length < maxRunMarkers) :
    (t.recordRunMarker marker now).Holds := by
  obtain ⟨run, hru, hf⟩ := h
  unfold recordRunMarker
  rw [hru]
  simp only [hf, Bool.false_eq_true, if_false]
  rw [if_neg (not_le.mpr (hr run hru hf))]
  exact ⟨_, rfl, he, ⟨marker, t.finishedCommands, now⟩, by simp, he⟩

theorem finishCommand_run : t.finishCommand.run = t.run := by
  unfold finishCommand
  split <;> rfl

theorem applyPromptAction_run (mark : Mark) : (t.applyPromptAction mark).run = t.run := by
  cases mark <;> simp only [applyPromptAction, finishCommand_run]
  split
  · exact finishCommand_run
  · rfl

theorem Holds.congr {t' : Tracker} (h : t.Holds) (hr : t'.run = t.run) : t'.Holds := by
  unfold Holds at h ⊢
  rwa [hr]

theorem Records.congr {t' : Tracker} (h : t.Records) (hr : t'.run = t.run) : t'.Records := by
  unfold Records at h ⊢
  rwa [hr]

/-- The action and the owner of a marker that ends a run. -/
def Ends (mark : Mark) (owned : Option Bool) : Prop :=
  owned = some true ∧ mark = .prompt ∨ owned.isSome = true ∧ ∃ status, mark = .finish status

theorem observeOwnedPrompt_cases (mark : Mark) (owned : Option Bool) (now : Nat) :
    ((t.observeOwnedPrompt mark owned now).run = t.run ∧ ¬Ends mark owned) ∨
    ∃ t' : Tracker, t'.run = t.run ∧ ∃ marker, t.observeOwnedPrompt mark owned now =
      t'.recordRunMarker marker now ∧ (marker.ends = true ↔ Ends mark owned) := by
  unfold observeOwnedPrompt
  split
  case h_1 => exact .inl ⟨rfl, by simp [Ends]⟩
  case h_2 =>
    refine .inr ⟨_, ?_, _, rfl, ?_⟩
    · rfl
    · simp [Ends, Marker.ends]
  case h_3 =>
    refine .inl ⟨?_, by simp [Ends]⟩
    split <;> rfl
  case h_4 =>
    refine .inr ⟨_, ?_, _, rfl, ?_⟩
    · rfl
    · simp [Ends, Marker.ends]
  case h_5 =>
    refine .inr ⟨_, ?_, _, rfl, ?_⟩
    · rfl
    · simp [Ends, Marker.ends]
  case h_10 => exact .inl ⟨rfl, by simp [Ends]⟩
  all_goals
    split
    · refine .inr ⟨t, rfl, _, rfl, ?_⟩
      simp [Ends, Marker.ends]
    · exact .inl ⟨rfl, by simp [Ends]⟩

end Tracker

namespace Followed
variable {s t : Followed}

structure Inv (s : Followed) : Prop where
  alone : (RunTable.pendingIn s.pane s.table.receipts).length ≤ 1
  records : s.ended = false → s.tracker.Records
  waits : s.ended = true → RunTable.pendingIn s.pane s.table.receipts ≠ [] →
    s.tracker.Holds ∨ ∃ o ∈ s.queue, o.marker.ends = true

theorem ending_iff (mark : Mark) (isOwner : Bool) : s.ending mark isOwner = true ↔ Tracker.Ends mark
    (if isOwner then some (mark == .prompt && s.tracker.ownerReported) else none) := by
  cases isOwner <;> cases mark <;> simp [ending, Tracker.Ends]

theorem Inv.mark (h : s.Inv) {mark : Mark} {isOwner : Bool} {now : Nat}
    (hke : s.Keeps (.mark mark isOwner now)) : (s.step (.mark mark isOwner now)).Inv := by
  set seen : Tracker := ((if isOwner then { s.tracker with
    promptOwnerSeen := true, ownerReported := s.tracker.ownerReported && mark != .prompt }
    else s.tracker).applyPromptAction mark) with hse
  have hru : seen.run = s.tracker.run := by
    rw [hse, Tracker.applyPromptAction_run]
    split <;> rfl
  have hst : (s.step (.mark mark isOwner now)).tracker = seen.observeOwnedPrompt mark
    (if isOwner then some (mark == .prompt && s.tracker.ownerReported) else none) now := rfl
  have hc := seen.observeOwnedPrompt_cases mark
    (if isOwner then some (mark == .prompt && s.tracker.ownerReported) else none) now
  rw [← ending_iff, ← hst] at hc
  refine ⟨h.alone, fun he => ?_, fun he hbu => ?_⟩
  · obtain ⟨hb, hno⟩ : s.ended = false ∧ s.ending mark isOwner = false := by simpa [step] using he
    have hr := (h.records hb).congr hru
    rcases hc with ⟨hs, -⟩ | ⟨t', ht', marker, heq, hen⟩
    · exact hr.congr hs
    rw [heq]
    refine Tracker.recordRunMarker_records (hr.congr ht') ?_ now
    rw [← Bool.not_eq_true, hen, hno]
    simp
  by_cases hb : s.ended = true
  · refine (h.waits hb hbu).imp (fun hh => ?_) id
    rcases hc with ⟨hs, -⟩ | ⟨t', ht', marker, heq, -⟩
    · exact (hh.congr hru).congr hs
    · rw [heq]
      exact Tracker.recordRunMarker_holds ((hh.congr hru).congr ht') marker now
  have hnow : s.ending mark isOwner = true := by
    have : s.ended = true ∨ s.ending mark isOwner = true := by simpa [step] using he
    exact this.resolve_left hb
  rcases hc with ⟨-, hno⟩ | ⟨t', ht', marker, heq, hen⟩
  · exact absurd hnow hno
  rw [heq]
  have hr := (h.records (by simpa using hb)).congr (ht'.trans hru)
  refine .inl (Tracker.recordRunMarker_ends hr (hen.mpr hnow) now ?_)
  rw [ht', hru]
  exact hke hnow

theorem observations_of_holds (h : s.tracker.Holds) (position : Position) (now : Nat) :
    ∃ (run : RunFollower) (i : Nat) (m : RunMarker) (o : Observation), s.tracker.run = some run ∧ run.markers[i]? = some m ∧ m.marker.ends = true ∧
      (s.observations position now)[i]? = some o ∧ o.marker = m.marker := by
  obtain ⟨run, hr, -, m, hm, he⟩ := h
  obtain ⟨i, hi⟩ := List.getElem?_of_mem hm
  refine ⟨run, i, m, ⟨m.marker, m.finishedCommands, position, m.time⟩, hr, hi, he, ?_, rfl⟩
  unfold observations Tracker.takeRunMarkers
  rw [hr, List.getElem?_map, List.getElem?_append_left (List.getElem?_eq_some_iff.mp hi).1, hi]
  rfl

theorem mem_runObservations {queue observations : List Observation} {o : Observation} (h : o ∈ queue) :
    o ∈ runObservations queue observations := by
  induction observations generalizing queue with
  | nil => exact h
  | cons a rest ih =>
    refine ih ?_
    unfold keepObservation
    split
    · exact List.mem_append_left _ h
    split
    · exact List.mem_append_left _ h
    · exact h

theorem keepObservation_length (queue : List Observation) (o : Observation) :
    (keepObservation queue o).length ≤ queue.length + 1 := by
  unfold keepObservation
  split
  · simp
  split <;> simp

theorem runObservations_keeps {queue observations : List Observation} {i : Nat} {o : Observation}
    (h : observations[i]? = some o) (hroom : queue.length + i + 1 < maxRunObservations) :
    o ∈ runObservations queue observations := by
  induction observations generalizing queue i with
  | nil => cases h
  | cons first rest ih =>
    cases i with
    | zero =>
      obtain rfl := Option.some.inj h
      refine @mem_runObservations _ rest _ ?_
      simp [keepObservation, show queue.length + 1 < maxRunObservations from hroom]
    | succ i =>
      have := keepObservation_length queue first
      exact @ih (keepObservation queue first) i h (by omega)

theorem Inv.deliver (h : s.Inv) {position : Position} {now : Nat}
    (hke : s.Keeps (.deliver position now)) : (s.step (.deliver position now)).Inv := by
  refine ⟨h.alone, fun he => ?_, fun he hb => .inr ?_⟩
  · obtain ⟨run, hr, hf⟩ := h.records he
    refine ⟨{ run with markers := [], overflowed := false }, ?_, hf⟩
    simp [step, Tracker.takeRunMarkers, hr, hf]
  rcases h.waits he hb with hh | ⟨o, ho, hen⟩
  · obtain ⟨run, i, m, o, hr, hi, hen, ho, hm⟩ := observations_of_holds hh position now
    exact ⟨o, runObservations_keeps ho (hke run hr i m hi hen), hm ▸ hen⟩
  · exact ⟨o, mem_runObservations ho, hen⟩

theorem observeMarker_length (table : RunTable) (pane : Id) (queue : List Observation) :
    (RunTable.pendingIn pane (queue.foldl (fun t o => t.observeMarker pane o) table).receipts).length ≤
      (RunTable.pendingIn pane table.receipts).length := by
  induction queue generalizing table with
  | nil => exact le_rfl
  | cons o queue ih =>
    exact (ih _).trans (RunTable.pendingIn_changePending _)

theorem observeMarker_ends {table : RunTable} {pane : Id} {queue : List Observation}
    (ha : (RunTable.pendingIn pane table.receipts).length ≤ 1) {o : Observation} (ho : o ∈ queue)
    (hen : o.marker.ends = true) :
    RunTable.pendingIn pane (queue.foldl (fun t o => t.observeMarker pane o) table).receipts = [] := by
  induction queue generalizing table with
  | nil => cases ho
  | cons a queue ih =>
    rcases List.mem_cons.mp ho with rfl | ho
    · have hs : RunTable.pendingIn pane (table.observeMarker pane o).receipts = [] := by
        rw [RunTable.observeMarker, RunTable.pendingIn_settled _ fun e he => Entry.observe_ends he hen]
        match RunTable.pendingIn pane table.receipts, ha with
        | [], _ => rfl
        | [_], _ => rfl
      have hrest := observeMarker_length (table.observeMarker pane o) pane queue
      rw [hs] at hrest
      exact List.eq_nil_of_length_eq_zero (Nat.le_zero.mp hrest)
    · exact ih ((RunTable.pendingIn_changePending _).trans ha) ho

theorem Inv.drain (h : s.Inv) : (s.step .drain).Inv := by
  refine ⟨(observeMarker_length _ _ _).trans h.alone, h.records, fun he hbu => ?_⟩
  have hb : RunTable.pendingIn s.pane s.table.receipts ≠ [] := by
    intro hnone
    have := observeMarker_length s.table s.pane s.queue
    rw [hnone] at this
    exact hbu (List.eq_nil_of_length_eq_zero (Nat.le_zero.mp this))
  rcases h.waits he hb with hh | ⟨o, ho, hen⟩
  · exact .inl hh
  · exact absurd (observeMarker_ends h.alone ho hen) hbu

theorem pendingIn_admitted (pane : Id) (table : RunTable) (run : RunId) (start : Position) (n : Nat) :
    (RunTable.pendingIn pane (table.admitted run start n).receipts).length =
      (RunTable.pendingIn pane table.receipts).length := by
  unfold RunTable.admitted RunTable.pendingIn
  rw [List.filter_map, List.length_map]
  congr 1
  refine List.filter_congr fun e _ => ?_
  simp only [Function.comp]
  split <;> rfl

theorem Inv.step (h : s.Inv) {e : Event} (hmo : s.KeepingMoves e t) : t.Inv := by
  obtain ⟨hke, rfl⟩ := hmo
  cases e with
  | mark mark isOwner now => exact h.mark hke
  | report => exact ⟨h.alone, h.records, h.waits⟩
  | input bytes =>
    have hr : (s.tracker.noteInput bytes).run = s.tracker.run := by
      unfold Tracker.noteInput
      split <;> rfl
    exact ⟨h.alone, fun he => (h.records he).congr hr, fun he hb => (h.waits he hb).imp_left fun hh => hh.congr hr⟩
  | deliver position now => exact h.deliver hke
  | answered run start n =>
    refine ⟨(pendingIn_admitted _ _ _ _ _).trans_le h.alone, h.records, fun he hb => h.waits he ?_⟩
    intro hnone
    have := pendingIn_admitted s.pane s.table run start n
    rw [hnone] at this
    exact hb (List.eq_nil_of_length_eq_zero this)
  | drain => exact h.drain

def admitted (table : RunTable) (admission : Admission) (tracker : Tracker) (queue : List Observation) :
    Except Refusal Followed :=
  (table.admitRun admission).map fun table =>
    { pane := admission.pane, table := table, tracker := tracker.followRun, queue := queue }

theorem admitted_inv {table : RunTable} {admission : Admission} {tracker : Tracker}
    {queue : List Observation} (h : admitted table admission tracker queue = .ok s) : s.Inv := by
  unfold admitted RunTable.admitRun at h
  cases hc : table.check admission.pane with
  | error refusal =>
    rw [hc] at h
    cases h
  | ok _ =>
    have hnone : RunTable.pendingIn admission.pane table.receipts = [] := by
      unfold RunTable.check at hc
      split at hc
      next => cases hc
      next ha =>
        rw [List.any_eq_true] at ha
        exact List.filter_eq_nil_iff.mpr fun e he hp => ha ⟨e, he, hp⟩
    rw [hc] at h
    dsimp only at h
    split at h
    next => cases h
    next =>
      obtain rfl := Except.ok.inj h
      refine ⟨?_, fun _ => ⟨{}, rfl, rfl⟩, nofun⟩
      have hpe := (List.perm_orderedInsert (fun a b : Entry => a.admission.run ≤ b.admission.run)
        { admission := admission } table.receipts).filter
          fun e => e.admission.pane == admission.pane && e.pending
      have hl := hpe.length_eq
      rw [List.filter_cons] at hl
      refine hl.trans_le ?_
      split <;> simp [show table.receipts.filter _ = [] from hnone]

/-- Where no buffer drops a marker that ends the run, a run whose shell reported the end of a command
is settled once every marker was applied, and its Pane accepts another one. -/
theorem ended_run_settles {table : RunTable} {admission : Admission} {tracker : Tracker}
    {queue : List Observation} (hadmitted : admitted table admission tracker queue = .ok s)
    {es : List Event} (hrun : Run KeepingMoves s es t) (hended : t.ended = true) (hdrained : t.Drained) :
    (∀ e ∈ t.table.receipts, e.admission.pane = t.pane → e.pending = false) ∧
    t.table.check t.pane ≠ .error .runPending := by
  have hin := hrun.invariant (admitted_inv hadmitted) fun h hmo => h.step hmo
  have hnone : RunTable.pendingIn t.pane t.table.receipts = [] := by
    by_contra hb
    rcases hin.waits hended hb with ⟨run, hrun, -, m, hm, -⟩ | ⟨o, ho, -⟩
    · rw [hdrained.1 run hrun] at hm
      cases hm
    · rw [hdrained.2] at ho
      cases ho
  refine ⟨fun e he hp => ?_, RunTable.check_pending hnone⟩
  by_contra hpending
  have hi : e ∈ RunTable.pendingIn t.pane t.table.receipts :=
    List.mem_filter.mpr ⟨he, by simp [hp, hpending]⟩
  rw [hnone] at hi
  cases hi

/-- The admission of one run on an empty table. -/
def sample : Admission := ⟨1, 2, 3, 4, 5, 6, "ls", ⟨0, 0⟩, 0, 0⟩

def begun : Followed where
  pane := 1
  table := ⟨[{ admission := sample }]⟩
  tracker := { promptOwnerSeen := true, run := some {} }
  queue := []

theorem drained_of_none (hr : s.tracker.run = none) (hqueue : s.queue = []) : s.Drained := by
  refine ⟨fun run hs => ?_, hqueue⟩
  rw [hr] at hs
  cases hs

def finishing : List Event :=
  [.mark (.start none) true 1, .mark (.finish (some 0)) true 2, .deliver ⟨0, 1⟩ 2, .drain]

theorem admitted_sample : admitted {} sample { promptOwnerSeen := true } [] = .ok begun := rfl

theorem ended_run_settles_finished : admitted {} sample { promptOwnerSeen := true } [] = .ok begun ∧
    Run KeepingMoves begun finishing (finishing.foldl step begun) ∧
    (finishing.foldl step begun).table.check 1 ≠ .error .runPending := by
  have hr : Run KeepingMoves begun finishing (finishing.foldl step begun) := by
    refine .cons ⟨?_, rfl⟩ (.cons ⟨?_, rfl⟩ (.cons ⟨?_, rfl⟩ (.single ⟨trivial, rfl⟩)))
    · intro hno
      cases hno
    · rintro - run hr -
      cases hr
      decide
    · rintro run hr i m hm -
      cases hr
      have := (List.getElem?_eq_some_iff.mp hm).1
      change i < 2 at this
      change 0 + i + 1 < 64
      omega
  refine ⟨admitted_sample, hr, ?_⟩
  exact (ended_run_settles admitted_sample hr (by decide +kernel)
    (drained_of_none (by decide +kernel) (by decide +kernel))).2

/-- In one read another process writes 64 markers and then the owning shell its finish: the finish
is dropped, and the run stays pending with nothing left to apply. -/
theorem dropped_finish_stays_pending : ∃ s t : Followed,
    admitted {} sample { promptOwnerSeen := true } [] = .ok s ∧
    Run Moves s (List.replicate 64 (.mark (.start none) false 1) ++
      [.mark (.finish (some 0)) true 2, .deliver ⟨0, 1⟩ 2, .drain]) t ∧
    t.ended = true ∧ t.Drained ∧ t.table.check 1 = .error .runPending := by
  have hs (s : Followed) (es : List Event) : Run Moves s es (es.foldl step s) := by
    induction es generalizing s with
    | nil => exact .refl s
    | cons e es ih => exact .cons rfl (ih _)
  exact ⟨begun, _, admitted_sample, hs _ _, by decide +kernel,
    drained_of_none (by decide +kernel) (by decide +kernel), by decide +kernel⟩

end Followed
end SpaceTerm.PaneRun
