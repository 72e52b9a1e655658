import Mathlib.Logic.Function.Basic
import SpaceTerm.Lib.Run
import SpaceTerm.Hierarchy.DeviceLog

/-! # Original Operations execute at most once

A `Ledger` is the state with what its clients acknowledged and which operations it executed. `Inv`
ties the three: an executed operation is retained, or its client has acknowledged it. A device that
submits only above what it acknowledged therefore never finds an executed operation unretained, not
even after its whole record was replaced and made again. -/

namespace SpaceTerm.Hierarchy
open Lib

/-- One operation executed against the inventory, with the outcome it got then. -/
structure Execution where
  device : Id
  sequence : Nat
  mutation : Mutation
  outcome : Outcome

def Execution.key (e : Execution) : Id × Nat := (e.device, e.sequence)

structure Ledger where
  state : State
  /-- The highest sequence each client has acknowledged. -/
  acked : Id → Nat
  executed : List Execution

inductive Call
  | apply (device : Id) (sequence : Nat) (mutation : Mutation) (directory : PathBuf)
      (validatePin : PathBuf → Bool) (fresh : Nat → Option Id)
  | acknowledge (device : Id) (sequence : Nat)
  | finishWorktree (device : Id) (sequence : Nat) (outcome : Outcome)

/-- Whether `apply` gets as far as executing the mutation. -/
def State.executes (s : State) (device : Id) (sequence : Nat) (mutation : Mutation) : Bool :=
  match s.admission device sequence mutation with
  | .execute _ _ => true
  | _ => false

namespace Ledger

def start (s : State) : Ledger := ⟨s, fun _ => 0, []⟩

def call (l : Ledger) : Call → Ledger
  | .apply device sequence mutation directory validatePin fresh =>
    match l.state.apply device sequence mutation directory validatePin fresh with
    | .error _ => l
    | .ok (state, outcome) =>
      { l with
        state
        executed := if l.state.executes device sequence mutation
          then l.executed ++ [⟨device, sequence, mutation, outcome⟩] else l.executed }
  | .acknowledge device sequence =>
    match l.state.acknowledge device sequence with
    | .error _ => l
    | .ok state =>
      { l with
        state
        acked := Function.update l.acked device (max (l.acked device) sequence) }
  | .finishWorktree device sequence outcome =>
    match l.state.finishWorktree device sequence outcome with
    | .error _ => l
    | .ok state => { l with state }

/-- A client submits only above the highest sequence it has acknowledged. -/
def Allowed (l : Ledger) : Call → Prop
  | .apply device sequence .. => l.acked device < sequence
  | _ => True

def Step (l : Ledger) (c : Call) (l' : Ledger) : Prop := l.Allowed c ∧ l.call c = l'

/-- An executed operation is retained or its client has acknowledged it, and what is retained under
its sequence is that operation, with its outcome but for a Worktree that settled since. -/
structure Inv (l : Ledger) : Prop where
  log : LogOk l.state.devices
  nodup : (l.executed.map (·.key)).Nodup
  settled : ∀ e ∈ l.executed, e.sequence ≤ l.acked e.device ∨
    ∃ o, Retains l.state.devices e.device o ∧ o.sequence = e.sequence
  same : ∀ e ∈ l.executed, ∀ o, Retains l.state.devices e.device o → o.sequence = e.sequence →
    o.mutation = e.mutation ∧ (o.outcome = e.outcome ∨ e.outcome = .pending)

namespace Inv
variable {l : Ledger} {device : Id} {sequence : Nat} {mutation : Mutation}

theorem start {s : State} (h : LogOk s.devices) : Inv (.start s) :=
  ⟨h, List.nodup_nil, fun _ he => absurd he List.not_mem_nil, fun _ he => absurd he List.not_mem_nil⟩

theorem not_executed (h : Inv l) (hc : l.acked device < sequence)
    (hnone : l.state.outcome device sequence = none) {e : Execution} (he : e ∈ l.executed) :
    e.key ≠ (device, sequence) := by
  intro hke
  obtain ⟨rfl, rfl⟩ : e.device = device ∧ e.sequence = sequence := by
    simpa [Execution.key] using hke
  rcases h.settled e he with ha | ⟨o, ho, hs⟩
  · omega
  · rw [h.log.outcome_eq_some.mpr ⟨ho, hs⟩] at hnone
    cases hnone

theorem apply (h : Inv l) {directory : PathBuf} {validatePin : PathBuf → Bool}
    {fresh : Nat → Option Id} (hc : l.acked device < sequence) :
    Inv (l.call (.apply device sequence mutation directory validatePin fresh)) := by
  unfold call
  dsimp only
  split
  · exact h
  rename_i state outcome ha
  rcases State.apply_ok ha with ⟨hre, rfl⟩ | ⟨devices, floor, s₁, hex, hed, hr⟩
  · simpa [State.executes, hre] using h
  obtain ⟨hl, hret⟩ := State.apply_execute h.log hex hed hr
  have hnone := (State.admission_execute hex).2.1
  simp only [State.executes, hex, if_true]
  refine ⟨hl, ?_, fun e he => ?_, fun e he o ho hs => ?_⟩
  · rw [List.map_append, List.nodup_append]
    refine ⟨h.nodup, by simp, ?_⟩
    rintro x hx y hy rfl
    obtain ⟨e, he, rfl⟩ := List.mem_map.mp hx
    exact h.not_executed hc hnone he (by simpa [Execution.key] using hy)
  · rcases List.mem_append.mp he with he | he
    · exact (h.settled e he).imp_right fun ⟨o, ho, hs⟩ => ⟨o, (hret _ _).mpr (.inl ho), hs⟩
    · obtain rfl := List.mem_singleton.mp he
      exact .inr ⟨_, (hret _ _).mpr (.inr ⟨rfl, rfl⟩), rfl⟩
  · rcases List.mem_append.mp he with he | he <;> rcases (hret _ _).mp ho with ho | ⟨hd, rfl⟩
    · exact h.same e he o ho hs
    · exact absurd (by simp [Execution.key, hd, ← hs]) (h.not_executed hc hnone he)
    · obtain rfl := List.mem_singleton.mp he
      rw [h.log.outcome_eq_some.mpr ⟨ho, hs⟩] at hnone
      cases hnone
    · obtain rfl := List.mem_singleton.mp he
      exact ⟨rfl, .inl rfl⟩

theorem acknowledge (h : Inv l) : Inv (l.call (.acknowledge device sequence)) := by
  unfold call
  dsimp only
  split
  · exact h
  rename_i state ha
  obtain ⟨hlo, hsu, hke⟩ := State.acknowledge_ok h.log ha
  refine ⟨hlo, h.nodup, fun e he => ?_, fun e he o ho => h.same e he o (hsu _ _ ho)⟩
  rcases h.settled e he with hac | ⟨o, ho, hs⟩
  · left
    by_cases hd : e.device = device
    · simp only [hd, Function.update_self]
      rw [hd] at hac
      omega
    · simpa [hd] using hac
  · rcases hke _ _ ho with ho | ⟨rfl, hl⟩
    · exact .inr ⟨o, ho, hs⟩
    left
    simp only [Function.update_self]
    omega

theorem finishWorktree (h : Inv l) {outcome : Outcome} :
    Inv (l.call (.finishWorktree device sequence outcome)) := by
  unfold call
  dsimp only
  split
  · exact h
  rename_i state hf
  obtain ⟨hl, hke, hfr⟩ := State.finishWorktree_ok h.log hf
  refine ⟨hl, h.nodup, fun e he => (h.settled e he).imp_right ?_, fun e he o' ho' hs' => ?_⟩
  · rintro ⟨o, ho, hs⟩
    obtain ⟨o', ho', hse⟩ := hke _ _ ho
    exact ⟨o', ho', hse.1.trans hs⟩
  obtain ⟨o, ho, hs, hmu, hou⟩ := hfr _ _ ho'
  obtain ⟨hm, ho⟩ := h.same e he o ho (hs.symm.trans hs')
  refine ⟨hmu.trans hm, ?_⟩
  rcases hou with hou | hpending
  · rwa [hou]
  · rw [hpending] at ho
    exact .inr (ho.elim Eq.symm id)

theorem step {c : Call} {l' : Ledger} (h : Inv l) (hs : Step l c l') : Inv l' := by
  obtain ⟨ha, rfl⟩ := hs
  cases c with
  | apply => exact h.apply ha
  | acknowledge => exact h.acknowledge
  | finishWorktree => exact h.finishWorktree

end Inv

end Ledger

/-! ### What `apply` answers -/

namespace State
variable {s : State} {device : Id} {sequence : Nat} {mutation : Mutation} {directory : PathBuf}
  {validatePin : PathBuf → Bool} {fresh : Nat → Option Id}

theorem apply_unbounded (hb : mutation.isBounded = false) :
    s.apply device sequence mutation directory validatePin fresh = .error .unsupported := by
  simp [apply, admission, hb]

theorem apply_retained (hb : mutation.isBounded) {old : RetainedOutcome}
    (hold : s.outcome device sequence = some old) :
    s.apply device sequence mutation directory validatePin fresh =
      if old.mutation == mutation then .ok (s, old.outcome) else .error .stale := by
  by_cases hs : old.mutation == mutation <;> simp [apply, admission, hb, hold, hs]

theorem apply_outside (hl : LogOk s.devices) (hb : mutation.isBounded)
    {record : DeviceOutcomes} (hr : s.device? device = some record)
    (hout : sequence ≤ record.retired ∨ s.nextSequence device < sequence) :
    s.apply device sequence mutation directory validatePin fresh = .error .stale := by
  rw [hl.nextSequence_eq hr] at hout
  have hnone : s.outcome device sequence = none := by
    by_contra hso
    obtain ⟨old, hold⟩ := Option.ne_none_iff_exists'.mp hso
    obtain ⟨⟨d, hd, hde, ho⟩, hs⟩ := hl.outcome_eq_some.mp hold
    obtain rfl : d = record := by
      simpa [hl.device?_eq_some.mpr ⟨hd, hde⟩] using hr
    have := (hl.contiguous d hd).sequence_lt ho
    omega
  have hno : s.expected device sequence = false := by
    simp only [expected, hr, hl.nextSequence_eq hr, beq_eq_false_iff_ne]
    omega
  simp [apply, admission, hb, hnone, hno]

theorem executes_without_record (hnone : s.device? device = none)
    (h : s.executes device sequence mutation) : 1 ≤ sequence ∧ sequence ≤ s.sequenceFloor + 1 := by
  unfold executes at h
  split at h
  · rename_i he
    have hex := (admission_execute he).2.2.1
    simpa [expected, hnone, nextSequence] using hex
  · cases h

end State

/-- At-most-once execution, over every interleaving of calls in which each client submits above what
it has acknowledged. What is retained of an executed operation is its mutation and its outcome, or the
outcome its Worktree settled with. A mutation beyond the protocol's bounds is unsupported. For one within them: a
retained operation is replayed or found stale without a change, a held record refuses every sequence
it has retired or does not expect yet, and a device without a record executes only from 1 to one
above the sequence floor. -/
theorem Ledger.operations_execute_at_most_once {s₀ : State} (h₀ : LogOk s₀.devices)
    {calls : List Call} {l : Ledger} (hrun : Run Ledger.Step (.start s₀) calls l) :
    (l.executed.map (·.key)).Nodup ∧
      (∀ e ∈ l.executed, ∀ old, l.state.outcome e.device e.sequence = some old →
        old.mutation = e.mutation ∧ (old.outcome = e.outcome ∨ e.outcome = .pending)) ∧
      (∀ device sequence mutation directory validatePin fresh, mutation.isBounded = false →
        l.state.apply device sequence mutation directory validatePin fresh = .error .unsupported) ∧
      ∀ device sequence mutation directory validatePin fresh, mutation.isBounded →
        (∀ old, l.state.outcome device sequence = some old →
          l.state.apply device sequence mutation directory validatePin fresh =
            if old.mutation == mutation then .ok (l.state, old.outcome) else .error .stale) ∧
        (∀ record, l.state.device? device = some record →
          sequence ≤ record.retired ∨ l.state.nextSequence device < sequence →
          l.state.apply device sequence mutation directory validatePin fresh = .error .stale) ∧
        (l.state.device? device = none → l.state.executes device sequence mutation →
          1 ≤ sequence ∧ sequence ≤ l.state.sequenceFloor + 1) := by
  have h : Inv l := hrun.invariant (.start h₀) .step
  refine ⟨h.nodup, fun e he old hold => ?_, fun _ _ _ _ _ _ hb => State.apply_unbounded hb, ?_⟩
  · obtain ⟨ho, hs⟩ := h.log.outcome_eq_some.mp hold
    exact h.same e he old ho hs
  intro device sequence mutation directory validatePin fresh hb
  exact ⟨fun old hold => State.apply_retained hb hold, fun record hr hout => State.apply_outside h.log hb hr hout,
    fun hnone hex => State.executes_without_record hnone hex⟩

/-- A device's first edit: a Tab in a Workspace that does not exist. -/
def firstEdit : Call :=
  .apply 1 1 (.createTab 7 none .creator) ⟨[47]⟩ (fun _ => true) (fun _ => none)

theorem Ledger.operations_execute_at_most_once_first_edit :
    let l := (Ledger.start .empty).call firstEdit
    l.executed.map (·.key) = [(1, 1)] ∧ (l.executed.map (·.key)).Nodup := by
  have hr : Run Ledger.Step (.start .empty) [firstEdit] ((Ledger.start .empty).call firstEdit) :=
    .single ⟨by show 0 < 1; decide, rfl⟩
  exact ⟨by decide +kernel, (Ledger.operations_execute_at_most_once .nil hr).1⟩

/-- The bounds come before the log: a retained operation submitted again with a mutation beyond them
is not stale but unsupported. -/
theorem Ledger.unbounded_resubmission_not_stale :
    let l := (Ledger.start .empty).call firstEdit
    Run Ledger.Step (.start .empty) [firstEdit] l ∧
      ∃ old, l.state.outcome 1 1 = some old ∧
        ∃ mutation : Mutation, (old.mutation == mutation) = false ∧
          l.state.apply 1 1 mutation ⟨[47]⟩ (fun _ => true) (fun _ => none) ≠ .error .stale := by
  let mutation := Mutation.renameWorkspace 7 0 (List.replicate 257 'a')
  have hr : (((Ledger.start .empty).call firstEdit).state.outcome 1 1).any
      (fun old => !(old.mutation == mutation)) := by decide +kernel
  have hu : mutation.isBounded = false := by decide +kernel
  cases hold : ((Ledger.start .empty).call firstEdit).state.outcome 1 1 with
  | none =>
    rw [hold] at hr
    cases hr
  | some old =>
    rw [hold] at hr
    refine ⟨.single ⟨by show 0 < 1; decide, rfl⟩, old, hold, mutation, by simpa using hr, ?_⟩
    rw [State.apply_unbounded hu]
    nofun

end SpaceTerm.Hierarchy
