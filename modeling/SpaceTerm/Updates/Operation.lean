import SpaceTerm.Lib.Run
import Mathlib.Logic.Function.Basic

/-! # The one update operation

`service/runtime/updates.rs`: `Live::operation` names the install, check, restart or stop that a Core
has in progress. Callers take and end it in sections of the engine's lock, any number of them
interleaved. The operation itself says only its kind; each one is kept here with the caller that began
it. A push (`update/sources.rs`) is a caller of `begin_install` that drops its `Installing` value, or
its predecessor's, as any other. -/

namespace SpaceTerm.Updates
open Lib

/-- `facts::Operation`. -/
inductive Operation (V : Type)
  | checking
  | installing (version : V) (received total : Nat)
  | restarting (to_ : V)
  | stopping
  deriving DecidableEq

def Operation.isInstalling {V : Type} : Operation V → Bool
  | .installing .. => true
  | _ => false

/-- What `operations_settled` ends. -/
def Operation.isRestart {V : Type} : Operation V → Bool
  | .restarting _ => true
  | .stopping => true
  | _ => false

/-- What a caller holds. -/
inductive Task (V : Type)
  /-- An `Installing` value. -/
  | installing (version : V) (total : Nat)
  /-- An `Installing` value in `install` or `fail` after its `end_operation`, until it is dropped. -/
  | ended
  /-- A `Checking` value. -/
  | checking
  /-- `restart` or `confirm`, until its service operation is refused or settles. -/
  | asked (admitted : Bool)
  deriving DecidableEq

def Task.inProgress {V : Type} : Task V → Bool
  | .ended => false
  | _ => true

/-- The engine with its callers, each under the number it was given. -/
structure Engine (V : Type) where
  operation : Option (Nat × Operation V)
  tasks : Nat → Option (Task V)
  next : Nat

/-- The sections of the lock. `admits` is what `admits_version` says of the candidate. -/
inductive Event (V : Type)
  | beginInstall (version : V) (total : Nat) (admits : Bool)
  | progress (caller received : Nat)
  /-- `install` or `fail` ends the operation. -/
  | endInstall (caller : Nat)
  | dropInstalling (caller : Nat)
  | beginCheck
  /-- `Checking::begin_install`. -/
  | handOver (caller : Nat) (version : V) (total : Nat) (admits : Bool)
  | dropChecking (caller : Nat)
  | restart (to_ : V)
  | stop
  | admitted (caller : Nat)
  | refused (caller : Nat)
  | operationsSettled
  deriving DecidableEq

/-- The caller that takes the section. -/
def Event.caller {V : Type} : Event V → Option Nat
  | .progress caller _ => some caller
  | .endInstall caller => some caller
  | .dropInstalling caller => some caller
  | .handOver caller _ _ _ => some caller
  | .dropChecking caller => some caller
  | .admitted caller => some caller
  | .refused caller => some caller
  | _ => none

namespace Engine
variable {V : Type}

def new : Engine V := ⟨none, fun _ => none, 0⟩

def begins (s : Engine V) (operation : Operation V) (task : Task V) : Engine V where
  operation := some (s.next, operation)
  tasks := Function.update s.tasks s.next (some task)
  next := s.next + 1

def setTask (s : Engine V) (caller : Nat) (task : Option (Task V)) : Engine V :=
  { s with tasks := Function.update s.tasks caller task }

def endOperation (s : Engine V) (owned : Operation V → Bool) : Engine V :=
  match s.operation with
  | some (_, operation) => if owned operation then { s with operation := none } else s
  | none => s

/-- The callers left once every admitted service operation settled. -/
def settle (tasks : Nat → Option (Task V)) : Nat → Option (Task V) := fun caller =>
  match tasks caller with
  | some (.asked true) => none
  | task => task

def step (s : Engine V) : Event V → Engine V
  | .beginInstall version total admits =>
    if s.operation.isSome || !admits then s
    else s.begins (.installing version 0 total) (.installing version total)
  | .progress caller received =>
    match s.tasks caller with
    | some (.installing version total) =>
      { s with operation := some (caller, .installing version (min received total) total) }
    | _ => s
  | .endInstall caller =>
    match s.tasks caller with
    | some (.installing _ _) => (s.endOperation Operation.isInstalling).setTask caller (some .ended)
    | _ => s
  | .dropInstalling caller =>
    match s.tasks caller with
    | some (.installing _ _) => (s.endOperation Operation.isInstalling).setTask caller none
    | some .ended => (s.endOperation Operation.isInstalling).setTask caller none
    | _ => s
  | .beginCheck => if s.operation.isSome then s else s.begins .checking .checking
  | .handOver caller version total admits =>
    match s.tasks caller with
    | some .checking =>
      if admits then
        (s.setTask caller none).begins (.installing version 0 total) (.installing version total)
      else s
    | _ => s
  | .dropChecking caller =>
    match s.tasks caller with
    | some .checking =>
      (s.endOperation fun operation =>
        match operation with
        | .checking => true
        | _ => false).setTask caller none
    | _ => s
  | .restart to_ => if s.operation.isSome then s else s.begins (.restarting to_) (.asked false)
  | .stop => if s.operation.isSome then s else s.begins .stopping (.asked false)
  | .admitted caller =>
    match s.tasks caller with
    | some (.asked false) => s.setTask caller (some (.asked true))
    | _ => s
  | .refused caller =>
    match s.tasks caller with
    | some (.asked false) => { s with operation := none }.setTask caller none
    | _ => s
  | .operationsSettled =>
    match s.operation with
    | some (_, operation) =>
      if operation.isRestart then { s with operation := none, tasks := settle s.tasks }
      else { s with tasks := settle s.tasks }
    | none => { s with tasks := settle s.tasks }

/-- No other install is in progress when an `Installing` value goes whose `install` or `fail` already
ended its operation, and admitted operations settle only after the restart or stop in progress was
admitted. -/
def Quiet (s : Engine V) : Event V → Prop
  | .dropInstalling caller => s.tasks caller = some .ended →
    ∀ owner operation, s.operation = some (owner, operation) → operation.isInstalling = false
  | .operationsSettled => ∀ owner operation, s.operation = some (owner, operation) →
    operation.isRestart = true → s.tasks owner = some (.asked true)
  | _ => True

/-! ## The operation and its caller -/

/-- The caller holds what its operation is about. -/
inductive Runs : Task V → Operation V → Prop
  | installing (version : V) (received total : Nat) :
      Runs (.installing version total) (.installing version received total)
  | checking : Runs .checking .checking
  | restarting (admitted : Bool) (to_ : V) : Runs (.asked admitted) (.restarting to_)
  | stopping (admitted : Bool) : Runs (.asked admitted) .stopping

structure Inv (s : Engine V) : Prop where
  owned : ∀ owner operation, s.operation = some (owner, operation) →
    ∃ task, s.tasks owner = some task ∧ Runs task operation
  running : ∀ caller task, s.tasks caller = some task → task.inProgress = true →
    ∃ operation, s.operation = some (caller, operation)
  bounded : ∀ caller, s.next ≤ caller → s.tasks caller = none

variable {s : Engine V}

theorem inv_new : (new : Engine V).Inv where
  owned := nofun
  running := nofun
  bounded := fun _ _ => rfl

variable {task : Task V} {operation : Operation V}

theorem Inv.begins (hi : s.Inv) (hidle : s.operation = none)
    (hr : Runs task operation) : (s.begins operation task).Inv := by
  refine ⟨fun owner op ho => ?_, fun caller task' ht hp => ?_, fun caller hc => ?_⟩
  · cases ho
    exact ⟨task, Function.update_self .., hr⟩
  · by_cases hc : caller = s.next
    · exact ⟨operation, by rw [hc]; rfl⟩
    have ht : s.tasks caller = some task' := by
      rw [← ht]
      exact (Function.update_of_ne hc ..).symm
    obtain ⟨op, ho⟩ := hi.running caller task' ht hp
    rw [hidle] at ho
    cases ho
  · have hl : s.next + 1 ≤ caller := hc
    show Function.update s.tasks s.next (some task) caller = none
    rw [Function.update_of_ne (by omega)]
    exact hi.bounded caller (by omega)

variable {caller : Nat}

theorem Inv.ends (hi : s.Inv) (ht : s.tasks caller = some task)
    (hp : task.inProgress = true) {left : Option (Task V)}
    (hleft : ∀ task, left = some task → task.inProgress = false) :
    ({ s with operation := none }.setTask caller left).Inv := by
  obtain ⟨operation, hop⟩ := hi.running caller task ht hp
  refine ⟨nofun, fun other task' ht' hp' => ?_, fun other hother => ?_⟩
  · by_cases hother : other = caller
    · subst hother
      have hs : left = some task' := by
        rw [← ht']
        exact (Function.update_self other left s.tasks).symm
      rw [hleft task' hs] at hp'
      cases hp'
    have ht' : s.tasks other = some task' := by
      rw [← ht']
      exact (Function.update_of_ne hother ..).symm
    obtain ⟨op, ho⟩ := hi.running other task' ht' hp'
    rw [hop] at ho
    cases ho
    exact absurd rfl hother
  · have hne : other ≠ caller := by
      rintro rfl
      rw [hi.bounded other hother] at ht
      cases ht
    show Function.update s.tasks caller left other = none
    rw [Function.update_of_ne hne]
    exact hi.bounded other hother

theorem Inv.setTask (hi : s.Inv) {left : Option (Task V)} (ht : s.tasks caller = some task)
    (hown : ∀ operation, s.operation = some (caller, operation) →
      ∃ task', left = some task' ∧ Runs task' operation)
    (hr : ∀ task', left = some task' → task'.inProgress = true → task.inProgress = true) :
    (s.setTask caller left).Inv := by
  refine ⟨fun owner op ho => ?_, fun other task' ht' hp => ?_, fun other hother => ?_⟩
  · have ho : s.operation = some (owner, op) := ho
    by_cases howne : owner = caller
    · subst howne
      obtain ⟨task', hleft, hru⟩ := hown op ho
      exact ⟨task', (Function.update_self ..).trans hleft, hru⟩
    · obtain ⟨task', ht', hru⟩ := hi.owned owner op ho
      exact ⟨task', (Function.update_of_ne howne ..).trans ht', hru⟩
  · by_cases hother : other = caller
    · subst hother
      have hleft : left = some task' := by
        rw [← ht']
        exact (Function.update_self other left s.tasks).symm
      exact hi.running other task ht (hr task' hleft hp)
    · exact hi.running other task' ((Function.update_of_ne hother ..).symm.trans ht') hp
  · have hne : other ≠ caller := by
      rintro rfl
      rw [hi.bounded other hother] at ht
      cases ht
    exact (Function.update_of_ne hne ..).trans (hi.bounded other hother)

theorem Inv.operation_of (hi : s.Inv) (ht : s.tasks caller = some task) (hp : task.inProgress = true) :
    ∃ operation, s.operation = some (caller, operation) ∧ Runs task operation := by
  obtain ⟨operation, ho⟩ := hi.running caller task ht hp
  obtain ⟨task', ht', hr⟩ := hi.owned caller operation ho
  rw [ht] at ht'
  cases ht'
  exact ⟨operation, ho, hr⟩

theorem endOperation_eq {owned : Operation V → Bool} {owner : Nat}
    (ho : s.operation = some (owner, operation)) (hown : owned operation = true) :
    s.endOperation owned = { s with operation := none } := by
  unfold endOperation
  rw [ho]
  exact if_pos hown

theorem endOperation_other {owned : Operation V → Bool}
    (hother : ∀ owner operation, s.operation = some (owner, operation) → owned operation = false) :
    s.endOperation owned = s := by
  unfold endOperation
  split
  case h_1 owner operation ho =>
    rw [if_neg]
    rw [hother owner operation ho]
    exact Bool.false_ne_true
  · rfl

def Rightful (s : Engine V) (e : Event V) : Prop :=
  ∀ owner operation, s.operation = some (owner, operation) →
    (s.step e).operation ≠ some (owner, operation) →
      e.caller = some owner ∨
        (operation.isRestart = true ∧ e = .operationsSettled ∧ s.tasks owner = some (.asked true))

variable {e : Event V}

theorem rightful_of_eq (h : (s.step e).operation = s.operation) : s.Rightful e :=
  fun _ _ ho hne => absurd (h.trans ho) hne

theorem rightful_of_caller (hc : e.caller = some caller)
    (hown : ∀ owner operation, s.operation = some (owner, operation) → owner = caller) :
    s.Rightful e := by
  intro owner operation ho _
  rw [hc, hown owner operation ho]
  exact .inl rfl

theorem Inv.owner_eq (hi : s.Inv) (ht : s.tasks caller = some task) (hp : task.inProgress = true) :
    ∀ owner operation, s.operation = some (owner, operation) → owner = caller := by
  intro owner operation hop
  obtain ⟨op, ho⟩ := hi.running caller task ht hp
  rw [hop] at ho
  cases ho
  rfl

theorem Inv.stays (hi : s.Inv) (h : s.step e = s) : (s.step e).Inv ∧ s.Rightful e :=
  ⟨by rwa [h], rightful_of_eq (by rw [h])⟩

theorem Inv.beginsIf (hi : s.Inv) (hr : Runs task operation) (refuses : Bool)
    (h : s.step e = if s.operation.isSome || refuses then s else s.begins operation task) :
    (s.step e).Inv ∧ s.Rightful e := by
  by_cases hb : (s.operation.isSome || refuses) = true
  · rw [if_pos hb] at h
    exact hi.stays h
  rw [if_neg hb] at h
  have hidle : s.operation = none := by
    rw [Bool.not_eq_true, Bool.or_eq_false_iff] at hb
    exact Option.isSome_eq_false_iff.mp hb.1 |> Option.isNone_iff_eq_none.mp
  refine ⟨by rw [h]; exact hi.begins hidle hr, fun owner op ho => ?_⟩
  rw [hidle] at ho
  cases ho

theorem settle_eq_some {tasks : Nat → Option (Task V)} :
    settle tasks caller = some task ↔ tasks caller = some task ∧ task ≠ .asked true := by
  unfold settle
  split
  case h_1 h =>
    refine ⟨nofun, fun ⟨ht, hno⟩ => ?_⟩
    rw [h] at ht
    cases ht
    exact absurd rfl hno
  case h_2 hno => exact ⟨fun ht => ⟨ht, fun h => hno (h ▸ ht)⟩, And.left⟩

/-- A caller that is left keeps what it held, and an admitted one owned the operation that ends. -/
theorem Inv.settles (hi : s.Inv) (hq : s.Quiet .operationsSettled) :
    (s.step .operationsSettled).Inv ∧ s.Rightful .operationsSettled := by
  have hb : ∀ caller, s.next ≤ caller → settle s.tasks caller = none := by
    intro caller hc
    unfold settle
    rw [hi.bounded caller hc]
  cases ho : s.operation with
  | none =>
    refine ⟨?_, fun owner op ho' => by rw [ho] at ho'; cases ho'⟩
    simp only [Engine.step, ho]
    refine ⟨nofun, fun caller task ht hp => ?_, hb⟩
    obtain ⟨op, ho'⟩ := hi.running caller task (settle_eq_some.mp ht).1 hp
    rw [ho] at ho'
    cases ho'
  | some pair =>
    obtain ⟨owner, operation⟩ := pair
    by_cases hr : operation.isRestart = true
    · have ha := hq owner operation ho hr
      refine ⟨?_, fun owner' op ho' _ => ?_⟩
      · simp only [Engine.step, ho, hr, if_true]
        refine ⟨nofun, fun caller task ht hp => ?_, hb⟩
        obtain ⟨ht, hno⟩ := settle_eq_some.mp ht
        obtain ⟨op, ho'⟩ := hi.running caller task ht hp
        rw [ho] at ho'
        cases ho'
        rw [ha] at ht
        cases ht
        exact absurd rfl hno
      · rw [ho] at ho'
        cases ho'
        exact .inr ⟨hr, rfl, ha⟩
    · refine ⟨?_, rightful_of_eq (by simp [Engine.step, ho, hr])⟩
      simp only [Engine.step, ho, hr]
      refine ⟨fun owner' op ho' => ?_, fun caller task ht hp => ?_, hb⟩
      · have ho' : s.operation = some (owner', op) := ho.trans ho'
        obtain ⟨task, ht, hru⟩ := hi.owned owner' op ho'
        refine ⟨task, settle_eq_some.mpr ⟨ht, fun h => ?_⟩, hru⟩
        rw [ho] at ho'
        cases ho'
        subst h
        cases hru with
        | restarting | stopping => exact hr rfl
      · obtain ⟨op, ho'⟩ := hi.running caller task (settle_eq_some.mp ht).1 hp
        exact ⟨op, ho.symm.trans ho'⟩

theorem Inv.step (hi : s.Inv) (hq : s.Quiet e) : (s.step e).Inv ∧ s.Rightful e := by
  cases e with
  | beginInstall version total admits => exact hi.beginsIf (.installing version 0 total) (!admits) rfl
  | beginCheck => exact hi.beginsIf .checking false (by simp only [Engine.step, Bool.or_false])
  | restart to_ => exact hi.beginsIf (.restarting false to_) false (by simp only [Engine.step, Bool.or_false])
  | stop => exact hi.beginsIf (.stopping false) false (by simp only [Engine.step, Bool.or_false])
  | progress caller received =>
    match ht : s.tasks caller with
    | some (.installing version total) =>
      have hs : s.step (.progress caller received) =
          { s with operation := some (caller, .installing version (min received total) total) } := by
        simp only [Engine.step, ht]
      refine ⟨?_, rightful_of_caller rfl (hi.owner_eq ht rfl)⟩
      rw [hs]
      refine ⟨fun owner op ho => ?_, fun other task hother hp => ?_, hi.bounded⟩
      · cases ho
        exact ⟨_, ht, .installing version _ total⟩
      · obtain ⟨op, ho⟩ := hi.running other task hother hp
        obtain rfl := hi.owner_eq ht rfl other op ho
        exact ⟨_, rfl⟩
    | none | some .ended | some .checking | some (.asked _) =>
      exact hi.stays (by simp only [Engine.step, ht])
  | endInstall caller =>
    match ht : s.tasks caller with
    | some (.installing version total) =>
      obtain ⟨op, ho, hru⟩ := hi.operation_of ht rfl
      have he : s.endOperation Operation.isInstalling = { s with operation := none } :=
        endOperation_eq ho (by cases hru; rfl)
      refine ⟨?_, rightful_of_caller rfl (hi.owner_eq ht rfl)⟩
      simp only [Engine.step, ht, he]
      exact hi.ends ht rfl fun task h => by cases h; rfl
    | none | some .ended | some .checking | some (.asked _) =>
      exact hi.stays (by simp only [Engine.step, ht])
  | dropInstalling caller =>
    match ht : s.tasks caller with
    | some (.installing version total) =>
      obtain ⟨op, ho, hru⟩ := hi.operation_of ht rfl
      have he : s.endOperation Operation.isInstalling = { s with operation := none } :=
        endOperation_eq ho (by cases hru; rfl)
      refine ⟨?_, rightful_of_caller rfl (hi.owner_eq ht rfl)⟩
      simp only [Engine.step, ht, he]
      exact hi.ends ht rfl nofun
    | some .ended =>
      -- the second end finds no install
      have he : s.endOperation Operation.isInstalling = s := endOperation_other (hq ht)
      have hs : s.step (.dropInstalling caller) = s.setTask caller none := by
        simp only [Engine.step, ht, he]
      refine ⟨?_, rightful_of_eq (by rw [hs]; rfl)⟩
      rw [hs]
      refine hi.setTask ht (fun op ho => ?_) nofun
      obtain ⟨task, ht', hru⟩ := hi.owned caller op ho
      rw [ht] at ht'
      cases ht'
      cases hru
    | none | some .checking | some (.asked _) => exact hi.stays (by simp only [Engine.step, ht])
  | handOver caller version total admits =>
    match ht : s.tasks caller with
    | some .checking =>
      cases admits with
      | false => exact hi.stays (by simp [Engine.step, ht])
      | true =>
        refine ⟨?_, rightful_of_caller rfl (hi.owner_eq ht rfl)⟩
        simp only [Engine.step, ht, if_true]
        -- the check ends and the install begins in one section
        have hidle : ({ s with operation := none }.setTask caller none).Inv :=
          hi.ends ht rfl nofun
        exact hidle.begins rfl (.installing version 0 total)
    | none | some .ended | some (.installing _ _) | some (.asked _) =>
      exact hi.stays (by simp only [Engine.step, ht])
  | dropChecking caller =>
    match ht : s.tasks caller with
    | some .checking =>
      obtain ⟨op, ho, hru⟩ := hi.operation_of ht rfl
      refine ⟨?_, rightful_of_caller rfl (hi.owner_eq ht rfl)⟩
      simp only [Engine.step, ht]
      rw [endOperation_eq ho (by cases hru; rfl)]
      exact hi.ends ht rfl nofun
    | none | some .ended | some (.installing _ _) | some (.asked _) =>
      exact hi.stays (by simp only [Engine.step, ht])
  | admitted caller =>
    match ht : s.tasks caller with
    | some (.asked false) =>
      have hs : s.step (.admitted caller) = s.setTask caller (some (.asked true)) := by
        simp only [Engine.step, ht]
      refine ⟨?_, rightful_of_eq (by rw [hs]; rfl)⟩
      rw [hs]
      refine hi.setTask ht (fun op ho => ⟨_, rfl, ?_⟩) fun _ _ _ => rfl
      obtain ⟨task, ht', hru⟩ := hi.owned caller op ho
      rw [ht] at ht'
      cases ht'
      cases hru with
      | restarting _ to_ => exact .restarting true to_
      | stopping => exact .stopping true
    | none | some (.asked true) | some .ended | some (.installing _ _) | some .checking =>
      exact hi.stays (by simp only [Engine.step, ht])
  | refused caller =>
    match ht : s.tasks caller with
    | some (.asked false) =>
      refine ⟨?_, rightful_of_caller rfl (hi.owner_eq ht rfl)⟩
      simp only [Engine.step, ht]
      exact hi.ends ht rfl nofun
    | none | some (.asked true) | some .ended | some (.installing _ _) | some .checking =>
      exact hi.stays (by simp only [Engine.step, ht])
  | operationsSettled => exact hi.settles hq

/-- In every interleaving whose sections are all quiet, at most one caller has an install, a check, a
restart or a stop in progress, and the operation ends or is replaced by the caller that began it or,
for a restart or stop, when admitted operations settle and it was admitted. -/
theorem one_operation {es : List (Event V)}
    (hrun : Run (fun s e t => Quiet s e ∧ t = s.step e) (new : Engine V) es s) :
    (∀ i j a b, s.tasks i = some a → a.inProgress = true → s.tasks j = some b → b.inProgress = true → i = j) ∧
    ∀ e, s.Quiet e → s.Rightful e := by
  have hin : s.Inv := hrun.invariant inv_new fun hs hst => by
    rw [hst.2]
    exact (hs.step hst.1).1
  refine ⟨fun i j a b ha hi hb hjb => ?_, fun e hq => (hin.step hq).2⟩
  obtain ⟨op, ho⟩ := hin.running i a ha hi
  exact hin.owner_eq hb hjb i op ho

/-- A check hands over to an install, whose end is then its own. -/
theorem one_operation_checked :
    ∃ s : Engine Nat, Run (fun s e t => Quiet s e ∧ t = s.step e) new
      [.beginCheck, .handOver 0 5 10 true, .progress 1 4] s ∧
      s.operation = some (1, .installing 5 4 10) ∧ s.Rightful (.endInstall 1) :=
  have hrun : Run (fun s e t => Quiet s e ∧ t = s.step e) (new : Engine Nat)
      [.beginCheck, .handOver 0 5 10 true, .progress 1 4]
      ((((new : Engine Nat).step .beginCheck).step (.handOver 0 5 10 true)).step (.progress 1 4)) :=
    .cons ⟨trivial, rfl⟩ (.cons ⟨trivial, rfl⟩ (.single ⟨trivial, rfl⟩))
  ⟨_, hrun, rfl, (one_operation hrun).2 _ trivial⟩

/-- A second install begins between the end of the first and the drop of its value: the drop ends the
second install's operation, and a restart begins beside that install. -/
theorem install_ended_by_another :
    ∃ s t : Engine Nat,
      Run (fun s e t => t = s.step e) new
        [.beginInstall 1 10 true, .endInstall 0, .beginInstall 2 10 true] s ∧
      s.operation = some (1, .installing 2 0 10) ∧ (s.step (.dropInstalling 0)).operation = none ∧
      Run (fun s e t => t = s.step e) s [.dropInstalling 0, .restart 1] t ∧
      t.tasks 1 = some (.installing 2 10) ∧ t.tasks 2 = some (.asked false) :=
  ⟨_, _, .cons rfl (.cons rfl (.single rfl)), rfl, rfl, .cons rfl (.single rfl), rfl, rfl⟩

end Engine

end SpaceTerm.Updates
