import SpaceTerm.Hierarchy.Types
import SpaceTerm.Lib.Run
import Mathlib.Data.List.Range
import Mathlib.Data.List.Perm.Subperm

/-! # The client's journal

`ClientJournal` of `hierarchy.rs`: the record of a client's own edits in `operations.json`. Each call
changes the record in memory and saves it whole; a save that fails keeps the old or the new content,
and the record is read again. A bounded list keeps the outcomes that the client has yet to present,
and a counter those it forgot. The journal only compares mutations, so their type is a parameter. -/

namespace SpaceTerm.Edits.ClientJournal
open Lib Hierarchy

def unseenOutcomes : Nat := 32

/-- `needs_presentation`. -/
def needsPresentation : Outcome → Bool
  | .pending => false
  | .accepted _ => false
  | _ => true

structure ClientOperation (μ : Type) where
  sequence : Nat
  mutation : μ
  deriving DecidableEq

structure Retained (μ : Type) where
  sequence : Nat
  mutation : μ
  outcome : Outcome
  deriving DecidableEq

structure JournalRecord (μ : Type) where
  core : Id
  client : Id
  pending : Option (ClientOperation μ)
  last : Option (Retained μ)
  /-- Retired outcomes that are not presented yet, oldest first. -/
  unseen : List (Retained μ)
  forgotten : Nat
  forgottenPresented : Nat

inductive CoreError
  | unsupported | protocol
  deriving DecidableEq

inductive Call (μ : Type)
  | abandon
  | settled (sequence : Nat)
  | forgottenPresented (total : Nat)
  | presented (sequence : Nat)
  | submit (sequence : Nat) (mutation : μ)
  | retire (result : Retained μ)

/-- `saturating_add(1)` of a `u64`. -/
def saturatingSucc (n : Nat) : Nat := min (n + 1) (2 ^ 64 - 1)

namespace JournalRecord
variable {μ : Type} [DecidableEq μ]

/-- The outcomes left once the one of `sequence` is taken out. -/
def retain (unseen : List (Retained μ)) (sequence : Nat) : List (Retained μ) :=
  unseen.filter fun o => o.sequence != sequence

/-- The unseen list and the forgotten counter after `result` joined them. -/
def keep (r : JournalRecord μ) (result : Retained μ) : JournalRecord μ :=
  if needsPresentation result.outcome then
    if unseenOutcomes ≤ r.unseen.length then
      { r with unseen := r.unseen.tail ++ [result], forgotten := saturatingSucc r.forgotten }
    else { r with unseen := r.unseen ++ [result] }
  else r

def edit (r : JournalRecord μ) : Call μ → Except CoreError (Option (JournalRecord μ))
  | .abandon => if r.pending.isNone then .ok none else .ok (some { r with pending := none })
  | .settled sequence =>
    if r.last.all (·.sequence != sequence) then .ok none
    else .ok (some { r with last := none, unseen := retain r.unseen sequence })
  | .forgottenPresented total =>
    let total := min total r.forgotten
    if total ≤ r.forgottenPresented then .ok none
    else .ok (some { r with forgottenPresented := total })
  | .presented sequence =>
    if (retain r.unseen sequence).length = r.unseen.length then .ok none
    else .ok (some { r with unseen := retain r.unseen sequence })
  | .submit sequence mutation =>
    if r.pending.isSome then .error .unsupported
    else .ok (some { r with pending := some ⟨sequence, mutation⟩ })
  | .retire result =>
    match r.pending with
    | none => .error .protocol
    | some pending =>
      if pending.sequence ≠ result.sequence ∨ pending.mutation ≠ result.mutation then .error .protocol
      else .ok (some { r.keep result with last := some result, pending := none })

end JournalRecord

/-- A record with the calls it reflects: what was retired, in order, what a call that names a sequence
took out of the unseen list, and what the bound forgot. -/
structure Ledger (μ : Type) where
  record : JournalRecord μ
  retired : List (Retained μ)
  removed : List (Nat × Retained μ)
  dropped : List (Retained μ)

namespace Ledger
variable {μ : Type} [DecidableEq μ]

def new (core client : Id) : Ledger μ where
  record :=
    { core, client, pending := none, last := none, unseen := [], forgotten := 0
      forgottenPresented := 0 }
  retired := []
  removed := []
  dropped := []

/-- What a call that names `sequence` takes out. -/
def remove (L : Ledger μ) (sequence : Nat) : List (Nat × Retained μ) :=
  L.removed ++ (L.record.unseen.filter fun o => o.sequence == sequence).map fun o => (sequence, o)

def follow (L : Ledger μ) (record : JournalRecord μ) : Call μ → Ledger μ
  | .retire result =>
    { L with
      record := record
      retired := L.retired ++ [result]
      dropped := if needsPresentation result.outcome ∧ unseenOutcomes ≤ L.record.unseen.length then
          L.dropped ++ L.record.unseen.take 1
        else L.dropped }
  | .presented sequence => { L with record := record, removed := L.remove sequence }
  | .settled sequence => { L with record := record, removed := L.remove sequence }
  | _ => { L with record := record }

end Ledger

/-- What becomes of a save: the file is replaced, or the save fails and the file keeps the old or the
new content. After a failure the file is read again, which can fail too. -/
inductive Saving
  | stored
  | failed (new reread : Bool)
  deriving DecidableEq

inductive Event (μ : Type)
  /-- The journal is opened, by a new process or again. -/
  | opens (core client : Id)
  | call (call : Call μ) (saving : Saving)

structure Journal (μ : Type) where
  memory : Option (Ledger μ)
  file : Option (Ledger μ)

namespace Journal
variable {μ : Type} [DecidableEq μ]

/-- `open_locked`. -/
def opens (j : Journal μ) (core client : Id) : Journal μ :=
  let found := j.file.getD (.new core client)
  if found.record.core ≠ core ∨ found.record.client ≠ client then { j with memory := none }
  else { j with memory := some found }

/-- `save`. A file that is read again and is not there leaves the record in memory. -/
def save (j : Journal μ) (changed : Ledger μ) : Saving → Journal μ
  | .stored => ⟨some changed, some changed⟩
  | .failed new reread =>
    let file := if new then some changed else j.file
    ⟨some (if reread then file.getD changed else changed), file⟩

def step (j : Journal μ) : Event μ → Journal μ
  | .opens core client => j.opens core client
  | .call call saving =>
    match j.memory with
    | none => j
    | some L =>
      match L.record.edit call with
      | .error _ => j
      | .ok none => j
      | .ok (some record) => j.save (L.follow record call) saving

/-- A sequence is a `u64`, and a retired one is not submitted again. -/
def Fresh (j : Journal μ) : Event μ → Prop
  | .call (.submit sequence _) _ =>
    sequence < 2 ^ 64 ∧ ∀ L, j.memory = some L → ∀ o ∈ L.retired, o.sequence ≠ sequence
  | _ => True

def Step (j : Journal μ) (e : Event μ) (j' : Journal μ) : Prop := j.Fresh e ∧ j' = j.step e

end Journal

/-! ## The accounts of a ledger -/

namespace Ledger
variable {μ : Type} [DecidableEq μ] {L : Ledger μ}

def presentable (L : Ledger μ) : List (Retained μ) := L.retired.filter fun o => needsPresentation o.outcome

structure Sound (L : Ledger μ) : Prop where
  account : L.presentable.Perm (L.record.unseen ++ L.removed.map Prod.snd ++ L.dropped)
  named : ∀ x ∈ L.removed, x.1 = x.2.sequence
  once : (L.retired.map Retained.sequence).Nodup
  bounded : ∀ o ∈ L.retired, o.sequence < 2 ^ 64
  fresh : ∀ op, L.record.pending = some op → op.sequence < 2 ^ 64 ∧ ∀ o ∈ L.retired, o.sequence ≠ op.sequence
  unseen_le : L.record.unseen.length ≤ unseenOutcomes
  order : L.record.unseen.Sublist L.presentable
  count : L.record.forgotten = L.dropped.length
  presented : L.record.forgottenPresented ≤ L.record.forgotten

omit [DecidableEq μ] in
theorem sound_new (core client : Id) : (new core client : Ledger μ).Sound where
  account := List.Perm.refl _
  named := nofun
  once := List.nodup_nil
  bounded := nofun
  fresh := nofun
  unseen_le := Nat.zero_le _
  order := List.Sublist.refl _
  count := rfl
  presented := Nat.le_refl _

def CountersLe (L L' : Ledger μ) : Prop :=
  L.record.forgotten ≤ L'.record.forgotten ∧ L.record.forgottenPresented ≤ L'.record.forgottenPresented

omit [DecidableEq μ] in
theorem CountersLe.refl (L : Ledger μ) : L.CountersLe L := ⟨Nat.le_refl _, Nat.le_refl _⟩

omit [DecidableEq μ] in
theorem CountersLe.trans {L' L'' : Ledger μ} (h : L.CountersLe L') (h' : L'.CountersLe L'') : L.CountersLe L'' :=
  ⟨h.1.trans h'.1, h.2.trans h'.2⟩

omit [DecidableEq μ] in
theorem Sound.remove (hs : L.Sound) (sequence : Nat) (last : Option (Retained μ)) :
    ({ L with
        record := { L.record with last := last, unseen := JournalRecord.retain L.record.unseen sequence }
        removed := L.remove sequence } : Ledger μ).Sound := by
  have hsp : L.record.unseen.Perm (JournalRecord.retain L.record.unseen sequence ++
      L.record.unseen.filter fun o => o.sequence == sequence) := by
    have hp := List.filter_append_perm (fun o : Retained μ => o.sequence == sequence) L.record.unseen
    exact hp.symm.trans List.perm_append_comm
  refine
    { account := ?_, named := ?_, once := hs.once, bounded := hs.bounded
      fresh := hs.fresh, unseen_le := (List.length_filter_le _ _).trans hs.unseen_le
      order := List.filter_sublist.trans hs.order, count := hs.count
      presented := hs.presented }
  · have hmo : (L.remove sequence).map Prod.snd = L.removed.map Prod.snd ++
        L.record.unseen.filter fun o => o.sequence == sequence := by
      unfold Ledger.remove
      rw [List.map_append, List.map_map]
      simp
    show L.presentable.Perm (JournalRecord.retain L.record.unseen sequence ++
      (L.remove sequence).map Prod.snd ++ L.dropped)
    rw [hmo]
    refine hs.account.trans (List.Perm.append_right _ ?_)
    calc L.record.unseen ++ L.removed.map Prod.snd
      _ |>.Perm ((JournalRecord.retain L.record.unseen sequence ++
          L.record.unseen.filter fun o => o.sequence == sequence) ++ L.removed.map Prod.snd) :=
        hsp.append_right _
      _ |>.Perm (JournalRecord.retain L.record.unseen sequence ++ (L.removed.map Prod.snd ++
          L.record.unseen.filter fun o => o.sequence == sequence)) := by
        rw [List.append_assoc]
        exact List.perm_append_comm.append_left _
  · intro x hx
    rcases List.mem_append.mp hx with hx | hx
    · exact hs.named x hx
    · obtain ⟨o, ho, rfl⟩ := List.mem_map.mp hx
      exact (beq_iff_eq.mp (List.mem_filter.mp ho).2).symm

omit [DecidableEq μ] in
/-- The sequences of what was forgotten, of what is unseen and of what is pending differ, so a `u64`
counts what is forgotten. -/
theorem Sound.unsaturated (hso : L.Sound) {op : ClientOperation μ} (hpending : L.record.pending = some op)
    (hf : unseenOutcomes ≤ L.record.unseen.length) :
    saturatingSucc L.record.forgotten = L.record.forgotten + 1 := by
  obtain ⟨hb, hother⟩ := hso.fresh op hpending
  have hli : (L.record.unseen ++ L.removed.map Prod.snd ++ L.dropped).length ≤ L.retired.length := by
    rw [← hso.account.length_eq]
    exact List.length_filter_le _ _
  have hs : (op.sequence :: L.retired.map Retained.sequence).length ≤ 2 ^ 64 := by
    have hno : (op.sequence :: L.retired.map Retained.sequence).Nodup := by
      refine List.nodup_cons.mpr ⟨fun hmem => ?_, hso.once⟩
      obtain ⟨o, ho, he⟩ := List.mem_map.mp hmem
      exact hother o ho he
    have hsu : op.sequence :: L.retired.map Retained.sequence ⊆ List.range (2 ^ 64) := by
      intro n hn
      rw [List.mem_range]
      rcases List.mem_cons.mp hn with rfl | hn
      · exact hb
      · obtain ⟨o, ho, rfl⟩ := List.mem_map.mp hn
        exact hso.bounded o ho
    have hl := (List.subperm_of_subset hno hsu).length_le
    rwa [List.length_range] at hl
  rw [List.length_append, List.length_append] at hli
  rw [List.length_cons, List.length_map] at hs
  have hc := hso.count
  unfold unseenOutcomes at hf
  unfold saturatingSucc
  omega

/-- Retiring the pending operation: its outcome joins the unseen list, and the oldest one leaves a
full list for the counter. -/
theorem Sound.retire (hso : L.Sound) {result : Retained μ} {op : ClientOperation μ}
    (hpending : L.record.pending = some op) (hs : op.sequence = result.sequence) :
    (L.follow { L.record.keep result with last := some result, pending := none }
      (.retire result)).Sound ∧
    L.CountersLe (L.follow { L.record.keep result with last := some result, pending := none }
      (.retire result)) := by
  obtain ⟨hbo, hother⟩ := hso.fresh op hpending
  have hon : ((L.retired ++ [result]).map Retained.sequence).Nodup := by
    rw [List.map_append, List.nodup_append]
    refine ⟨hso.once, List.nodup_singleton _, fun a ha b hb he => ?_⟩
    obtain ⟨o, ho, rfl⟩ := List.mem_map.mp ha
    cases List.mem_singleton.mp hb
    exact hother o ho (he.trans hs.symm)
  have hbou : ∀ o ∈ L.retired ++ [result], o.sequence < 2 ^ 64 := by
    intro o ho
    rcases List.mem_append.mp ho with ho | ho
    · exact hso.bounded o ho
    cases List.mem_singleton.mp ho
    rw [← hs]
    exact hbo
  have hnone : ∀ op : ClientOperation μ, (none : Option (ClientOperation μ)) = some op →
      op.sequence < 2 ^ 64 ∧ ∀ o ∈ L.retired ++ [result], o.sequence ≠ op.sequence :=
    nofun
  unfold follow JournalRecord.keep
  by_cases hneeds : needsPresentation result.outcome = true
  · have hp : (L.retired ++ [result]).filter (fun o => needsPresentation o.outcome) =
        L.presentable ++ [result] := by
      rw [List.filter_append]
      simp [presentable, hneeds]
    by_cases hf : unseenOutcomes ≤ L.record.unseen.length
    · -- the oldest unseen outcome is forgotten, and counted
      have hsu := hso.unsaturated hpending hf
      obtain ⟨oldest, rest, hu⟩ : ∃ oldest rest, L.record.unseen = oldest :: rest := by
        cases hu : L.record.unseen with
        | nil =>
          rw [hu] at hf
          exact absurd hf (Nat.not_succ_le_zero 31)
        | cons oldest rest => exact ⟨oldest, rest, rfl⟩
      have hl := hso.unseen_le
      have hac := hso.account
      have hor := hso.order
      rw [hu] at hl hac hor
      have ht : L.record.unseen.tail = rest := by rw [hu]; rfl
      have hta : L.record.unseen.take 1 = [oldest] := by rw [hu]; rfl
      simp only [hneeds, hf, and_self, if_true, ht, hta]
      refine ⟨⟨?_, hso.named, hon, hbou, hnone, ?_, ?_, ?_, ?_⟩, ?_, Nat.le_refl _⟩
      · show ((L.retired ++ [result]).filter fun o => needsPresentation o.outcome).Perm
          (rest ++ [result] ++ L.removed.map Prod.snd ++ (L.dropped ++ [oldest]))
        rw [hp, List.perm_iff_count]
        intro o
        have hc := (List.perm_iff_count.mp hac) o
        simp only [List.count_append, List.count_cons, List.count_nil] at hc ⊢
        omega
      · show (rest ++ [result]).length ≤ unseenOutcomes
        rw [List.length_append, List.length_singleton]
        rw [List.length_cons] at hl
        exact hl
      · show (rest ++ [result]).Sublist ((L.retired ++ [result]).filter _)
        rw [hp]
        exact ((List.sublist_cons_self _ _).trans hor).append_right _
      · show saturatingSucc L.record.forgotten = (L.dropped ++ [oldest]).length
        rw [hsu, List.length_append, hso.count]
        rfl
      · show L.record.forgottenPresented ≤ saturatingSucc L.record.forgotten
        rw [hsu]
        exact Nat.le_succ_of_le hso.presented
      · show L.record.forgotten ≤ saturatingSucc L.record.forgotten
        rw [hsu]
        exact Nat.le_succ _
    · simp only [hneeds, hf, and_false, if_false, if_true]
      refine ⟨⟨?_, hso.named, hon, hbou, hnone, ?_, ?_, hso.count, hso.presented⟩, CountersLe.refl _⟩
      · show ((L.retired ++ [result]).filter fun o => needsPresentation o.outcome).Perm
          (L.record.unseen ++ [result] ++ L.removed.map Prod.snd ++ L.dropped)
        rw [hp, List.perm_iff_count]
        intro o
        have hc := (List.perm_iff_count.mp hso.account) o
        simp only [List.count_append] at hc ⊢
        omega
      · show (L.record.unseen ++ [result]).length ≤ unseenOutcomes
        rw [List.length_append, List.length_singleton]
        omega
      · show (L.record.unseen ++ [result]).Sublist ((L.retired ++ [result]).filter _)
        rw [hp]
        exact hso.order.append_right _
  · have hp : (L.retired ++ [result]).filter (fun o => needsPresentation o.outcome) = L.presentable := by
      rw [List.filter_append]
      simp [presentable, hneeds]
    simp only [hneeds]
    refine ⟨⟨?_, hso.named, hon, hbou, hnone, hso.unseen_le, ?_, hso.count, hso.presented⟩, CountersLe.refl _⟩
    · show ((L.retired ++ [result]).filter fun o => needsPresentation o.outcome).Perm _
      rw [hp]
      exact hso.account
    · show L.record.unseen.Sublist ((L.retired ++ [result]).filter _)
      rw [hp]
      exact hso.order

theorem Sound.call (hso : L.Sound) {call : Call μ} {record : JournalRecord μ}
    (hf : ∀ sequence mutation, call = .submit sequence mutation →
      sequence < 2 ^ 64 ∧ ∀ o ∈ L.retired, o.sequence ≠ sequence)
    (he : L.record.edit call = .ok (some record)) :
    (L.follow record call).Sound ∧ L.CountersLe (L.follow record call) := by
  cases call with
  | abandon =>
    simp only [JournalRecord.edit] at he
    split at he
    · cases he
    · cases he
      exact ⟨{ hso with fresh := nofun }, CountersLe.refl _⟩
  | settled sequence =>
    simp only [JournalRecord.edit] at he
    split at he
    · cases he
    · cases he
      exact ⟨hso.remove sequence none, CountersLe.refl _⟩
  | forgottenPresented total =>
    simp only [JournalRecord.edit] at he
    split at he
    · cases he
    case isFalse ht =>
      cases he
      exact ⟨{ hso with presented := Nat.min_le_right _ _ }, Nat.le_refl _, by
        show L.record.forgottenPresented ≤ min total L.record.forgotten
        omega⟩
  | presented sequence =>
    simp only [JournalRecord.edit] at he
    split at he
    · cases he
    · cases he
      exact ⟨hso.remove sequence L.record.last, CountersLe.refl _⟩
  | submit sequence mutation =>
    simp only [JournalRecord.edit] at he
    split at he
    · cases he
    cases he
    refine ⟨{ hso with fresh := fun op hpending => ?_ }, CountersLe.refl _⟩
    cases hpending
    exact hf sequence mutation rfl
  | retire result =>
    simp only [JournalRecord.edit] at he
    cases hpending : L.record.pending with
    | none =>
      rw [hpending] at he
      cases he
    | some op =>
      rw [hpending] at he
      dsimp only at he
      split at he
      · cases he
      case isFalse hs =>
        cases he
        exact hso.retire hpending (not_not.mp fun h => hs (.inl h))

end Ledger

/-! ## Runs -/

namespace Journal
variable {μ : Type} [DecidableEq μ] {j j' : Journal μ}

structure Inv (j : Journal μ) : Prop where
  memory : ∀ L, j.memory = some L → L.Sound
  file : ∀ L, j.file = some L → L.Sound
  ahead : ∀ L F, j.memory = some L → j.file = some F → F.CountersLe L

def FileLe (j j' : Journal μ) : Prop :=
  ∀ F, j.file = some F → ∃ F', j'.file = some F' ∧ F.CountersLe F'

omit [DecidableEq μ] in
theorem FileLe.refl (j : Journal μ) : j.FileLe j := fun F hF => ⟨F, hF, .refl F⟩

omit [DecidableEq μ] in
theorem FileLe.trans {j'' : Journal μ} (h : j.FileLe j') (h' : j'.FileLe j'') : j.FileLe j'' := by
  intro F hF
  obtain ⟨F', hF', hl⟩ := h F hF
  obtain ⟨F'', hF'', hl'⟩ := h' F' hF'
  exact ⟨F'', hF'', hl.trans hl'⟩

omit [DecidableEq μ] in
theorem Inv.save (hi : j.Inv) {changed : Ledger μ} (hs : changed.Sound)
    (ha : ∀ F, j.file = some F → F.CountersLe changed) (saving : Saving) :
    (j.save changed saving).Inv ∧ j.FileLe (j.save changed saving) := by
  have hnew : (⟨some changed, some changed⟩ : Journal μ).Inv ∧ j.FileLe ⟨some changed, some changed⟩ := by
    refine ⟨⟨fun L hL => ?_, fun L hL => ?_, fun L F hL hF => ?_⟩, fun F hF => ⟨_, rfl, ha F hF⟩⟩
    · cases hL
      exact hs
    · cases hL
      exact hs
    · cases hL
      cases hF
      exact .refl _
  cases saving with
  | stored => exact hnew
  | failed new reread =>
    cases new with
    | true =>
      cases reread with
      | true | false => exact hnew
    | false =>
      -- the old file stays; the memory is that file again, or is ahead of it
      refine ⟨⟨fun L hL => ?_, hi.file, fun L F hL hF => ?_⟩, FileLe.refl j⟩
      · cases hf : j.file with
        | none =>
          simp only [Journal.save, hf] at hL
          cases reread <;> cases hL <;> exact hs
        | some F =>
          simp only [Journal.save, hf] at hL
          cases reread with
          | true =>
            cases hL
            exact hi.file F hf
          | false =>
            cases hL
            exact hs
      · have hF : j.file = some F := hF
        simp only [Journal.save, hF] at hL
        cases reread with
        | true =>
          cases hL
          exact .refl F
        | false =>
          cases hL
          exact ha F hF

theorem Inv.step (hi : j.Inv) {e : Event μ} (hst : j.Step e j') : j'.Inv ∧ j.FileLe j' := by
  obtain ⟨hfr, rfl⟩ := hst
  cases e with
  | opens core client =>
    refine ⟨?_, ?_⟩
    · show (j.opens core client).Inv
      unfold Journal.opens
      dsimp only
      split
      · exact ⟨nofun, hi.file, nofun⟩
      refine ⟨fun L hL => ?_, hi.file, fun L F hL hF => ?_⟩
      · cases hL
        cases hf : j.file with
        | none => exact Ledger.sound_new core client
        | some F => exact hi.file F hf
      have hF : j.file = some F := hF
      cases hL
      rw [hF]
      exact .refl F
    · show j.FileLe (j.opens core client)
      unfold Journal.opens
      dsimp only
      split
      · exact FileLe.refl j
      · exact FileLe.refl j
  | call call saving =>
    simp only [Journal.step]
    cases hme : j.memory with
    | none => exact ⟨hi, FileLe.refl j⟩
    | some L =>
      dsimp only
      split
      · exact ⟨hi, FileLe.refl j⟩
      · exact ⟨hi, FileLe.refl j⟩
      case h_3 record he =>
        have hc : ∀ sequence mutation, call = .submit sequence mutation →
            sequence < 2 ^ 64 ∧ ∀ o ∈ L.retired, o.sequence ≠ sequence := by
          rintro sequence mutation rfl
          exact ⟨hfr.1, hfr.2 L hme⟩
        obtain ⟨hs, hl⟩ := (hi.memory L hme).call hc he
        exact hi.save hs (fun F hF => (hi.ahead L F hme hF).trans hl) saving

omit [DecidableEq μ] in
theorem inv_new : (⟨none, none⟩ : Journal μ).Inv :=
  ⟨nofun, nofun, nofun⟩

theorem Inv.run {es : List (Event μ)} (hi : j.Inv) (hr : Run Step j es j') : j'.Inv ∧ j.FileLe j' :=
  ⟨hr.invariant hi fun hs hst => (hs.step hst).1,
    hr.preserves hi (fun hs hst => (hs.step hst).1) FileLe.refl
      fun ht hl hst => hl.trans (ht.step hst).2⟩

/-- In the stored record of every run: an outcome that needed presentation and whose retire it
reflects is unseen, was removed by a call that named its sequence, or was forgotten and counted, and
is only one of these; no retire is reflected twice; the unseen outcomes are at most `unseenOutcomes`,
in the order they were retired. From there on both counters only grow. Only a journal with nothing
pending takes a submission, and only the pending operation is retired. -/
theorem outcomes_accounted {es : List (Event μ)} (hrun : Run Step ⟨none, none⟩ es j) :
    (∀ L, j.file = some L →
      (∀ o ∈ L.retired, needsPresentation o.outcome = true →
        (o ∈ L.record.unseen ∧ (o.sequence, o) ∉ L.removed ∧ o ∉ L.dropped) ∨
        (o ∉ L.record.unseen ∧ (o.sequence, o) ∈ L.removed ∧ o ∉ L.dropped) ∨
        (o ∉ L.record.unseen ∧ (o.sequence, o) ∉ L.removed ∧ o ∈ L.dropped)) ∧
      (L.retired.map Retained.sequence).Nodup ∧
      L.dropped.Nodup ∧ L.dropped ⊆ L.retired ∧ L.record.forgotten = L.dropped.length ∧
      L.record.unseen.length ≤ unseenOutcomes ∧ L.record.unseen.Sublist L.retired ∧
      L.record.forgottenPresented ≤ L.record.forgotten) ∧
    (∀ es' j', Run Step j es' j' → ∀ L, j.file = some L → ∃ L', j'.file = some L' ∧
      L.record.forgotten ≤ L'.record.forgotten ∧
      L.record.forgottenPresented ≤ L'.record.forgottenPresented) ∧
    ∀ L, j.memory = some L →
      (∀ sequence mutation changed, L.record.edit (.submit sequence mutation) = .ok changed →
        L.record.pending = none) ∧
      ∀ result changed, L.record.edit (.retire result) = .ok changed →
        L.record.pending = some ⟨result.sequence, result.mutation⟩ := by
  have hi := (inv_new.run hrun).1
  refine ⟨fun L hL => ?_, fun es' j' hrun' => (hi.run hrun').2, fun L _ => ⟨?_, ?_⟩⟩
  · have hso := hi.file L hL
    have hno : L.presentable.Nodup := (hso.once.of_map _).filter _
    have hpa := hso.account.nodup_iff.mp hno
    obtain ⟨hf, hd, ha⟩ := List.nodup_append.mp hpa
    obtain ⟨-, -, ha'⟩ := List.nodup_append.mp hf
    have hr : ∀ o, (o.sequence, o) ∈ L.removed ↔ o ∈ L.removed.map Prod.snd := by
      intro o
      refine ⟨fun hmem => List.mem_map.mpr ⟨_, hmem, rfl⟩, fun hmem => ?_⟩
      obtain ⟨⟨sequence, o'⟩, hp, rfl⟩ := List.mem_map.mp hmem
      obtain rfl : sequence = o'.sequence := hso.named _ hp
      exact hp
    refine ⟨fun o ho hneeds => ?_, hso.once, hd, fun o ho => ?_, hso.count,
      hso.unseen_le, hso.order.trans List.filter_sublist, hso.presented⟩
    · have hmem := hso.account.mem_iff.mp (List.mem_filter.mpr ⟨ho, hneeds⟩)
      rw [hr]
      rcases List.mem_append.mp hmem with hmem | hmem
      · have hnot : o ∉ L.dropped := fun h => ha o hmem o h rfl
        rcases List.mem_append.mp hmem with hmem | hmem
        · exact .inl ⟨hmem, fun h => ha' o hmem o h rfl, hnot⟩
        · exact .inr (.inl ⟨fun h => ha' o h o hmem rfl, hmem, hnot⟩)
      · exact .inr (.inr ⟨fun h => ha o (List.mem_append_left _ h) o hmem rfl,
          fun h => ha o (List.mem_append_right _ h) o hmem rfl, hmem⟩)
    · exact (List.mem_filter.mp (hso.account.mem_iff.mpr (List.mem_append_right _ ho))).1
  · intro sequence mutation changed he
    simp only [JournalRecord.edit] at he
    cases hpending : L.record.pending with
    | none => rfl
    | some op =>
      rw [hpending] at he
      cases he
  · intro result changed he
    simp only [JournalRecord.edit] at he
    cases hpending : L.record.pending with
    | none =>
      rw [hpending] at he
      cases he
    | some op =>
      rw [hpending] at he
      dsimp only at he
      split at he
      · cases he
      case isFalse hs =>
        obtain ⟨hse, hmu⟩ := not_or.mp hs
        rw [← not_not.mp hse, ← not_not.mp hmu]

/-- A refused edit is retired with a save that fails on the old content, retired again, and is unseen
once in the file. -/
theorem outcomes_accounted_repeated :
    ∃ j : Journal Nat, ∃ L, Run Step ⟨none, none⟩
      [.opens 1 2, .call (.submit 7 0) .stored, .call (.retire ⟨7, 0, .conflict⟩) (.failed false true),
        .call (.retire ⟨7, 0, .conflict⟩) .stored] j ∧
      j.file = some L ∧ L.retired = [⟨7, 0, .conflict⟩] ∧
      (⟨7, 0, .conflict⟩ ∈ L.record.unseen ∨ (7, ⟨7, 0, .conflict⟩) ∈ L.removed ∨
        ⟨7, 0, .conflict⟩ ∈ L.dropped) := by
  have hr : Run Step (⟨none, none⟩ : Journal Nat)
      [.opens 1 2, .call (.submit 7 0) .stored, .call (.retire ⟨7, 0, .conflict⟩) (.failed false true),
        .call (.retire ⟨7, 0, .conflict⟩) .stored]
      (((((⟨none, none⟩ : Journal Nat).step (.opens 1 2)).step (.call (.submit 7 0) .stored)).step
        (.call (.retire ⟨7, 0, .conflict⟩) (.failed false true))).step
        (.call (.retire ⟨7, 0, .conflict⟩) .stored)) := by
    refine .cons ⟨trivial, rfl⟩ (.cons ⟨⟨by decide, fun L hL => ?_⟩, rfl⟩
      (.cons ⟨trivial, rfl⟩ (.single ⟨trivial, rfl⟩)))
    cases hL
    exact nofun
  refine ⟨_, _, hr, rfl, rfl, ?_⟩
  rcases ((outcomes_accounted hr).1 _ rfl).1 ⟨7, 0, .conflict⟩ (List.mem_singleton.mpr rfl) rfl with
    h | h | h
  · exact .inl h.1
  · exact .inr (.inl h.2.1)
  · exact .inr (.inr h.2.2)

end Journal

end SpaceTerm.Edits.ClientJournal
