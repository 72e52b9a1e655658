import Mathlib.Data.List.Nodup
import Mathlib.Data.List.Range
import SpaceTerm.Hierarchy.EditCases

/-! # The device log

`LogOk`: no device has two records, and the outcomes of a record carry the sequences `retired + 1`,
`retired + 2`, …. Under it a lookup is membership (`outcome_eq_some`), so what each operation does to
the log is said by which outcomes are retained afterwards (`Retains`). -/

namespace SpaceTerm.Hierarchy
open Lib

namespace DeviceOutcomes

/-- The retained outcomes carry the sequences from `retired + 1` on, without a gap. -/
def Contiguous (d : DeviceOutcomes) : Prop :=
  d.pending.map (·.sequence) = List.range' (d.retired + 1) d.pending.length

variable {d : DeviceOutcomes}

theorem contiguous_nil (device : Id) (retired : Nat) : Contiguous ⟨device, retired, []⟩ := rfl

theorem Contiguous.push (h : d.Contiguous) {o : RetainedOutcome}
    (ho : o.sequence = d.retired + d.pending.length + 1) :
    Contiguous { d with pending := d.pending ++ [o] } := by
  unfold Contiguous at h ⊢
  simp only [List.map_append, h, List.map_cons, List.map_nil, List.length_append,
    List.length_singleton, List.range'_concat, ho]
  congr 2
  omega

theorem Contiguous.sequence_lt (h : d.Contiguous) {o : RetainedOutcome} (ho : o ∈ d.pending) :
    d.retired < o.sequence ∧ o.sequence ≤ d.retired + d.pending.length := by
  have hmem : o.sequence ∈ d.pending.map (·.sequence) := List.mem_map_of_mem ho
  rw [h, List.mem_range'_1] at hmem
  omega

theorem Contiguous.nodup (h : d.Contiguous) : (d.pending.map (·.sequence)).Nodup := by
  rw [h]
  exact List.nodup_range' ..

theorem Contiguous.getLast? (h : d.Contiguous) :
    (d.pending.getLast?.map (·.sequence)).getD d.retired = d.retired + d.pending.length := by
  rcases List.eq_nil_or_concat' d.pending with hni | ⟨init, last, hl⟩
  · simp [hni]
  have hr : d.pending.map (·.sequence) = _ := h
  rw [hl] at hr
  have hs := congrArg List.getLast? hr
  simp [List.getLast?_range'] at hs
  simp [hl]
  omega

theorem Contiguous.append {device : Id} {retired : Nat} {a b : List RetainedOutcome}
    (h : Contiguous ⟨device, retired, a ++ b⟩) :
    Contiguous ⟨device, retired, a⟩ ∧ Contiguous ⟨device, retired + a.length, b⟩ := by
  unfold Contiguous at h ⊢
  simp only [List.map_append, List.length_append] at h
  rw [← List.range'_append_1] at h
  obtain ⟨ha, hb⟩ := List.append_inj h (by simp)
  refine ⟨ha, ?_⟩
  show b.map (·.sequence) = List.range' (retired + a.length + 1) b.length
  rw [hb, Nat.add_right_comm]

theorem Contiguous.retire (h : d.Contiguous) {d' : DeviceOutcomes} {sequence : Nat}
    (hd : d.retire sequence = .ok d') :
    d'.Contiguous ∧ d'.device = d.device ∧ d'.pending <:+ d.pending ∧
      d'.retired + d'.pending.length = d.retired + d.pending.length ∧
      ∀ o ∈ d.pending, sequence < o.sequence → o ∈ d'.pending := by
  simp only [DeviceOutcomes.retire] at hd
  set settled := d.pending.takeWhile (·.sequence ≤ sequence) with hs
  split at hd
  · cases hd
  simp only [Except.ok.injEq] at hd
  obtain ⟨rest, hrest⟩ : ∃ rest, d.pending = settled ++ rest :=
    ⟨_, List.takeWhile_append_dropWhile.symm⟩
  have hsp : Contiguous ⟨d.device, d.retired, settled ++ rest⟩ := by rw [← hrest]; exact h
  obtain ⟨hfront, hback⟩ := hsp.append
  have hr : d'.retired = d.retired + settled.length := by
    rw [← hfront.getLast?, ← hd]
    cases hl : settled.getLast? with
    | none => rfl
    | some last =>
      have hlt := hfront.sequence_lt (List.mem_of_getLast? hl)
      simp only at hlt
      simp only [Option.map_some, Option.getD_some]
      omega
  have hpending : d'.pending = rest := by
    rw [← hd]
    simp [hrest]
  have hde : d'.device = d.device := by rw [← hd]
  refine ⟨?_, hde, ?_, ?_, ?_⟩
  · unfold Contiguous
    rw [hr, hpending]
    exact hback
  · rw [hpending, hrest]
    exact List.suffix_append ..
  · rw [hr, hpending, hrest, List.length_append]
    omega
  intro o ho hlt
  rw [hrest, List.mem_append] at ho
  rcases ho with ho | ho
  · have := List.mem_takeWhile_imp ho
    simp at this
    omega
  · rwa [hpending]

end DeviceOutcomes

/-- No device has two records, and each record's sequences are contiguous. -/
structure LogOk (devices : List DeviceOutcomes) : Prop where
  nodup : (devices.map (·.device)).Nodup
  contiguous : ∀ d ∈ devices, d.Contiguous

def Retains (devices : List DeviceOutcomes) (device : Id) (o : RetainedOutcome) : Prop :=
  ∃ d ∈ devices, d.device = device ∧ o ∈ d.pending

theorem retains_middle {l r : List DeviceOutcomes} {d : DeviceOutcomes} {dev : Id} {o : RetainedOutcome} :
    Retains (l ++ d :: r) dev o ↔ (d.device = dev ∧ o ∈ d.pending) ∨ Retains (l ++ r) dev o := by
  simp only [Retains, List.mem_append, List.mem_cons, or_and_right, exists_or, exists_eq_left]
  exact or_left_comm

namespace LogOk
variable {s : State} {device : Id} {sequence : Nat} {d : DeviceOutcomes} {o : RetainedOutcome}
  {devices : List DeviceOutcomes}

theorem nil : LogOk [] := ⟨List.nodup_nil, fun _ h => by cases h⟩

theorem device?_eq_some (h : LogOk s.devices) : s.device? device = some d ↔ d ∈ s.devices ∧ d.device = device := by
  refine ⟨fun hd => ⟨List.mem_of_find?_eq_some hd, by simpa using List.find?_some hd⟩, ?_⟩
  rintro ⟨hmem, rfl⟩
  exact find?_eq_some_of_nodup h.nodup hmem

theorem outcome_eq_some (h : LogOk s.devices) :
    s.outcome device sequence = some o ↔ Retains s.devices device o ∧ o.sequence = sequence := by
  simp only [State.outcome, Option.bind_eq_bind, Option.bind_eq_some_iff, h.device?_eq_some]
  constructor
  · rintro ⟨d, ⟨hd, hde⟩, ho⟩
    exact ⟨⟨d, hd, hde, List.mem_of_find?_eq_some ho⟩, by simpa using List.find?_some ho⟩
  · rintro ⟨⟨d, hd, hde, ho⟩, rfl⟩
    exact ⟨d, ⟨hd, hde⟩, find?_eq_some_of_nodup (h.contiguous d hd).nodup ho⟩

theorem nextSequence_eq (h : LogOk s.devices) (hd : s.device? device = some d) :
    s.nextSequence device = d.retired + d.pending.length + 1 := by
  have hla := (h.contiguous d (h.device?_eq_some.mp hd).1).getLast?
  simp only [State.nextSequence, hd]
  cases hl : d.pending.getLast? <;> simp [hl] at hla ⊢ <;> omega

theorem sublist (h : LogOk devices) {rest : List DeviceOutcomes} (hs : rest.Sublist devices) : LogOk rest :=
  ⟨h.nodup.sublist (hs.map _), fun d hd => h.contiguous d (hs.subset hd)⟩

theorem perm (h : LogOk devices) {other : List DeviceOutcomes} (hp : other.Perm devices) : LogOk other :=
  ⟨(hp.map _).nodup_iff.mpr h.nodup, fun d hd => h.contiguous d (hp.subset hd)⟩

theorem concat (h : LogOk devices) (hd : d.Contiguous) (hnew : ∀ e ∈ devices, e.device ≠ d.device) :
    LogOk (devices ++ [d]) := by
  refine ⟨?_, fun e he => ?_⟩
  · rw [List.map_append, List.nodup_append]
    refine ⟨h.nodup, by simp, ?_⟩
    rintro x hx y hy rfl
    obtain ⟨e, he, hde⟩ := List.mem_map.mp hx
    exact hnew e he (hde.trans (by simpa using hy))
  · rcases List.mem_append.mp he with he | he
    · exact h.contiguous e he
    · rwa [List.mem_singleton.mp he]

theorem replace {l r : List DeviceOutcomes} {d' : DeviceOutcomes} (h : LogOk (l ++ d :: r))
    (hde : d'.device = d.device) (hd' : d'.Contiguous) : LogOk (l ++ d' :: r) := by
  refine ⟨by simpa [hde] using h.nodup, fun e he => ?_⟩
  rcases List.mem_append.mp he with he | he
  · exact h.contiguous e (by simp [he])
  rcases List.mem_cons.mp he with rfl | he
  · exact hd'
  · exact h.contiguous e (by simp [he])

end LogOk

/-! ### Admission -/

namespace State
variable {s s' : State} {device : Id} {sequence : Nat} {mutation : Mutation} {directory : PathBuf}
  {validatePin : PathBuf → Bool} {fresh : Nat → Option Id} {outcome : Outcome}
  {devices : List DeviceOutcomes} {floor : Nat}

/-- What an execution was admitted under. The submitting device's record, found or new, goes last;
a new record may replace one that retains nothing. -/
theorem admission_execute (h : s.admission device sequence mutation = .execute devices floor) :
    mutation.isBounded ∧ s.outcome device sequence = none ∧ s.expected device sequence ∧
      sequence ≠ u64Max ∧ s.retainedCount < maxOutcomes ∧
      ∃ base record, devices = base ++ [record] ∧
        ((s.device? device = some record ∧ base = s.devices.eraseP (·.device == device) ∧
            floor = s.sequenceFloor) ∨
          (s.device? device = none ∧ record = ⟨device, sequence - 1, []⟩ ∧
            ((s.devices.length < maxDevices ∧ base = s.devices ∧ floor = s.sequenceFloor) ∨
              ∃ replaced, s.devices.find? (·.pending.isEmpty) = some replaced ∧
                base = s.devices.eraseP (·.pending.isEmpty) ∧
                floor = max s.sequenceFloor replaced.retired))) := by
  unfold admission at h
  split at h
  · cases h
  rename_i hb
  split at h
  · split at h <;> cases h
  rename_i hnone
  split at h
  · cases h
  rename_i he
  split at h
  · cases h
  rename_i hc
  simp only [Bool.or_eq_true, Bool.not_eq_eq_eq_not, Bool.not_true, beq_iff_eq, not_or, Bool.not_eq_false] at he
  refine ⟨by simpa using hb, hnone, he.1, he.2, by simpa using hc, ?_⟩
  split at h
  · rename_i record hr
    cases h
    exact ⟨_, _, rfl, .inl ⟨hr, rfl, rfl⟩⟩
  rename_i hd
  simp only at h
  split at h
  · split at h
    · cases h
    rename_i replaced hre
    cases h
    exact ⟨_, _, rfl, .inr ⟨hd, rfl, .inr ⟨replaced, hre, rfl, rfl⟩⟩⟩
  · rename_i hl
    cases h
    exact ⟨_, _, rfl, .inr ⟨hd, rfl, .inl ⟨by simpa using hl, rfl, rfl⟩⟩⟩

/-- A call of `apply` that returns replays a retained outcome, or executes and records one. -/
theorem apply_ok (h : s.apply device sequence mutation directory validatePin fresh = .ok (s', outcome)) :
    (s.admission device sequence mutation = .replay outcome ∧ s' = s) ∨
      ∃ devices floor s₁, s.admission device sequence mutation = .execute devices floor ∧
        ({ s with devices, sequenceFloor := floor } : State).edit device mutation directory
          validatePin fresh = .ok (s₁, outcome) ∧
        s₁.recordOutcome { sequence, mutation, outcome } = .ok s' := by
  unfold apply at h
  split at h
  · cases h
  · rename_i hre
    cases h
    exact .inl ⟨hre, rfl⟩
  rename_i devices floor hex
  simp only [bind, Except.bind, pure, Except.pure] at h
  split at h
  · cases h
  rename_i edited he
  split at h
  · cases h
  rename_i recorded hr
  cases h
  exact .inr ⟨devices, floor, _, hex, he, hr⟩

/-- The table an execution runs under: the submitting device's record is last and expects
`sequence`, and every outcome retained before is retained still. -/
theorem execute_log (hl : LogOk s.devices) (h : s.admission device sequence mutation = .execute devices floor) :
    ∃ base record, devices = base ++ [record] ∧ record.device = device ∧
      sequence = record.retired + record.pending.length + 1 ∧ LogOk devices ∧
      ∀ dev o, Retains devices dev o ↔ Retains s.devices dev o := by
  obtain ⟨_, _, hex, _, _, base, record, rfl, hc⟩ := admission_execute h
  refine ⟨base, record, rfl, ?_⟩
  rcases hc with ⟨hr, rfl, -⟩ | ⟨hnone, rfl, hb⟩
  · obtain ⟨l, r, hs, hd, -, -, her⟩ := exists_split hr
    have hp : (l ++ r ++ [record]).Perm s.devices := by
      rw [hs]
      exact (List.perm_append_singleton _ _).trans List.perm_middle.symm
    simp only [expected, hr, beq_iff_eq, hl.nextSequence_eq hr] at hex
    refine ⟨by simpa using hd, hex, ?_, fun dev o => ?_⟩
    · rw [her]
      exact hl.perm hp
    · rw [her]
      exact exists_congr fun d => and_congr_left' hp.mem_iff
  simp only [expected, hnone, Bool.and_eq_true, decide_eq_true_eq] at hex
  have hnew : ∀ e ∈ s.devices, e.device ≠ device := by
    simpa [device?, List.find?_eq_none] using hnone
  refine ⟨rfl, by simp only [List.length_nil]; omega, ?_⟩
  rcases hb with ⟨-, rfl, -⟩ | ⟨replaced, hre, rfl, -⟩
  · refine ⟨hl.concat (DeviceOutcomes.contiguous_nil _ _) hnew, fun dev o => ?_⟩
    simp [Retains, or_and_right, exists_or]
  obtain ⟨l, r, hs, hidle, -, -, her⟩ := exists_split hre
  have hempty : replaced.pending = [] := by simpa using hidle
  rw [her]
  refine ⟨(hl.sublist ?_).concat (DeviceOutcomes.contiguous_nil _ _)
    fun e he => hnew e ?_, fun dev o => ?_⟩
  · rw [hs]
    exact List.Sublist.append_left (List.sublist_cons_self _ _) l
  · rw [hs]
    rcases List.mem_append.mp he with he | he <;> simp [he]
  · rw [hs]
    simp [Retains, or_and_right, exists_or, hempty]

theorem apply_execute (hl : LogOk s.devices) {s₁ : State}
    (h : s.admission device sequence mutation = .execute devices floor)
    (he : ({ s with devices, sequenceFloor := floor } : State).edit device mutation directory
      validatePin fresh = .ok (s₁, outcome))
    (hr : s₁.recordOutcome { sequence, mutation, outcome } = .ok s') :
    LogOk s'.devices ∧ ∀ dev o, Retains s'.devices dev o ↔
      Retains s.devices dev o ∨ (dev = device ∧ o = ⟨sequence, mutation, outcome⟩) := by
  obtain ⟨base, record, rfl, hd, hse, hl₁, hre⟩ := execute_log hl h
  have hs := (edit_sameLog he).devices
  simp only [recordOutcome, hs, List.getLast?_append, List.getLast?_singleton, Option.some_or,
    List.dropLast_concat, Except.ok.injEq] at hr
  subst hr
  have hp := (hl₁.contiguous record (by simp)).push
    (o := ⟨sequence, mutation, outcome⟩) hse
  refine ⟨LogOk.replace (r := []) hl₁ rfl hp, fun dev o => ?_⟩
  rw [← hre]
  simp only [Retains, List.mem_append, List.mem_singleton, or_and_right, exists_or,
    exists_eq_left, hd, and_or_left, eq_comm (a := device), or_assoc]

theorem acknowledge_ok (hl : LogOk s.devices) (h : s.acknowledge device sequence = .ok s') :
    LogOk s'.devices ∧ (∀ dev o, Retains s'.devices dev o → Retains s.devices dev o) ∧
      ∀ dev o, Retains s.devices dev o → Retains s'.devices dev o ∨ (dev = device ∧ o.sequence ≤ sequence) := by
  unfold acknowledge at h
  split at h
  · cases h
    exact ⟨hl, fun dev o ho => ho, fun dev o ho => .inl ho⟩
  rename_i d hd
  simp only [bind, Except.bind, pure, Except.pure] at h
  split at h
  · cases h
  rename_i d' hd'
  cases h
  obtain ⟨l, r, hs, -, -, hmo, -⟩ := exists_split hd
  have hmem := (hl.device?_eq_some.mp hd)
  obtain ⟨hc, hdev, hsu, -, hke⟩ := (hl.contiguous d hmem.1).retire hd'
  simp only [hmo]
  rw [hs] at hl ⊢
  refine ⟨hl.replace hdev hc, fun dev o ho => ?_, fun dev o ho => ?_⟩
  · rw [retains_middle] at ho ⊢
    exact ho.imp_left fun ⟨hde, ho⟩ => ⟨hdev.symm.trans hde, hsu.subset ho⟩
  rw [retains_middle] at ho ⊢
  rcases ho with ⟨hde, ho⟩ | ho
  · rcases Nat.lt_or_ge sequence o.sequence with hlt | hg
    · exact .inl (.inl ⟨hdev.trans hde, hke o ho hlt⟩)
    · exact .inr ⟨hde.symm.trans hmem.2, hg⟩
  · exact .inl (.inr ho)

def SettledFrom (o o' : RetainedOutcome) : Prop :=
  o'.sequence = o.sequence ∧ o'.mutation = o.mutation ∧ (o'.outcome = o.outcome ∨ o.outcome = .pending)

theorem finishWorktree_ok (hl : LogOk s.devices) (h : s.finishWorktree device sequence outcome = .ok s') :
    LogOk s'.devices ∧ (∀ dev o, Retains s.devices dev o → ∃ o', Retains s'.devices dev o' ∧ SettledFrom o o') ∧
      ∀ dev o', Retains s'.devices dev o' → ∃ o, Retains s.devices dev o ∧ SettledFrom o o' := by
  unfold finishWorktree at h
  split at h
  · cases h
  rename_i old hold
  split at h
  · cases h
  rename_i hg
  simp only [Bool.or_eq_true, bne_iff_ne, ne_eq, Bool.not_eq_eq_eq_not, Bool.not_true,
    beq_iff_eq, not_or, not_not] at hg
  obtain ⟨⟨hpending, -⟩, -⟩ := hg
  cases h
  simp only [State.outcome, Option.bind_eq_bind, Option.bind_eq_some_iff] at hold
  obtain ⟨d, hd, hold⟩ := hold
  obtain ⟨l, r, hsp, -, -, hmo, -⟩ := exists_split hd
  obtain ⟨front, back, hp, hs, -, hse, -⟩ := exists_split hold
  have hd₀ := hl.contiguous d (List.mem_of_find?_eq_some hd)
  have hke : ∀ o, SettledFrom o o := fun o => ⟨rfl, rfl, .inl rfl⟩
  have hnew : SettledFrom old { old with outcome } := ⟨rfl, rfl, .inr hpending⟩
  simp only [hmo, hse]
  rw [hsp] at hl ⊢
  refine ⟨hl.replace rfl ?_, fun dev o ho => ?_, fun dev o ho => ?_⟩
  · simpa [DeviceOutcomes.Contiguous, hp] using hd₀
  · rw [retains_middle, hp] at ho
    simp only [retains_middle]
    rcases ho with ⟨hde, ho⟩ | ho
    · rcases List.mem_append.mp ho with ho | ho
      · exact ⟨o, .inl ⟨hde, by simp [ho]⟩, hke o⟩
      rcases List.mem_cons.mp ho with rfl | ho
      · exact ⟨_, .inl ⟨hde, by simp⟩, hnew⟩
      · exact ⟨o, .inl ⟨hde, by simp [ho]⟩, hke o⟩
    · exact ⟨o, .inr ho, hke o⟩
  · rw [retains_middle] at ho
    simp only [retains_middle, hp]
    rcases ho with ⟨hde, ho⟩ | ho
    · rcases List.mem_append.mp ho with ho | ho
      · exact ⟨o, .inl ⟨hde, by simp [ho]⟩, hke o⟩
      rcases List.mem_cons.mp ho with rfl | ho
      · exact ⟨old, .inl ⟨hde, by simp⟩, hnew⟩
      · exact ⟨o, .inl ⟨hde, by simp [ho]⟩, hke o⟩
    · exact ⟨o, .inr ho, hke o⟩

end State

end SpaceTerm.Hierarchy
