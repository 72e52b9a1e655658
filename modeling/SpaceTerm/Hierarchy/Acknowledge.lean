import SpaceTerm.Hierarchy.Validated

/-! # Acknowledgements are cumulative

`State::acknowledge` on a state that validates. The sequences of a record's outcomes increase, so the
outcomes it drains from the front are those up to the acknowledged sequence, and two
acknowledgements drain what the larger one does. -/

namespace SpaceTerm.Hierarchy
open Lib

namespace State
variable {s s' : State} {device : Id} {sequence : Nat}

/-- The sequences that pass the check follow `retired` without a gap. -/
theorem contiguous_of_checkPending {retired index : Nat} {os : List RetainedOutcome}
    (h : checkPending retired index os) :
    os.map (·.sequence) = List.range' (retired + index + 1) os.length := by
  induction os generalizing index with
  | nil => rfl
  | cons o os ih =>
    simp only [checkPending, Bool.and_eq_true, beq_iff_eq] at h
    obtain ⟨⟨⟨-, hs⟩, -⟩, hrest⟩ := h
    rw [List.map_cons, ih hrest, hs]
    rfl

theorem logOk_of_checkDevices {seen : List Id} {ds : List DeviceOutcomes} (h : checkDevices seen ds) :
    LogOk ds ∧ ∀ d ∈ ds, d.device ∉ seen := by
  induction ds generalizing seen with
  | nil => exact ⟨.nil, by simp⟩
  | cons d ds ih =>
    simp only [checkDevices, Bool.and_eq_true, Bool.not_eq_true', List.contains_eq_mem,
      decide_eq_false_iff_not] at h
    obtain ⟨⟨⟨hnew, -⟩, hpending⟩, hrest⟩ := h
    obtain ⟨hl, ho⟩ := ih hrest
    have hne (e : DeviceOutcomes) (he : e ∈ ds) : e.device ≠ d.device ∧ e.device ∉ seen := by
      simpa [not_or] using ho e he
    refine ⟨⟨List.nodup_cons.mpr ⟨fun hmem => ?_, hl.nodup⟩, ?_⟩, ?_⟩
    · obtain ⟨e, he, hs⟩ := List.mem_map.mp hmem
      exact (hne e he).1 hs
    · exact List.forall_mem_cons.mpr ⟨contiguous_of_checkPending hpending, hl.contiguous⟩
    · exact List.forall_mem_cons.mpr ⟨hnew, fun e he => (hne e he).2⟩

theorem logOk_of_validate (h : s.validate) : LogOk s.devices := by
  simp only [validate, Bool.and_eq_true] at h
  exact (logOk_of_checkDevices h.2).1

def retained (s : State) (device : Id) : List RetainedOutcome :=
  ((s.device? device).map (·.pending)).getD []

def acknowledgeInPlace (s : State) (device : Id) (sequence : Nat) : Except Refusal Unit × State :=
  match s.device? device with
  | none => (.ok (), s)
  | some d =>
    let settled := (d.pending.takeWhile (·.sequence ≤ sequence)).length
    if (d.pending.take settled).any (·.outcome == .pending) then (.error .stale, s)
    else
      let drained := d.pending.take settled
      let d := { d with pending := d.pending.drop settled }
      let d := match drained.getLast? with
        | some last => { d with retired := max d.retired last.sequence }
        | none => d
      (.ok (), { s with devices := modifyFirst (·.device == device) (fun _ => d) s.devices })

theorem acknowledgeInPlace_eq (s : State) (device : Id) (sequence : Nat) :
    s.acknowledgeInPlace device sequence = match s.acknowledge device sequence with
      | .ok s' => (.ok (), s')
      | .error refusal => (.error refusal, s) := by
  unfold acknowledgeInPlace acknowledge
  cases s.device? device with
  | none => rfl
  | some d =>
    have ht : d.pending.take (d.pending.takeWhile (·.sequence ≤ sequence)).length =
        d.pending.takeWhile (·.sequence ≤ sequence) :=
      (List.prefix_iff_eq_take.mp (List.takeWhile_prefix _)).symm
    simp only [DeviceOutcomes.retire, ht]
    split
    · rfl
    · cases (d.pending.takeWhile (·.sequence ≤ sequence)).getLast? <;> rfl

end State

namespace DeviceOutcomes
variable {d d' : DeviceOutcomes} {sequence : Nat}

theorem Contiguous.drained (h : d.Contiguous) (sequence : Nat) :
    d.pending.takeWhile (·.sequence ≤ sequence) = d.pending.filter (·.sequence ≤ sequence) ∧
      d.pending.drop (d.pending.takeWhile (·.sequence ≤ sequence)).length =
        d.pending.filter (sequence < ·.sequence) := by
  have hr : (d.pending.map (·.sequence)).Pairwise (· < ·) := by
    rw [h]
    exact List.pairwise_lt_range'
  exact takeWhile_eq_filter (List.pairwise_map.mp hr) sequence

theorem Contiguous.retire_error (h : d.Contiguous) {refusal : Refusal} :
    d.retire sequence = .error refusal ↔
      refusal = .stale ∧ ∃ o ∈ d.pending, o.sequence ≤ sequence ∧ o.outcome = .pending := by
  simp only [DeviceOutcomes.retire, (h.drained sequence).1]
  split
  · rename_i ha
    refine ⟨fun he => ⟨by simpa using he.symm, by simpa [and_assoc] using ha⟩, fun he => ?_⟩
    rw [he.1]
  rename_i ha
  refine ⟨fun he => ?_, fun he => absurd ?_ ha⟩
  · cases he
  · simpa [and_assoc] using he.2

theorem Contiguous.retire_pending (h : d.Contiguous) (hd : d.retire sequence = .ok d') :
    d'.pending = d.pending.filter (sequence < ·.sequence) := by
  rw [← (h.drained sequence).2]
  simp only [DeviceOutcomes.retire] at hd
  split at hd
  · cases hd
  · rw [← Except.ok.inj hd]

theorem Contiguous.retire_retire (h : d.Contiguous) (hd : d.retire sequence = .ok d') (later : Nat) :
    d'.retire later = d.retire (max sequence later) := by
  obtain ⟨h', hde, -, hle, -⟩ := h.retire hd
  have hpending := h.retire_pending hd
  -- Nothing up to the first sequence waits, so both refuse for an outcome between the two.
  have he (refusal : Refusal) : d'.retire later = .error refusal ↔
      d.retire (max sequence later) = .error refusal := by
    rw [h'.retire_error, h.retire_error, hpending]
    refine and_congr_right fun _ => ⟨?_, ?_⟩
    · rintro ⟨o, ho, hl, hw⟩
      exact ⟨o, List.mem_of_mem_filter ho, hl.trans (le_max_right ..), hw⟩
    rintro ⟨o, ho, hl, hw⟩
    have hlt : sequence < o.sequence := by
      by_contra hl'
      have hr := h.retire_error.mpr ⟨rfl, o, ho, Nat.not_lt.mp hl', hw⟩
      rw [hd] at hr
      cases hr
    exact ⟨o, by simpa using ⟨ho, hlt⟩, by omega, hw⟩
  cases hf : d'.retire later with
  | error refusal => exact ((he refusal).mp hf).symm
  | ok e =>
    cases hb : d.retire (max sequence later) with
    | error refusal =>
      rw [(he refusal).mpr hb] at hf
      cases hf
    | ok e' =>
      obtain ⟨-, hde₁, -, hle₁, -⟩ := h'.retire hf
      obtain ⟨-, hde₂, -, hle₂, -⟩ := h.retire hb
      have hs : e.pending = e'.pending := by
        rw [h'.retire_pending hf, h.retire_pending hb, hpending, List.filter_filter]
        refine List.filter_congr fun o _ => ?_
        rw [← Bool.decide_and, decide_eq_decide]
        omega
      have hre : e.retired = e'.retired := by
        rw [hs] at hle₁
        omega
      congr 1
      cases e
      cases e'
      simp_all

end DeviceOutcomes

namespace State
variable {s s' : State} {device : Id} {sequence : Nat}

theorem acknowledge_cases (hlo : LogOk s.devices) (h : s.acknowledge device sequence = .ok s') :
    (s.device? device = none ∧ s' = s) ∨ ∃ l d d' r, s.devices = l ++ d :: r ∧ d.device = device ∧
      (∀ e ∈ l, (e.device == device) = false) ∧ d.Contiguous ∧ d.retire sequence = .ok d' ∧
      d'.device = device ∧ s' = { s with devices := l ++ d' :: r } := by
  unfold acknowledge at h
  split at h
  · next hnone => exact .inl ⟨hnone, (Except.ok.inj h).symm⟩
  next d hd =>
  simp only [bind, Except.bind, pure, Except.pure] at h
  split at h
  · cases h
  next d' hd' =>
  obtain ⟨l, r, hs, hde, hl, hmo, -⟩ := exists_split hd
  have hc := hlo.contiguous d (by simp [hs])
  have hde : d.device = device := by simpa using hde
  refine .inr ⟨l, d, d', r, hs, hde, hl, hc, hd', ?_, ?_⟩
  · rw [(hc.retire hd').2.1, hde]
  · rw [← Except.ok.inj h, hmo]

variable {d : DeviceOutcomes}

theorem device?_split {l r : List DeviceOutcomes} (hl : ∀ e ∈ l, (e.device == device) = false)
    (hd : d.device = device) : ({ s with devices := l ++ d :: r } : State).device? device = some d := by
  refine List.find?_eq_some_iff_append.mpr ⟨by simpa using hd, l, r, rfl, fun e he => ?_⟩
  simpa using hl e he

theorem retained_eq (h : s.device? device = some d) : s.retained device = d.pending := by
  simp [retained, h]

theorem acknowledge_split {l r : List DeviceOutcomes}
    (hl : ∀ e ∈ l, (e.device == device) = false) (hd : d.device = device) (sequence : Nat) :
    ({ s with devices := l ++ d :: r } : State).acknowledge device sequence =
      (d.retire sequence).map fun d' => { s with devices := l ++ d' :: r } := by
  unfold acknowledge
  rw [device?_split hl hd]
  dsimp only
  cases d.retire sequence with
  | error refusal => rfl
  | ok d' =>
    simp only [bind, Except.bind, pure, Except.pure, Except.map]
    rw [modifyFirst_append hl (by simpa using hd)]

theorem acknowledge_acknowledge (hlo : LogOk s.devices) (h : s.acknowledge device sequence = .ok s')
    (later : Nat) : s'.acknowledge device later = s.acknowledge device (max sequence later) := by
  rcases acknowledge_cases hlo h with ⟨hnone, rfl⟩ | ⟨l, d, d', r, hsp, hd, hl, ho, hr, hd', rfl⟩
  · simp [acknowledge, hnone]
  have hs : s = { s with devices := l ++ d :: r } := by rw [← hsp]
  rw [acknowledge_split hl hd', ho.retire_retire hr]
  conv_rhs => rw [hs]
  rw [acknowledge_split hl hd]

theorem acknowledge_of_inPlace (h : s.acknowledgeInPlace device sequence = (.ok (), s')) :
    s.acknowledge device sequence = .ok s' := by
  rw [acknowledgeInPlace_eq] at h
  split at h
  · next hc => rw [hc, (Prod.mk.inj h).2]
  · cases h

theorem acknowledgeInPlace_ok_iff (hlo : LogOk s.devices) :
    (s.acknowledgeInPlace device sequence).1 = .ok () ↔
      ∀ o ∈ s.retained device, o.sequence ≤ sequence → o.outcome ≠ .pending := by
  rw [acknowledgeInPlace_eq]
  cases hd : s.device? device with
  | none => simp [acknowledge, hd, retained]
  | some d =>
    have hco := hlo.contiguous d (List.mem_of_find?_eq_some hd)
    have hc : s.acknowledge device sequence = (d.retire sequence).map fun d' =>
        { s with devices := modifyFirst (·.device == device) (fun _ => d') s.devices } := by
      simp only [acknowledge, hd]
      cases d.retire sequence <;> rfl
    rw [retained_eq hd, hc]
    cases hre : d.retire sequence with
    | error refusal =>
      obtain ⟨-, o, ho, hl, hw⟩ := hco.retire_error.mp hre
      refine ⟨fun h => ?_, fun h => absurd hw (h o ho hl)⟩
      cases h
    | ok d' =>
      refine ⟨fun _ o ho hl hw => ?_, fun _ => rfl⟩
      have hr := hco.retire_error.mpr ⟨rfl, o, ho, hl, hw⟩
      rw [hre] at hr
      cases hr

theorem retained_acknowledge (hlo : LogOk s.devices) (h : s.acknowledge device sequence = .ok s') :
    s'.retained device = (s.retained device).filter (sequence < ·.sequence) := by
  rcases acknowledge_cases hlo h with ⟨hnone, rfl⟩ | ⟨l, d, d', r, hsp, hd, hl, ho, hr, hd', rfl⟩
  · simp [retained, hnone]
  · have hs : s = { s with devices := l ++ d :: r } := by rw [← hsp]
    rw [retained_eq (device?_split hl hd'), ho.retire_pending hr, hs, retained_eq (device?_split hl hd)]

/-- An acknowledgement is refused, with the state as it was, exactly when an outcome it would retire
still waits for Git. One that is accepted retires the device's outcomes up to its sequence and nothing
else of the state; acknowledging again with any sequence is acknowledging the larger one. -/
theorem acknowledge_cumulative (hvalid : s.validate) (device : Id) (sequence : Nat) :
    (∀ refusal, (s.acknowledgeInPlace device sequence).1 = .error refusal →
      (s.acknowledgeInPlace device sequence).2 = s) ∧
    ((s.acknowledgeInPlace device sequence).1 = .ok () ↔
      ∀ o ∈ s.retained device, o.sequence ≤ sequence → o.outcome ≠ .pending) ∧
    ∀ s', s.acknowledgeInPlace device sequence = (.ok (), s') →
      s'.retained device = (s.retained device).filter (sequence < ·.sequence) ∧
      (∀ o ∈ s.retained device, o.outcome = .pending → ∀ o' ∈ s.retained device,
        o.sequence ≤ o'.sequence → o' ∈ s'.retained device) ∧
      s'.acknowledgeInPlace device sequence = (.ok (), s') ∧
      (∀ later, (s'.acknowledgeInPlace device later).1 = .ok () →
        s'.acknowledgeInPlace device later = s.acknowledgeInPlace device (max sequence later)) ∧
      (∀ other, other ≠ device → s'.device? other = s.device? other) ∧
      s'.devices.map (·.device) = s.devices.map (·.device) ∧ s' = { s with devices := s'.devices } := by
  have hlo := logOk_of_validate hvalid
  refine ⟨fun refusal hr => ?_, ?_, fun s' hs' => ?_⟩
  · rw [acknowledgeInPlace_eq] at hr ⊢
    cases hc : s.acknowledge device sequence with
    | error refusal => rfl
    | ok s' =>
      rw [hc] at hr
      cases hr
  · exact acknowledgeInPlace_ok_iff hlo
  have hok := acknowledge_of_inPlace hs'
  have hre := retained_acknowledge hlo hok
  have hi := (acknowledgeInPlace_ok_iff hlo).mp (congrArg Prod.fst hs')
  have hag (later : Nat) := acknowledge_acknowledge hlo hok later
  refine ⟨hre, fun o ho hw o' ho' hl => ?_, ?_, fun later ha => ?_, ?_⟩
  · rw [hre]
    have hlt : sequence < o.sequence := by
      by_contra hl'
      exact hi o ho (Nat.not_lt.mp hl') hw
    simpa using ⟨ho', hlt.trans_le hl⟩
  · rw [acknowledgeInPlace_eq, hag, max_self, hok]
  · rw [acknowledgeInPlace_eq, hag] at ha ⊢
    rw [acknowledgeInPlace_eq]
    cases hb : s.acknowledge device (max sequence later) with
    | ok s'' => rfl
    | error refusal =>
      rw [hb] at ha
      cases ha
  · rcases acknowledge_cases hlo hok with ⟨-, rfl⟩ | ⟨l, d, d', r, hsp, hd, -, -, -, hd', rfl⟩
    · exact ⟨fun _ _ => rfl, rfl, rfl⟩
    refine ⟨fun other hother => ?_, by simp [hsp, hd, hd'], rfl⟩
    have hne (e : DeviceOutcomes) (he : e.device = device) : (e.device == other) = false := by
      simpa [he] using hother.symm
    simp [device?, hsp, List.find?_append, hne d hd, hne d' hd']

/-- An accepted record with one outcome settled and one that waits for Git. -/
def oneWaits : State :=
  { State.empty with devices := [⟨1, 0, [⟨1, .mergeTab 1 2 3 4 .left, .missing⟩,
      ⟨2, .worktree (.setLocation 0 []), .pending⟩]⟩] }

theorem acknowledge_cumulative_first : oneWaits.validate ∧
    ∀ s', oneWaits.acknowledgeInPlace 1 1 = (.ok (), s') → (s'.retained 1).map (·.sequence) = [2] := by
  have hv : oneWaits.validate := by decide +kernel
  refine ⟨hv, fun s' hs' => ?_⟩
  rw [((acknowledge_cumulative hv 1 1).2.2 s' hs').1]
  decide +kernel

end State

end SpaceTerm.Hierarchy
