import SpaceTerm.Hierarchy.DeviceLog

/-! # The device table within its limits

`DevicesOk` is what `State::validate` asks of the device table: contiguous logs whose sequences stay
below the machine's limit, bounded mutations, and only Worktree operations pending. -/

namespace SpaceTerm.Hierarchy
open Lib

structure DevicesOk (s : State) : Prop where
  log : LogOk s.devices
  room : ∀ d ∈ s.devices, d.retired + d.pending.length < u64Max
  outcomes : ∀ d ∈ s.devices, ∀ o ∈ d.pending,
    o.mutation.isBounded ∧ (o.outcome = .pending → o.mutation.isWorktree)
  deviceCount : s.devices.length ≤ maxDevices
  floor : s.sequenceFloor < u64Max
  retained : s.retainedCount ≤ maxOutcomes

/-! ### Only a Worktree operation stays pending -/

theorem bind_eq_error {α β ε : Type} {x : Except ε α} {f : α → Except ε β} {e : ε}
    (h : (x >>= f) = .error e) : x = .error e ∨ ∃ a, x = .ok a ∧ f a = .error e := by
  cases x with
  | error e' => exact .inl (by cases h; rfl)
  | ok a => exact .inr ⟨a, rfl, h⟩

theorem Tab.takePane_error {t : Tab} {pane : Id} {o : Outcome} (h : t.takePane pane = .error o) :
    o ≠ .pending := by
  unfold Tab.takePane at h
  split at h
  · cases h
    decide
  · split at h <;> cases h
    decide

namespace Workspace
variable {w : Workspace} {tab pane into beside id : Id} {side : Side} {o : Outcome}

theorem takePane_error (h : w.takePane tab pane = .error o) : o ≠ .pending := by
  unfold takePane at h
  split at h
  · cases h
    decide
  rcases bind_eq_error h with h | ⟨_, _, h⟩
  · exact Tab.takePane_error h
  · cases h

theorem destination_error (h : w.destination tab into beside = .error o) : o ≠ .pending := by
  unfold destination at h
  split at h
  · cases h
    decide
  · split at h <;> cases h
    decide

theorem movePaneToNewTab_error (h : w.movePaneToNewTab tab pane id = .error o) : o ≠ .pending := by
  unfold movePaneToNewTab at h
  split at h
  · cases h
    decide
  rcases bind_eq_error h with h | ⟨_, _, h⟩
  · exact takePane_error h
  · cases h

theorem movePaneBeside_error (h : w.movePaneBeside tab pane into beside side = .error o) : o ≠ .pending := by
  rcases bind_eq_error h with h | ⟨_, _, h⟩
  · exact destination_error h
  rcases bind_eq_error h with h | ⟨_, _, h⟩
  · exact takePane_error h
  · cases h

theorem mergeTab_error (h : w.mergeTab tab into beside side = .error o) : o ≠ .pending := by
  rcases bind_eq_error h with h | ⟨_, _, h⟩
  · exact destination_error h
  split at h
  · cases h
    decide
  dsimp only at h
  split at h <;> cases h
  decide

end Workspace

namespace State
variable {s s' : State} {device : Id} {sequence : Nat} {mutation : Mutation} {directory : PathBuf}
  {validatePin : PathBuf → Bool} {fresh : Nat → Option Id} {outcome : Outcome}

theorem editTarget_pending (h : s.editTarget device mutation directory validatePin fresh = .answered .pending) :
    mutation.isWorktree := by
  cases mutation with
  | worktree => rfl
  | movePane workspace tab pane destination =>
    simp only [editTarget, editMovePane] at h
    repeat' split at h
    all_goals cases h
    · exact absurd rfl (Workspace.movePaneToNewTab_error ‹_›)
    · exact absurd rfl (Workspace.movePaneBeside_error ‹_›)
  | mergeTab =>
    simp only [editTarget, editMergeTab] at h
    repeat' split at h
    all_goals cases h
    exact absurd rfl (Workspace.mergeTab_error ‹_›)
  | endAllSessions =>
    simp only [editTarget, editEndAllSessions] at h
    repeat' split at h
    all_goals cases h
  | close =>
    simp only [editTarget, editClose] at h
    repeat' split at h
    all_goals cases h
  | createWorkspace =>
    simp only [editTarget, editCreateWorkspace] at h
    repeat' split at h
    all_goals cases h
  | createTab =>
    simp only [editTarget, editCreateTab] at h
    repeat' split at h
    all_goals cases h
  | splitPane =>
    simp only [editTarget, editSplitPane] at h
    repeat' split at h
    all_goals cases h
  | renameWorkspace =>
    simp only [editTarget, editRenameWorkspace] at h
    repeat' split at h
    all_goals cases h
  | pinWorkspace =>
    simp only [editTarget, editPinWorkspace] at h
    repeat' split at h
    all_goals cases h

theorem edit_pending (h : s.edit device mutation directory validatePin fresh = .ok (s', .pending)) :
    mutation.isWorktree := by
  rcases edit_ok h with ⟨ha, -⟩ | ⟨_, _, _, hout, _⟩
  · exact editTarget_pending ha
  · cases hout

end State

namespace DevicesOk
variable {s s' : State} {device : Id} {sequence : Nat} {mutation : Mutation} {directory : PathBuf}
  {validatePin : PathBuf → Bool} {fresh : Nat → Option Id} {outcome : Outcome}
  {devices : List DeviceOutcomes} {floor : Nat}

theorem congr (h : DevicesOk s) (hd : s'.devices = s.devices)
    (hf : s'.sequenceFloor = s.sequenceFloor) : DevicesOk s' :=
  ⟨hd ▸ h.log, hd ▸ h.room, hd ▸ h.outcomes, hd ▸ h.deviceCount,
    hf ▸ h.floor, by rw [State.retainedCount, hd]; exact h.retained⟩

theorem execute (h : DevicesOk s) (he : s.admission device sequence mutation = .execute devices floor) :
    DevicesOk { s with devices, sequenceFloor := floor } ∧
      (devices.map (·.pending.length)).sum < maxOutcomes ∧ sequence < u64Max := by
  obtain ⟨-, -, -, hma, hco, base, record, rfl, hc⟩ := State.admission_execute he
  obtain ⟨_, _, hdev, hde, hs, hlo, -⟩ := State.execute_log h.log he
  obtain ⟨rfl, rfl⟩ : base = _ ∧ record = _ := by simpa using hdev
  -- Every record but a new one was there before; a new one retains nothing.
  have hold : ∀ d ∈ base, d ∈ s.devices := by
    rcases hc with ⟨-, rfl, -⟩ | ⟨-, -, ⟨-, rfl, -⟩ | ⟨_, -, rfl, -⟩⟩
    · exact fun d hd => List.mem_of_mem_eraseP hd
    · exact fun d hd => hd
    · exact fun d hd => List.mem_of_mem_eraseP hd
  have hr : record ∈ s.devices ∨ record.pending = [] := by
    rcases hc with ⟨hfo, -⟩ | ⟨-, rfl, -⟩
    · exact .inl (List.mem_of_find?_eq_some hfo)
    · exact .inr rfl
  have hf : floor < u64Max := by
    have := h.floor
    rcases hc with ⟨-, -, rfl⟩ | ⟨-, -, ⟨-, -, rfl⟩ | ⟨replaced, hre, -, rfl⟩⟩
    · exact this
    · exact this
    · have := h.room replaced (List.mem_of_find?_eq_some hre)
      omega
  have hlt : sequence < u64Max := by
    rcases hc with ⟨hfo, -⟩ | ⟨hnone, rfl, -⟩
    · have := h.room record (List.mem_of_find?_eq_some hfo)
      omega
    have hex := (State.admission_execute he).2.2.1
    have := h.floor
    simp [State.expected, hnone, State.nextSequence] at hex
    omega
  have hsum : (base.map (·.pending.length)).sum + record.pending.length ≤ s.retainedCount ∧
      base.length + 1 ≤ maxDevices := by
    have hl := h.deviceCount
    rcases hc with ⟨hfo, rfl, -⟩ | ⟨-, rfl, ⟨hlt, rfl, -⟩ | ⟨_, hre, rfl, -⟩⟩
    · obtain ⟨l, r, hsp, -, -, -, her⟩ := exists_split hfo
      rw [her]
      simp only [State.retainedCount, hsp, List.map_append, List.map_cons, List.sum_append,
        List.sum_cons, List.length_append, List.length_cons] at hl ⊢
      omega
    · exact ⟨by simp [State.retainedCount], hlt⟩
    · obtain ⟨l, r, hsp, -, -, -, her⟩ := exists_split hre
      rw [her]
      simp only [State.retainedCount, hsp, List.map_append, List.map_cons, List.sum_append,
        List.sum_cons, List.length_append, List.length_cons, List.length_nil] at hl ⊢
      omega
  have hsu : ((base ++ [record]).map (·.pending.length)).sum < maxOutcomes := by
    simp only [List.map_append, List.map_cons, List.map_nil, List.sum_append, List.sum_cons, List.sum_nil]
    omega
  refine ⟨⟨hlo, fun d hd => ?_, fun d hd => ?_, ?_, hf, hsu.le⟩, hsu, hlt⟩
  · rcases List.mem_append.mp hd with hd | hd
    · exact h.room d (hold d hd)
    · rw [List.mem_singleton.mp hd]
      omega
  · rcases List.mem_append.mp hd with hd | hd
    · exact h.outcomes d (hold d hd)
    rw [List.mem_singleton.mp hd]
    rcases hr with hmem | hni
    · exact h.outcomes record hmem
    · simp [hni]
  · simpa using hsum.2

theorem apply (h : DevicesOk s)
    (ha : s.apply device sequence mutation directory validatePin fresh = .ok (s', outcome)) :
    DevicesOk s' := by
  rcases State.apply_ok ha with ⟨-, rfl⟩ | ⟨devices, floor, s₁, hex, he, hr⟩
  · exact h
  obtain ⟨hb, -⟩ := State.admission_execute hex
  obtain ⟨hok, hsu, hlt⟩ := h.execute hex
  obtain ⟨hl, -⟩ := State.apply_execute h.log hex he hr
  obtain ⟨base, record, rfl, -, hse, -, -⟩ := State.execute_log h.log hex
  have hs := State.edit_sameLog he
  have hde : s₁.devices = base ++ [record] := hs.devices
  simp only [State.recordOutcome, hde, List.getLast?_append, List.getLast?_singleton,
    Option.some_or, List.dropLast_concat, Except.ok.injEq] at hr
  subst hr
  refine ⟨hl, fun d hd => ?_, fun d hd => ?_, ?_, hs.sequenceFloor ▸ hok.floor, ?_⟩
  · rcases List.mem_append.mp hd with hd | hd
    · exact hok.room d (by simp [hd])
    rw [List.mem_singleton.mp hd]
    simp only [List.length_append, List.length_singleton]
    omega
  · rcases List.mem_append.mp hd with hd | hd
    · exact hok.outcomes d (by simp [hd])
    rw [List.mem_singleton.mp hd]
    intro o ho
    rcases List.mem_append.mp ho with ho | ho
    · exact hok.outcomes record (by simp) o ho
    obtain rfl := List.mem_singleton.mp ho
    refine ⟨hb, fun hpending => ?_⟩
    obtain rfl : outcome = .pending := hpending
    exact State.edit_pending he
  · simpa using hok.deviceCount
  · simp only [State.retainedCount, List.map_append, List.map_cons, List.map_nil, List.sum_append,
      List.sum_cons, List.sum_nil, List.length_append, List.length_singleton] at hsu ⊢
    omega

theorem replace (h : DevicesOk s) {l r : List DeviceOutcomes} {d d' : DeviceOutcomes}
    (hs : s.devices = l ++ d :: r) (hlo : LogOk (l ++ d' :: r))
    (hr : d'.retired + d'.pending.length = d.retired + d.pending.length)
    (hl : d'.pending.length ≤ d.pending.length)
    (hout : ∀ o ∈ d'.pending, o.mutation.isBounded ∧ (o.outcome = .pending → o.mutation.isWorktree)) :
    DevicesOk { s with devices := l ++ d' :: r } := by
  have hmem : ∀ e ∈ l ++ d' :: r, e ∈ s.devices ∨ e = d' := by
    intro e he
    rw [hs]
    rcases List.mem_append.mp he with he | he
    · exact .inl (by simp [he])
    rcases List.mem_cons.mp he with rfl | he
    · exact .inr rfl
    · exact .inl (by simp [he])
  refine ⟨hlo, fun e he => ?_, fun e he => ?_, ?_, h.floor, ?_⟩
  · rcases hmem e he with he | rfl
    · exact h.room e he
    · have := h.room d (by simp [hs])
      omega
  · rcases hmem e he with he | rfl
    · exact h.outcomes e he
    · exact hout
  · simpa [hs] using h.deviceCount
  · have := h.retained
    simp only [State.retainedCount, hs, List.map_append, List.map_cons, List.sum_append, List.sum_cons] at this ⊢
    omega

theorem acknowledge (h : DevicesOk s) (ha : s.acknowledge device sequence = .ok s') : DevicesOk s' := by
  obtain ⟨hl, -⟩ := State.acknowledge_ok h.log ha
  unfold State.acknowledge at ha
  split at ha
  · cases ha
    exact h
  rename_i d hd
  simp only [bind, Except.bind, pure, Except.pure] at ha
  split at ha
  · cases ha
  rename_i d' hd'
  cases ha
  obtain ⟨l, r, hs, -, -, hmo, -⟩ := exists_split hd
  have hmem : d ∈ s.devices := by simp [hs]
  obtain ⟨-, -, hsu, hr, -⟩ := (h.log.contiguous d hmem).retire hd'
  simp only [hmo] at hl ⊢
  exact h.replace hs hl hr hsu.length_le
    fun o ho => h.outcomes d hmem o (hsu.subset ho)

theorem finishWorktree (h : DevicesOk s)
    (hf : s.finishWorktree device sequence outcome = .ok s') : DevicesOk s' := by
  obtain ⟨hl, -⟩ := State.finishWorktree_ok h.log hf
  unfold State.finishWorktree at hf
  split at hf
  · cases hf
  rename_i old hold
  split at hf
  · cases hf
  rename_i hg
  simp only [Bool.or_eq_true, beq_iff_eq, not_or] at hg
  cases hf
  simp only [State.outcome, Option.bind_eq_bind, Option.bind_eq_some_iff] at hold
  obtain ⟨d, hd, hold⟩ := hold
  obtain ⟨l, r, hs, -, -, hmo, -⟩ := exists_split hd
  have hmem : d ∈ s.devices := by simp [hs]
  simp only [hmo] at hl ⊢
  refine h.replace hs hl (by simp) (by simp) (forall_modifyFirst (h.outcomes d hmem) ?_)
  exact fun o ho _ => ⟨(h.outcomes d hmem o ho).1, fun hp => absurd hp hg.2⟩

theorem forget (h : DevicesOk s) (device : Id) : DevicesOk (s.forget device).1 := by
  unfold State.forget
  split
  · exact h
  have hs := List.filter_sublist (l := s.devices) (p := (·.device != device))
  refine ⟨h.log.sublist hs, fun d hd => h.room d (hs.subset hd),
    fun d hd => h.outcomes d (hs.subset hd), hs.length_le.trans h.deviceCount, h.floor, ?_⟩
  have hsu := sum_filter_map_le (f := id) (q := (·.device != device))
    (fun d : DeviceOutcomes => d.pending.length) s.devices fun _ _ => le_rfl
  rw [List.map_id] at hsu
  exact hsu.trans h.retained

end DevicesOk

end SpaceTerm.Hierarchy
