import SpaceTerm.Hierarchy.State

/-! # What an edit can change

One inversion lemma for each function that edits the state: when it changed the state, the guards it
passed and the state it made. Every later fact about an edit starts from these and unfolds none of
the functions again. -/

namespace SpaceTerm.Hierarchy
open Lib

namespace State
variable {s s' : State} {device target : Id} {directory : PathBuf} {validatePin : PathBuf → Bool}
  {fresh : Nat → Option Id}

theorem editEndAllSessions_changed {c : CloseInventory} (h : s.editEndAllSessions c = .changed s' target) :
    ∃ live, s.inventory.close = some live ∧ live.boot = c.boot ∧ live.sessions = c.sessions ∧
      s' = { s with sessionEnds := some c } := by
  unfold editEndAllSessions at h
  split at h
  · cases h
  rename_i live hl
  split at h
  · cases h
  rename_i hg
  simp only [bne_iff_ne, ne_eq, Bool.or_eq_true, not_or, not_not] at hg
  cases h
  exact ⟨live, hl, hg.1, hg.2, rfl⟩

theorem editClose_changed {closed : CloseTarget} {c : CloseConfirmation}
    (h : s.editClose device closed c = .changed s' target) :
    ∃ ids, s.inventory.closePanes closed = some ids ∧ s' = ids.foldl removePane s := by
  unfold editClose at h
  split at h
  · cases h
  rename_i ids hi
  repeat' split at h
  all_goals cases h
  exact ⟨ids, hi, rfl⟩

variable {control : CreateControl}

theorem editCreateWorkspace_changed {name : Text} {pin : Option PathBuf}
    (h : s.editCreateWorkspace device name pin control directory validatePin fresh = .changed s' target) :
    ∃ id tab pane creator, fresh 0 = some id ∧ fresh 1 = some tab ∧ fresh 2 = some pane ∧
      ((Text.trim name).isEmpty ∨ validName name) ∧
      s.inventory.workspaces.length < maxWorkspaces ∧ s.paneCount < maxPanes ∧ s.tabCount < maxTabs ∧
      s' = { s.withWorkspaces (s.inventory.workspaces ++
          [.created id (Text.trim name) pin (.created tab
            (.created pane none .right (pin.getD directory) creator) .following none none)]) with
        names := s.names ++ [{
          workspace := id
          custom := if (Text.trim name).isEmpty then none else some (Text.trim name)
          automaticBase := [] }] } := by
  unfold editCreateWorkspace at h
  simp only at h
  split at h
  · cases h
  rename_i hna
  split at h
  · cases h
  rename_i hl
  simp only [ge_iff_le, Bool.or_eq_true, decide_eq_true_eq, not_or, not_le] at hl
  split at h
  · rename_i id tab pane hi ht hp
    cases h
    refine ⟨_, _, _, _, hi, ht, hp, ?_, hl.1.1, hl.1.2, hl.2, rfl⟩
    by_cases hb : (Text.trim name).isEmpty
    · exact .inl hb
    · simp_all
  · cases h

variable {workspace : Id}

theorem editCreateTab_changed {source : Option Id}
    (h : s.editCreateTab device workspace source control validatePin fresh = .changed s' target) :
    ∃ w p id pane creator, s.workspace? workspace = some w ∧ (∃ t ∈ w.tabs, p ∈ t.panes) ∧
      fresh 0 = some id ∧ fresh 1 = some pane ∧ s.tabCount < maxTabs ∧ s.paneCount < maxPanes ∧
      s' = s.setWorkspace workspace { w with tabs := w.tabs ++ [.created id (.created pane none .right
        (w.pinnedDirectory.getD (p.confirmedDirectory.getD p.startingDirectory)) creator)
        .following none none] } := by
  unfold editCreateTab at h
  split at h
  · cases h
  rename_i hl
  simp only [ge_iff_le, Bool.or_eq_true, decide_eq_true_eq, not_or, not_le] at hl
  simp only at h
  split at h
  · cases h
  rename_i w hw
  split at h
  · cases h
  rename_i p hp
  split at h
  · cases h
  split at h
  · rename_i id pane hi hpa
    cases h
    refine ⟨w, p, _, _, _, hw, ?_, hi, hpa, hl.1, hl.2, rfl⟩
    cases source with
    | some id => simpa using List.mem_of_find?_eq_some hp
    | none =>
      simp only [Workspace.root, Option.bind_eq_bind, Option.bind_eq_some_iff] at hp
      obtain ⟨t, ht, hp⟩ := hp
      exact ⟨t, List.mem_of_find?_eq_some ht, List.mem_of_find?_eq_some hp⟩
  · cases h

theorem editSplitPane_changed {workspace tab source : Id} {axis : Axis}
    (h : s.editSplitPane device workspace tab source axis control directory validatePin fresh =
      .changed s' target) :
    ∃ w t p id creator, s.workspace? workspace = some w ∧ w.tabs.find? (·.id == tab) = some t ∧
      t.panes.find? (·.id == source) = some p ∧ fresh 0 = some id ∧ s.paneCount < maxPanes ∧
      s' = s.setWorkspace workspace { w with
        tabs := modifyFirst (·.id == tab) (fun _ => { t with
          panes := t.panes ++ [.created id (some source) axis.side (splitStart w t p directory) creator] })
          w.tabs } := by
  unfold editSplitPane at h
  split at h
  · cases h
  rename_i hl
  simp only [ge_iff_le, not_le] at hl
  simp only at h
  split at h
  · cases h
  rename_i w hw
  split at h
  · cases h
  rename_i t ht
  split at h
  · cases h
  rename_i p hp
  split at h
  · cases h
  split at h
  · cases h
  rename_i id hi
  cases h
  exact ⟨w, t, p, _, _, hw, ht, hp, hi, hl, rfl⟩

theorem editMovePane_changed {workspace tab pane : Id} {destination : PaneDestination}
    (h : s.editMovePane workspace tab pane destination fresh = .changed s' target) :
    ∃ w w', s.workspace? workspace = some w ∧ s' = s.setWorkspace workspace w' ∧
      ((∃ id, destination = .newTab ∧ s.tabCount < maxTabs ∧ fresh 0 = some id ∧
          w.movePaneToNewTab tab pane id = .ok w') ∨
        ∃ into beside side, destination = .beside into beside side ∧
          w.movePaneBeside tab pane into beside side = .ok w') := by
  unfold editMovePane at h
  split at h
  · cases h
  rename_i hl
  split at h
  · cases h
  rename_i w hw
  split at h
  · split at h
    · cases h
    rename_i id hi
    split at h
    · rename_i w' hw'
      cases h
      refine ⟨w, w', hw, rfl, .inl ⟨_, rfl, ?_, hi, hw'⟩⟩
      simpa using hl
    · cases h
  · split at h
    · rename_i w' hw'
      cases h
      exact ⟨w, w', hw, rfl, .inr ⟨_, _, _, rfl, hw'⟩⟩
    · cases h

theorem editMergeTab_changed {workspace tab into beside : Id} {side : Side}
    (h : s.editMergeTab workspace tab into beside side = .changed s' target) :
    ∃ w w', s.workspace? workspace = some w ∧ w.mergeTab tab into beside side = .ok w' ∧
      s' = s.setWorkspace workspace w' := by
  unfold editMergeTab at h
  split at h
  · cases h
  rename_i w hw
  split at h
  · rename_i w' hw'
    cases h
    exact ⟨w, w', hw, hw', rfl⟩
  · cases h

theorem editRenameWorkspace_changed {version : Nat} {name : Text}
    (h : s.editRenameWorkspace workspace version name = .changed s' target) :
    ∃ w naming, validName name ∧ s.workspace? workspace = some w ∧
      s.names.find? (·.workspace == workspace) = some naming ∧
      s' = { s.setWorkspace workspace { w with nameVersion := wrappingSucc w.nameVersion } with
        names := modifyFirst (·.workspace == workspace)
          (fun _ => { naming with custom := some (Text.trim name) }) s.names } := by
  unfold editRenameWorkspace at h
  split at h
  · cases h
  rename_i hna
  split at h
  · cases h
  rename_i w hw
  split at h
  · cases h
  split at h
  · cases h
  rename_i naming hnam
  cases h
  exact ⟨w, naming, by simpa using hna, hw, hnam, rfl⟩

theorem editPinWorkspace_changed {version : Nat} {pin : Option PathBuf}
    (h : s.editPinWorkspace workspace version pin validatePin = .changed s' target) :
    ∃ w, s.workspace? workspace = some w ∧ s' = s.setWorkspace workspace
      { w with pinnedDirectory := pin, pinVersion := wrappingSucc w.pinVersion } := by
  unfold editPinWorkspace at h
  split at h
  · cases h
  rename_i w hw
  split at h
  · cases h
  split at h
  · cases h
  cases h
  exact ⟨w, hw, rfl⟩

/-! ### The device log through an edit -/

structure SameLog (s s' : State) : Prop where
  devices : s'.devices = s.devices
  sequenceFloor : s'.sequenceFloor = s.sequenceFloor
  creatorBoot : s'.creatorBoot = s.creatorBoot

theorem SameLog.refl (s : State) : SameLog s s := ⟨rfl, rfl, rfl⟩

theorem SameLog.trans {s₁ s₂ s₃ : State} (h₁ : SameLog s₁ s₂) (h₂ : SameLog s₂ s₃) : SameLog s₁ s₃ :=
  ⟨h₂.devices.trans h₁.devices, h₂.sequenceFloor.trans h₁.sequenceFloor, h₂.creatorBoot.trans h₁.creatorBoot⟩

theorem sameLog_removePanes (ids : List Id) (s : State) :
    SameLog s (ids.foldl removePane s) ∧ (ids.foldl removePane s).sessionEnds = s.sessionEnds := by
  induction ids generalizing s with
  | nil => exact ⟨.refl s, rfl⟩
  | cons id ids ih =>
    have ho : SameLog s (s.removePane id) := ⟨rfl, rfl, rfl⟩
    exact ⟨ho.trans (ih _).1, (ih (s.removePane id)).2⟩

variable {mutation : Mutation}

/-- An edit leaves the device table alone, and names Sessions to end only as the live facts confirm
them. -/
theorem editTarget_frame (h : s.editTarget device mutation directory validatePin fresh = .changed s' target) :
    SameLog s s' ∧ (s'.sessionEnds = s.sessionEnds ∨ ∃ c live, mutation = .endAllSessions c ∧
      s.inventory.close = some live ∧ live.boot = c.boot ∧ live.sessions = c.sessions ∧
      s'.sessionEnds = some c) := by
  cases mutation with
  | endAllSessions c =>
    obtain ⟨live, hl, hb, hs, rfl⟩ := editEndAllSessions_changed h
    exact ⟨⟨rfl, rfl, rfl⟩, .inr ⟨c, live, rfl, hl, hb, hs, rfl⟩⟩
  | worktree => cases h
  | close =>
    obtain ⟨ids, _, rfl⟩ := editClose_changed h
    exact ⟨(sameLog_removePanes ids s).1, .inl (sameLog_removePanes ids s).2⟩
  | createWorkspace =>
    obtain ⟨_, _, _, _, _, _, _, _, _, _, _, rfl⟩ := editCreateWorkspace_changed h
    exact ⟨⟨rfl, rfl, rfl⟩, .inl rfl⟩
  | createTab =>
    obtain ⟨_, _, _, _, _, _, _, _, _, _, _, rfl⟩ := editCreateTab_changed h
    exact ⟨⟨rfl, rfl, rfl⟩, .inl rfl⟩
  | splitPane =>
    obtain ⟨_, _, _, _, _, _, _, _, _, _, rfl⟩ := editSplitPane_changed h
    exact ⟨⟨rfl, rfl, rfl⟩, .inl rfl⟩
  | movePane =>
    obtain ⟨_, _, _, rfl, _⟩ := editMovePane_changed h
    exact ⟨⟨rfl, rfl, rfl⟩, .inl rfl⟩
  | mergeTab =>
    obtain ⟨_, _, _, _, rfl⟩ := editMergeTab_changed h
    exact ⟨⟨rfl, rfl, rfl⟩, .inl rfl⟩
  | renameWorkspace =>
    obtain ⟨_, _, _, _, _, rfl⟩ := editRenameWorkspace_changed h
    exact ⟨⟨rfl, rfl, rfl⟩, .inl rfl⟩
  | pinWorkspace =>
    obtain ⟨_, _, rfl⟩ := editPinWorkspace_changed h
    exact ⟨⟨rfl, rfl, rfl⟩, .inl rfl⟩

variable {outcome : Outcome}

/-- The two ways an edit returns: an outcome that leaves all but the home directory alone, or a
change followed by new names and the next revision. -/
theorem edit_ok (h : s.edit device mutation directory validatePin fresh = .ok (s', outcome)) :
    let home := { s with homeDirectory := some (s.homeDirectory.getD directory) }
    (home.editTarget device mutation directory validatePin fresh = .answered outcome ∧ s' = home) ∨
      ∃ s₁ target, home.editTarget device mutation directory validatePin fresh = .changed s₁ target ∧
        outcome = .accepted target ∧
        s' = s₁.recalculateNames.withRevision (s₁.inventory.revision + 1) := by
  simp only [edit] at h
  split at h
  · cases h
  · rename_i ha
    cases h
    exact .inl ⟨ha, rfl⟩
  rename_i hc
  split at h
  · cases h
  · cases h
    exact .inr ⟨_, _, hc, rfl, rfl⟩

theorem edit_frame (h : s.edit device mutation directory validatePin fresh = .ok (s', outcome)) :
    SameLog s s' ∧ (s'.sessionEnds = s.sessionEnds ∨ ∃ c live, mutation = .endAllSessions c ∧
      s.inventory.close = some live ∧ live.boot = c.boot ∧ live.sessions = c.sessions ∧
      s'.sessionEnds = some c) := by
  rcases edit_ok h with ⟨_, rfl⟩ | ⟨s₁, target, hc, _, rfl⟩
  · exact ⟨⟨rfl, rfl, rfl⟩, .inl rfl⟩
  · obtain ⟨hs, he⟩ := editTarget_frame hc
    exact ⟨⟨hs.devices, hs.sequenceFloor, hs.creatorBoot⟩, he⟩

theorem edit_sameLog (h : s.edit device mutation directory validatePin fresh = .ok (s', outcome)) : SameLog s s' :=
  (edit_frame h).1

end State

end SpaceTerm.Hierarchy
