import SpaceTerm.Hierarchy.Moves
import SpaceTerm.Hierarchy.EditCases

/-! # The organization stays well formed

`Members` is what `State::validate` asks of the Workspaces and their names table, but for the names
the Workspaces show; `Organized` adds those. An edit goes through `Members` with every Workspace
`Ready` to be named, and naming makes it `Organized` again (`Members.recalculateNames`). -/

namespace SpaceTerm.Hierarchy
open Lib

/-- Every identity of the inventory, in the order `State::validate` visits them. -/
def allIds (ws : List Workspace) : List Id := ws.flatMap Workspace.ids

theorem State.paneCount_eq (s : State) : s.paneCount = (s.inventory.workspaces.map (·.paneCount)).sum := by
  unfold State.paneCount
  induction s.inventory.workspaces with
  | nil => rfl
  | cons w ws ih => simp [ih, Workspace.paneCount]

structure Members (s : State) : Prop where
  home : s.homeDirectory.all validPath
  homed : s.inventory.workspaces ≠ [] → s.homeDirectory.isSome
  names : s.names.map (·.workspace) = s.inventory.workspaces.map (·.id)
  customs : ∀ n ∈ s.names, ∀ custom ∈ n.custom, validName custom
  workspaces : ∀ w ∈ s.inventory.workspaces, WorkspaceOk w
  ids : IdsOk (allIds s.inventory.workspaces)
  workspaceCount : s.inventory.workspaces.length ≤ maxWorkspaces
  tabCount : s.tabCount ≤ maxTabs
  paneCount : s.paneCount ≤ maxPanes

structure Organized (s : State) : Prop extends Members s where
  named : ∀ w ∈ s.inventory.workspaces, validName w.name

theorem workspaceIds_sublist (ws : List Workspace) : (ws.map (·.id)).Sublist (allIds ws) := by
  induction ws with
  | nil => exact .slnil
  | cons w ws ih =>
    simp only [List.map_cons, allIds, List.flatMap_cons, Workspace.ids, List.cons_append]
    exact (ih.trans (List.sublist_append_right _ _)).cons_cons _

theorem ids_sublist_allIds {w : Workspace} {ws : List Workspace} (hw : w ∈ ws) : w.ids.Sublist (allIds ws) := by
  rw [allIds, List.flatMap_def]
  exact List.sublist_flatten_of_mem (List.mem_map_of_mem hw)

namespace Members
variable {s : State} {w w' : Workspace}

theorem nodup_names (h : Members s) : (s.names.map (·.workspace)).Nodup := by
  rw [h.names]
  exact h.ids.nodup.sublist (workspaceIds_sublist _)

theorem exists_naming (h : Members s) (hw : w ∈ s.inventory.workspaces) :
    ∃ n ∈ s.names, n.workspace = w.id ∧ namingOf s.names w = some n := by
  have hmem : w.id ∈ s.names.map (·.workspace) := h.names ▸ List.mem_map_of_mem hw
  obtain ⟨n, hn, hi⟩ := List.mem_map.mp hmem
  refine ⟨n, hn, hi, ?_⟩
  rw [namingOf, ← hi]
  exact find?_eq_some_of_nodup h.nodup_names hn

theorem ready (h : Members s) (hw : w ∈ s.inventory.workspaces) (hna : validName w.name) : Ready s.names w := by
  obtain ⟨n, hn, -, hnam⟩ := h.exists_naming hw
  exact ⟨n, hnam, h.customs n hn, fun _ _ => hna⟩

theorem naming_count (h : Members s) :
    (s.names.filterMap (·.custom)).length + s.inventory.workspaces.countP (automatic s.names) =
      s.names.length := by
  have ha : s.inventory.workspaces.countP (automatic s.names) = s.names.countP (·.custom.isNone) := by
    have hke : ∀ ws : List Workspace, ws.countP (automatic s.names) = (ws.map (·.id)).countP
        fun id => (s.names.find? (·.workspace == id)).any (·.custom.isNone) := by
      intro ws
      simp only [List.countP_map]
      rfl
    rw [hke, ← h.names, List.countP_map]
    refine List.countP_congr fun n hn => ?_
    simp only [Function.comp_apply]
    rw [find?_eq_some_of_nodup h.nodup_names hn]
    simp
  have hc : (s.names.filterMap (·.custom)).length = s.names.countP (·.custom.isSome) := by
    rw [List.length_filterMap_eq_countP]
  rw [ha, hc, List.length_eq_countP_add_countP (·.custom.isSome)]
  congr 1
  exact List.countP_congr fun n _ => by simp

theorem recalculateNames (h : Members s) (hready : ∀ w ∈ s.inventory.workspaces, Ready s.names w) :
    Organized s.recalculateNames := by
  have hc : (s.names.filterMap (·.custom)).length + s.inventory.workspaces.countP (automatic s.names) ≤ 99 := by
    rw [h.naming_count, ← List.length_map (f := (·.workspace)), h.names, List.length_map]
    exact h.workspaceCount.trans (by decide)
  obtain ⟨hna, ha, hp⟩ := State.recalculateNames_spec hready hc
  -- Whatever does not read the name is the same before and after.
  have hma : ∀ {β : Type} (g : Workspace → β), (∀ w, g w.anonymous = g w) →
      s.recalculateNames.inventory.workspaces.map g = s.inventory.workspaces.map g := by
    intro β g hg
    have := congrArg (List.map g) ha
    simpa only [List.map_map, Function.comp_def, hg] using this
  have hi : allIds s.recalculateNames.inventory.workspaces = allIds s.inventory.workspaces := by
    simp only [allIds, List.flatMap_def]
    rw [hma Workspace.ids fun _ => rfl]
  refine ⟨⟨h.home, fun hne => h.homed fun hni => hne ?_, ?_, ?_, ?_, hi ▸ h.ids, ?_, ?_, ?_⟩, hna⟩
  · simpa [hni] using ha
  · rw [hma (·.id) fun _ => rfl, ← h.names]
    simpa [Function.comp_def] using congrArg (List.map Prod.fst) hp
  · intro n hn custom hcu
    have hmem : (n.workspace, n.custom) ∈ s.names.map fun n => (n.workspace, n.custom) :=
      hp ▸ List.mem_map_of_mem (f := fun n : WorkspaceName => (n.workspace, n.custom)) hn
    obtain ⟨m, hm, hs⟩ := List.mem_map.mp hmem
    exact h.customs m hm custom (by rw [(Prod.mk.inj hs).2]; exact hcu)
  · intro w hw
    have hmem : w.anonymous ∈ s.inventory.workspaces.map (·.anonymous) :=
      ha ▸ List.mem_map_of_mem hw
    obtain ⟨v, hv, hs⟩ := List.mem_map.mp hmem
    have ho := h.workspaces v hv
    have hvw : WorkspaceOk v.anonymous := ⟨ho.pinned, ho.root, ho.tabs⟩
    rw [hs] at hvw
    exact ⟨hvw.pinned, hvw.root, hvw.tabs⟩
  · have := congrArg List.length ha
    simp only [List.length_map] at this
    exact this ▸ h.workspaceCount
  · rw [State.tabCount, hma (·.tabs.length) fun _ => rfl]
    exact h.tabCount
  · rw [State.paneCount_eq, hma (·.paneCount) fun _ => rfl, ← State.paneCount_eq]
    exact h.paneCount

theorem replaceWorkspace (h : Members s) {l r : List Workspace} {tabs panes : Nat} {extra : List Id}
    (hs : s.inventory.workspaces = l ++ w :: r) (hc : WorkspaceChange w w' tabs panes extra)
    (hf : FreshFor extra (allIds s.inventory.workspaces)) (ht : s.tabCount + tabs ≤ maxTabs)
    (hp : s.paneCount + panes ≤ maxPanes) : Members (s.withWorkspaces (l ++ w' :: r)) := by
  have hw : (s.withWorkspaces (l ++ w' :: r)).inventory.workspaces = l ++ w' :: r := rfl
  have ht' := hc.tabCount
  have hp' := hc.paneCount
  refine ⟨h.home, fun _ => h.homed (by simp [hs]), ?_, h.customs, ?_, ?_, ?_, ?_, ?_⟩
  · have hnames := h.names
    rw [hs] at hnames
    rw [hw]
    show s.names.map (·.workspace) = _
    simpa [hc.id] using hnames
  · rw [hw]
    have hold := h.workspaces
    rw [hs] at hold
    intro v hv
    rcases List.mem_append.mp hv with hv | hv
    · exact hold v (by simp [hv])
    rcases List.mem_cons.mp hv with rfl | hv
    · exact hc.ok
    · exact hold v (by simp [hv])
  · refine h.ids.of_count hf fun a => ?_
    have := hc.ids a
    simp only [hw, hs, allIds, List.flatMap_append, List.flatMap_cons, List.count_append]
    omega
  · have := h.workspaceCount
    rw [hw]
    simpa [hs] using this
  · simp only [State.tabCount, hw, hs, List.map_append, List.map_cons, List.sum_append, List.sum_cons] at ht ⊢
    omega
  · simp only [State.paneCount_eq, hw, hs, List.map_append, List.map_cons, List.sum_append, List.sum_cons] at hp ⊢
    omega

end Members

namespace Organized
variable {s s' : State} {w w' : Workspace} {id : Id} {tabs panes : Nat} {extra : List Id}

theorem congr (h : Organized s) (hh : s'.homeDirectory = s.homeDirectory)
    (hnames : s'.names = s.names) (hw : s'.inventory.workspaces = s.inventory.workspaces) :
    Organized s' := by
  have ht : s'.tabCount = s.tabCount := by rw [State.tabCount, hw, State.tabCount]
  have hp : s'.paneCount = s.paneCount := by rw [State.paneCount, hw, State.paneCount]
  exact ⟨⟨hh ▸ h.home, by rw [hw, hh]; exact h.homed, by rw [hnames, hw]; exact h.names,
    hnames ▸ h.customs, hw ▸ h.workspaces, hw ▸ h.ids, hw ▸ h.workspaceCount,
    ht ▸ h.tabCount, hp ▸ h.paneCount⟩, hw ▸ h.named⟩

theorem modifyWorkspace (h : Organized s) {test : Workspace → Bool} {f : Workspace → Workspace}
    (hw : s.inventory.workspaces.find? test = some w)
    (hc : WorkspaceChange w (f w) tabs panes extra)
    (hf : FreshFor extra (allIds s.inventory.workspaces)) (ht : s.tabCount + tabs ≤ maxTabs)
    (hp : s.paneCount + panes ≤ maxPanes) :
    Organized (s.withWorkspaces (modifyFirst test f s.inventory.workspaces)) := by
  obtain ⟨l, r, hs, -, -, hmo, -⟩ := exists_split hw
  have hna := h.named
  rw [hmo]
  refine ⟨h.toMembers.replaceWorkspace hs hc hf ht hp, ?_⟩
  rw [hs] at hna
  intro v hv
  rcases List.mem_append.mp hv with hv | hv
  · exact hna v (by simp [hv])
  rcases List.mem_cons.mp hv with rfl | hv
  · rw [hc.name]
    exact hna w (by simp)
  · exact hna v (by simp [hv])

theorem setWorkspace (h : Organized s) (hw : s.workspace? id = some w) (hc : WorkspaceChange w w' tabs panes extra)
    (hf : FreshFor extra (allIds s.inventory.workspaces)) (ht : s.tabCount + tabs ≤ maxTabs)
    (hp : s.paneCount + panes ≤ maxPanes) : Organized (s.setWorkspace id w') :=
  h.modifyWorkspace hw hc hf ht hp

theorem removePane (h : Organized s) (id : Id) : Organized (s.removePane id) := by
  set ws := (s.inventory.workspaces.map (State.removeFromWorkspace id)).filter
    (fun w => !w.tabs.isEmpty) with hws
  set names := s.names.filter (fun name => ws.any (·.id == name.workspace)) with hnames
  have hmem : ∀ v ∈ ws, ∃ w ∈ s.inventory.workspaces, v = State.removeFromWorkspace id w ∧ v.tabs ≠ [] := by
    intro v hv
    obtain ⟨hv, hne⟩ := List.mem_filter.mp hv
    obtain ⟨w, hw, rfl⟩ := List.mem_map.mp hv
    exact ⟨w, hw, rfl, by simpa using hne⟩
  have hi : (ws.map (·.id)).Sublist (s.inventory.workspaces.map (·.id)) := by
    have hal := (List.filter_sublist (p := fun w : Workspace => !w.tabs.isEmpty)
      (l := s.inventory.workspaces.map (State.removeFromWorkspace id))).map (·.id)
    simpa [Function.comp_def, State.removeFromWorkspace_id] using hal
  have ha : names.map (·.workspace) = ws.map (·.id) := by
    have hke : names.map (·.workspace) =
        (s.names.map (·.workspace)).filter fun a => decide (a ∈ ws.map (·.id)) := by
      rw [hnames, List.filter_map]
      refine congrArg _ (List.filter_congr fun n _ => ?_)
      rw [Bool.eq_iff_iff]
      simp
    rw [hke, h.names]
    exact filter_mem_of_sublist hi (h.names ▸ h.nodup_names)
  have hme : Members { s.withWorkspaces ws with names } := by
    refine ⟨h.home, fun hne => h.homed fun hni => hne ?_, ha, ?_, ?_, ?_, ?_, ?_, ?_⟩
    · simp [State.withWorkspaces, hws, hni]
    · exact fun n hn => h.customs n (List.mem_of_mem_filter hn)
    · intro v hv
      obtain ⟨w, hw, rfl, hne⟩ := hmem v hv
      exact State.removeFromWorkspace_ok (h.workspaces w hw) hne
    · have hs : (allIds ws).Sublist (allIds s.inventory.workspaces) :=
        sublist_flatMap_filter_map fun w _ => State.removeFromWorkspace_ids id w
      exact h.ids.of_count (.nil _) fun a => (hs.count_le a).trans (Nat.le_add_right _ _)
    · have := hi.length_le
      simp only [List.length_map] at this
      exact this.trans h.workspaceCount
    · exact (sum_filter_map_le (fun w : Workspace => w.tabs.length) _
        fun w _ => (State.removeFromWorkspace_counts id w).1).trans h.tabCount
    · have hl := sum_filter_map_le (q := fun w : Workspace => !w.tabs.isEmpty)
        Workspace.paneCount s.inventory.workspaces fun w _ => (State.removeFromWorkspace_counts id w).2.1
      rw [State.paneCount_eq]
      exact hl.trans (s.paneCount_eq ▸ h.paneCount)
  have hna : Organized ({ s.withWorkspaces ws with names } : State).recalculateNames := by
    refine hme.recalculateNames fun v hv => hme.ready hv ?_
    obtain ⟨w, hw, rfl, -⟩ := hmem v hv
    rw [(State.removeFromWorkspace_counts id w).2.2]
    exact h.named w hw
  exact hna.congr rfl rfl rfl

theorem removePanes (h : Organized s) (ids : List Id) : Organized (ids.foldl State.removePane s) := by
  induction ids generalizing s with
  | nil => exact h
  | cons id ids ih => exact ih (h.removePane id)

end Organized

/-! ### Edits -/

/-- The identities a call draws are nonzero, distinct and not in use. -/
structure Fresh (fresh : Nat → Option Id) (ids : List Id) : Prop where
  unused : ∀ i a, fresh i = some a → a ≠ 0 ∧ a ∉ ids
  distinct : ∀ i j a, fresh i = some a → fresh j = some a → i = j

namespace Fresh
variable {fresh : Nat → Option Id} {ids : List Id} {a b c : Id}

theorem ne (h : Fresh fresh ids) {i j : Nat} (hi : fresh i = some a) (hj : fresh j = some b)
    (hij : i ≠ j) : a ≠ b := by
  rintro rfl
  exact hij (h.distinct i j a hi hj)

theorem one (h : Fresh fresh ids) (ha : fresh 0 = some a) : FreshFor [a] ids :=
  ⟨by simp, by simpa using h.unused 0 a ha⟩

theorem two (h : Fresh fresh ids) (ha : fresh 0 = some a) (hb : fresh 1 = some b) : FreshFor [a, b] ids :=
  ⟨by simpa using h.ne ha hb (by decide), by simpa using ⟨h.unused 0 a ha, h.unused 1 b hb⟩⟩

theorem three (h : Fresh fresh ids) (ha : fresh 0 = some a) (hb : fresh 1 = some b)
    (hc : fresh 2 = some c) : FreshFor [a, b, c] ids :=
  ⟨by simpa using ⟨⟨h.ne ha hb (by decide), h.ne ha hc (by decide)⟩, h.ne hb hc (by decide)⟩,
    by simpa using ⟨h.unused 0 a ha, h.unused 1 b hb, h.unused 2 c hc⟩⟩

end Fresh

theorem WorkspaceChange.ofSameTabs {w w' : Workspace} (h : WorkspaceOk w) (hi : w'.id = w.id)
    (hna : w'.name = w.name) (hr : w'.rootTab = w.rootTab) (ht : w'.tabs = w.tabs)
    (hp : w'.pinnedDirectory.all validPath) : WorkspaceChange w w' 0 0 [] :=
  ⟨hi, hna, ⟨hp, by rw [ht, hr]; exact h.root, ht ▸ h.tabs⟩,
    fun a => by simp [Workspace.ids, hi, ht], by simp [ht], by simp [Workspace.paneCount, ht]⟩

def Renamable (s : State) : Prop := Members s ∧ ∀ w ∈ s.inventory.workspaces, Ready s.names w

theorem Organized.renamable {s : State} (h : Organized s) : Renamable s :=
  ⟨h.toMembers, fun w hw => h.toMembers.ready hw (h.named w hw)⟩

/-- Where a Pane split from `p` or a Tab opened beside it starts. -/
theorem validPath_start {w : Workspace} {p : Pane} (hw : WorkspaceOk w) (hp : PaneFacts p) :
    validPath (w.pinnedDirectory.getD (p.confirmedDirectory.getD p.startingDirectory)) := by
  have hpi := hw.pinned
  have hco := hp.confirmed
  cases hpin : w.pinnedDirectory with
  | some pin => simpa [hpin] using hpi
  | none =>
    cases hc : p.confirmedDirectory with
    | some path => simpa [hc] using hco
    | none => exact hp.starting

namespace Organized
variable {s s' : State} {device target : Id} {directory : PathBuf} {validatePin : PathBuf → Bool}
  {fresh : Nat → Option Id}

theorem nodup_ids (h : Organized s) {id : Id} {w : Workspace} (hw : s.workspace? id = some w) : w.ids.Nodup :=
  h.ids.nodup.sublist (ids_sublist_allIds (List.mem_of_find?_eq_some hw))

variable {control : CreateControl}

theorem editCreateWorkspace (h : Organized s) (hh : s.homeDirectory.isSome)
    (hd : validPath directory) (hf : Fresh fresh (allIds s.inventory.workspaces))
    {name : Text} {pin : Option PathBuf} (hpi : pin.all validPath)
    (he : s.editCreateWorkspace device name pin control directory validatePin fresh =
      .changed s' target) : Renamable s' := by
  obtain ⟨id, tab, pane, creator, hi, ht, hpa, hna, hws, hpan, htabs, rfl⟩ :=
    State.editCreateWorkspace_changed he
  have hex := hf.three hi ht hpa
  have hst : validPath (pin.getD directory) := by
    cases hp : pin with
    | some path => simpa [hp] using hpi
    | none => exact hd
  set p := Pane.created pane none .right (pin.getD directory) creator
  set w := Workspace.created id (Text.trim name) pin (.created tab p .following none none) with hw
  set naming : WorkspaceName :=
    ⟨id, if (Text.trim name).isEmpty then none else some (Text.trim name), []⟩ with hnam
  have hwo : WorkspaceOk w := by
    refine ⟨hpi, rfl, ?_⟩
    have hta : TabOk (.created tab p .following none none) :=
      .created (.created hst) rfl rfl rfl (by simp)
    simpa [hw, Workspace.created] using hta
  have hcu : ∀ custom ∈ naming.custom, validName custom := by
    intro custom hc
    simp only [hnam] at hc
    split at hc
    · cases hc
    rename_i hbl
    obtain rfl : Text.trim name = custom := by simpa using hc
    exact validName_trim (hna.resolve_left hbl)
  have hnone : s.names.find? (·.workspace == id) = none := by
    refine List.find?_eq_none.mpr fun n hn hs => ?_
    have hmem : n.workspace ∈ s.inventory.workspaces.map (·.id) :=
      h.names ▸ List.mem_map_of_mem hn
    rw [beq_iff_eq.mp hs] at hmem
    exact (hex.fresh id (by simp)).2 ((workspaceIds_sublist _).subset hmem)
  have hme : Members { s.withWorkspaces (s.inventory.workspaces ++ [w]) with
      names := s.names ++ [naming] } := by
    refine ⟨h.home, fun _ => hh, ?_, ?_, ?_, ?_, ?_, ?_, ?_⟩
    · have := h.names
      simp [State.withWorkspaces, this, hw, hnam, Workspace.created]
    · exact fun n hn => (List.mem_append.mp hn).elim (h.customs n)
        fun hn => List.mem_singleton.mp hn ▸ hcu
    · exact fun v hv => (List.mem_append.mp hv).elim (h.workspaces v)
        fun hv => List.mem_singleton.mp hv ▸ hwo
    · refine h.ids.of_count hex fun a => ?_
      simp [State.withWorkspaces, allIds, hw, Workspace.ids, Workspace.created, Tab.created, Tab.ids,
        p, Pane.created]
    · simpa [State.withWorkspaces, Nat.succ_le_iff] using hws
    · simpa [State.tabCount, State.withWorkspaces, hw, Workspace.created, Nat.succ_le_iff] using htabs
    · simpa [State.paneCount_eq, State.withWorkspaces, hw, Workspace.created, Workspace.paneCount,
        Tab.created, Nat.succ_le_iff] using hpan
  refine ⟨hme, fun v hv => ?_⟩
  rcases List.mem_append.mp hv with hv' | hv'
  · exact hme.ready hv (h.named v hv')
  obtain rfl := List.mem_singleton.mp hv'
  refine ⟨naming, ?_, hcu, fun _ hb => absurd rfl hb⟩
  have hwi : w.id = id := rfl
  simp only [namingOf, hwi, List.find?_append, hnone, Option.none_or]
  simp [hnam]

variable {workspace : Id}

theorem editCreateTab (h : Organized s) (hf : Fresh fresh (allIds s.inventory.workspaces)) {source : Option Id}
    (he : s.editCreateTab device workspace source control validatePin fresh = .changed s' target) :
    Renamable s' := by
  obtain ⟨w, p, id, pane, creator, hw, ⟨t, ht, hp⟩, hi, hpa, hta, hpan, rfl⟩ :=
    State.editCreateTab_changed he
  have hwo := h.workspaces w (List.mem_of_find?_eq_some hw)
  have hs := validPath_start hwo ((hwo.tabs t ht).panes p hp)
  exact (h.setWorkspace hw (hwo.pushTab (.created (.created hs) rfl rfl rfl (by simp)))
    (hf.two hi hpa) hta hpan).renamable

theorem editSplitPane (h : Organized s) (hd : validPath directory)
    (hf : Fresh fresh (allIds s.inventory.workspaces)) {workspace tab source : Id} {axis : Axis}
    (he : s.editSplitPane device workspace tab source axis control directory
      validatePin fresh = .changed s' target) : Renamable s' := by
  obtain ⟨w, t, p, id, creator, hw, ht, hp, hi, hpan, rfl⟩ := State.editSplitPane_changed he
  have hwo := h.workspaces w (List.mem_of_find?_eq_some hw)
  obtain ⟨l, r, hsp, -, -, hmo, -⟩ := exists_split ht
  have hto := hwo.tabs t (by simp [hsp])
  have hpm := List.mem_of_find?_eq_some hp
  have hst : validPath (State.splitStart w t p directory) := by
    unfold State.splitStart
    split
    · exact hd
    · exact validPath_start hwo (hto.panes p hpm)
  set pane := Pane.created id (some source) axis.side (State.splitStart w t p directory) creator
    with hpa
  have ht' : TabOk { t with panes := t.panes ++ [pane] } := by
    refine { hto with root := ?_, sourced := hto.sourced.concat ?_, panes := ?_ }
    · have hr := hto.root
      cases hps : t.panes with
      | nil => simp [hps] at hr
      | cons p ps => simpa [hps] using hr
    · have hs : p.id = source := by simpa using List.find?_some hp
      simpa [hpa, Pane.created, ← hs] using ⟨p, hpm, rfl⟩
    · simpa [or_imp, forall_and] using ⟨hto.panes, PaneFacts.created hst⟩
  have hc := hwo.replaceTab 1 [id] hsp ht' rfl
    (fun a => by simp [Tab.ids, hpa, Pane.created, List.count_cons]; omega) (by simp)
  rw [hmo]
  exact (h.setWorkspace hw hc (hf.one hi) h.tabCount hpan).renamable

theorem editMovePane (h : Organized s) (hf : Fresh fresh (allIds s.inventory.workspaces))
    {workspace tab pane : Id} {destination : PaneDestination}
    (he : s.editMovePane workspace tab pane destination fresh = .changed s' target) :
    Renamable s' := by
  obtain ⟨w, w', hw, rfl, ⟨id, -, ht, hi, hmo⟩ | ⟨into, beside, side, -, hmo⟩⟩ :=
    State.editMovePane_changed he
  all_goals have hwo := h.workspaces w (List.mem_of_find?_eq_some hw)
  · exact (h.setWorkspace hw (Workspace.movePaneToNewTab_ok hmo hwo (h.nodup_ids hw))
      (hf.one hi) ht h.paneCount).renamable
  · exact (h.setWorkspace hw (Workspace.movePaneBeside_ok hmo hwo (h.nodup_ids hw))
      (.nil _) h.tabCount h.paneCount).renamable

theorem editMergeTab (h : Organized s) {workspace tab into beside : Id} {side : Side}
    (he : s.editMergeTab workspace tab into beside side = .changed s' target) : Renamable s' := by
  obtain ⟨w, w', hw, hme, rfl⟩ := State.editMergeTab_changed he
  have hmer := Workspace.mergeTab_ok hme (h.workspaces w (List.mem_of_find?_eq_some hw))
    (h.nodup_ids hw)
  exact (h.setWorkspace hw hmer (.nil _) h.tabCount h.paneCount).renamable

theorem editRenameWorkspace (h : Organized s) {version : Nat} {name : Text}
    (he : s.editRenameWorkspace workspace version name = .changed s' target) : Renamable s' := by
  obtain ⟨w, naming, hna, hw, hnami, rfl⟩ := State.editRenameWorkspace_changed he
  have hwo := h.workspaces w (List.mem_of_find?_eq_some hw)
  have hc : WorkspaceChange w { w with nameVersion := wrappingSucc w.nameVersion } 0 0 [] :=
    .ofSameTabs hwo rfl rfl rfl rfl hwo.pinned
  obtain ⟨hm, hnam⟩ := h.setWorkspace hw hc (.nil _) h.tabCount h.paneCount
  obtain ⟨l, r, hs, hi, -, hmo, -⟩ := exists_split hnami
  have hme : Members { s.setWorkspace workspace { w with
      nameVersion := wrappingSucc w.nameVersion } with
      names := modifyFirst (·.workspace == workspace)
        (fun _ => { naming with custom := some (Text.trim name) }) s.names } := by
    refine { hm with names := ?_, customs := ?_ }
    · rw [← hm.names, hmo]
      show _ = s.names.map (·.workspace)
      simp [hs]
    · refine forall_modifyFirst h.customs fun _ _ _ custom hcu => ?_
      obtain rfl : Text.trim name = custom := by simpa using hcu
      exact validName_trim hna
  exact ⟨hme, fun v hv => hme.ready hv (hnam v hv)⟩

theorem editPinWorkspace (h : Organized s) {version : Nat} {pin : Option PathBuf} (hp : pin.all validPath)
    (he : s.editPinWorkspace workspace version pin validatePin = .changed s' target) :
    Renamable s' := by
  obtain ⟨w, hw, rfl⟩ := State.editPinWorkspace_changed he
  have hwo := h.workspaces w (List.mem_of_find?_eq_some hw)
  have hpi : WorkspaceChange w
      { w with pinnedDirectory := pin, pinVersion := wrappingSucc w.pinVersion } 0 0 [] :=
    .ofSameTabs hwo rfl rfl rfl rfl hp
  exact (h.setWorkspace hw hpi (.nil _) h.tabCount h.paneCount).renamable

theorem editTarget (h : Organized s) (hh : s.homeDirectory.isSome)
    (hd : validPath directory) (hf : Fresh fresh (allIds s.inventory.workspaces))
    {mutation : Mutation} (hb : mutation.isBounded)
    (he : s.editTarget device mutation directory validatePin fresh = .changed s' target) :
    Renamable s' := by
  cases mutation with
  | endAllSessions =>
    obtain ⟨_, _, _, _, rfl⟩ := State.editEndAllSessions_changed he
    exact Organized.renamable (h.congr rfl rfl rfl)
  | worktree => cases he
  | close =>
    obtain ⟨ids, _, rfl⟩ := State.editClose_changed he
    exact (h.removePanes ids).renamable
  | createWorkspace name pin =>
    have hp : pin.all validPath := (Bool.and_eq_true_iff.mp hb).2
    exact h.editCreateWorkspace hh hd hf hp he
  | createTab => exact h.editCreateTab hf he
  | splitPane => exact h.editSplitPane hd hf he
  | movePane => exact h.editMovePane hf he
  | mergeTab => exact h.editMergeTab he
  | renameWorkspace => exact h.editRenameWorkspace he
  | pinWorkspace _ _ pin =>
    refine h.editPinWorkspace ?_ he
    cases pin with
    | none => rfl
    | some path => exact hb

end Organized

end SpaceTerm.Hierarchy
