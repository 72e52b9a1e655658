import SpaceTerm.Hierarchy.Members

/-! # Moving and removing Panes keeps a Workspace well formed

Each move of `Workspace` is a `WorkspaceChange`. What a Tab loses in `take_pane` another Tab gains, so
the identities of the Workspace are those it had, with the new Tab's where there is one. -/

namespace SpaceTerm.Hierarchy
open Lib

section Tab
variable {t t' : Tab} {moved : Pane} {pane : Id}

structure Taken (t t' : Tab) (moved : Pane) (pane : Id) : Prop where
  ok : TabOk t'
  id : t'.id = t.id
  facts : PaneFacts moved
  movedId : moved.id = pane
  source : moved.source = none
  ids : ∀ a, t'.ids.count a + [pane].count a = t.ids.count a
  panes : t'.panes.length + 1 = t.panes.length

theorem Tab.takePane_ok (h : t.takePane pane = .ok (moved, t')) (ht : TabOk t)
    (hno : (t.panes.map (·.id)).Nodup) : Taken t t' moved pane := by
  unfold Tab.takePane at h
  split at h
  · cases h
  rename_i m hm
  split at h
  · cases h
  rename_i hle
  simp only [Except.ok.injEq, Prod.mk.injEq] at h
  obtain ⟨rfl, rfl⟩ := h
  obtain ⟨l, r, hsp, hmi, hl, -, her⟩ := exists_split hm
  have hmi : m.id = pane := by simpa using hmi
  have hmf := ht.panes m (by simp [hsp])
  have hi : ((t.panes.eraseP (·.id == pane)).map fun p =>
      if p.source == some pane then { p with source := none } else p).map (·.id) =
      (l ++ r).map (·.id) := by
    rw [her, List.map_map]
    exact List.map_congr_left fun p _ => by simp only [Function.comp_apply]; split <;> rfl
  refine ⟨{ ht with root := ?_, sourced := ?_, panes := ?_ }, rfl, ?_, hmi, rfl, ?_, ?_⟩
  · -- The first Pane that is left: the old first, or its successor when that was taken.
    have hr := ht.root
    rw [← List.head?_map, hi]
    rw [hsp] at hr hle
    cases l with
    | nil =>
      have : t.rootPane = pane := by simpa [hmi] using hr.symm
      cases r with
      | nil => simp at hle
      | cons p r => simp [this]
    | cons p l =>
      have hp : p.id ≠ pane := by simpa using hl p (by simp)
      have hr : p.id = t.rootPane := by simpa using hr
      simp [← hr, hp]
  · dsimp only
    rw [eraseP_eq_filter hno]
    refine ht.sourced.filter (· ≠ pane) (fun p => by split <;> rfl) ?_
      (fun p _ hp => by simpa using hp) (by simp)
    intro p source hs
    split at hs
    · cases hs
    rename_i hne
    refine ⟨hs, fun he => hne ?_⟩
    rw [show p.source = some source from hs, he]
    simp
  · intro p hp
    obtain ⟨q, hq, rfl⟩ := List.mem_map.mp hp
    have hf := ht.panes q (List.mem_of_mem_eraseP hq)
    split
    · exact { hf with }
    · exact hf
  · exact { hmf with }
  · intro a
    simp only [Tab.ids, hi]
    simp only [hsp, List.map_append, List.map_cons, List.count_cons, List.count_append, hmi, List.count_nil]
    omega
  · rw [List.length_map, her, hsp]
    simp
    omega

end Tab

namespace Workspace
variable {w w' : Workspace} {moved : Pane} {tab pane into beside : Id} {side : Side}

theorem takePane_ok (h : w.takePane tab pane = .ok (moved, w')) (hw : WorkspaceOk w) (hid : w.ids.Nodup) :
    ∃ l t r t', w.tabs = l ++ t :: r ∧ t.id = tab ∧ Taken t t' moved pane ∧
      w.tabs.find? (·.id == tab) = some t ∧ w' = { w with tabs := l ++ t' :: r } ∧
      w'.tabs = modifyFirst (·.id == tab) (fun _ => t') w.tabs := by
  unfold takePane at h
  split at h
  · cases h
  rename_i t ht
  simp only [bind, Except.bind, pure, Except.pure] at h
  split at h
  · cases h
  rename_i taken htaken
  obtain ⟨moved', t'⟩ := taken
  cases h
  obtain ⟨l, r, hs, hi, -, hmo, -⟩ := exists_split ht
  have hmem : t ∈ w.tabs := by simp [hs]
  refine ⟨l, t, r, t', hs, by simpa using hi, ?_, ht, by rw [hmo], rfl⟩
  exact Tab.takePane_ok htaken (hw.tabs t hmem) (hid.sublist (paneIds_sublist hmem))

theorem movePaneToNewTab_ok {id : Id} (h : w.movePaneToNewTab tab pane id = .ok w')
    (hw : WorkspaceOk w) (hi : w.ids.Nodup) : WorkspaceChange w w' 1 0 [id] := by
  unfold movePaneToNewTab at h
  split at h
  · cases h
  rename_i source hs
  simp only [bind, Except.bind, pure, Except.pure] at h
  split at h
  · cases h
  rename_i taken htaken
  obtain ⟨moved, w₁⟩ := taken
  cases h
  obtain ⟨l, t, r, t', hsp, -, ht, hf, rfl, -⟩ := takePane_ok htaken hw hi
  obtain rfl : source = t := by simpa [hs] using hf
  have hs := hw.tabs source (by simp [hsp])
  have hst := hw.replaceTab 0 [] hsp ht.ok ht.id
    (fun a => by have := ht.ids a; simp only [List.count_nil]; omega)
    (by have := ht.panes; omega)
  -- The new Tab's only Pane is the taken one, and it lost its source with its place.
  have hnew : TabOk {
      worktreeMembership := .following, worktree := source.worktree,
      worktreeRepository := source.worktreeRepository, id := id, rootPane := pane,
      panes := [moved] } :=
    { hs with root := (by simp [ht.movedId]), sourced := ⟨by simp [ht.source], trivial⟩, panes := by simpa using ht.facts }
  have hp := hst.ok.pushTab hnew
  refine ⟨rfl, rfl, hp.ok, fun a => ?_, ?_, ?_⟩
  · have := ht.ids a
    have := hp.ids a
    simp only [ids, Tab.ids, hsp, ht.movedId, List.flatMap_append, List.flatMap_cons,
      List.count_cons, List.count_append, List.map_cons, List.map_nil, List.count_nil] at *
    omega
  · simp [hsp]
    omega
  · have := ht.panes
    simp only [paneCount, hsp, List.map_append, List.map_cons, List.sum_append, List.sum_cons,
      List.length_singleton, List.map_nil, List.sum_nil]
    omega

theorem destination_ok {index : Nat} (h : w.destination tab into beside = .ok index) :
    tab ≠ into ∧ ∃ u, w.tabs[index]? = some u ∧ u.id = into ∧ beside ∈ u.panes.map (·.id) := by
  unfold destination at h
  split at h
  · cases h
  rename_i hne
  split at h
  · rename_i i hi
    cases h
    obtain ⟨hl, ht, -⟩ := List.findIdx?_eq_some_iff_getElem.mp hi
    simp only [Bool.and_eq_true, beq_iff_eq, List.any_eq_true] at ht
    exact ⟨by simpa using hne, _, List.getElem?_eq_getElem hl, ht.1, List.mem_map.mpr ht.2⟩
  · cases h

theorem movePaneBeside_ok (h : w.movePaneBeside tab pane into beside side = .ok w')
    (hw : WorkspaceOk w) (hi : w.ids.Nodup) : WorkspaceChange w w' 0 0 [] := by
  unfold movePaneBeside at h
  simp only [bind, Except.bind, pure, Except.pure] at h
  split at h
  · cases h
  rename_i target htar
  split at h
  · cases h
  rename_i taken htaken
  obtain ⟨moved, w₁⟩ := taken
  cases h
  obtain ⟨hne, u, hu, hui, hb⟩ := destination_ok htar
  obtain ⟨l, t, r, t', hsp, ht, htak, hf, hw₁, hta₁⟩ := takePane_ok htaken hw hi
  have hst := hw.replaceTab 0 [] hsp htak.ok htak.id
    (fun a => by have := htak.ids a; simp only [List.count_nil]; omega)
    (by have := htak.panes; omega)
  rw [← hw₁] at hst
  -- The destination is another Tab, so taking the Pane left it in its place.
  have hu₁ : w₁.tabs[target]? = some u := by
    rw [hta₁]
    exact getElem?_modifyFirst hu (by simpa [hui] using hne.symm)
  obtain ⟨l₂, r₂, hsp₂, hmo⟩ := exists_split_modify hu₁
  have huo := hst.ok.tabs u (by simp [hsp₂])
  set placed : Pane := { moved with source := some beside, side := side } with hpla
  have hu' : TabOk { u with panes := u.panes ++ [placed] } := by
    refine { huo with root := ?_, sourced := huo.sourced.concat ?_, panes := ?_ }
    · have hr := huo.root
      cases hp : u.panes with
      | nil => simp [hp] at hr
      | cons p ps => simpa [hp] using hr
    · simpa [hpla] using hb
    · have := htak.facts
      simpa [or_imp, forall_and] using ⟨huo.panes, ({ this with } : PaneFacts placed)⟩
  have hpl := hst.ok.replaceTab 1 [pane] hsp₂ hu' rfl
    (fun a => by simp [Tab.ids, hpla, htak.movedId, List.count_cons]; omega)
    (by simp)
  have hs : w₁.tabs = l ++ t' :: r := by rw [hw₁]
  rw [hmo]
  refine ⟨hpl.id.trans hst.id, hpl.name.trans hst.name, hpl.ok, fun a => ?_, ?_, ?_⟩
  · have := htak.ids a
    have := hpl.ids a
    simp only [ids, hs, hsp, hst.id, List.flatMap_append, List.flatMap_cons, List.count_cons,
      List.count_append, List.count_nil] at *
    omega
  · exact hpl.tabCount.trans hst.tabCount
  · have := htak.panes
    have := hpl.paneCount
    simp only [paneCount, hs, hsp, List.map_append, List.map_cons, List.sum_append, List.sum_cons] at *
    omega

/-! ### Promotion, merging and removal -/

theorem promoteRootTab_ok (hp : w.pinnedDirectory.all validPath) (hne : w.tabs ≠ [])
    (hta : ∀ t ∈ w.tabs, TabOk t) : WorkspaceOk w.promoteRootTab := by
  unfold promoteRootTab
  split
  · contradiction
  rename_i t rest hs
  rw [hs] at hta
  have ht := hta t (by simp)
  split
  · rename_i hr
    exact ⟨hp, by simpa [hs] using hr, by rwa [hs]⟩
  · refine ⟨hp, rfl, List.forall_mem_cons.mpr ⟨?_, fun u hu => hta u (by simp [hu])⟩⟩
    exact { ht with }

theorem promoteRootTab_same (w : Workspace) :
    w.promoteRootTab.id = w.id ∧ w.promoteRootTab.name = w.name ∧ w.promoteRootTab.ids = w.ids ∧
      w.promoteRootTab.tabs.length = w.tabs.length ∧ w.promoteRootTab.paneCount = w.paneCount := by
  unfold promoteRootTab
  split
  · exact ⟨rfl, rfl, rfl, rfl, rfl⟩
  rename_i t rest hs
  split
  · exact ⟨rfl, rfl, rfl, rfl, rfl⟩
  · simp [ids, Tab.ids, paneCount, hs]

/-- The merged Panes follow `beside`: the Root Pane directly, the others through it. -/
theorem sourced_merged {merged : Tab} {seen : List Id} (hm : TabOk merged) (hbe : beside ∈ seen) :
    Sourced seen (merged.panes.map (mergedPane merged beside side)) := by
  have hrest : ∀ (ps : List Pane) (before after : List Id), Sourced before ps →
      (∀ a ∈ before, a ∈ after) → merged.rootPane ∈ after → beside ∈ after →
      Sourced after (ps.map (mergedPane merged beside side)) := by
    intro ps
    induction ps with
    | nil => intros; trivial
    | cons p ps ih =>
      intro before after h hsu hr hb
      have hi : (mergedPane merged beside side p).id = p.id := by unfold mergedPane; split <;> rfl
      refine ⟨fun s hs => ?_, ih (p.id :: before) _ h.2 ?_ (by simp [hr]) (by simp [hb])⟩
      · unfold mergedPane at hs
        split at hs
        · obtain rfl : beside = s := by simpa using hs
          exact hb
        have hs : p.source.getD merged.rootPane = s := by simpa using hs
        cases hp : p.source with
        | none => rw [hp] at hs; exact hs ▸ hr
        | some s' =>
          rw [hp] at hs
          exact hs ▸ hsu _ (h.1 s' hp)
      · intro a ha
        rcases List.mem_cons.mp ha with rfl | ha
        · simp [hi]
        · simp [hsu a ha]
  have hr := hm.root
  have hso := hm.sourced
  cases hp : merged.panes with
  | nil => trivial
  | cons p ps =>
    rw [hp] at hr hso
    have hpi : p.id = merged.rootPane := by simpa using hr
    refine ⟨fun s hs => ?_, hrest ps [p.id] _ hso.2 ?_ ?_ ?_⟩
    · obtain rfl : beside = s := by simpa [mergedPane, hpi] using hs
      exact hbe
    all_goals simp [mergedPane, hpi, hbe]

theorem mergeTab_ok (h : w.mergeTab tab into beside side = .ok w') (hw : WorkspaceOk w)
    (hid : w.ids.Nodup) : WorkspaceChange w w' 0 0 [] := by
  unfold mergeTab at h
  simp only [bind, Except.bind, pure, Except.pure] at h
  split at h
  · cases h
  rename_i index hin
  split at h
  · cases h
  rename_i merged hme
  split at h
  · cases h
  rename_i u hu
  cases h
  obtain ⟨hne, v, hv, hvi, hb⟩ := destination_ok hin
  obtain ⟨l, r, hs, -, -, -, he⟩ := exists_split hme
  obtain ⟨l₂, r₂, hs₂, hui, -, hmo, -⟩ := exists_split hu
  rw [hmo]
  rw [he] at hs₂
  have hmem : ∀ x, x ∈ l ++ r → x ∈ w.tabs := by
    intro x hx
    rw [hs]
    rcases List.mem_append.mp hx with hx | hx <;> simp [hx]
  have hum : u ∈ w.tabs := hmem u (by simp [hs₂])
  have huv : u = v := tab_eq_of_id_eq hid hum (List.mem_of_getElem? hv)
    ((by simpa using hui : u.id = into).trans hvi.symm)
  have huo := hw.tabs u hum
  have hmok := hw.tabs merged (by simp [hs])
  set joined : Tab := { u with panes := u.panes ++ merged.panes.map (mergedPane merged beside side) }
    with hjo
  have hji : joined.panes.map (·.id) = u.panes.map (·.id) ++ merged.panes.map (·.id) := by
    rw [hjo, List.map_append, List.map_map]
    refine congrArg _ (List.map_congr_left fun p _ => ?_)
    simp only [Function.comp_apply, mergedPane]
    split <;> rfl
  have hjok : TabOk joined := by
    refine { huo with root := ?_, sourced := ?_, panes := ?_ }
    · rw [hji]
      have hr := huo.root
      cases hp : u.panes with
      | nil => simp [hp] at hr
      | cons p ps => simpa [hp] using hr
    · exact huo.sourced.append (sourced_merged hmok (by simpa [huv] using hb))
    intro p hp
    rcases List.mem_append.mp hp with hp | hp
    · exact huo.panes p hp
    obtain ⟨q, hq, rfl⟩ := List.mem_map.mp hp
    have := hmok.panes q hq
    unfold mergedPane
    split <;> exact { this with }
  obtain ⟨hi, hna, hidsE, ht, hpa⟩ :=
    promoteRootTab_same { w with tabs := l₂ ++ joined :: r₂ }
  refine ⟨hi, hna, promoteRootTab_ok hw.pinned (by simp) ?_, fun a => ?_, ?_, ?_⟩
  · intro x hx
    rcases List.mem_append.mp hx with hx | hx
    · exact hw.tabs x (hmem x (by simp [hs₂, hx]))
    rcases List.mem_cons.mp hx with rfl | hx
    · exact hjok
    · exact hw.tabs x (hmem x (by simp [hs₂, hx]))
  · have hf := congrArg (fun ts : List Tab => (ts.flatMap Tab.ids).count a) hs₂
    rw [hidsE]
    simp only [ids, Tab.ids, hji, hs, List.flatMap_append, List.flatMap_cons, List.count_cons,
      List.count_append, List.count_nil] at hf ⊢
    simp only [hjo]
    omega
  · have hl := congrArg List.length hs₂
    rw [ht, hs]
    simp only [List.length_append, List.length_cons] at hl ⊢
    omega
  · have hsu := congrArg (fun ts : List Tab => (ts.map (·.panes.length)).sum) hs₂
    rw [hpa]
    simp only [paneCount, hs, List.map_append, List.map_cons, List.sum_append, List.sum_cons,
      hjo, List.length_append, List.length_map] at hsu ⊢
    omega

end Workspace

namespace State
variable {id : Id}

theorem removeFromTab_map_id (id : Id) (t : Tab) :
    (removeFromTab id t).panes.map (·.id) = (t.panes.filter (·.id != id)).map (·.id) := by
  simp only [removeFromTab, List.map_map]
  exact List.map_congr_left fun p _ => by simp only [Function.comp_apply]; split <;> rfl

theorem removeFromTab_ids (id : Id) (t : Tab) : (removeFromTab id t).ids.Sublist t.ids := by
  have hp := (List.filter_sublist (l := t.panes) (p := (·.id != id))).map (·.id)
  rw [← removeFromTab_map_id] at hp
  exact hp.cons_cons t.id

theorem length_removeFromTab_le (id : Id) (t : Tab) : (removeFromTab id t).panes.length ≤ t.panes.length := by
  simpa [removeFromTab] using List.length_filter_le _ _

theorem removeFromTab_ok {t : Tab} (h : TabOk t) (hne : (removeFromTab id t).panes ≠ []) :
    TabOk (removeFromTab id t) := by
  refine ⟨h.worktree, h.repository, h.within, ?_, ?_, ?_⟩
  · rw [removeFromTab_map_id, List.head?_map]
    have hne' : t.panes.filter (·.id != id) ≠ [] := by simpa [removeFromTab] using hne
    obtain ⟨p, ps, hp⟩ := List.exists_cons_of_ne_nil hne'
    simp [removeFromTab, hp]
  · refine h.sourced.filter
      (fun a => a ∈ (t.panes.filter (·.id != id)).map (·.id))
      (fun p => by split <;> rfl) ?_ ?_ (by simp)
    · intro p source hs
      split at hs
      · cases hs
      rename_i hke
      have hs : p.source = some source := hs
      exact ⟨hs, by simpa [hs, and_assoc] using hke⟩
    · intro p _ ha
      obtain ⟨q, hq, hi⟩ := List.mem_map.mp ha
      rw [← hi]
      exact (List.mem_filter.mp hq).2
  · intro p hp
    obtain ⟨q, hq, rfl⟩ := List.mem_map.mp hp
    have := h.panes q (List.mem_of_mem_filter hq)
    split
    · exact { this with }
    · exact this

theorem removeFromWorkspace_ok {w : Workspace} (h : WorkspaceOk w)
    (hne : (removeFromWorkspace id w).tabs ≠ []) : WorkspaceOk (removeFromWorkspace id w) := by
  refine Workspace.promoteRootTab_ok h.pinned ?_ fun t ht => ?_
  · intro hni
    refine hne (List.length_eq_zero_iff.mp ?_)
    rw [removeFromWorkspace, (Workspace.promoteRootTab_same _).2.2.2.1]
    exact List.length_eq_zero_iff.mpr hni
  · obtain ⟨hma, hke⟩ := List.mem_filter.mp ht
    obtain ⟨u, hu, rfl⟩ := List.mem_map.mp hma
    exact removeFromTab_ok (h.tabs u hu) (by simpa using hke)

theorem removeFromWorkspace_id (id : Id) (w : Workspace) : (removeFromWorkspace id w).id = w.id :=
  (Workspace.promoteRootTab_same _).1

theorem removeFromWorkspace_ids (id : Id) (w : Workspace) : (removeFromWorkspace id w).ids.Sublist w.ids := by
  rw [removeFromWorkspace, (Workspace.promoteRootTab_same _).2.2.1]
  exact (sublist_flatMap_filter_map fun t _ => removeFromTab_ids id t).cons_cons w.id

theorem removeFromWorkspace_counts (id : Id) (w : Workspace) :
    (removeFromWorkspace id w).tabs.length ≤ w.tabs.length ∧ (removeFromWorkspace id w).paneCount ≤ w.paneCount ∧
      (removeFromWorkspace id w).name = w.name := by
  obtain ⟨-, hna, -, hl, hp⟩ := Workspace.promoteRootTab_same { w with
    tabs := (w.tabs.map (removeFromTab id)).filter fun t => !t.panes.isEmpty }
  refine ⟨?_, ?_, hna⟩
  · rw [removeFromWorkspace, hl]
    simpa using List.length_filter_le (fun t : Tab => !t.panes.isEmpty) (w.tabs.map (removeFromTab id))
  · rw [removeFromWorkspace, hp]
    exact sum_filter_map_le _ _ fun t _ => length_removeFromTab_le id t

end State

end SpaceTerm.Hierarchy
