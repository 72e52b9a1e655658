import SpaceTerm.Layout.TabInv

/-! # The zoom after a close

`close_pane` moves the focus, and the zoom with it, before it compares the zoom with the closed Pane: a
Zoomed Pane that closes hands its zoom on to the Pane that takes the focus. -/

namespace SpaceTerm.Layout
open Lib

/-- The zoom that `apply_focused_pane` leaves. -/
def ZoomState.handed : ZoomState → PaneId → ZoomState
  | .zoomed _, id => .zoomed id
  | .restored, _ => .restored

namespace Tab

variable {F T : Type} {tab tab' : Tab F T} {id fallback : PaneId} {root : PaneNode F}

/-- The Panes that are presented: the Zoomed Pane alone, or all of the layout. -/
def shown (tab : Tab F T) : List PaneId :=
  match tab.zoomState with
  | .zoomed id => [id]
  | .restored => tab.root.leaves

inductive Loses (tab : Tab F T) (id : PaneId) (tab' : Tab F T) : Prop
  | closed (closed focused : PaneId) (pane : T)
    (h : tab.closePane id = .ok (.paneClosed closed focused pane, tab'))
  | parked (parked : ParkedPane F T) (h : tab.parkPane id = .ok (some parked, tab'))

theorem closePane_removed {closed focused : PaneId} {pane : T}
    (h : tab.closePane id = .ok (.paneClosed closed focused pane, tab')) :
    closed = id ∧ tab.panes.get id = some pane ∧ ∃ root fallback,
      PaneNode.Removes id tab.root ⟨some root, fallback⟩ ∧ tab' = tab.removed id root fallback := by
  unfold closePane at h
  split at h
  · cases h
  next removal hr =>
  obtain ⟨replacement, fallback⟩ := removal
  split at h
  · cases h
  split at h
  · next root pane hro hp =>
    cases h
    obtain rfl : replacement = some root := hro
    exact ⟨rfl, hp, root, fallback, PaneNode.withoutPane_spec hr, rfl⟩
  · cases h

theorem parkPane_closed {parked : ParkedPane F T} (h : tab.parkPane id = .ok (some parked, tab')) :
    ∃ focused pane, tab.closePane id = .ok (.paneClosed id focused pane, tab') ∧
      parked = ⟨id, pane, tab.root, tab'.root, tab.rootPaneId = id⟩ := by
  obtain ⟨⟨outcome, closed⟩, hc, ho⟩ := ok_bind h
  cases outcome with
  | paneClosed closedId focused pane =>
    cases ho
    obtain rfl := (closePane_removed hc).1
    exact ⟨focused, pane, hc, rfl⟩
  | closeTab tabId => cases ho

theorem Loses.removed (h : tab.Loses id tab') : ∃ root fallback,
    PaneNode.Removes id tab.root ⟨some root, fallback⟩ ∧ tab' = tab.removed id root fallback := by
  cases h with
  | closed closed focused pane h => exact (closePane_removed h).2.2
  | parked parked h =>
    obtain ⟨focused, pane, hc, -⟩ := parkPane_closed h
    exact (closePane_removed hc).2.2

theorem unzoomClosed_panes (tab : Tab F T) (id : PaneId) : (tab.unzoomClosed id).panes = tab.panes := by
  unfold unzoomClosed
  split <;> rfl

theorem unzoomClosed_rootPaneId (tab : Tab F T) (id : PaneId) :
    (tab.unzoomClosed id).rootPaneId = tab.rootPaneId := by
  unfold unzoomClosed
  split <;> rfl

theorem unzoomClosed_zoomState (tab : Tab F T) (id : PaneId) : (tab.unzoomClosed id).zoomState =
    if tab.paneCount = 1 ∨ tab.zoomState = .zoomed id then .restored else tab.zoomState := by
  unfold unzoomClosed
  split <;> rfl

/-- The Tab as `close_pane` has it when it looks at the zoom. -/
theorem removed_eq (tab : Tab F T) (id : PaneId) (root : PaneNode F) (fallback : PaneId) :
    ∃ mid : Tab F T, tab.removed id root fallback = mid.unzoomClosed id ∧ mid.panes = tab.panes.erase id ∧
      mid.rootPaneId = (if tab.rootPaneId = id then root.firstPaneId else tab.rootPaneId) ∧
      mid.zoomState = if tab.focusedPaneId = id then tab.zoomState.handed fallback else tab.zoomState := by
  refine ⟨_, rfl, ?_, ?_, ?_⟩
  · dsimp only
    split <;> rfl
  · dsimp only
    by_cases hf : tab.focusedPaneId = id
    · rw [if_pos hf]
      rfl
    · rw [if_neg hf]
  · dsimp only
    split
    · unfold setFocusedPane applyFocusedPane
      cases tab.zoomState <;> rfl
    · rfl

theorem removed_zoom (h : tab.WellFormed) (hr : PaneNode.Removes id tab.root ⟨some root, fallback⟩) :
    (tab.removed id root fallback).paneCount + 1 = tab.paneCount ∧ fallback ≠ id ∧
      ∀ other, tab.zoomState = .zoomed other → (tab.removed id root fallback).zoomState =
        if tab.paneCount = 2 then .restored else .zoomed (if other = id then fallback else other) := by
  cases hr with
  | rest splitId hleaves _ hfallback =>
    obtain ⟨hid, -⟩ := List.nodup_cons.mp (hleaves.nodup_iff.mp h.leaves)
    have hne : fallback ≠ id := fun he => hid (he ▸ hfallback)
    have hk : id ∈ tab.panes.keys := (h.keys id).mpr (hleaves.mem_iff.mpr List.mem_cons_self)
    obtain ⟨mid, hmid, hp, -, hz⟩ := removed_eq tab id root fallback
    have hc : mid.paneCount + 1 = tab.paneCount := by
      rw [paneCount, hp]
      exact Finset.card_erase_add_one hk
    rw [hmid]
    refine ⟨by rw [paneCount, unzoomClosed_panes]; exact hc, hne, fun other ho => ?_⟩
    obtain ⟨rfl, hlt⟩ := h.zoomed other ho
    rw [unzoomClosed_zoomState, hz, ho, ← hc]
    by_cases hf : tab.focusedPaneId = id
    · simp [hf, ZoomState.handed, hne]
    · simp [hf]

/-- What a close or a park leaves of the zoom. A Zoomed Pane that goes ends the zoom only where one other
Pane is left; with more of them the zoom passes to the next Focused Pane. -/
theorem WellFormed.zoom_after_loss (h : tab.WellFormed) (hl : tab.Loses id tab') :
    (tab.zoomState = .zoomed id →
      (tab'.zoomState = .restored ∧ tab'.shown = tab'.root.leaves ↔ tab.paneCount = 2)) ∧
    ∀ other, other ≠ id → tab.zoomState = .zoomed other → 1 < tab'.paneCount → tab'.zoomState = .zoomed other := by
  obtain ⟨root, fallback, hr, rfl⟩ := hl.removed
  obtain ⟨hc, hne, hz⟩ := removed_zoom h hr
  refine ⟨fun hid => ?_, fun other ho hzo hlt => ?_⟩
  · constructor
    · rintro ⟨hre, -⟩
      by_contra htwo
      rw [hz id hid, if_neg htwo] at hre
      cases hre
    · intro htwo
      have hre := (hz id hid).trans (if_pos htwo)
      exact ⟨hre, by rw [shown, hre]⟩
  · rw [hz other hzo, if_neg (by omega), if_neg ho]

def zoomedOfThree : Tab ℚ Unit :=
  (Desk.calls { tab := Tab.new (F := ℚ) 7 ⟨100, 50⟩ fun _ => () }
    [.insertPane ⟨1⟩ .right fun _ => (), .insertPane ⟨2⟩ .bottom fun _ => (), .toggleZoom]).tab

theorem zoom_after_loss_of_three :
    ∃ tab', zoomedOfThree.Loses ⟨3⟩ tab' ∧ 1 < tab'.paneCount ∧ tab'.zoomState = .zoomed ⟨1⟩ := by
  have hw : zoomedOfThree.WellFormed := Desk.calls_wellFormed ..
  have hl : zoomedOfThree.Loses ⟨3⟩ (Desk.call { tab := zoomedOfThree } (.closePane ⟨3⟩)).tab :=
    .closed ⟨3⟩ ⟨1⟩ () rfl
  have hc : 1 < (Desk.call { tab := zoomedOfThree } (.closePane ⟨3⟩)).tab.paneCount := by decide +kernel
  exact ⟨_, hl, hc, (hw.zoom_after_loss hl).2 ⟨1⟩ (by decide) (by decide +kernel) hc⟩

theorem zoom_outlives_closed_pane : zoomedOfThree.zoomState = .zoomed ⟨1⟩ ∧
    ∃ tab', zoomedOfThree.Loses ⟨1⟩ tab' ∧ tab'.zoomState = .zoomed ⟨2⟩ ∧
      tab'.shown = [⟨2⟩] ∧ tab'.root.leaves = [⟨2⟩, ⟨3⟩] :=
  ⟨by decide +kernel, _, .closed _ _ _ rfl, by decide +kernel, by decide +kernel, by decide +kernel⟩

end Tab
end SpaceTerm.Layout
