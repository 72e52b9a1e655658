import Mathlib.Data.List.Nodup
import SpaceTerm.Hierarchy.NamesSpec

/-! # Well-formed Tabs and Workspaces

`TabOk` and `WorkspaceOk` are what `State::validate` asks of one Tab and one Workspace, strengthened
so that the moves keep them: the Root Pane is the first Pane and the Root Tab is the first Tab, so
whoever is first after a removal is the one the code promotes. Identities are counted
(`Workspace.ids`): a move may permute them, drop some and add fresh ones. -/

namespace SpaceTerm.Hierarchy
open Lib

/-- Every Pane's source is in `seen` or precedes it. -/
def Sourced : List Id → List Pane → Prop
  | _, [] => True
  | seen, p :: ps => (∀ source ∈ p.source, source ∈ seen) ∧ Sourced (p.id :: seen) ps

namespace Sourced
variable {seen seen' : List Id} {ps qs : List Pane}

theorem mono (h : Sourced seen ps) (hsu : seen ⊆ seen') : Sourced seen' ps := by
  induction ps generalizing seen seen' with
  | nil => trivial
  | cons p ps ih =>
    exact ⟨fun s hs => hsu (h.1 s hs), ih h.2 (List.cons_subset_cons p.id hsu)⟩

theorem append (hp : Sourced seen ps) (hq : Sourced (ps.map (·.id) ++ seen) qs) : Sourced seen (ps ++ qs) := by
  induction ps generalizing seen with
  | nil => exact hq
  | cons p ps ih =>
    refine ⟨hp.1, ih hp.2 (hq.mono ?_)⟩
    intro a ha
    simp only [List.map_cons, List.cons_append, List.mem_cons, List.mem_append] at ha ⊢
    tauto

/-- A Pane whose source is one of the Panes before it joins at the end. -/
theorem concat {p : Pane} (h : Sourced [] ps) (hp : ∀ source ∈ p.source, source ∈ ps.map (·.id)) :
    Sourced [] (ps ++ [p]) :=
  h.append ⟨fun s hs => by simpa using hp s hs, trivial⟩

/-- Removing Panes keeps the order, when a Pane that stays keeps only a source that is alive. -/
theorem filter {keep : Pane → Bool} {f : Pane → Pane} (h : Sourced seen ps) (alive : Id → Prop)
    (hi : ∀ p, (f p).id = p.id)
    (hso : ∀ p, ∀ source ∈ (f p).source, p.source = some source ∧ alive source)
    (hal : ∀ p ∈ ps, alive p.id → keep p) (hse : ∀ a ∈ seen, alive a → a ∈ seen') :
    Sourced seen' ((ps.filter keep).map f) := by
  induction ps generalizing seen seen' with
  | nil => trivial
  | cons p ps ih =>
    have hrest : ∀ q ∈ ps, alive q.id → keep q := fun q hq => hal q (by simp [hq])
    cases hke : keep p with
    | true =>
      rw [List.filter_cons_of_pos hke, List.map_cons]
      refine ⟨fun s hs => ?_, ih h.2 hrest ?_⟩
      · obtain ⟨hsr, hl⟩ := hso p s hs
        exact hse s (h.1 s hsr) hl
      intro a ha hl
      rcases List.mem_cons.mp ha with rfl | ha
      · simp [hi]
      · simp [hse a ha hl]
    | false =>
      rw [List.filter_cons_of_neg (by simp [hke])]
      refine ih h.2 hrest fun a ha hl => ?_
      rcases List.mem_cons.mp ha with rfl | ha
      · simp [hal p (by simp) hl] at hke
      · exact hse a ha hl

end Sourced

/-- What a Pane carries whatever its place. -/
structure PaneFacts (p : Pane) : Prop where
  starting : validPath p.startingDirectory
  confirmed : p.confirmedDirectory.all validPath
  observers : p.observers.names.length ≤ maxObserverNames
  others : p.observers.names = [] → p.observers.others = 0
  presentation : p.presentation.all (·.validate)

theorem PaneFacts.created {id : Id} {source : Option Id} {side : Side} {start : PathBuf}
    {creator : Option Id} (h : validPath start) : PaneFacts (.created id source side start creator) :=
  ⟨h, rfl, Nat.zero_le _, fun _ => rfl, rfl⟩

structure TabOk (t : Tab) : Prop where
  worktree : t.worktree.all validPath
  repository : t.worktreeRepository.all validPath
  within : t.worktreeRepository.isSome → t.worktree.isSome
  root : (t.panes.map (·.id)).head? = some t.rootPane
  sourced : Sourced [] t.panes
  panes : ∀ p ∈ t.panes, PaneFacts p

def Tab.ids (t : Tab) : List Id := t.id :: t.panes.map (·.id)

structure WorkspaceOk (w : Workspace) : Prop where
  pinned : w.pinnedDirectory.all validPath
  root : (w.tabs.map (·.id)).head? = some w.rootTab
  tabs : ∀ t ∈ w.tabs, TabOk t

namespace Workspace

def ids (w : Workspace) : List Id := w.id :: w.tabs.flatMap Tab.ids

def paneCount (w : Workspace) : Nat := (w.tabs.map (·.panes.length)).sum

end Workspace

/-- Identities in use: none is zero and none is used twice. -/
structure IdsOk (ids : List Id) : Prop where
  nodup : ids.Nodup
  nonzero : (0 : Id) ∉ ids

/-- Identities that may join `ids`. -/
structure FreshFor (extra ids : List Id) : Prop where
  nodup : extra.Nodup
  fresh : ∀ a ∈ extra, a ≠ 0 ∧ a ∉ ids

theorem FreshFor.nil (ids : List Id) : FreshFor [] ids := ⟨List.nodup_nil, by simp⟩

theorem IdsOk.of_count {ids extra new : List Id} (h : IdsOk ids) (hf : FreshFor extra ids)
    (hl : ∀ a, new.count a ≤ ids.count a + extra.count a) : IdsOk new := by
  have ho : ∀ a, ids.count a + extra.count a ≤ 1 := by
    intro a
    have hi := List.nodup_iff_count_le_one.mp h.nodup a
    have he := List.nodup_iff_count_le_one.mp hf.nodup a
    by_cases ha : a ∈ extra
    · have : ids.count a = 0 := List.count_eq_zero.mpr (hf.fresh a ha).2
      omega
    · have : extra.count a = 0 := List.count_eq_zero.mpr ha
      omega
  refine ⟨List.nodup_iff_count_le_one.mpr fun a => (hl a).trans (ho a), fun hz => ?_⟩
  have hp := List.count_pos_iff.mpr hz
  have hi : ids.count 0 = 0 := List.count_eq_zero.mpr h.nonzero
  have he : extra.count 0 = 0 := List.count_eq_zero.mpr fun h0 => (hf.fresh 0 h0).1 rfl
  have := hl 0
  omega

theorem IdsOk.suffix {ids new : List Id} (h : IdsOk ids) (hs : new <:+ ids) : IdsOk new :=
  ⟨h.nodup.sublist hs.sublist, fun hz => h.nonzero (hs.subset hz)⟩

/-! ### Changing one Workspace -/

/-- What the state needs to know of a changed Workspace: it is well formed and keeps its identity and
name; its identities are its old ones and those of `extra`; it has at most `tabs` and `panes` more. -/
structure WorkspaceChange (w w' : Workspace) (tabs panes : Nat) (extra : List Id) : Prop where
  id : w'.id = w.id
  name : w'.name = w.name
  ok : WorkspaceOk w'
  ids : ∀ a, w'.ids.count a ≤ w.ids.count a + extra.count a
  tabCount : w'.tabs.length ≤ w.tabs.length + tabs
  paneCount : w'.paneCount ≤ w.paneCount + panes

theorem TabOk.created {id : Id} {p : Pane} {membership : WorktreeMembership}
    {worktree repository : Option PathBuf} (hp : PaneFacts p) (hs : p.source = none)
    (hw : worktree.all validPath) (hr : repository.all validPath)
    (hwi : repository.isSome → worktree.isSome) :
    TabOk (.created id p membership worktree repository) :=
  ⟨hw, hr, hwi, rfl, ⟨by simp [hs], trivial⟩, by simpa [Tab.created] using hp⟩

namespace WorkspaceOk
variable {w : Workspace} {t t' : Tab}

theorem pushTab (h : WorkspaceOk w) (ht : TabOk t) :
    WorkspaceChange w { w with tabs := w.tabs ++ [t] } 1 t.panes.length t.ids where
  id := rfl
  name := rfl
  ok := by
    refine ⟨h.pinned, ?_, by simpa [or_imp, forall_and] using ⟨h.tabs, ht⟩⟩
    have hr := h.root
    cases hta : w.tabs with
    | nil => simp [hta] at hr
    | cons t₀ ts => simpa [hta] using hr
  ids a := by simp [Workspace.ids, List.count_cons]; omega
  tabCount := by simp
  paneCount := by simp [Workspace.paneCount]

theorem replaceTab (h : WorkspaceOk w) {l r : List Tab} (panes : Nat) (extra : List Id)
    (hs : w.tabs = l ++ t :: r) (ht : TabOk t') (hi : t'.id = t.id)
    (hid : ∀ a, t'.ids.count a ≤ t.ids.count a + extra.count a)
    (hp : t'.panes.length ≤ t.panes.length + panes) :
    WorkspaceChange w { w with tabs := l ++ t' :: r } 0 panes extra := by
  refine ⟨rfl, rfl, ⟨h.pinned, ?_, fun u hu => ?_⟩, fun a => ?_, ?_, ?_⟩
  · simpa [hs, hi] using h.root
  · have hta := h.tabs
    rw [hs] at hta
    rcases List.mem_append.mp hu with hu | hu
    · exact hta u (by simp [hu])
    rcases List.mem_cons.mp hu with rfl | hu
    · exact ht
    · exact hta u (by simp [hu])
  · have := hid a
    simp only [Workspace.ids, hs, List.flatMap_append, List.flatMap_cons, List.count_cons, List.count_append]
    omega
  · simp [hs]
  · simp only [Workspace.paneCount, hs, List.map_append, List.map_cons, List.sum_append, List.sum_cons]
    omega

end WorkspaceOk

/-! ### Distinct identities within a Workspace -/

namespace Workspace
variable {w : Workspace}

theorem paneIds_sublist {t : Tab} (ht : t ∈ w.tabs) : (t.panes.map (·.id)).Sublist w.ids := by
  have hta : t.ids.Sublist (w.tabs.flatMap Tab.ids) := by
    rw [List.flatMap_def]
    exact List.sublist_flatten_of_mem (List.mem_map_of_mem ht)
  exact ((List.sublist_cons_self _ _).trans hta).cons _

theorem tabIds_sublist (ts : List Tab) : (ts.map (·.id)).Sublist (ts.flatMap Tab.ids) := by
  induction ts with
  | nil => exact .slnil
  | cons t ts ih =>
    simp only [List.map_cons, List.flatMap_cons, Tab.ids, List.cons_append]
    exact (ih.trans (List.sublist_append_right _ _)).cons_cons _

theorem tab_eq_of_id_eq (h : w.ids.Nodup) {t u : Tab} (ht : t ∈ w.tabs) (hu : u ∈ w.tabs)
    (hi : t.id = u.id) : t = u := by
  have hno : (w.tabs.map (·.id)).Nodup := h.sublist ((tabIds_sublist w.tabs).cons _)
  exact List.inj_on_of_nodup_map hno ht hu hi

end Workspace

end SpaceTerm.Hierarchy
