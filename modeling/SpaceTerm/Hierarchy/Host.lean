import SpaceTerm.Lib.Run
import SpaceTerm.Hierarchy.Validate
import SpaceTerm.Hierarchy.Organized
import SpaceTerm.Hierarchy.DevicesInv

/-! # Every state the server keeps validates

The server runs the operations of `State` on a copy and keeps the copy of a call that returned `Ok`.
A non-Worktree edit sees live facts, which `WorkspaceHost::inventory` reads and `commit` drops again.
`Inv` is carried by every operation, and `State::validate` accepts what satisfies it. -/

namespace SpaceTerm.Hierarchy
open Lib

def PaneObservers.ofClients (clients : List Text) : PaneObservers where
  names := clients.take maxObserverNames
  others := min (clients.length - (clients.take maxObserverNames).length) (2 ^ 32 - 1)

namespace State

/-- The state with the live facts of `WorkspaceHost::inventory`. -/
def withLive (s : State) (live : CloseInventory) (clients : Id → List Text) : State :=
  let s := s.mapPanes fun p => { p with observers := .ofClients (clients p.id) }
  { s with inventory := { s.inventory with close := some live } }

/-- `WorkspaceHost::commit` keeps no live facts. -/
def withoutLive (s : State) : State := { s with inventory := { s.inventory with close := none } }

def panes (s : State) : List Pane :=
  s.inventory.workspaces.flatMap fun w => w.tabs.flatMap Tab.panes

end State

/-- The operations the server runs. -/
inductive HostOp
  | apply (live : Option (CloseInventory × (Id → List Text))) (device : Id) (sequence : Nat)
      (mutation : Mutation) (directory : PathBuf) (validatePin : PathBuf → Bool)
      (fresh : Nat → Option Id)
  | acknowledge (device : Id) (sequence : Nat)
  | forget (device : Id)
  | finishWorktree (device : Id) (sequence : Nat) (outcome : Outcome)
  | addWorktreeTab (creator : Option Id) (workspace : Id) (root path startingDirectory : PathBuf)
      (fresh : Nat → Option Id)
  | removePane (pane : Id)
  | repairDirectory (pane : Id) (path : PathBuf)
  | confirmDirectory (pane : Id) (path : PathBuf)
  | beginBoot (boot : Id)

namespace HostOp

/-- The state an edit is applied to. -/
def observed (s : State) : Option (CloseInventory × (Id → List Text)) → State
  | none => s
  | some (live, clients) => s.withLive live clients

/-- The state the server keeps after an operation. -/
def run (s : State) : HostOp → State
  | .apply live device sequence mutation directory validatePin fresh =>
    match (observed s live).apply device sequence mutation directory validatePin fresh with
    | .ok (next, _) => next.withoutLive
    | .error _ => s
  | .acknowledge device sequence => (s.acknowledge device sequence).toOption.getD s
  | .forget device => (s.forget device).1
  | .finishWorktree device sequence outcome =>
    (s.finishWorktree device sequence outcome).toOption.getD s
  | .addWorktreeTab creator workspace root path startingDirectory fresh =>
    match s.addWorktreeTab creator workspace root path startingDirectory fresh with
    | .ok (next, _) => next
    | .error _ => s
  | .removePane pane => s.removePane pane
  | .repairDirectory pane path => (s.repairDirectory pane path).toOption.getD s
  | .confirmDirectory pane path => s.confirmDirectory pane path
  | .beginBoot boot => s.beginBoot boot

/-- Live facts as `WorkspaceHost::inventory` reads them: of this boot, one entry for each Pane in
order, with the random identity of its Terminal Session. -/
structure LiveFacts (s : State) (live : CloseInventory) : Prop where
  boot : s.creatorBoot = some live.boot
  panes : live.sessions.map (·.id) = s.panes.map (·.id)
  sessions : ∀ p ∈ live.sessions, p.session ≠ some 0

/-- What the callers pass: directories that `validate_directory` opened, and fresh identities. -/
def Allowed (s : State) : HostOp → Prop
  | .apply live _ _ _ directory _ fresh =>
    (∀ facts ∈ live, LiveFacts s facts.1) ∧ validPath directory ∧ Fresh fresh (allIds s.inventory.workspaces)
  | .addWorktreeTab _ _ root path startingDirectory fresh =>
    validPath root ∧ validPath path ∧ validPath startingDirectory ∧ Fresh fresh (allIds s.inventory.workspaces)
  | .repairDirectory _ path | .confirmDirectory _ path => validPath path
  | _ => True

def Step (s : State) (op : HostOp) (s' : State) : Prop := op.Allowed s ∧ op.run s = s'

end HostOp

structure EndsOk (boot : Option Id) (ends : CloseInventory) : Prop where
  boot : some ends.boot = boot
  sessionCount : ends.sessions.length ≤ maxPanes
  controlCount : ends.controls.length ≤ maxPanes
  nodup : (ends.sessions.map (·.id)).Nodup
  nonzero : ∀ p ∈ ends.sessions, p.id ≠ 0 ∧ p.session ≠ some 0

structure Inv (s : State) : Prop extends Organized s where
  devices : DevicesOk s
  ends : ∀ ends ∈ s.sessionEnds, EndsOk s.creatorBoot ends

/-! ### Operations on every Pane or on one Tab -/

theorem Sourced.congr {seen : List Id} {ps qs : List Pane} (h : Sourced seen ps)
    (hs : qs.map (fun p => (p.id, p.source)) = ps.map fun p => (p.id, p.source)) :
    Sourced seen qs := by
  induction ps generalizing seen qs with
  | nil =>
    obtain rfl : qs = [] := by simpa using hs
    trivial
  | cons p ps ih =>
    obtain ⟨q, qs, rfl⟩ : ∃ q qs', qs = q :: qs' := by
      cases qs with
      | nil => simp at hs
      | cons q qs => exact ⟨q, qs, rfl⟩
    simp only [List.map_cons, List.cons.injEq, Prod.mk.injEq] at hs
    obtain ⟨⟨hi, hso⟩, hrest⟩ := hs
    exact ⟨by rw [hso]; exact h.1, by rw [hi]; exact ih h.2 hrest⟩

/-- A Tab keeps its form when its Panes keep their identities and sources. -/
theorem TabOk.withPanes {t : Tab} (h : TabOk t) {panes : List Pane} (membership : WorktreeMembership)
    (hs : panes.map (fun p => (p.id, p.source)) = t.panes.map fun p => (p.id, p.source))
    (hf : ∀ p ∈ panes, PaneFacts p) :
    TabOk { t with panes, worktreeMembership := membership } := by
  refine ⟨h.worktree, h.repository, h.within, ?_, h.sourced.congr hs, hf⟩
  have hi : panes.map (·.id) = t.panes.map (·.id) := by
    simpa [Function.comp_def] using congrArg (List.map Prod.fst) hs
  rw [hi]
  exact h.root

theorem allIds_mapPanes (s : State) {f : Pane → Pane} (hi : ∀ p, (f p).id = p.id) :
    allIds (s.mapPanes f).inventory.workspaces = allIds s.inventory.workspaces := by
  simp only [State.mapPanes, State.withWorkspaces, allIds, Workspace.ids, Tab.ids, List.flatMap_map,
    List.map_map, Function.comp_def, hi]
  rfl

namespace Organized
variable {s : State}

theorem mapPanes (h : Organized s) {f : Pane → Pane} (hi : ∀ p, (f p).id = p.id)
    (hs : ∀ p, (f p).source = p.source) (hf : ∀ p, PaneFacts p → PaneFacts (f p)) :
    Organized (s.mapPanes f) := by
  have hws : (s.mapPanes f).inventory.workspaces = s.inventory.workspaces.map fun w =>
    { w with tabs := w.tabs.map fun t => { t with panes := t.panes.map f } } := rfl
  have hta : (s.mapPanes f).tabCount = s.tabCount := by
    simp [State.tabCount, hws, Function.comp_def]
  have hpa : (s.mapPanes f).paneCount = s.paneCount := by
    simp [State.paneCount_eq, hws, Function.comp_def, Workspace.paneCount]
  have hid := allIds_mapPanes s hi
  refine ⟨⟨h.home, fun hne => h.homed fun hni => hne (by simp [hws, hni]), ?_, h.customs, ?_,
    hid ▸ h.ids, ?_, hta ▸ h.tabCount, hpa ▸ h.paneCount⟩, ?_⟩
  · rw [hws, List.map_map]
    exact h.names
  · rw [hws]
    intro w' hw'
    obtain ⟨w, hw, rfl⟩ := List.mem_map.mp hw'
    have ho := h.workspaces w hw
    refine ⟨ho.pinned, by simpa [Function.comp_def] using ho.root, fun t' ht' => ?_⟩
    obtain ⟨t, ht, rfl⟩ := List.mem_map.mp ht'
    refine (ho.tabs t ht).withPanes t.worktreeMembership ?_ fun p' hp' => ?_
    · simp [Function.comp_def, hi, hs]
    · obtain ⟨p, hp, rfl⟩ := List.mem_map.mp hp'
      exact hf p ((ho.tabs t ht).panes p hp)
  · rw [hws, List.length_map]
    exact h.workspaceCount
  · rw [hws]
    intro w' hw'
    obtain ⟨w, hw, rfl⟩ := List.mem_map.mp hw'
    exact h.named w hw

theorem modifyTabOf (h : Organized s) (id : Id) {f : Tab → Tab} (ho : ∀ t, TabOk t → TabOk (f t))
    (hi : ∀ t, (f t).ids = t.ids) :
    Organized (s.withWorkspaces (State.modifyTabOf id f s.inventory.workspaces)) := by
  unfold State.modifyTabOf
  extract_lets holds
  cases hw : s.inventory.workspaces.find? fun w => w.tabs.any holds with
  | none =>
    rw [modifyFirst_eq_self hw]
    exact h.congr rfl rfl rfl
  | some w =>
    have hwo := h.workspaces w (List.mem_of_find?_eq_some hw)
    have ha : w.tabs.any holds := List.find?_some (p := fun w : Workspace => w.tabs.any holds) hw
    obtain ⟨t, ht⟩ : ∃ t, w.tabs.find? holds = some t := by
      rw [← Option.isSome_iff_exists, List.find?_isSome]
      simpa using ha
    obtain ⟨l, r, hs, -, -, hmo, -⟩ := exists_split ht
    have hl : (f t).panes.length = t.panes.length := by
      simpa [Tab.ids] using congrArg List.length (hi t)
    have hc := hwo.replaceTab 0 [] hs (ho t (hwo.tabs t (by simp [hs])))
      (by simpa [Tab.ids] using congrArg List.head? (hi t)) (fun a => by simp [hi]) hl.le
    have hc' : WorkspaceChange w { w with tabs := modifyFirst holds f w.tabs } 0 0 [] := by
      rw [hmo]
      exact hc
    exact h.modifyWorkspace hw hc' (.nil _) h.tabCount h.paneCount

theorem named_revision (h : Organized s) (revision : Nat) : Organized (s.recalculateNames.withRevision revision) :=
  (h.toMembers.recalculateNames h.renamable.2).congr rfl rfl rfl

end Organized

theorem setConfirmed_ok {t : Tab} (h : TabOk t) {path : PathBuf} (hpa : validPath path) (id : Id)
    (membership : WorktreeMembership) :
    TabOk { State.setConfirmed id path t with worktreeMembership := membership } := by
  refine h.withPanes membership (map_modifyFirst fun _ _ => rfl) (forall_modifyFirst h.panes ?_)
  intro p hp _
  have := h.panes p hp
  exact { this with confirmed := hpa }

theorem setConfirmed_ids (id : Id) (path : PathBuf) (t : Tab) : (State.setConfirmed id path t).ids = t.ids :=
  congrArg (t.id :: ·) (map_modifyFirst fun _ _ => rfl)

/-! ### Each operation keeps the invariant -/

theorem paneIds_sublist_allIds (s : State) : (s.panes.map (·.id)).Sublist (allIds s.inventory.workspaces) := by
  have ht : ∀ ts : List Tab, ((ts.flatMap Tab.panes).map (·.id)).Sublist (ts.flatMap Tab.ids) := by
    intro ts
    induction ts with
    | nil => exact .slnil
    | cons t ts ih =>
      simp only [List.flatMap_cons, List.map_append]
      exact (List.sublist_cons_self _ _).append ih
  unfold State.panes allIds
  induction s.inventory.workspaces with
  | nil => exact .slnil
  | cons w ws ih =>
    simp only [List.flatMap_cons, List.map_append]
    exact ((ht w.tabs).cons _).append ih

theorem PaneFacts.ofClients {p : Pane} (h : PaneFacts p) (clients : List Text) :
    PaneFacts { p with observers := .ofClients clients } := by
  refine { h with observers := (by simp [PaneObservers.ofClients]), others := (fun hni => ?_) }
  have : clients = [] := by
    simpa [PaneObservers.ofClients, maxObserverNames] using hni
  simp [PaneObservers.ofClients, this]

namespace Inv
variable {s s' : State} {device : Id} {sequence : Nat} {mutation : Mutation} {directory : PathBuf}
  {validatePin : PathBuf → Bool} {fresh : Nat → Option Id} {outcome : Outcome}

theorem empty : Inv .empty where
  home := rfl
  homed := fun h => absurd rfl h
  names := rfl
  customs := by simp [State.empty]
  workspaces := by simp [State.empty]
  ids := ⟨List.nodup_nil, by simp [State.empty, allIds]⟩
  workspaceCount := Nat.zero_le _
  tabCount := Nat.zero_le _
  paneCount := Nat.zero_le _
  named := by simp [State.empty]
  devices := ⟨.nil, by simp [State.empty], by simp [State.empty], Nat.zero_le _, by decide, Nat.zero_le _⟩
  ends := by simp [State.empty]

theorem observed (h : Inv s) (live : Option (CloseInventory × (Id → List Text))) :
    Inv (HostOp.observed s live) := by
  cases live with
  | none => exact h
  | some facts =>
    have ho := h.toOrganized.mapPanes (f := fun p => { p with
      observers := .ofClients (facts.2 p.id) }) (fun _ => rfl) (fun _ => rfl)
      (fun p hp => hp.ofClients _)
    exact ⟨ho.congr rfl rfl rfl, h.devices.congr rfl rfl, h.ends⟩

theorem withHome (h : Organized s) (hd : validPath directory) :
    Organized { s with homeDirectory := some (s.homeDirectory.getD directory) } := by
  refine ⟨{ h with home := ?_, homed := (fun _ => rfl) }, h.named⟩
  cases hh : s.homeDirectory with
  | none => exact hd
  | some home => simpa [hh] using h.home

theorem edit_organized (h : Organized s) (hd : validPath directory)
    (hf : Fresh fresh (allIds s.inventory.workspaces)) (hb : mutation.isBounded)
    (he : s.edit device mutation directory validatePin fresh = .ok (s', outcome)) :
    Organized s' := by
  have hh := withHome h hd
  rcases State.edit_ok he with ⟨-, rfl⟩ | ⟨s₁, target, hc, -, rfl⟩
  · exact hh
  · have hr := hh.editTarget rfl hd hf hb hc
    exact (hr.1.recalculateNames hr.2).congr rfl rfl rfl

theorem endsOk (h : Inv s) {live c : CloseInventory} (hl : HostOp.LiveFacts s live)
    (hb : live.boot = c.boot) (hs : live.sessions = c.sessions)
    (hbo : (Mutation.endAllSessions c).isBounded) : EndsOk s.creatorBoot c := by
  simp only [Mutation.isBounded, Bool.and_eq_true, decide_eq_true_eq] at hbo
  have hsu := paneIds_sublist_allIds s
  have hi : c.sessions.map (·.id) = s.panes.map (·.id) := hs ▸ hl.panes
  refine ⟨hb ▸ hl.boot.symm, hbo.1, hbo.2, hi ▸ h.ids.nodup.sublist hsu, ?_⟩
  intro p hp
  have hmem : p.id ∈ s.panes.map (·.id) := hi ▸ List.mem_map_of_mem hp
  exact ⟨fun hz => h.ids.nonzero (hz ▸ hsu.subset hmem), hl.sessions p (hs ▸ hp)⟩

theorem allIds_observed (live : Option (CloseInventory × (Id → List Text))) :
    allIds (HostOp.observed s live).inventory.workspaces = allIds s.inventory.workspaces := by
  cases live with
  | none => rfl
  | some facts => exact allIds_mapPanes s fun _ => rfl

theorem apply (h : Inv s) (hq : s.inventory.close = none) {live : Option (CloseInventory × (Id → List Text))}
    (hl : ∀ facts ∈ live, HostOp.LiveFacts s facts.1) (hdi : validPath directory)
    (hf : Fresh fresh (allIds s.inventory.workspaces))
    (ha : (HostOp.observed s live).apply device sequence mutation directory validatePin fresh =
      .ok (s', outcome)) : Inv s' := by
  have ho := h.observed live
  have hd := ho.devices.apply ha
  rcases State.apply_ok ha with ⟨-, rfl⟩ | ⟨devices, floor, s₁, hex, he, hr⟩
  · exact ho
  obtain ⟨hbou, -⟩ := State.admission_execute hex
  rw [← allIds_observed live] at hf
  have hadm : Organized { HostOp.observed s live with devices, sequenceFloor := floor } :=
    ho.toOrganized.congr rfl rfl rfl
  have hs₁ := edit_organized hadm hdi hf hbou he
  obtain ⟨hsa, hen⟩ := State.edit_frame he
  obtain ⟨recorded, rfl⟩ : ∃ devices, s' = { s₁ with devices } := by
    unfold State.recordOutcome at hr
    split at hr <;> cases hr
    exact ⟨_, rfl⟩
  have hbo : s₁.creatorBoot = s.creatorBoot := by
    rw [hsa.creatorBoot]
    cases live <;> rfl
  refine ⟨hs₁.congr rfl rfl rfl, hd, fun ends hmem => ?_⟩
  show EndsOk s₁.creatorBoot ends
  rw [hbo]
  rcases hen with hke | ⟨c, facts, rfl, hc, hb, hse, hset⟩
  · refine h.ends ends ?_
    have hmem : s₁.sessionEnds = some ends := hmem
    rw [hke] at hmem
    cases live <;> exact hmem
  obtain rfl : c = ends := by
    have hmem : s₁.sessionEnds = some ends := hmem
    simpa [hset] using hmem
  cases live with
  | none => exact absurd (hq.symm.trans hc) (by simp)
  | some observed =>
    obtain rfl : observed.1 = facts := by simpa [HostOp.observed, State.withLive] using hc
    exact h.endsOk (hl observed rfl) hb hse hbou

theorem beginBoot (h : Inv s) (boot : Id) : Inv (s.beginBoot boot) := by
  unfold State.beginBoot
  split
  · exact h
  have ho := h.toOrganized.mapPanes (f := fun p => { p with
    creator := none, currentDirectory := none, repositoryDirectory := none,
    presentation := none, observers := {} }) (fun _ => rfl) (fun _ => rfl)
    (fun p hp => ⟨hp.starting, hp.confirmed, Nat.zero_le _, fun _ => rfl, rfl⟩)
  exact ⟨ho.congr rfl rfl rfl, h.devices.congr rfl rfl, by simp⟩

theorem addWorktreeTab (h : Inv s) {creator : Option Id} {workspace tab : Id}
    {root path startingDirectory : PathBuf} (hr : validPath root) (hpa : validPath path)
    (hs : validPath startingDirectory) (hf : Fresh fresh (allIds s.inventory.workspaces))
    (ha : s.addWorktreeTab creator workspace root path startingDirectory fresh = .ok (s', tab)) :
    Inv s' := by
  unfold State.addWorktreeTab at ha
  split at ha
  · cases ha
  rename_i hl
  simp only [ge_iff_le, Bool.or_eq_true, decide_eq_true_eq, not_or, not_le] at hl
  split at ha
  · cases ha
  rename_i w hw
  split at ha
  · rename_i pane hi hp
    cases ha
    have hwo := h.workspaces w (List.mem_of_find?_eq_some hw)
    have ht : TabOk (.created tab (.created pane none .right startingDirectory creator) .opened
        (some path) (some root)) := .created (.created hs) rfl hpa hr (fun _ => rfl)
    have ho := h.toOrganized.setWorkspace hw (hwo.pushTab ht) (hf.two hi hp)
      hl.1 hl.2
    exact ⟨ho.congr rfl rfl rfl, h.devices.congr rfl rfl, h.ends⟩
  · cases ha

theorem confirmDirectory (h : Inv s) (id : Id) {path : PathBuf} (hp : validPath path) :
    Inv (s.confirmDirectory id path) := by
  unfold State.confirmDirectory
  split
  · exact h
  split
  · exact h
  have hmo := h.toOrganized.modifyTabOf id (f := State.setConfirmed id path)
    (fun t ht => setConfirmed_ok ht hp id t.worktreeMembership) (setConfirmed_ids id path)
  exact ⟨hmo.named_revision _, h.devices.congr rfl rfl, h.ends⟩

theorem repairDirectory (h : Inv s) {id : Id} {path : PathBuf} (hp : validPath path)
    (hr : s.repairDirectory id path = .ok s') : Inv s' := by
  unfold State.repairDirectory at hr
  split at hr
  · cases hr
  dsimp only at hr
  split at hr
  · cases hr
  cases hr
  have hmo := h.toOrganized.modifyTabOf id
    (fun t ht => setConfirmed_ok ht hp id .repaired) (setConfirmed_ids id path)
  exact ⟨hmo.named_revision _, h.devices.congr rfl rfl, h.ends⟩

end Inv

end SpaceTerm.Hierarchy
