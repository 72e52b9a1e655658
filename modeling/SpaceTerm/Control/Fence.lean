import SpaceTerm.Control.Requests
import SpaceTerm.Control.Attachments

/-! # Attachment generations fence claims

The client numbers its attachments; the server refuses a claim of a generation that was released, so
claims and releases may arrive late, twice or in any order. `Server` is the host with the messages it
processes, next to what else changes a Pane's host: Sessions end, channels go, control is released,
and the organization changes. Ids are random: no edit brings a Pane or a Workspace back that is gone,
and a Pane stays in its Workspace. But a commit that was not retained is read back (`recover`), and
that brings back what it removed. -/

namespace SpaceTerm.Control
open Lib
open Hierarchy (Refusal)

/-- The host with three records of the past: the Workspaces that are gone, the Panes that were ever
placed, and for each device and Workspace the newest release processed. -/
structure Server where
  host : WorkspaceHost
  gone : List Id := []
  seen : Id → Bool := fun _ => false
  processed : Id → Id → Nat := fun _ _ => 0

namespace Server

/-- What else changes one Pane's host. -/
inductive Change
  /-- A Session reports its end, a failure or a failed directory. -/
  | reports (ended keptEnd failed directoryFailed : Bool)
  | retires (env : Env)
  | gives (device connection : Id) (lease : Lease) (control : Option Id)
  | unbinds (connection : Id) (lease : Lease)
  | disconnects (connection : Id)
  | releasesControl (client : Id)
  | endsSession (session : Id) (env : Env)

def Change.apply : Change → CorePaneHost → CorePaneHost
  | .reports ended keptEnd failed directoryFailed, h =>
    h.modifyPane ({ · with ended, keptEnd, failed, directoryFailed })
  | .retires env, h => (h.retireExited env).2
  | .gives device connection lease control, h => h.release device connection lease control
  | .unbinds connection lease, h => h.unbound connection lease
  | .disconnects connection, h => h.disconnected connection
  | .releasesControl client, h => h.releaseControl client
  | .endsSession session env, h => h.endSession session env

inductive Event
  | claim (device connection : Id) (c : ClaimPane) (env : Env)
  | release (device : Id) (a : Attachment) (nonces : Id → Id) (failedAt : Option Id)
  | change (id : Id) (c : Change)
  /-- The organization changes: its Panes and its Workspaces. -/
  | edit (placed : Id → Option Placed) (workspaces : List Id)
  /-- `restore_organization`: a write failed, and the retained organization is read back. -/
  | recover (placed : Id → Option Placed) (workspaces : List Id)
  /-- `synchronize` forgets the hosts in `drop` and the generations of Workspaces that are gone. -/
  | synchronize (drop : Id → Bool)

/-- Every Pane's Workspace is listed, and what is gone does not come back. -/
structure Edits (s : Server) (placed : Id → Option Placed) (workspaces : List Id) : Prop where
  within : ∀ id p, placed id = some p → p.workspace ∈ workspaces
  panes : ∀ id p, placed id = some p →
    (∃ q, s.host.placed id = some q ∧ q.workspace = p.workspace) ∨ s.seen id = false
  workspaces : ∀ w ∈ workspaces, w ∈ s.host.workspaces ∨ w ∉ s.gone

/-- The host with another organization. -/
def organize (s : Server) (placed : Id → Option Placed) (workspaces : List Id) : Server :=
  { s with
    host := { s.host with placed, workspaces }
    gone := s.gone ++ s.host.workspaces.filter (!workspaces.contains ·)
    seen := fun id => s.seen id || (placed id).isSome }

inductive Step (s : Server) : Event → Server → Prop
  | claim (device connection : Id) (c : ClaimPane) (env : Env) :
      Step s (.claim device connection c env)
        { s with host := (s.host.claimPane device connection c env).2 }
  | released {device : Id} {a : Attachment} {nonces : Id → Id} {failedAt : Option Id}
      (known : a.workspace ∈ s.host.workspaces ∨ a.workspace ∈ s.gone)
      (done : (s.host.releaseAttachment device a nonces failedAt).1 = .ok .unchanged) :
      Step s (.release device a nonces failedAt)
        { s with
          host := (s.host.releaseAttachment device a nonces failedAt).2
          processed := fun d w => if d = device ∧ w = a.workspace then
            max (s.processed d w) a.generation else s.processed d w }
  | releaseFailed {device : Id} {a : Attachment} {nonces : Id → Id} {failedAt : Option Id}
      (failed : (s.host.releaseAttachment device a nonces failedAt).1 ≠ .ok .unchanged) :
      Step s (.release device a nonces failedAt)
        { s with host := (s.host.releaseAttachment device a nonces failedAt).2 }
  | change (id : Id) (c : Change) :
      Step s (.change id c) { s with
        host := { s.host with
          panes := Function.update s.host.panes id ((s.host.panes id).map c.apply) } }
  | edit {placed : Id → Option Placed} {workspaces : List Id} (edits : Edits s placed workspaces) :
      Step s (.edit placed workspaces) (s.organize placed workspaces)
  | recover {placed : Id → Option Placed} {workspaces : List Id}
      (within : ∀ id p, placed id = some p → p.workspace ∈ workspaces) :
      Step s (.recover placed workspaces) (s.organize placed workspaces)
  | synchronize (drop : Id → Bool) :
      Step s (.synchronize drop) { s with host := { s.host with
        panes := fun id => if drop id then none else s.host.panes id
        generations := fun key =>
          if key.2 ∈ s.host.workspaces then s.host.generations key else none } }

/-- A step in which no organization that is read back holds a Pane or a Workspace that was gone. -/
def Retained (s : Server) (e : Event) (t : Server) : Prop :=
  Step s e t ∧ ∀ placed workspaces, e = .recover placed workspaces → Edits s placed workspaces

def start (boot : Id) : Server := { host := { boot } }

end Server

/-! ### Grants, operation by operation -/

namespace CorePaneHost

variable {h : CorePaneHost} {d : Id} {g : Nat}

theorem grants_modifyPane {f : OwnedPane → OwnedPane} (hg : (h.modifyPane f).Grants d g)
    (hf : ∀ p d g, (f p).device = some d → (f p).attachmentGeneration = some g →
      p.device = some d ∧ p.attachmentGeneration = some g) : h.Grants d g := by
  rcases hg with ⟨p', hp', hd, hge⟩ | hdo
  · obtain ⟨p, hp, rfl⟩ := Option.map_eq_some_iff.mp hp'
    exact .inl ⟨p, hp, hf p d g hd hge⟩
  · exact .inr hdo

theorem grants_apply {c : Server.Change} (hg : (c.apply h).Grants d g) : h.Grants d g := by
  cases c with
  | reports => exact grants_modifyPane hg fun _ _ _ hd hge => ⟨hd, hge⟩
  | retires env => exact retireExited_kept.grants d g hg
  | gives device connection lease control =>
    simp only [Server.Change.apply, release] at hg
    split at hg
    · split at hg
      · exact grants_modifyPane hg nofun
      · exact hg
    · exact hg
  | unbinds connection lease | disconnects connection =>
    refine grants_modifyPane hg fun p d g hd hge => ?_
    split at hd <;> split at hge <;> exact ⟨hd, hge⟩
  | releasesControl client =>
    have hg := grants_modifyPane hg fun p d g hd hge => by
      split at hd
      · cases hd
      rename_i hne
      rw [if_neg hne] at hge
      exact ⟨hd, hge⟩
    rcases hg with hpa | ⟨m', hm', hd, hge⟩
    · exact .inl hpa
    obtain ⟨m, hm, rfl⟩ := Option.map_eq_some_iff.mp hm'
    split at hd
    · cases hd
    rename_i hne
    rw [if_neg hne] at hge
    exact .inr ⟨m, hm, hd, hge⟩
  | endsSession session env =>
    simp only [Server.Change.apply, endSession] at hg
    split at hg
    · exact hg
    rename_i p hp
    have he : ∀ {d g}, CorePaneHost.Grants { h with dormant := some p.dormant } d g → h.Grants d g := by
      rintro d g (hpa | ⟨m, hm, hd, hge⟩)
      · exact .inl hpa
      · cases hm
        exact .inl ⟨p, hp, hd, hge⟩
    split at hg
    · exact hg
    split at hg
    · exact he (kept_drop.grants d g hg)
    · exact he (grants_modifyPane hg fun _ _ _ hd hge => ⟨hd, hge⟩)

theorem grants_releaseHost {device control : Id} {n : Nat} :
    (WorkspaceHost.releaseHost device n (some control) h).Grants d g ↔ h.Grants d g ∧ ¬(d = device ∧ g ≤ n) := by
  simp only [WorkspaceHost.releaseHost, modifyPane, Grants, Option.map_eq_some_iff]
  constructor
  · rintro (⟨_, ⟨p, hp, rfl⟩, hd, hg⟩ | ⟨_, ⟨m, hm, rfl⟩, hd, hg⟩)
    · split at hd
      · cases hd
      rename_i hke
      rw [if_neg hke] at hg
      refine ⟨.inl ⟨p, hp, hd, hg⟩, fun ⟨he, hl⟩ => hke ⟨he ▸ hd, ?_⟩⟩
      rw [hg]
      simpa using hl
    split at hd
    · cases hd
    rename_i hke
    rw [if_neg hke] at hg
    refine ⟨.inr ⟨m, hm, hd, hg⟩, fun ⟨he, hl⟩ => hke ⟨he ▸ hd, ?_⟩⟩
    rw [hg]
    simpa using hl
  · rintro ⟨⟨p, hp, hd, hg⟩ | ⟨m, hm, hd, hg⟩, hke⟩
    · have : ¬(p.device = some device ∧ p.attachmentGeneration.any (· ≤ n) = true) := by
        rw [hd, hg]
        simpa using hke
      exact .inl ⟨_, ⟨p, hp, rfl⟩, by rw [if_neg this]; exact hd, by rw [if_neg this]; exact hg⟩
    have : ¬(m.device = some device ∧ m.attachmentGeneration.any (· ≤ n) = true) := by
      rw [hd, hg]
      simpa using hke
    exact .inr ⟨_, ⟨m, hm, rfl⟩, by rw [if_neg this]; exact hd, by rw [if_neg this]; exact hg⟩

theorem grants_releaseHost_none {device : Id} {n : Nat} :
    ((WorkspaceHost.releaseHost device n none h).Grants d g → h.Grants d g) ∧
      (h.Grants d g → ¬(d = device ∧ g ≤ n) → (WorkspaceHost.releaseHost device n none h).Grants d g) := by
  simp only [WorkspaceHost.releaseHost, Grants, Option.map_eq_some_iff]
  constructor
  · rintro (hp | ⟨_, ⟨m, hm, rfl⟩, hd, hg⟩)
    · exact .inl hp
    split at hd
    · cases hd
    rename_i hke
    rw [if_neg hke] at hg
    exact .inr ⟨m, hm, hd, hg⟩
  · rintro (hp | ⟨m, hm, hd, hg⟩) hke
    · exact .inl hp
    have : ¬(m.device = some device ∧ m.attachmentGeneration.any (· ≤ n) = true) := by
      rw [hd, hg]
      simpa using hke
    exact .inr ⟨_, ⟨m, hm, rfl⟩, by rw [if_neg this]; exact hd, by rw [if_neg this]; exact hg⟩

end CorePaneHost

namespace WorkspaceHost

variable {w : WorkspaceHost} {device connection id d : Id} {g : Nat} {env : Env}

def Grants (w : WorkspaceHost) (id d : Id) (g : Nat) : Prop :=
  ∃ h, w.panes id = some h ∧ h.Grants d g

def released (w : WorkspaceHost) (d workspace : Id) : Nat := (w.generationsOf d workspace).2

theorem grants_paneHost (hg : (w.paneHost id).Grants d g) : w.Grants id d g := by
  unfold paneHost at hg
  cases hp : w.panes id with
  | none =>
    rw [hp] at hg
    rcases hg with ⟨_, hc, -⟩ | ⟨_, hc, -⟩ <;> cases hc
  | some h =>
    rw [hp] at hg
    exact ⟨h, hp, hg⟩

/-- What `ClaimPane` may change: the host of the Pane it names, if it is placed, and there one grant,
of a generation that is not released. -/
structure Claims (device : Id) (c : ClaimPane) (w w' : WorkspaceHost) : Prop where
  placed : w'.placed = w.placed
  workspaces : w'.workspaces = w.workspaces
  released : ∀ d x, w'.released d x = w.released d x
  others : ∀ j, j ≠ c.pane → w'.panes j = w.panes j
  known : w'.panes c.pane = w.panes c.pane ∨ (w.placed c.pane).isSome = true
  grants : ∀ d g, w'.Grants c.pane d g → w.Grants c.pane d g ∨
    d = device ∧ ∃ p, w.placed c.pane = some p ∧ w.released d p.workspace < g

theorem Claims.refl (c : ClaimPane) : Claims device c w w :=
  ⟨rfl, rfl, fun _ _ => rfl, fun _ _ => rfl, .inl rfl, fun _ _ hg => .inl hg⟩

theorem released_setGenerations {x e y : Id} {m n : Nat} :
    (w.setGenerations d x m n).released e y = if e = d ∧ y = x then n else w.released e y := by
  unfold released generationsOf setGenerations
  by_cases hke : e = d ∧ y = x
  · obtain ⟨rfl, rfl⟩ := hke
    simp
  · simp [hke]

variable {c : ClaimPane} {p : Placed}

theorem OnPane.claims {out : Except Refusal Reply × WorkspaceHost}
    (h : OnPane device connection env (some c.attachment.generation) c.pane w out)
    (hp : w.placed c.pane = some p) (hf : w.released device p.workspace < c.attachment.generation) :
    Claims device c w out.2 := by
  cases h with
  | mk boot placed workspaces generations others pane op =>
    refine ⟨placed, workspaces, fun d x => ?_, others, .inr (by rw [hp]; rfl), ?_⟩
    · simp only [released, generationsOf, generations]
    rintro d g ⟨h', hh', hg⟩
    cases pane.symm.trans hh'
    have hgr : (w.paneHost c.pane).Grants d g ∨ d = device ∧ some c.attachment.generation = some g := by
      cases op with
      | kept _ _ grants | attached _ _ _ _ _ grants => exact grants d g hg
    rcases hgr with hg | ⟨rfl, he⟩
    · exact .inl (grants_paneHost hg)
    · cases he
      exact .inr ⟨rfl, p, hp, hf⟩
  | refused => exact .refl c

variable {w' : WorkspaceHost}

theorem Claims.attachedBy (h : Claims device c w w') (hp : w.placed c.pane = some p)
    (hf : w.released device p.workspace < c.attachment.generation)
    (hh : ∀ host q, w'.panes c.pane = some host → host.pane = some q → q.device = some device) :
    Claims device c w (w'.attachedBy c.pane c.attachment.generation) := by
  refine ⟨h.placed, h.workspaces, h.released, fun j hj => ?_, .inr (by rw [hp]; rfl), ?_⟩
  · exact (Function.update_of_ne hj ..).trans (h.others j hj)
  rintro d g ⟨host', hho', hg⟩
  simp only [WorkspaceHost.attachedBy, Function.update_self] at hho'
  obtain ⟨host, hho, rfl⟩ := Option.map_eq_some_iff.mp hho'
  rcases hg with ⟨q', hq', hd, hge⟩ | hdo
  · obtain ⟨q, hq, rfl⟩ := Option.map_eq_some_iff.mp hq'
    cases (hh host q hho hq).symm.trans hd
    cases hge
    exact .inr ⟨rfl, p, hp, hf⟩
  · exact h.grants d g ⟨host, hho, .inr hdo⟩

theorem OnPane.holder {reply : Except Refusal Reply} {lease : Lease}
    {extra : Option Nat} (h : OnPane device connection env extra id w (reply, w'))
    (hr : reply = .ok (.attached lease)) {host : CorePaneHost} {q : OwnedPane}
    (hh : w'.panes id = some host) (hq : host.pane = some q) : q.device = some device := by
  cases h with
  | mk _ _ _ _ _ pane op =>
    cases pane.symm.trans hh
    cases op with
    | kept _ _ _ refused => exact absurd hr (refused lease)
    | attached _ pane holder =>
      cases pane.symm.trans hq
      exact holder
  | refused => cases hr

theorem claimCurrent_claims (hp : w.placed c.pane = some p)
    (hf : w.released device p.workspace < c.attachment.generation) :
    Claims device c w (w.claimCurrent device connection c env).2 := by
  unfold claimCurrent
  have hc := OnPane.of_setPane (@claimAs_onPane (w.setPane c.pane (w.paneHost c.pane))
    device connection env c)
  simp only
  split
  · refine ⟨rfl, rfl, fun _ _ => rfl, fun j hj => Function.update_of_ne hj .., .inr (by rw [hp]; rfl),
      fun d g hg => .inl ?_⟩
    obtain ⟨h', hh', hg⟩ := hg
    simp only [setPane, Function.update_self, Option.some.injEq] at hh'
    exact grants_paneHost (hh' ▸ hg)
  generalize claimAs _ device connection c env = out at hc
  obtain ⟨reply, w'⟩ := out
  have hcl := hc.claims hp hf
  split
  · rename_i lease w'' he
    cases he
    exact hcl.attachedBy hp hf fun host q hho hq => hc.holder rfl hho hq
  · exact hcl

theorem Claims.of_setGenerations {x : Id} {m : Nat}
    (h : Claims device c (w.setGenerations d x m (w.released d x)) w') : Claims device c w w' := by
  have hr : ∀ e y, (w.setGenerations d x m (w.released d x)).released e y = w.released e y := by
    intro e y
    rw [released_setGenerations]
    split
    · rename_i he
      rw [he.1, he.2]
    · rfl
  refine { h with released := (fun e y => (h.released e y).trans (hr e y)), grants := fun e g hg => ?_ }
  rcases h.grants e g hg with hg | ⟨rfl, p, hp, hl⟩
  · exact .inl hg
  · exact .inr ⟨rfl, p, hp, hr e p.workspace ▸ hl⟩

theorem claimPane_claims : Claims device c w (w.claimPane device connection c env).2 := by
  unfold claimPane
  split
  · exact .refl c
  split
  · exact .refl c
  rename_i p hp
  simp only
  split
  · exact .refl c
  split
  · exact .of_setGenerations (.refl c)
  rename_i hs
  rw [not_or] at hs
  refine .of_setGenerations (claimCurrent_claims hp ?_)
  rw [released_setGenerations, if_pos ⟨rfl, rfl⟩]
  exact Nat.lt_of_not_le hs.2

end WorkspaceHost

/-! ### The fence -/

namespace Server

variable {s t : Server} {e : Event} {device : Id} {a : Attachment} {nonces : Id → Id}
  {failedAt : Option Id}

structure Inv (s : Server) : Prop where
  within : ∀ id p, s.host.placed id = some p → p.workspace ∈ s.host.workspaces
  placedSeen : ∀ id p, s.host.placed id = some p → s.seen id = true
  hostSeen : ∀ id h, s.host.panes id = some h → s.seen id = true
  /-- Every grant in a Workspace is newer than every release processed. -/
  fenced : ∀ id p d g, s.host.placed id = some p → s.host.Grants id d g → s.processed d p.workspace < g
  held : ∀ d w, w ∈ s.host.workspaces → s.processed d w ≤ s.host.released d w
  known : ∀ d w, s.processed d w ≠ 0 → w ∈ s.host.workspaces ∨ w ∈ s.gone

theorem Inv.start (boot : Id) : (start boot).Inv where
  within _ _ h := nomatch h
  placedSeen _ _ h := nomatch h
  hostSeen _ _ h := nomatch h
  fenced _ _ _ _ h := nomatch h
  held _ _ h := nomatch h
  known _ _ h := absurd rfl h

theorem releaseAttachment_host (hw : a.workspace ∈ s.host.workspaces) (ha : a.generation ≠ 0) :
    (s.host.releaseAttachment device a nonces failedAt).2 =
      { s.host.setGenerations device a.workspace (s.host.generationsOf device a.workspace).1
          (max (s.host.released device a.workspace) a.generation) with
        panes := fun id =>
          if (s.host.placed id).any (·.workspace == a.workspace) && failedAt.all (id ≤ ·) then
            (s.host.panes id).map (WorkspaceHost.releaseHost device a.generation
              (if failedAt = some id then none else some (nonces id)))
          else s.host.panes id } := by
  unfold WorkspaceHost.releaseAttachment
  rw [if_neg (not_not.mpr hw), if_neg ha]
  rfl

structure Releases (device : Id) (a : Attachment) (w w' : WorkspaceHost) : Prop where
  placed : w'.placed = w.placed
  workspaces : w'.workspaces = w.workspaces
  released : ∀ d x, w.released d x ≤ w'.released d x
  grants : ∀ id d g, w'.Grants id d g → w.Grants id d g
  keeps : ∀ id d g, w.Grants id d g → (d ≠ device ∨ a.generation < g) → w'.Grants id d g
  hosts : ∀ id h, w'.panes id = some h → (w.panes id).isSome = true

theorem releaseAttachment_releases :
    Releases device a s.host (s.host.releaseAttachment device a nonces failedAt).2 := by
  have hr : Releases device a s.host s.host :=
    ⟨rfl, rfl, fun _ _ => Nat.le_refl _, fun _ _ _ hg => hg, fun _ _ _ hg _ => hg, fun _ _ hh => by rw [hh]; rfl⟩
  by_cases hw : a.workspace ∈ s.host.workspaces
  · by_cases ha : a.generation = 0
    · unfold WorkspaceHost.releaseAttachment
      rw [if_neg (not_not.mpr hw), if_pos ha]
      exact hr
    rw [releaseAttachment_host hw ha]
    refine ⟨rfl, rfl, fun d x => ?_, ?_, ?_, fun id h hh => ?_⟩
    · show _ ≤ (s.host.setGenerations device a.workspace _ _).released d x
      rw [WorkspaceHost.released_setGenerations]
      split
      · rename_i he
        rw [he.1, he.2]
        exact Nat.le_max_left _ _
      · exact Nat.le_refl _
    · rintro id d g ⟨h', hh', hg⟩
      simp only at hh'
      split at hh'
      · obtain ⟨h, hh, rfl⟩ := Option.map_eq_some_iff.mp hh'
        refine ⟨h, hh, ?_⟩
        split at hg
        · exact CorePaneHost.grants_releaseHost_none.1 hg
        · exact (CorePaneHost.grants_releaseHost.mp hg).1
      · exact ⟨h', hh', hg⟩
    · rintro id d g ⟨h, hh, hg⟩ hke
      have hke : ¬(d = device ∧ g ≤ a.generation) := fun ⟨hd, hl⟩ => by
        rcases hke with hne | hlt
        · exact hne hd
        · omega
      unfold WorkspaceHost.Grants
      simp only
      split
      · refine ⟨_, Option.map_eq_some_iff.mpr ⟨h, hh, rfl⟩, ?_⟩
        split
        · exact CorePaneHost.grants_releaseHost_none.2 hg hke
        · exact CorePaneHost.grants_releaseHost.mpr ⟨hg, hke⟩
      · exact ⟨h, hh, hg⟩
    · simp only at hh
      split at hh
      · obtain ⟨h₀, hh₀, -⟩ := Option.map_eq_some_iff.mp hh
        rw [hh₀]
        rfl
      · rw [hh]
        rfl
  · unfold WorkspaceHost.releaseAttachment
    rw [if_pos hw]
    exact hr

theorem complete_of_done (hw : a.workspace ∈ s.host.workspaces)
    (hd : (s.host.releaseAttachment device a nonces failedAt).1 = .ok .unchanged) :
    a.generation ≠ 0 ∧ failedAt = none := by
  unfold WorkspaceHost.releaseAttachment at hd
  rw [if_neg (not_not.mpr hw)] at hd
  split at hd
  · cases hd
  rename_i ha
  refine ⟨ha, ?_⟩
  cases failedAt with
  | none => rfl
  | some x => cases hd

theorem released_of_done (hw : a.workspace ∈ s.host.workspaces)
    (hd : (s.host.releaseAttachment device a nonces failedAt).1 = .ok .unchanged) :
    a.generation ≤ (s.host.releaseAttachment device a nonces failedAt).2.released device a.workspace := by
  rw [releaseAttachment_host hw (complete_of_done hw hd).1]
  show _ ≤ (s.host.setGenerations device a.workspace _ _).released device a.workspace
  rw [WorkspaceHost.released_setGenerations, if_pos ⟨rfl, rfl⟩]
  exact Nat.le_max_right _ _

theorem newer_of_done (hw : a.workspace ∈ s.host.workspaces)
    (hd : (s.host.releaseAttachment device a nonces failedAt).1 = .ok .unchanged)
    {id : Id} {p : Placed} {g : Nat} (hp : s.host.placed id = some p) (hpw : p.workspace = a.workspace)
    (hg : (s.host.releaseAttachment device a nonces failedAt).2.Grants id device g) :
    a.generation < g := by
  obtain ⟨ha, rfl⟩ := complete_of_done hw hd
  rw [releaseAttachment_host hw ha] at hg
  obtain ⟨h', hh', hg⟩ := hg
  have hi : (s.host.placed id).any (·.workspace == a.workspace) = true := by
    rw [hp]
    simpa using hpw
  simp only [hi, Option.all_none, Bool.and_self, if_true] at hh'
  obtain ⟨h, hh, rfl⟩ := Option.map_eq_some_iff.mp hh'
  by_contra hl
  exact (CorePaneHost.grants_releaseHost.mp hg).2 ⟨rfl, Nat.le_of_not_lt hl⟩

theorem Inv.claim (h : s.Inv) {device connection : Id} {c : ClaimPane} {env : Env} :
    Inv { s with host := (s.host.claimPane device connection c env).2 } := by
  have hc : WorkspaceHost.Claims device c s.host (s.host.claimPane device connection c env).2 :=
    WorkspaceHost.claimPane_claims
  generalize (s.host.claimPane device connection c env).2 = w' at hc
  refine ⟨fun id p hp => ?_, fun id p hp => ?_, fun id host hh => ?_, fun id p d g hp hg => ?_,
    fun d w hw => ?_, fun d w hne => ?_⟩
  · simp only [hc.placed, hc.workspaces] at hp ⊢
    exact h.within id p hp
  · simp only [hc.placed] at hp
    exact h.placedSeen id p hp
  · by_cases hi : id = c.pane
    · subst hi
      rcases hc.known with he | hpl
      · exact h.hostSeen _ host (he ▸ hh)
      · obtain ⟨p, hp⟩ := Option.isSome_iff_exists.mp hpl
        exact h.placedSeen _ p hp
    · exact h.hostSeen id host ((hc.others id hi) ▸ hh)
  · simp only [hc.placed] at hp
    by_cases hi : id = c.pane
    · subst hi
      rcases hc.grants d g hg with hg | ⟨rfl, q, hq, hl⟩
      · exact h.fenced _ p d g hp hg
      · cases hq.symm.trans hp
        exact Nat.lt_of_le_of_lt (h.held d p.workspace (h.within _ p hp)) hl
    · obtain ⟨host, hh, hg⟩ := hg
      exact h.fenced id p d g hp ⟨host, (hc.others id hi) ▸ hh, hg⟩
  · simp only [hc.workspaces] at hw
    simp only [hc.released]
    exact h.held d w hw
  · simp only [hc.workspaces]
    exact h.known d w hne

theorem Inv.releases (h : s.Inv) {w' : WorkspaceHost} (hr : Releases device a s.host w') :
    Inv { s with host := w' } := by
  refine ⟨fun id p hp => ?_, fun id p hp => ?_, fun id host hh => ?_, fun id p d g hp hg => ?_,
    fun d w hw => ?_, fun d w hne => ?_⟩
  · simp only [hr.placed, hr.workspaces] at hp ⊢
    exact h.within id p hp
  · simp only [hr.placed] at hp
    exact h.placedSeen id p hp
  · obtain ⟨host₀, hh₀⟩ := Option.isSome_iff_exists.mp (hr.hosts id host hh)
    exact h.hostSeen id host₀ hh₀
  · simp only [hr.placed] at hp
    exact h.fenced id p d g hp (hr.grants id d g hg)
  · simp only [hr.workspaces] at hw
    exact (h.held d w hw).trans (hr.released d w)
  · simp only [hr.workspaces]
    exact h.known d w hne

theorem Inv.processed (h : s.Inv) {n : Nat} {x : Id} (hkn : x ∈ s.host.workspaces ∨ x ∈ s.gone)
    (hgr : ∀ id p g, s.host.placed id = some p → p.workspace = x → s.host.Grants id device g → n < g)
    (hh : x ∈ s.host.workspaces → n ≤ s.host.released device x) :
    Inv { s with processed := fun d w => if d = device ∧ w = x then max (s.processed d w) n
                                         else s.processed d w } := by
  refine ⟨h.within, h.placedSeen, h.hostSeen, fun id p d g hp hg => ?_, fun d w hw => ?_, fun d w hne => ?_⟩
  · simp only
    split
    · rename_i he
      obtain ⟨rfl, hx⟩ := he
      exact Nat.max_lt.mpr ⟨h.fenced id p d g hp hg, hgr id p g hp hx hg⟩
    · exact h.fenced id p d g hp hg
  · simp only
    split
    · rename_i he
      obtain ⟨rfl, rfl⟩ := he
      exact Nat.max_le.mpr ⟨h.held d w hw, hh hw⟩
    · exact h.held d w hw
  · simp only at hne
    split at hne
    · rename_i he
      exact he.2 ▸ hkn
    · exact h.known d w hne

theorem Inv.organize (h : s.Inv) {placed : Id → Option Placed} {workspaces : List Id}
    (edits : Edits s placed workspaces) : (s.organize placed workspaces).Inv := by
  unfold Server.organize
  refine ⟨edits.within, fun id p hp => ?_, fun id host hh => ?_, fun id p d g hp hg => ?_,
    fun d w hw => ?_, fun d w hne => ?_⟩
  · simp only at hp ⊢
    rw [hp]
    exact Bool.or_true _
  · simp only
    rw [h.hostSeen id host hh]
    rfl
  · obtain ⟨host, hh, hg⟩ := hg
    rcases edits.panes id p hp with ⟨q, hq, he⟩ | hnew
    · exact he ▸ h.fenced id q d g hq ⟨host, hh, hg⟩
    -- a Pane that is new has no host
    rw [h.hostSeen id host hh] at hnew
    cases hnew
  · rcases edits.workspaces w hw with hold | hnew
    · exact h.held d w hold
    by_cases hold : w ∈ s.host.workspaces
    · exact h.held d w hold
    have : s.processed d w = 0 := by
      by_contra hne
      rcases h.known d w hne with hw | hw
      · exact hold hw
      · exact hnew hw
    simp only [this]
    exact Nat.zero_le _
  · rcases h.known d w hne with hw | hw
    · by_cases hi : w ∈ workspaces
      · exact .inl hi
      · exact .inr (List.mem_append_right _ (List.mem_filter.mpr ⟨hw, by simpa using hi⟩))
    · exact .inr (List.mem_append_left _ hw)

theorem Inv.step (h : s.Inv) (hs : Retained s e t) : t.Inv := by
  cases hs.1 with
  | claim device connection c env => exact h.claim
  | @released device a nonces failedAt known done =>
    have hr : Releases device a s.host
        (s.host.releaseAttachment device a nonces failedAt).2 := releaseAttachment_releases
    have hin := h.releases hr
    refine hin.processed ?_ (fun id p g hp hpw hg => ?_) fun hw => ?_
    · simp only [hr.workspaces]
      exact known
    · simp only [hr.placed] at hp
      exact newer_of_done (hpw ▸ h.within id p hp) done hp hpw hg
    · simp only [hr.workspaces] at hw
      exact released_of_done hw done
  | releaseFailed => exact h.releases releaseAttachment_releases
  | change id c =>
    refine ⟨h.within, h.placedSeen, fun j host hh => ?_, fun j p d g hp hg => ?_, h.held, h.known⟩
    · by_cases hj : j = id
      · subst hj
        simp only [Function.update_self] at hh
        obtain ⟨host₀, hh₀, -⟩ := Option.map_eq_some_iff.mp hh
        exact h.hostSeen j host₀ hh₀
      · simp only [Function.update_of_ne hj] at hh
        exact h.hostSeen j host hh
    obtain ⟨host, hh, hg⟩ := hg
    by_cases hj : j = id
    · subst hj
      simp only [Function.update_self] at hh
      obtain ⟨host₀, hh₀, rfl⟩ := Option.map_eq_some_iff.mp hh
      exact h.fenced j p d g hp ⟨host₀, hh₀, CorePaneHost.grants_apply hg⟩
    · simp only [Function.update_of_ne hj] at hh
      exact h.fenced j p d g hp ⟨host, hh, hg⟩
  | edit edits => exact h.organize edits
  | recover => exact h.organize (hs.2 _ _ rfl)
  | synchronize drop =>
    refine ⟨h.within, h.placedSeen, fun id host hh => ?_, fun id p d g hp hg => ?_, fun d w hw => ?_, h.known⟩
    · simp only at hh
      split at hh
      · cases hh
      · exact h.hostSeen id host hh
    · obtain ⟨host, hh, hg⟩ := hg
      simp only at hh
      split at hh
      · cases hh
      · exact h.fenced id p d g hp ⟨host, hh, hg⟩
    · have := h.held d w hw
      simpa [WorkspaceHost.released, WorkspaceHost.generationsOf, hw] using this

theorem Inv.run {boot : Id} {es : List Event} (hr : Run Retained (Server.start boot) es s) : s.Inv :=
  hr.invariant (.start boot) .step

theorem processed_mono {es : List Event} (hr : Run Retained s es t) (d w : Id) :
    s.processed d w ≤ t.processed d w := by
  induction hr with
  | refl => exact Nat.le_refl _
  | snoc _ hl ih =>
    refine ih.trans ?_
    cases hl.1 with
    | released =>
      simp only
      split
      · exact Nat.le_max_left _ _
      · exact Nat.le_refl _
    | _ => exact Nat.le_refl _

/-- After a release was processed, every grant of its device in its Workspace is newer, now and
later. -/
theorem newer_after_release {es fs : List Event} {boot : Id} {u : Server}
    (hr : Run Retained (Server.start boot) es s) (hs : Step s (.release device a nonces failedAt) t)
    (hd : (s.host.releaseAttachment device a nonces failedAt).1 = .ok .unchanged)
    (hl : Run Retained t fs u) {id : Id} {p : Placed} {g : Nat} (hp : u.host.placed id = some p)
    (hpw : p.workspace = a.workspace) (hg : u.host.Grants id device g) : a.generation < g := by
  have hu : u.Inv := hl.invariant ((Inv.run hr).step ⟨hs, nofun⟩) .step
  refine Nat.lt_of_le_of_lt ?_ (hpw ▸ hu.fenced id p device g hp hg)
  refine Nat.le_trans ?_ (processed_mono hl device a.workspace)
  cases hs with
  | released =>
    simp only [and_self, if_true]
    exact Nat.le_max_right _ _
  | releaseFailed failed => exact absurd hd failed

end Server

/-! ### Both sides -/

/-- The client's generations increase from attachment to attachment, whatever saves fail; every record
it saves is valid; a permit handed out before a detach is never active again. However its claims and
releases are delayed, repeated and reordered at the server: a release drops no grant of a later
generation and none of another device; and once a release was processed, no grant of the device in
the Workspace has a generation up to the released one, then or later, as long as no organization that
is read back holds what was gone. -/
theorem attachments_fenced {boot : Id} {es : List Server.Event} {s : Server}
    (hrun : Run Server.Retained (Server.start boot) es s) :
    (∀ cs c, Run Client.Step {} cs c → c.issued.Pairwise (·.generation < ·.generation) ∧ c.file.valid = true ∧
      ∀ fs t gs u pane a written, c.permit pane = some a → Run Client.Step c fs t →
        (t.detach a.workspace written).1 = .ok () →
        Run Client.Step (t.detach a.workspace written).2 gs u → u.active a = false) ∧
    (∀ device a nonces failedAt t, Server.Step s (.release device a nonces failedAt) t →
      (s.host.releaseAttachment device a nonces failedAt).1 = .ok .unchanged →
        ∀ fs u, Run Server.Retained t fs u → ∀ id p g, u.host.placed id = some p →
          p.workspace = a.workspace → u.host.Grants id device g → a.generation < g) ∧
    ∀ r device a nonces failedAt t, Server.Step r (.release device a nonces failedAt) t →
      ∀ id d g, r.host.Grants id d g → (d ≠ device ∨ a.generation < g) → t.host.Grants id d g := by
  refine ⟨fun cs c hru => ⟨(Client.Inv.run hru).issued, (Client.Inv.run hru).valid, ?_⟩, ?_, ?_⟩
  · intro fs t gs u pane a written hpe hmo hd hl
    exact Client.permit_inactive hru hpe hmo hd rfl hl
  · intro device a nonces failedAt t hs hdo fs u hl id p g hp hpw hg
    exact Server.newer_after_release hrun hs hdo hl hp hpw hg
  intro r device a nonces failedAt t hs id d g hg hke
  have hr : Server.Releases device a r.host
      (r.host.releaseAttachment device a nonces failedAt).2 := Server.releaseAttachment_releases
  have hkee := hr.keeps id d g hg hke
  cases hs with
  | released | releaseFailed => exact hkee

namespace Server

/-- Pane 5 in Workspace 1. -/
def onePane (id : Id) : Option Placed := if id = 5 then some ⟨1, none⟩ else none

def claimOne (generation : Nat) : ClaimPane := ⟨⟨1, generation⟩, 5, .select true⟩

def freshEnv : Env := { session := some 3, control := some 4 }

/-- Device 1 attached to Pane 5 at generation 2. -/
def claimedOne : Server :=
  let s := (start 0).organize onePane [1]
  { s with host := (s.host.claimPane 1 9 (claimOne 2) freshEnv).2 }

theorem onePane_within : ∀ id p, onePane id = some p → p.workspace ∈ [1] := by
  intro id p hp
  unfold onePane at hp
  split at hp
  · cases hp
    exact List.mem_singleton.mpr rfl
  · cases hp

/-- The release of generation 2 takes the grant, and what is granted later is newer. -/
theorem attachments_fenced_released :
    claimedOne.host.Grants 5 1 2 ∧ ∃ t, Step claimedOne (.release 1 ⟨1, 2⟩ id none) t ∧
      ∀ g, t.host.Grants 5 1 g → 2 < g := by
  have hr : Run Retained (start 0) [.edit onePane [1], .claim 1 9 (claimOne 2) freshEnv] claimedOne :=
    .cons ⟨.edit ⟨onePane_within, fun _ _ _ => .inr rfl, fun _ _ => .inr nofun⟩, nofun⟩
      (.single ⟨.claim 1 9 (claimOne 2) freshEnv, nofun⟩)
  have hs : Step claimedOne (.release 1 ⟨1, 2⟩ id none) _ :=
    .released (.inl (List.mem_singleton.mpr rfl)) rfl
  refine ⟨⟨_, rfl, .inl ⟨_, rfl, rfl, rfl⟩⟩, _, hs, fun g hg => ?_⟩
  exact (attachments_fenced hr).2.1 1 ⟨1, 2⟩ id none _ hs rfl [] _ (.refl _) 5 ⟨1, none⟩ g rfl rfl hg

/-- Then the Workspace was closed. -/
def closedOne : Server := claimedOne.organize (fun _ => none) []

/-- The close of a Workspace is not retained: a release of generation 3 that was processed meanwhile
meets no Pane and leaves no mark, and after the Workspace is read back the grant of generation 2 is
there again and generation 3 is granted. -/
theorem release_undone : ∃ es fs t u v, Run Step (start 0) es closedOne ∧
    (closedOne.host.releaseAttachment 1 ⟨1, 3⟩ id none).1 = .ok .unchanged ∧
    Step closedOne (.release 1 ⟨1, 3⟩ id none) t ∧ Run Step t fs u ∧
    u.host.placed 5 = some ⟨1, none⟩ ∧ u.host.Grants 5 1 2 ∧
    Step u (.claim 1 9 (claimOne 3) freshEnv) v ∧ v.host.Grants 5 1 3 := by
  refine ⟨_, _, _, _, _,
    (((Run.refl _).snoc (.edit ⟨onePane_within, fun _ _ _ => .inr rfl, fun _ _ => .inr nofun⟩)).snoc
      (.claim 1 9 (claimOne 2) freshEnv)).snoc (.edit ⟨nofun, nofun, nofun⟩),
    rfl, .released (.inr (List.mem_singleton.mpr rfl)) rfl,
    ((Run.refl _).snoc (.synchronize fun _ => false)).snoc (.recover onePane_within), rfl,
    ⟨_, rfl, .inl ⟨_, rfl, rfl, rfl⟩⟩, .claim 1 9 (claimOne 3) freshEnv,
    ⟨_, rfl, .inl ⟨_, rfl, rfl, rfl⟩⟩⟩

end Server

end SpaceTerm.Control
