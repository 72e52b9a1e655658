import SpaceTerm.Control.Host
import Mathlib.Data.Option.Basic

/-! # What a request makes of a Pane's host

A request on a Pane's host either leaves its Session as it is, or ends it, or attaches the asking
device: it resumes the device's own lease on the new connection, transfers control under a new nonce,
or starts a Session. No request makes a grant of an attachment generation but the one it names. -/

namespace SpaceTerm.Control
open Hierarchy (Refusal)

namespace CorePaneHost

def Grants (h : CorePaneHost) (d : Id) (g : Nat) : Prop :=
  (∃ p, h.pane = some p ∧ p.device = some d ∧ p.attachmentGeneration = some g) ∨
  ∃ m, h.dormant = some m ∧ m.device = some d ∧ m.attachmentGeneration = some g

/-- The Session goes on as it is or is gone, and no grant is new. -/
structure Kept (h h' : CorePaneHost) : Prop where
  boot : h'.boot = h.boot
  pane : h'.pane = h.pane ∨ h'.pane = none
  grants : ∀ d g, h'.Grants d g → h.Grants d g

theorem Kept.refl (h : CorePaneHost) : Kept h h := ⟨rfl, .inl rfl, fun _ _ hg => hg⟩

variable {h h' h'' : CorePaneHost} {device connection : Id} {env : Env} {extra : Option Nat}

theorem Kept.trans (h₁ : Kept h h') (h₂ : Kept h' h'') : Kept h h'' := by
  refine ⟨h₂.boot.trans h₁.boot, ?_, fun d g hg => h₁.grants d g (h₂.grants d g hg)⟩
  rcases h₂.pane with he | he
  · exact he ▸ h₁.pane
  · exact .inr he

inductive LeaseFrom (h : CorePaneHost) (device connection : Id) (env : Env) : Lease → Prop
  | resumed {p : OwnedPane} (pane : h.pane = some p) (held : p.device = some device) :
      LeaseFrom h device connection env { p.lease with connection }
  | transferred {p : OwnedPane} {control : Id} (pane : h.pane = some p)
      (fresh : env.control = some control) :
      LeaseFrom h device connection env { p.lease with control, connection }
  | started {session control : Id} (session_ : env.session = some session)
      (fresh : env.control = some control) :
      LeaseFrom h device connection env ⟨h.boot, session, control, connection⟩

theorem LeaseFrom.of_kept {lease : Lease} (hke : Kept h h')
    (hf : LeaseFrom h' device connection env lease) : LeaseFrom h device connection env lease := by
  have hpa : ∀ p, h'.pane = some p → h.pane = some p := fun p hp => by
    rcases hke.pane with he | he
    · exact he.symm.trans hp
    · rw [hp] at he
      cases he
  cases hf with
  | resumed pane held => exact .resumed (hpa _ pane) held
  | transferred pane fresh => exact .transferred (hpa _ pane) fresh
  | started session_ fresh => exact hke.boot ▸ .started session_ fresh

/-- The outcome of a request of `device`: `extra` is the generation it may leave on an ended Pane. -/
inductive Op (device connection : Id) (env : Env) (extra : Option Nat) (h : CorePaneHost) :
    Except Refusal Reply × CorePaneHost → Prop
  | kept {reply : Except Refusal Reply} {h' : CorePaneHost} (boot : h'.boot = h.boot)
      (pane : h'.pane = h.pane ∨ h'.pane = none)
      (grants : ∀ d g, h'.Grants d g → h.Grants d g ∨ d = device ∧ extra = some g)
      (refused : ∀ lease, reply ≠ .ok (.attached lease)) : Op device connection env extra h (reply, h')
  | attached {h' : CorePaneHost} {p : OwnedPane} (boot : h'.boot = h.boot) (pane : h'.pane = some p)
      (holder : p.device = some device) (connected : p.connected = true)
      (from_ : LeaseFrom h device connection env p.lease)
      (grants : ∀ d g, h'.Grants d g → h.Grants d g ∨ d = device ∧ extra = some g) :
      Op device connection env extra h (.ok (.attached p.lease), h')

variable {out : Except Refusal Reply × CorePaneHost}

theorem Op.of_kept (hke : Kept h h') (ho : Op device connection env extra h' out) :
    Op device connection env extra h out := by
  cases ho with
  | kept boot pane grants refused =>
    refine .kept (boot.trans hke.boot) ?_ (fun d g hg => (grants d g hg).imp_left (hke.grants d g))
      refused
    rcases pane with he | he
    · exact he ▸ hke.pane
    · exact .inr he
  | attached boot pane holder connected from_ grants =>
    exact .attached (boot.trans hke.boot) pane holder connected (from_.of_kept hke)
      fun d g hg => (grants d g hg).imp_left (hke.grants d g)

theorem Kept.op {reply : Except Refusal Reply} (hke : Kept h h')
    (refused : ∀ lease, reply ≠ .ok (.attached lease)) :
    Op device connection env extra h (reply, h') :=
  .kept hke.boot hke.pane (fun d g hg => .inl (hke.grants d g hg)) refused

theorem op_error (e : Refusal) : Op device connection env extra h (.error e, h) :=
  (Kept.refl h).op nofun

theorem op_takeover : Op device connection env extra h (.ok .takeover, h) :=
  (Kept.refl h).op nofun

/-! ### The requests -/

theorem Grants.congr {d : Id} {g : Nat} (hp : h'.pane = h.pane) (hd : h'.dormant = h.dormant)
    (hg : h'.Grants d g) : h.Grants d g := by
  unfold Grants at hg
  rwa [hp, hd] at hg

theorem startDirectory_op : Op device connection env extra h (h.startDirectory device connection env) := by
  have hq : ∀ b, Kept h { h with directoryUnavailable := b } := fun b =>
    ⟨rfl, .inl rfl, fun _ _ hg => hg.congr rfl rfl⟩
  unfold startDirectory
  simp only
  split
  · rename_i session control hs hco
    split
    · exact (hq false).op nofun
    refine .attached
      (p := { device := some device, attachmentGeneration := none, controlEpoch := 1,
              lease := ⟨h.boot, session, control, connection⟩, connected := true,
              endedRestart := h.dormant.isSome })
      rfl rfl rfl rfl (.started hs hco) fun d g hg => ?_
    rcases hg with ⟨p, hp, -, hge⟩ | ⟨m, hm, -⟩
    · cases hp
      cases hge
    · cases hm
  · exact (hq false).op nofun

theorem start_op : Op device connection env extra h (h.start device connection env) := by
  unfold start
  split
  · exact op_error _
  split
  · exact op_error _
  split
  · exact Kept.op ⟨rfl, .inl rfl, fun _ _ hg => hg.congr rfl rfl⟩ nofun
  · exact startDirectory_op

theorem grants_dormant {p : OwnedPane} {d : Id} {g : Nat} (hp : h.pane = some p)
    (hg : CorePaneHost.Grants { h with dormant := some p.dormant, pane := none } d g) :
    h.Grants d g := by
  rcases hg with ⟨_, hc, -⟩ | ⟨m, hm, hd, hge⟩
  · cases hc
  · cases hm
    exact .inl ⟨p, hp, hd, hge⟩

theorem retireExited_kept : Kept h (h.retireExited env).2 := by
  unfold retireExited
  split
  · exact .refl h
  rename_i p hp
  split
  · split
    · exact .refl h
    refine ⟨rfl, .inr rfl, fun d g hg => ?_⟩
    rcases hg with ⟨_, hc, -⟩ | ⟨m, hm, hd, hge⟩
    · cases hc
    simp only at hm
    split at hm
    · cases hm
      exact .inl ⟨p, hp, hd, hge⟩
    · exact .inr ⟨m, hm, hd, hge⟩
  · split
    · split
      · exact .refl h
      split
      · exact ⟨rfl, .inr rfl, fun d g hg => grants_dormant hp hg⟩
      · exact ⟨rfl, .inl rfl, fun _ _ hg => hg.congr rfl rfl⟩
    · exact .refl h

theorem kept_drop : Kept h { h with pane := none } := by
  refine ⟨rfl, .inr rfl, fun d g hg => ?_⟩
  rcases hg with ⟨_, hc, -⟩ | hd
  · cases hc
  · exact .inr hd

theorem reconcileSelection_kept : Kept h (h.reconcileSelection env).2 := by
  have hr : Kept h (h.retireExited env).2 := retireExited_kept
  unfold reconcileSelection
  generalize h.retireExited env = out at hr
  obtain ⟨result, h'⟩ := out
  cases result with
  | error e => exact hr
  | ok _ =>
    simp only
    split
    · exact hr
    split
    · exact hr.trans kept_drop
    split
    · exact hr
    · exact hr

theorem claim_cases (p : OwnedPane) (device connection : Id) (env : Env) (transfer : Bool) :
    (∃ e, p.claim device connection env transfer = (.error e, p)) ∨
    ∃ p' : OwnedPane, p.claim device connection env transfer = (.ok (.attached p'.lease), p') ∧
      p'.device = some device ∧ p'.connected = true ∧
      (transfer = false ∧ p'.lease = { p.lease with connection } ∧
          p'.attachmentGeneration = p.attachmentGeneration ∨
        ∃ control, env.control = some control ∧ p'.lease = { p.lease with control, connection } ∧
          p'.attachmentGeneration = none) := by
  unfold OwnedPane.claim
  split
  · exact .inl ⟨_, rfl⟩
  cases transfer with
  | false =>
    simp only [Bool.false_eq_true, if_false]
    split
    · exact .inl ⟨_, rfl⟩
    split
    · exact .inl ⟨_, rfl⟩
    · exact .inr ⟨{ p with device := some device, lease := { p.lease with connection },
                           connected := true }, rfl, rfl, rfl, .inl ⟨trivial, rfl, rfl⟩⟩
  | true =>
    simp only [if_true]
    split
    · exact .inl ⟨_, rfl⟩
    rename_i control hc
    split
    · exact .inl ⟨_, rfl⟩
    split
    · exact .inl ⟨_, rfl⟩
    exact .inr ⟨{ p with attachmentGeneration := none, device := some device, controlEpoch := p.controlEpoch + 1,
                         lease := { p.lease with control, connection }, connected := true },
      rfl, rfl, rfl, .inr ⟨control, hc, rfl, rfl⟩⟩

theorem claim_op {p : OwnedPane} {transfer : Bool} (hp : h.pane = some p)
    (hh : transfer = false → p.device = some device) :
    Op device connection env extra h ((p.claim device connection env transfer).1,
      { h with pane := some (p.claim device connection env transfer).2 }) := by
  rcases claim_cases p device connection env transfer with ⟨e, he⟩ | ⟨p', he, hde, hco, hf⟩
  · have hs : Kept h { h with pane := some p } := by
      refine ⟨rfl, .inl hp.symm, fun d g hg => ?_⟩
      unfold Grants
      rw [hp]
      exact hg
    rw [he]
    exact hs.op nofun
  rw [he]
  refine .attached (p := p') rfl rfl hde hco ?_ fun d g hg => .inl ?_
  · rcases hf with ⟨ht, hl, -⟩ | ⟨control, hcont, hl, -⟩
    · exact hl ▸ .resumed hp (hh ht)
    · exact hl ▸ .transferred hp hcont
  rcases hg with ⟨q, hq, hd, hge⟩ | hdo
  · cases hq
    rcases hf with ⟨ht, -, hke⟩ | ⟨_, -, -, hnone⟩
    · refine .inl ⟨p, hp, ?_, hke.symm.trans hge⟩
      rw [hh ht, ← hde, hd]
    · rw [hnone] at hge
      cases hge
  · exact .inr hdo

theorem select_op {explicit : Bool} :
    Op device connection env extra h (h.select device connection explicit env) := by
  have hke : Kept h (h.reconcileSelection env).2 := reconcileSelection_kept
  unfold select
  split
  · exact op_error _
  generalize h.reconcileSelection env = out at hke
  obtain ⟨result, h'⟩ := out
  cases result with
  | error e => exact hke.op nofun
  | ok _ =>
    refine .of_kept hke ?_
    simp only
    split
    · split
      · exact op_takeover
      · exact op_error _
    split
    · rename_i p hp
      split
      · exact op_takeover
      rename_i hother
      refine claim_op hp fun hs => ?_
      cases hd : p.device with
      | none => rw [hd] at hs; cases hs
      | some d =>
        rw [hd] at hother
        simpa [heldByOther] using hother
    · split
      · exact op_error _
      split
      · exact (Kept.refl _).op nofun
      · exact start_op

theorem takeOver_op {target : PaneTarget} :
    Op device connection env extra h (h.takeOver device connection target env) := by
  have hke : Kept h (h.reconcileSelection env).2 := reconcileSelection_kept
  unfold takeOver
  generalize h.reconcileSelection env = out at hke
  obtain ⟨result, h'⟩ := out
  cases result with
  | error e => exact hke.op nofun
  | ok _ =>
    refine .of_kept hke ?_
    simp only
    split
    · exact op_error _
    rename_i p hp
    split
    · exact op_error _
    · exact claim_op hp nofun

theorem takeOverEnded_op {generation : Nat} :
    Op device connection env (some generation) h
      (h.takeOverEnded device connection (some generation) env) := by
  unfold takeOverEnded
  split
  · exact op_error _
  split
  · exact op_error _
  rename_i d hd
  split
  · exact op_error _
  simp only
  generalize hmo : DormantPane.mk (some device) (some generation) (d.controlEpoch + 1) = moved
  -- the grant moves to the asking device before the Session starts
  have hgr : ∀ d g, CorePaneHost.Grants { h with dormant := some moved } d g →
      h.Grants d g ∨ d = device ∧ some generation = some g := by
    intro d g hg
    rcases hg with hp | ⟨m, hm, hde, hge⟩
    · exact .inl (.inl hp)
    cases hm
    subst hmo
    cases hde
    exact .inr ⟨rfl, hge⟩
  have hs : Op device connection env none { h with dormant := some moved }
      (CorePaneHost.start { h with dormant := some moved } device connection env) := start_op
  generalize CorePaneHost.start _ device connection env = out at hs
  cases hs with
  | kept boot pane grants refused =>
    refine .kept boot pane (fun d g hg => ?_) refused
    rcases grants d g hg with hg | ⟨-, hc⟩
    · exact hgr d g hg
    · cases hc
  | attached boot pane holder connected from_ grants =>
    refine .attached boot pane holder connected ?_ fun d g hg => ?_
    · generalize OwnedPane.lease _ = lease at from_
      cases from_ with
      | resumed pane held => exact .resumed pane held
      | transferred pane fresh => exact .transferred pane fresh
      | started session_ fresh => exact .started (h := h) session_ fresh
    · rcases grants d g hg with hg | ⟨-, hc⟩
      · exact hgr d g hg
      · cases hc

end CorePaneHost

/-! ### Claims of a Pane in its Workspace -/

namespace WorkspaceHost

variable {w : WorkspaceHost} {device connection id : Id} {env : Env} {extra : Option Nat}

/-- A request that changes one Pane's host, and nothing else. -/
inductive OnPane (device connection : Id) (env : Env) (extra : Option Nat) (id : Id)
    (w : WorkspaceHost) : Except Refusal Reply × WorkspaceHost → Prop
  | mk {reply : Except Refusal Reply} {w' : WorkspaceHost} {host : CorePaneHost}
      (boot : w'.boot = w.boot) (placed : w'.placed = w.placed)
      (workspaces : w'.workspaces = w.workspaces) (generations : w'.generations = w.generations)
      (others : ∀ j, j ≠ id → w'.panes j = w.panes j) (pane : w'.panes id = some host)
      (op : CorePaneHost.Op device connection env extra (w.paneHost id) (reply, host)) :
      OnPane device connection env extra id w (reply, w')
  | refused {e : Refusal} : OnPane device connection env extra id w (.error e, w)

theorem onPane_of_op {f : CorePaneHost → Except Refusal Reply × CorePaneHost}
    (ho : CorePaneHost.Op device connection env extra (w.paneHost id) (f (w.paneHost id))) :
    OnPane device connection env extra id w (w.onPane id f) := by
  refine .mk rfl rfl rfl rfl (fun j hj => ?_) ?_ ho
  · exact Function.update_of_ne hj ..
  · exact Function.update_self ..

theorem selection_op {creator : Option Id} {kind : Selection} {host : CorePaneHost} :
    CorePaneHost.Op device connection env extra host
      (selection creator device connection kind env host) := by
  unfold selection
  simp only
  repeat' split
  all_goals first
    | exact CorePaneHost.op_takeover
    | exact CorePaneHost.select_op

theorem select_onPane {kind : Selection} :
    OnPane device connection env extra id w (w.select device connection id kind env) := by
  unfold select
  split
  · exact .refused
  split
  · exact .refused
  · exact onPane_of_op selection_op

theorem OnPane.of_setPane {out : Except Refusal Reply × WorkspaceHost}
    (h : OnPane device connection env extra id (w.setPane id (w.paneHost id)) out) :
    OnPane device connection env extra id w out := by
  have hh : (w.setPane id (w.paneHost id)).paneHost id = w.paneHost id := by
    simp [paneHost, setPane]
  cases h with
  | mk boot placed workspaces generations others pane op =>
    refine .mk boot placed workspaces generations (fun j hj => ?_) pane (hh ▸ op)
    exact (others j hj).trans (Function.update_of_ne hj ..)
  | refused =>
    have hp : (w.setPane id (w.paneHost id)).panes id = some (w.paneHost id) :=
      Function.update_self ..
    exact .mk rfl rfl rfl rfl (fun j hj => Function.update_of_ne hj ..) hp
      (CorePaneHost.op_error _)

theorem repairDirectory_onPane {boot : Id} {sameOriginal replaces : Bool} :
    OnPane device connection env extra id w
      (w.repairDirectory device connection boot id sameOriginal replaces env) := by
  unfold repairDirectory
  split
  · exact .refused
  split
  · exact .refused
  split
  · exact .refused
  refine .of_setPane ?_
  simp only
  repeat' split
  all_goals first
    | exact .refused
    | exact select_onPane
    | exact onPane_of_op CorePaneHost.startDirectory_op

theorem takeOver_onPane {generation : Nat} {target : PaneTarget} :
    OnPane device connection env (some generation) id w
      (w.takeOver device connection id generation target env) := by
  refine onPane_of_op ?_
  repeat' split
  all_goals first
    | exact CorePaneHost.op_error _
    | exact CorePaneHost.takeOver_op
    | exact CorePaneHost.takeOverEnded_op
    | exact CorePaneHost.start_op

theorem claimAs_onPane {c : ClaimPane} :
    OnPane device connection env (some c.attachment.generation) c.pane w
      (w.claimAs device connection c env) := by
  unfold claimAs
  split
  · split
    · exact .refused
    rename_i hp
    obtain rfl := not_not.mp hp
    exact repairDirectory_onPane
  · exact select_onPane
  · split
    · exact .refused
    · exact select_onPane
  · exact takeOver_onPane

end WorkspaceHost

end SpaceTerm.Control
