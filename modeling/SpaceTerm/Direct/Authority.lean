import SpaceTerm.Direct.Changes
import SpaceTerm.Lib.Run

/-! # Revocation is final

The saved record is always valid, it is the record in memory unless a save is uncertain, no connection
is registered while one is, and a registered connection belongs to the current generation and to a
device that is not revoked. A revocation in the saved record is never undone. -/

namespace SpaceTerm.Direct.Host
open Lib Proc

/-! ## Runs -/

inductive Event
  | manage (actor : Option Nat) (request : Management) (env : Env)
  | authenticate (generation : Nat) (action : Action) (verified : Bool) (env : Env)
  | authorized (paired : Paired) (env : Env)
  | current (paired : Paired) (generation : Nat) (env : Env)
  | register (paired : Paired) (generation connection : Nat) (client : Identity) (env : Env)
  | admitAgent (paired : Paired) (agent : Name) (settled : Name → Bool) (env : Env)
  | unregister (connection : Nat)
  | revoke (actor : Option Nat) (operation : OperationId) (target : Nat) (env : Env)
  /-- A bind is tried again. -/
  | retry (listener : ListenerState)
  | restart (generation : Nat) (env : Env)

def after (s : Host) : Event → Host
  | .manage actor request env => (manage actor request env s).2
  | .authenticate generation action verified env =>
    (authenticate generation action verified env s).2
  | .authorized paired env => (authorized paired env s).2
  | .current paired generation env => (current paired generation env s).2
  | .register paired generation connection client env =>
    (register paired generation connection client env s).2
  | .admitAgent paired agent settled env => (admitAgent paired agent settled env s).2
  | .unregister connection => (unregister connection s).2
  | .revoke actor operation target env => (revoke actor operation target env s).2
  | .retry listener => { s with listener }
  | .restart generation env => (restart generation env s).2

def Event.invitation : Event → Option Nat
  | .manage _ _ env => env.invitation
  | _ => none

/-- A request is served; a random invitation id is one that was never drawn. -/
inductive Step (s : Host) (e : Event) : Host → Prop
  | mk (fresh : ∀ id, e.invitation = some id → id ∉ s.issued) : Step s e (s.after e)

def start (core generation : Nat) : Host := { core, generation }

variable {scope : Scope} {s t : Host} {env : Env} {e : Event}

def Event.plain : Event → Bool
  | .admitAgent .. => false
  | _ => true

def Event.approves : Event → PairingClaim → Prop
  | .manage _ (.approve c) _, c' => c' = c
  | _, _ => False

theorem Step.plain (h : Step s e t) (hp : e.plain = true)
    (hna : ∀ c, e.approves c → scope.named c) : Changes scope s t := by
  obtain ⟨hf⟩ := h
  cases e with
  | manage actor request env =>
    exact (manage_ends hf fun c hc => hna c (by rw [hc]; rfl)).changes
  | authenticate => exact authenticate_ends.changes
  | authorized => exact authorized_ends.changes
  | current => exact current_ends.changes
  | register => exact register_ends.changes
  | admitAgent => cases hp
  | unregister connection => exact .single (.dropped _)
  | revoke => exact revoke_ends.changes
  | retry listener => exact .single (.listener listener)
  | restart => exact restart_ends.changes

theorem Step.within (h : Step s e t) : Changes ⟨true, e.approves⟩ s t := by
  cases hp : e.plain with
  | true => exact h.plain hp fun _ hc => hc
  | false =>
    obtain ⟨hf⟩ := h
    cases e with
    | admitAgent => exact (admitAgent_ends rfl).changes
    | _ => cases hp

/-! ## The invariant -/

def Revoked (r : Record) (pairing : Nat) : Prop :=
  ∃ d ∈ r.devices, d.pairing = pairing ∧ d.revoked = true

structure Inv (s : Host) : Prop where
  valid : s.stored.Valid
  same : s.uncertain = false → s.record = s.stored
  idle : s.uncertain = true → s.connections = []
  live : ∀ e ∈ s.connections, e.generation = s.generation ∧
    ∃ d ∈ s.stored.devices, d.pairing = e.pairing ∧ d.revoked = false

theorem valid_empty : ({} : Record).Valid := by decide

theorem Inv.start (core generation : Nat) : (start core generation).Inv :=
  ⟨valid_empty, fun _ => rfl, fun _ => rfl, fun _ he => absurd he (by simp [Host.start])⟩

variable {pairing : Nat} {d : Device} {r : Record}

theorem mem_modifyDevice {f : Device → Device} :
    d ∈ (r.modifyDevice pairing f).devices ↔ ∃ d' ∈ r.devices, d = if d'.pairing == pairing then f d' else d' := by
  simp only [Record.modifyDevice, List.mem_map]
  exact ⟨fun ⟨x, hx, h⟩ => ⟨x, hx, h.symm⟩, fun ⟨x, hx, h⟩ => ⟨x, hx, h.symm⟩⟩

theorem Edit.keeps {ds : List Device} (h : Edit scope s ds) (hd : d ∈ s.record.devices) :
    ∃ d' ∈ ds, d'.pairing = d.pairing ∧ d'.claim = d.claim ∧ d'.client = d.client ∧
      d'.revoked = d.revoked ∧ (scope.agents = false → d' = d) := by
  cases h with
  | same => exact ⟨d, hd, rfl, rfl, rfl, rfl, fun _ => rfl⟩
  | enroll => exact ⟨d, List.mem_append_left _ hd, rfl, rfl, rfl, rfl, fun _ => rfl⟩
  | agents allowed pairing names =>
    refine ⟨_, mem_modifyDevice.mpr ⟨d, hd, rfl⟩, ?_⟩
    split
    · exact ⟨rfl, rfl, rfl, rfl, fun hc => by rw [hc] at allowed; cases allowed⟩
    · exact ⟨rfl, rfl, rfl, rfl, fun _ => rfl⟩

variable {target : Nat}

/-- The revocation of `target` only marks devices. -/
theorem keeps_revokedDevices {d : Device} (hd : d ∈ s.record.devices) :
    ∃ d' ∈ s.revokedDevices target, d'.pairing = d.pairing ∧ d'.claim = d.claim ∧
      d'.client = d.client ∧ d'.agents = d.agents ∧
      d'.revoked = (d.revoked || d.pairing == target) := by
  refine ⟨_, mem_modifyDevice.mpr ⟨d, hd, rfl⟩, ?_⟩
  split
  · rename_i hp
    exact ⟨rfl, rfl, rfl, rfl, by simp [hp]⟩
  · rename_i hp
    exact ⟨rfl, rfl, rfl, rfl, by simp [hp]⟩

theorem Inv.change (h : s.Inv) (hch : Change scope s t) : t.Inv := by
  cases hch with
  | recovered generation listener hu =>
    have hnone := h.idle hu
    refine ⟨h.valid, fun _ => rfl, nofun, fun e he => ?_⟩
    rw [show s.connections = [] from hnone] at he
    cases he
  | listener => exact { h with }
  | saved hc hv hed =>
    refine ⟨hv, fun _ => rfl, h.idle, fun e he => ⟨(h.live e he).1, ?_⟩⟩
    obtain ⟨d, hd, hpa, hre⟩ := (h.live e he).2
    rw [← h.same hc] at hd
    obtain ⟨d', hd', hp, -, -, hr, -⟩ := hed.keeps hd
    exact ⟨d', hd', hp.trans hpa, hr.trans hre⟩
  | @revoked next target hc hv hed =>
    refine ⟨hv, fun _ => rfl, fun hco => ?_, fun e he => ?_⟩
    · rw [show s.uncertain = true from hco] at hc
      cases hc
    obtain ⟨he, hne⟩ := List.mem_filter.mp he
    refine ⟨(h.live e he).1, ?_⟩
    obtain ⟨d, hd, hpa, hre⟩ := (h.live e he).2
    rw [← h.same hc] at hd
    obtain ⟨d', hd', hp, -, -, -, hr⟩ := @keeps_revokedDevices s target d hd
    refine ⟨d', hed ▸ hd', hp.trans hpa, ?_⟩
    rw [hr, hre, hpa]
    simpa using hne
  | saveFailed hc hke =>
    refine ⟨?_, nofun, fun _ => rfl, nofun⟩
    rcases hke with rfl | ⟨hv, -⟩
    · exact h.valid
    · exact hv
  | expired => exact { h with }
  | switched generation listener =>
    refine ⟨h.valid, h.same, fun hco => ?_, fun e he => ?_⟩
    · simp [h.idle hco]
    · obtain ⟨he, hg⟩ := List.mem_filter.mp he
      exact ⟨beq_iff_eq.mp hg, (h.live e he).2⟩
  | registered e hc hg hl =>
    refine ⟨h.valid, h.same, fun hco => ?_, fun x hx => ?_⟩
    · rw [show s.uncertain = true from hco] at hc
      cases hc
    rcases List.mem_append.mp hx with hx | hx
    · exact h.live x hx
    cases List.mem_singleton.mp hx
    rw [h.same hc] at hl
    exact ⟨hg, hl⟩
  | dropped p =>
    refine ⟨h.valid, h.same, fun hco => ?_, fun e he => h.live e (List.mem_filter.mp he).1⟩
    simp [h.idle hco]
  | invited | withdrawn | submitted | approving | decided | spent => exact { h with }
  | restarted =>
    exact ⟨h.valid, fun _ => rfl, fun _ => rfl, nofun⟩
  | noted => exact { h with }

theorem Inv.changes (h : s.Inv) (hch : Changes scope s t) : t.Inv := by
  induction hch with
  | refl => exact h
  | tail _ hc ih => exact ih.change hc

theorem Change.keeps (hch : Change scope s t) (hi : s.Inv) (hd : d ∈ s.stored.devices) :
    ∃ d' ∈ t.stored.devices, d'.pairing = d.pairing ∧ d'.claim = d.claim ∧ d'.client = d.client ∧
      (d.revoked = true → d'.revoked = true) ∧ (scope.agents = false → d'.agents = d.agents) := by
  have hs : ∃ d' ∈ s.stored.devices, d'.pairing = d.pairing ∧ d'.claim = d.claim ∧
      d'.client = d.client ∧ (d.revoked = true → d'.revoked = true) ∧
      (scope.agents = false → d'.agents = d.agents) := ⟨d, hd, rfl, rfl, rfl, id, fun _ => rfl⟩
  have hed : ∀ {ds}, s.uncertain = false → Edit scope s ds →
      ∃ d' ∈ ds, d'.pairing = d.pairing ∧ d'.claim = d.claim ∧ d'.client = d.client ∧
        (d.revoked = true → d'.revoked = true) ∧ (scope.agents = false → d'.agents = d.agents) := by
    intro ds hce he
    obtain ⟨d', hd', hp, hc, hcl, hr, heq⟩ := he.keeps (hi.same hce ▸ hd)
    exact ⟨d', hd', hp, hc, hcl, fun hre => hr.trans hre, fun ha => by rw [heq ha]⟩
  have hrev : ∀ target, s.uncertain = false →
      ∃ d' ∈ s.revokedDevices target, d'.pairing = d.pairing ∧ d'.claim = d.claim ∧
        d'.client = d.client ∧ (d.revoked = true → d'.revoked = true) ∧
        (scope.agents = false → d'.agents = d.agents) := by
    intro target hce
    obtain ⟨d', hd', hp, hc, hcl, ha, hr⟩ :=
      @keeps_revokedDevices s target d (hi.same hce ▸ hd)
    exact ⟨d', hd', hp, hc, hcl, fun hre => by rw [hr, hre]; rfl, fun _ => ha⟩
  cases hch with
  | saved hce _ he => exact hed hce he
  | revoked hce _ he => exact he ▸ hrev _ hce
  | saveFailed hce hke =>
    rcases hke with rfl | ⟨-, he | ⟨target, he⟩⟩
    · exact hs
    · exact hed hce he
    · exact he ▸ hrev target hce
  | _ => exact hs

theorem Revoked.changes (h : Revoked s.stored pairing) (hi : s.Inv)
    (hch : Changes scope s t) : Revoked t.stored pairing := by
  induction hch with
  | refl => exact h
  | tail hb hc ih =>
    obtain ⟨d, hd, hpa, hre⟩ := ih
    obtain ⟨d', hd', hp, -, -, hr, -⟩ := hc.keeps (hi.changes hb) hd
    exact ⟨d', hd', hp.trans hpa, hr hre⟩

variable {es : List Event}

theorem Revoked.run (h : Revoked s.stored pairing) (hi : s.Inv)
    (hr : Run Step s es t) : Revoked t.stored pairing ∧ t.Inv :=
  hr.invariant (P := fun t => Revoked t.stored pairing ∧ t.Inv) ⟨h, hi⟩
    fun hp hs => ⟨hp.1.changes hp.2 hs.within, hp.2.changes hs.within⟩

/-! ## The agents of a pairing -/

/-- An agent that was admitted and not evicted since is listed, unless an admission that failed
dropped its name; a listed name is not among those. -/
structure Listed (s : Host) : Prop where
  known : ∀ p n, (p, n) ∈ s.admitted → ∃ d ∈ s.stored.devices, d.pairing = p ∧ (n ∈ d.agents ∨ (p, n) ∈ s.lost)
  present : ∀ d ∈ s.stored.devices, ∀ n ∈ d.agents, (d.pairing, n) ∉ s.lost

theorem Edit.origin {ds : List Device} (h : Edit .plain s ds) (hd : d ∈ ds) :
    d ∈ s.record.devices ∨ d.agents = [] := by
  cases h with
  | same => exact .inl hd
  | enroll d' _ hempty =>
    rcases List.mem_append.mp hd with hd | hd
    · exact .inl hd
    · exact .inr (List.mem_singleton.mp hd ▸ hempty)
  | agents allowed => cases allowed

theorem origin_revokedDevices (hd : d ∈ s.revokedDevices target) :
    ∃ d' ∈ s.record.devices, d'.pairing = d.pairing ∧ d'.agents = d.agents := by
  obtain ⟨d', hd', rfl⟩ := mem_modifyDevice.mp hd
  refine ⟨d', hd', ?_⟩
  split
  · exact ⟨rfl, rfl⟩
  · exact ⟨rfl, rfl⟩

theorem Change.origin (hch : Change .plain s t) (hin : s.Inv) (hd : d ∈ t.stored.devices) :
    (∃ d' ∈ s.stored.devices, d'.pairing = d.pairing ∧ d'.agents = d.agents) ∨ d.agents = [] := by
  have hed : ∀ {ds}, s.uncertain = false → Edit .plain s ds → d ∈ ds →
      (∃ d' ∈ s.stored.devices, d'.pairing = d.pairing ∧ d'.agents = d.agents) ∨ d.agents = [] := by
    intro ds hc he hi
    rcases he.origin hi with hold | hempty
    · exact .inl ⟨d, hin.same hc ▸ hold, rfl, rfl⟩
    · exact .inr hempty
  have hr : ∀ target, s.uncertain = false → d ∈ s.revokedDevices target →
      (∃ d' ∈ s.stored.devices, d'.pairing = d.pairing ∧ d'.agents = d.agents) ∨ d.agents = [] := by
    intro target hc hi
    obtain ⟨d', hd', hp, ha⟩ := origin_revokedDevices hi
    exact .inl ⟨d', hin.same hc ▸ hd', hp, ha⟩
  cases hch with
  | saved hc _ he => exact hed hc he hd
  | revoked hc _ he => exact hr _ hc (he ▸ hd)
  | saveFailed hc hke =>
    rcases hke with rfl | ⟨-, he | ⟨target, he⟩⟩
    · exact .inl ⟨d, hd, rfl, rfl⟩
    · exact hed hc he hd
    · exact hr target hc (he ▸ hd)
  | _ => exact .inl ⟨d, hd, rfl, rfl⟩

theorem Change.noted_eq (hc : Change .plain s t) : t.admitted = s.admitted ∧ t.lost = s.lost := by
  cases hc with
  | noted allowed => cases allowed
  | _ => exact ⟨rfl, rfl⟩

theorem Listed.change (h : s.Listed) (hin : s.Inv) (hc : Change .plain s t) : t.Listed := by
  obtain ⟨hadm, hlo⟩ := hc.noted_eq
  refine ⟨fun p n hi => ?_, fun d hd n hn => ?_⟩
  · obtain ⟨d, hd, hp, hl⟩ := h.known p n (hadm ▸ hi)
    obtain ⟨d', hd', hp', -, -, -, ha⟩ := hc.keeps hin hd
    refine ⟨d', hd', hp'.trans hp, ?_⟩
    rw [ha rfl, hlo]
    exact hl
  rw [hlo]
  rcases hc.origin hin hd with ⟨d', hd', hp, ha⟩ | hempty
  · rw [← hp]
    exact h.present d' hd' n (ha ▸ hn)
  · rw [hempty] at hn
    cases hn

theorem Listed.changes (h : s.Listed) (hi : s.Inv) (hch : Changes .plain s t) : t.Listed := by
  induction hch with
  | refl => exact h
  | tail hb hc ih => exact ih.change (hi.changes hb) hc

theorem eq_of_pairing (hv : r.Valid) {d d' : Device} (hd : d ∈ r.devices)
    (hd' : d' ∈ r.devices) (he : d.pairing = d'.pairing) : d = d' :=
  List.inj_on_of_nodup_map hv.2.2.2.2.2.2.1.2.1 hd hd' he

theorem eq_of_claim (hv : r.Valid) {d d' : Device} (hd : d ∈ r.devices)
    (hd' : d' ∈ r.devices) (he : d.claim = d'.claim) : d = d' :=
  List.inj_on_of_nodup_map hv.2.2.2.2.2.2.1.1 hd hd' he

theorem Listed.admits (h : s.Listed) (hv : s.stored.Valid)
    (hd : d ∈ s.stored.devices) {agent : Name} {evictable : Name → Bool} {names : List Name}
    {evicted : Option Name} (ha : Admits d.agents agent evictable names evicted) {t : Host}
    (hde : t.stored.devices = (s.stored.modifyDevice d.pairing fun d => { d with agents := names }).devices)
    (hadm : ∀ x ∈ t.admitted, x = (d.pairing, agent) ∨
      x ∈ s.admitted ∧ (evicted = some x.2 → x.1 = d.pairing → x ∈ t.lost))
    (hlo : ∀ x ∈ s.lost, x = (d.pairing, agent) ∨ x ∈ t.lost)
    (hnew : ∀ x ∈ t.lost, x ∈ s.lost ∧ x ≠ (d.pairing, agent) ∨ x.1 = d.pairing ∧ evicted = some x.2) :
    t.Listed := by
  have hmi : { d with agents := names } ∈ t.stored.devices := by
    rw [hde, mem_modifyDevice]
    exact ⟨d, hd, by simp⟩
  refine ⟨fun p n hi => ?_, fun d' hd' n hn => ?_⟩
  · rcases hadm _ hi with he | ⟨hold, hevi⟩
    · cases he
      exact ⟨_, hmi, rfl, .inl ha.admitted⟩
    obtain ⟨d', hd', hp, hl⟩ := h.known p n hold
    by_cases hs : d'.pairing = d.pairing
    · cases eq_of_pairing hv hd' hd hs
      refine ⟨_, hmi, hp, ?_⟩
      rcases hl with hl | hi
      · by_cases hev : evicted = some n
        · exact .inr (hevi hev hp.symm)
        · exact .inl (ha.kept n hl hev)
      rcases hlo _ hi with he | hi
      · cases he
        exact .inl ha.admitted
      · exact .inr hi
    · refine ⟨d', ?_, hp, ?_⟩
      · rw [hde, mem_modifyDevice]
        exact ⟨d', hd', by simp [hs]⟩
      rcases hl with hl | hi
      · exact .inl hl
      rcases hlo _ hi with he | hi
      · cases he
        exact absurd hp hs
      · exact .inr hi
  · intro hi
    rw [hde, mem_modifyDevice] at hd'
    obtain ⟨d₀, hd₀, rfl⟩ := hd'
    by_cases hs : d₀.pairing = d.pairing
    · cases eq_of_pairing hv hd₀ hd hs
      simp only [beq_self_eq_true, if_true] at hn hi
      rcases hnew _ hi with ⟨hold, hne⟩ | ⟨-, hev⟩
      · rcases ha.mem n hn with rfl | hl
        · exact hne rfl
        · exact h.present d hd n hl hold
      · exact (ha.gone n hev).2.2.2 hn
    · have hb : (d₀.pairing == d.pairing) = false := by simpa using hs
      simp only [hb, Bool.false_eq_true, if_false] at hn hi
      rcases hnew _ hi with ⟨hold, -⟩ | ⟨hp, -⟩
      · exact h.present d₀ hd₀ n hn hold
      · exact hs hp

variable {paired : Paired}

theorem admitAgent_listed (h : s.Listed) (hin : s.Inv) {agent : Name}
    {settled : Name → Bool} : (admitAgent paired agent settled env s).2.Listed := by
  refine Post.state (P := Listed) ?_
  unfold admitAgent
  have he : Ends .plain s (authorized paired env) _ := authorized_ends
  refine Post.bind (Post.mono he (fun d t ht => ?_) fun t ht => h.changes hin ht)
  obtain ⟨hch, hc, -, -, hd, -⟩ := ht
  have hli := h.changes hin hch
  have hin := hin.changes hch
  have hde := List.mem_of_find?_eq_some hd
  have hpa : d.pairing = paired.pairing := by simpa using List.find?_some hd
  rw [hin.same hc] at hde
  have hag := (hin.valid.2.2.2.2.2.2.1.2.2.2 d hde).2.2.2.2
  refine Post.bind (Post.read (Post.bind (Post.ofOption (fun r hr => ?_) hli)))
  obtain ⟨names, evicted⟩ := r
  have ha := admitName_admits hag.2 hag.1 hr
  simp only
  split
  · rename_i hl
    refine Post.bind (Post.modify (Post.pure ⟨fun p n hi => ?_, hli.present⟩))
    rcases List.mem_cons.mp hi with heq | hi
    · cases heq
      exact ⟨d, hde, hpa, .inl (List.mem_of_getLast? hl)⟩
    · exact hli.known p n hi
  have hdev : (t.record.modifyDevice paired.pairing fun d => { d with agents := names }).devices =
      (t.stored.modifyDevice d.pairing fun d => { d with agents := names }).devices := by
    rw [hin.same hc, hpa]
  generalize hnex : (t.record.modifyDevice paired.pairing fun d => { d with agents := names }) =
    next at hdev
  refine Post.bind ?_
  unfold noteLost
  refine Post.modify (Post.bind ?_)
  unfold Post commit
  by_cases hv : next.Valid
  · rw [if_pos hv]
    cases env.save with
    | done =>
      simp only [reduceCtorEq, false_and, decide_false, Bool.false_eq_true, if_false]
      change Listed { t with record := next, stored := next, admitted := _, lost := _ }
      refine hli.admits hin.valid hde ha hdev (fun x hx => ?_) (fun x hx => ?_)
        fun x hx => ?_
      · rcases List.mem_cons.mp hx with rfl | hx
        · exact .inl (by rw [hpa])
        obtain ⟨hold, hco⟩ := List.mem_filter.mp hx
        refine .inr ⟨hold, fun hev hp => ?_⟩
        simp [hev, hp, hpa] at hco
      · by_cases heq : x = (d.pairing, agent)
        · exact .inl heq
        refine .inr (List.mem_filter.mpr ⟨hx, ?_⟩)
        rw [← hpa]
        simpa using heq
      · obtain ⟨hold, hne⟩ := List.mem_filter.mp hx
        refine .inl ⟨hold, ?_⟩
        rw [hpa]
        simpa using hne
    | failedNew =>
      simp only [hv, and_self, decide_true, if_true]
      refine hli.admits hin.valid hde ha hdev (fun x hx => .inr ⟨hx, fun hev hp => ?_⟩)
        (fun x hx => ?_) fun x hx => ?_
      · refine List.mem_append_right _ (List.mem_map.mpr ⟨x.2, by simp [hev], ?_⟩)
        rw [← hpa, ← hp]
      · by_cases heq : x = (d.pairing, agent)
        · exact .inl heq
        refine .inr (List.mem_append_left _ (List.mem_filter.mpr ⟨hx, ?_⟩))
        rw [← hpa]
        simpa using heq
      · rcases List.mem_append.mp hx with hx | hx
        · obtain ⟨hold, hne⟩ := List.mem_filter.mp hx
          refine .inl ⟨hold, ?_⟩
          rw [hpa]
          simpa using hne
        · obtain ⟨n, hn, rfl⟩ := List.mem_map.mp hx
          exact .inr ⟨hpa.symm, by simpa using hn⟩
    | failedOld =>
      simp only [reduceCtorEq, false_and, decide_false, Bool.false_eq_true, if_false]
      exact ⟨hli.known, hli.present⟩
  · rw [if_neg hv]
    simp only [hv, and_false, decide_false, Bool.false_eq_true, if_false]
    exact ⟨hli.known, hli.present⟩

theorem Listed.step (h : s.Listed) (hi : s.Inv) (hs : Step s e t) : t.Listed := by
  cases hp : e.plain with
  | true => exact h.changes hi (hs.plain hp fun _ _ => trivial)
  | false =>
    obtain ⟨hf⟩ := hs
    cases e with
    | admitAgent => exact admitAgent_listed h hi
    | _ => cases hp

theorem Listed.run {core generation : Nat} (hr : Run Step (Host.start core generation) es s) : s.Listed ∧ s.Inv :=
  hr.invariant (P := fun s => s.Listed ∧ s.Inv)
    ⟨⟨nofun, nofun⟩, .start core generation⟩
    fun hp hs => ⟨hp.1.step hp.2 hs, hp.2.changes hs.within⟩

/-! ## A receipt -/

/-- What a receipt for `target` leaves, with the clients it names. -/
theorem Revokes.receipt {clients : List Identity} (h : Revokes s target clients t)
    (hin : s.Inv) (hc : s.uncertain = false) :
    t.uncertain = false ∧ (∀ e ∈ t.connections, e.pairing ≠ target) ∧
      ∃ d ∈ t.stored.devices, d.pairing = target ∧ d.revoked = true ∧ clients = d.clients := by
  have hs := hin.same hc
  have hf : ∀ e ∈ s.connections.filter (·.pairing != target), e.pairing ≠ target :=
    fun e he => by simpa using (List.mem_filter.mp he).2
  cases h with
  | @again d hd v hv ht =>
    refine ⟨hc, hf, d, hs ▸ List.mem_of_find?_eq_some hd, by simpa using List.find?_some hd, ?_, rfl⟩
    -- a valid record names only revoked devices in its revocations
    obtain ⟨-, hr⟩ := hin.valid.2.2.2.2.2.2.2
    obtain ⟨-, ⟨d', hd', hp, hre⟩, -⟩ := hr v (hs ▸ hv)
    have hpd : d.pairing = target := by simpa using List.find?_some hd
    rwa [eq_of_pairing hin.valid (hs ▸ List.mem_of_find?_eq_some hd) hd'
      (hpd.trans (hp.trans ht).symm)]
  | @observed d hd hre =>
    have hi := hs ▸ List.mem_of_find?_eq_some hd
    have hpd : d.pairing = target := by simpa using List.find?_some hd
    refine ⟨hc, fun e he heq => ?_, d, hi, hpd, hre, rfl⟩
    obtain ⟨-, d', hd', hp, hl⟩ := hin.live e he
    rw [eq_of_pairing hin.valid hi hd' (hpd.trans (hp.trans heq).symm), hl] at hre
    cases hre
  | @saved d hd next _ hed =>
    have hpd : d.pairing = target := by simpa using List.find?_some hd
    refine ⟨hc, hf, { d with revoked := true }, ?_, hpd, rfl, rfl⟩
    change _ ∈ next.devices
    rw [hed]
    exact mem_modifyDevice.mpr ⟨d, List.mem_of_find?_eq_some hd, by simp [hpd]⟩

def Refuses (s : Host) (pairing : Nat) : Prop :=
  ∀ env t, (∀ paired d, paired.pairing = pairing → authorized paired env s ≠ (.ok d, t)) ∧
    (∀ paired generation, paired.pairing = pairing → current paired generation env s ≠ (.ok (), t)) ∧
    (∀ paired generation connection client, paired.pairing = pairing →
      register paired generation connection client env s ≠ (.ok (), t)) ∧
    (∀ paired generation verified a, paired.pairing = pairing →
      authenticate generation (.connect paired) verified env s ≠ (.ok a, t)) ∧
    (∀ generation claim key verified paired,
      authenticate generation (.finish claim key) verified env s = (.ok (.enrollment (some paired)), t) →
        paired.pairing ≠ pairing) ∧
    (∀ actor generation core requested paired,
      manage actor (.setup generation core requested) env s = (.ok (.setup paired), t) → paired.pairing ≠ pairing)

theorem Revoked.not_live (h : Revoked r pairing) (hv : r.Valid)
    (hd : d ∈ r.devices) (hp : d.pairing = pairing) : d.revoked = true := by
  obtain ⟨d', hd', hp', hr⟩ := h
  rwa [eq_of_pairing hv hd hd' (hp.trans hp'.symm)]

theorem Revoked.authorized (h : Revoked s.stored pairing) (hin : s.Inv) (hp : paired.pairing = pairing) :
    Host.authorized paired env s ≠ (.ok d, t) := by
  intro ho
  have he : Ends .all s (Host.authorized paired env) _ := authorized_ends
  obtain ⟨hch, hc, -, -, hd, hl⟩ := he.ok ho
  have hr := h.changes hin hch
  have hin := hin.changes hch
  have hi := List.mem_of_find?_eq_some hd
  rw [hin.same hc] at hi
  rw [hr.not_live hin.valid hi ((by simpa using List.find?_some hd : d.pairing = _).trans hp)]
    at hl
  cases hl

theorem Revoked.finish {claim : ClaimId} {key : Nat} (h : Revoked s.record pairing) (hv : s.record.Valid)
    (ho : Host.finish claim key s = (.ok (.enrollment (some paired)), t)) :
    paired.pairing ≠ pairing := by
  intro hp
  unfold Host.finish at ho
  replace ho := read_bind_ok ho
  cases hd : s.record.claimed claim with
  | some d =>
    simp only [hd] at ho
    obtain ⟨-, ho⟩ := require_bind_ok ho
    obtain ⟨hl, ho⟩ := require_bind_ok ho
    cases ho
    rw [h.not_live hv (List.mem_of_find?_eq_some hd) hp] at hl
    cases hl
  | none =>
    simp only [hd] at ho
    obtain ⟨pending, -, ho⟩ := ofOption_bind_ok ho
    obtain ⟨-, ho⟩ := require_bind_ok ho
    rcases hde : pending.decision with _ | _ | decided
    · rw [hde] at ho
      cases ho
    · rw [hde] at ho
      cases ho
    rw [hde] at ho
    obtain ⟨ha, ho⟩ := require_bind_ok ho
    cases ho
    obtain ⟨d, hd, hpd, hr⟩ := h
    simp only [Bool.not_eq_true', List.any_eq_false] at ha
    exact ha d hd (by simp [hpd, hp, hr])

theorem Revoked.setup {generation core : Nat} {requested : SetupReservation}
    (h : Revoked s.record pairing) (hva : s.record.Valid)
    (ho : Host.setup generation core requested env s = (.ok (.setup paired), t)) :
    paired.pairing ≠ pairing := by
  intro hp
  unfold Host.setup at ho
  obtain ⟨-, ho⟩ := require_bind_ok ho
  obtain ⟨_, u, hc, ho⟩ := bind_ok ho
  have hch : Ends .all s (checkSetup core requested) fun _ t => t = s := checkSetup_ends
  rw [(hch.ok hc).2] at ho
  replace ho := read_bind_ok ho
  obtain ⟨hl, ho⟩ := require_bind_ok ho
  obtain ⟨-, ho⟩ := require_bind_ok ho
  cases hd : s.record.claimed requested.operation with
  | some d =>
    simp only [hd] at ho
    cases ho
    rw [hd, Option.all_some, h.not_live hva (List.mem_of_find?_eq_some hd) hp] at hl
    cases hl
  | none =>
    simp only [hd] at ho
    obtain ⟨-, ho⟩ := require_bind_ok ho
    obtain ⟨-, ho⟩ := require_bind_ok ho
    obtain ⟨new, -, ho⟩ := ofOption_bind_ok ho
    obtain ⟨client, -, ho⟩ := ofOption_bind_ok ho
    obtain ⟨newGeneration, -, ho⟩ := ofOption_bind_ok ho
    obtain ⟨_, v, -, ho⟩ := bind_ok ho
    obtain ⟨_, w, hco, ho⟩ := bind_ok ho
    obtain ⟨_, x, -, ho⟩ := bind_ok ho
    cases ho
    -- the record with a second device of the pairing is not valid
    have hne := Post.ok (commit_post (Q := fun _ => Record.Valid _) (E := fun _ => True) (fun hv => hv)
      fun _ _ => trivial) hco
    obtain ⟨d, hd, hpd, -⟩ := h
    have hno := hne.2.2.2.2.2.2.1.2.1
    simp only [List.map_append, List.map_cons, List.map_nil] at hno
    rw [List.nodup_append] at hno
    exact hno.2.2 _ (List.mem_map_of_mem hd) _ (List.mem_singleton.mpr rfl) (hpd.trans hp.symm)

/-- A request that `manage` answers was answered by a recovered host. -/
theorem manage_ok {actor : Option Nat} {request : Management} {r : ManagementReply}
    (h : manage actor request env s = (.ok r, t)) :
    ∃ u, Changes .plain s u ∧ u.uncertain = false ∧ answer actor request env u = (.ok r, t) := by
  unfold manage at h
  obtain ⟨-, h⟩ := require_bind_ok h
  obtain ⟨_, u, hr, h⟩ := bind_ok h
  obtain ⟨_, v, he, h⟩ := bind_ok h
  have hre : Ends .plain s (recover env) _ := recover_ends
  have hex : Ends .plain u (expire env) _ := expire_ends
  obtain ⟨hu, hc, -⟩ := hre.ok hr
  obtain ⟨hv, p, q, rfl⟩ := hex.ok he
  exact ⟨_, hu.trans hv, hc, h⟩

theorem authenticate_ok {generation : Nat} {action : Action} {verified : Bool} {a : Answer}
    (h : authenticate generation action verified env s = (.ok a, t)) :
    ∃ u, Changes .plain s u ∧ u.uncertain = false ∧
      (∃ v, checkAuthority action env u = (.ok (), v)) ∧ perform action env u = (.ok a, t) := by
  unfold authenticate at h
  obtain ⟨_, u, hr, h⟩ := bind_ok h
  obtain ⟨_, v, ht, h⟩ := bind_ok h
  obtain ⟨_, w, he, h⟩ := bind_ok h
  have hre : Ends .plain s (recover env) _ := recover_ends
  have hto : Ends .plain u (checkToken action env) _ := checkToken_ends
  have hexpi : Ends .plain v (expire env) _ := expire_ends
  obtain ⟨hu, hc, -⟩ := hre.ok hr
  obtain ⟨-, hv⟩ := hto.ok ht
  obtain ⟨hw, p, q, hex⟩ := hexpi.ok he
  have hc : w.uncertain = false := by rw [hex, hv]; exact hc
  replace h := read_bind_ok h
  obtain ⟨-, h⟩ := require_bind_ok h
  obtain ⟨_, x, hau, h⟩ := bind_ok h
  obtain ⟨-, h⟩ := require_bind_ok h
  have ha : Ends .plain w (checkAuthority action env) _ := checkAuthority_ends hc
  obtain ⟨-, hx⟩ := ha.ok hau
  exact ⟨w, hu.trans (hv ▸ hw), hc, ⟨x, hau⟩, hx ▸ h⟩

theorem Revoked.refuses (h : Revoked s.stored pairing) (hi : s.Inv) : s.Refuses pairing := by
  intro env t
  refine ⟨fun paired d hp => h.authorized hi hp, fun paired generation hp ho => ?_,
    fun paired generation connection client hp ho => ?_,
    fun paired generation verified a hp ho => ?_,
    fun generation claim key verified paired ho => ?_,
    fun actor generation core requested paired ho => ?_⟩
  · obtain ⟨d, u, ha, -⟩ := bind_ok ho
    exact h.authorized hi hp ha
  · obtain ⟨_, u, hcu, -⟩ := bind_ok ho
    obtain ⟨d, v, ha, -⟩ := bind_ok hcu
    exact h.authorized hi hp ha
  · obtain ⟨u, hch, -, ⟨v, hau⟩, -⟩ := authenticate_ok ho
    obtain ⟨d, w, ha, -⟩ := bind_ok hau
    exact (h.changes hi hch).authorized (hi.changes hch) hp ha
  · obtain ⟨u, hch, hc, -, ho⟩ := authenticate_ok ho
    have hi' := hi.changes hch
    have hr := h.changes hi hch
    rw [← hi'.same hc] at hr
    exact hr.finish (hi'.same hc ▸ hi'.valid) ho
  · obtain ⟨u, hch, hc, ho⟩ := manage_ok ho
    have hi' := hi.changes hch
    have hr := h.changes hi hch
    rw [← hi'.same hc] at hr
    exact hr.setup (hi'.same hc ▸ hi'.valid) ho

/-- The receipt of a revocation, whichever request asked for it: `s` is what a run reached and `u`
what the request made of it before it revoked. In every state a run reaches, a registered connection
is of the current generation, and none is registered while a save is uncertain. An agent that was
admitted and not evicted is among the retired clients exactly when no admission that failed dropped
its name. -/
theorem revocation_final {core generation : Nat} {es : List Event} {u : Host}
    (hrun : Run Step (Host.start core generation) es s) :
    (∀ e ∈ s.connections, e.generation = s.generation) ∧
    (s.uncertain = true → s.connections = []) ∧
    ∀ actor operation target env clients, Changes .plain s u →
      revoke actor operation target env u = (.ok clients, t) →
      Revoked t.stored target ∧ (∀ e ∈ t.connections, e.pairing ≠ target) ∧
      (∃ d ∈ t.stored.devices, d.pairing = target ∧ .own d.client ∈ clients ∧
        ∀ n, (target, n) ∈ t.admitted → (.agent d.client n ∈ clients ↔ (target, n) ∉ t.lost)) ∧
      ∀ fs v, Run Step t fs v →
        Revoked v.stored target ∧ (∀ e ∈ v.connections, e.pairing ≠ target) ∧ v.Refuses target := by
  obtain ⟨hli, hinv⟩ := Listed.run hrun
  refine ⟨fun e he => (hinv.live e he).1, hinv.idle, ?_⟩
  intro actor operation target env clients hwi ho
  have hli := hli.changes hinv hwi
  have hinv := hinv.changes hwi
  have hen : Ends .plain u (revoke actor operation target env) _ := revoke_ends
  obtain ⟨hch, w, hw, hc, -, hrev⟩ := hen.ok ho
  have hlis := hli.changes hinv hch
  have hinvt := hinv.changes hch
  obtain ⟨-, hnone, d, hd, hp, hre, rfl⟩ := hrev.receipt (hinv.changes hw) hc
  refine ⟨⟨d, hd, hp, hre⟩, hnone, ⟨d, hd, hp, List.mem_cons_self .., fun n hn => ?_⟩, fun fs v hl => ?_⟩
  · obtain ⟨d', hd', hp', hli'⟩ := hlis.known target n hn
    cases eq_of_pairing hinvt.valid hd' hd (hp'.trans hp.symm)
    have hi : Identity.agent d.client n ∈ d.clients ↔ n ∈ d.agents := by
      simp [Device.clients]
    rw [hi]
    constructor
    · intro hin
      exact hp ▸ hlis.present d hd n hin
    · intro hout
      exact hli'.resolve_right hout
  · obtain ⟨hr, hinvv⟩ := Revoked.run ⟨d, hd, hp, hre⟩ hinvt hl
    refine ⟨hr, fun e he heq => ?_, hr.refuses hinvv⟩
    obtain ⟨-, d', hd', hp', hliv⟩ := hinvv.live e he
    rw [hr.not_live hinvv.valid hd' (hp'.trans heq)] at hliv
    cases hliv

def fresh (s : Host) : List Event → Bool
  | [] => true
  | e :: es => e.invitation.all (fun id => !s.issued.contains id) && fresh (s.after e) es

theorem run_after (h : fresh s es = true) : Run Step s es (es.foldl after s) := by
  induction es generalizing s with
  | nil => exact .refl s
  | cons e es ih =>
    obtain ⟨hh, ht⟩ := Bool.and_eq_true_iff.mp h
    refine Run.cons (.mk fun id hi => ?_) (ih ht)
    rw [hi, Option.all_some] at hh
    simpa using hh

/-- A setup of one device, which turns Network Access on. -/
def enrolls : List Event :=
  let requested : SetupReservation := ⟨0, 5, none, false, 0, 9, 3, 4⟩
  [.manage none (.prepareSetup 0 1 requested) {},
   .manage none (.setup 0 1 requested)
    { pairing := some 7, client := some 8, generation := some 2, readies := .ok .fresh }]

/-- The device connects, admits an agent and is revoked. -/
theorem revocation_final_connected :
    ∃ s t, Run Step (Host.start 1 0)
        (enrolls ++ [.admitAgent ⟨1, 7, 8⟩ 5 (fun _ => true) {}, .register ⟨1, 7, 8⟩ 2 1 (.agent 8 5) {}])
        s ∧ s.connections.length = 1 ∧
      revoke none (.given 6) 7 {} s = (.ok [.own 8, .agent 8 5], t) ∧
      t.connections.all (·.pairing != 7) = true ∧ t.Refuses 7 := by
  have hr : Run Step (Host.start 1 0) (enrolls ++
      [.admitAgent ⟨1, 7, 8⟩ 5 (fun _ => true) {}, .register ⟨1, 7, 8⟩ 2 1 (.agent 8 5) {}]) _ :=
    run_after rfl
  refine ⟨_, _, hr, by decide +kernel, rfl, ?_⟩
  obtain ⟨-, hnone, -, hl⟩ :=
    (revocation_final hr).2.2 none (.given 6) 7 {} [.own 8, .agent 8 5] .refl rfl
  refine ⟨List.all_eq_true.mpr fun e he => by simpa using hnone e he, ?_⟩
  exact (hl [] _ (.refl _)).2.2

/-- Sixty-four agents, and one more whose admission fails although its save took effect. -/
def crowds : List Event :=
  enrolls ++ (List.range MAX_AGENTS).map (fun n => .admitAgent ⟨1, 7, 8⟩ n (fun _ => true) {}) ++
    [.admitAgent ⟨1, 7, 8⟩ MAX_AGENTS (fun _ => true) { save := .failedNew }]

/-- The first agent was admitted and never evicted, but its identity is not retired. -/
theorem dropped_agent_not_retired :
    ∃ s t clients, Run Step (Host.start 1 0) crowds s ∧
      revoke none (.given 6) 7 { recovery := some 3 } s = (.ok clients, t) ∧
      (7, 0) ∈ t.admitted ∧ .own 8 ∈ clients ∧ .agent 8 0 ∉ clients := by
  have hr : Run Step (Host.start 1 0) crowds _ := run_after rfl
  generalize hs : crowds.foldl after (Host.start 1 0) = s at hr
  have hf : ((revoke none (.given 6) 7 { recovery := some 3 } s).1.toOption.any fun clients =>
      (revoke none (.given 6) 7 { recovery := some 3 } s).2.admitted.contains (7, 0) &&
        clients.contains (.own 8) && !clients.contains (.agent 8 0)) = true := by
    rw [← hs]
    decide +kernel
  rcases hout : revoke none (.given 6) 7 { recovery := some 3 } s with ⟨result, t⟩
  rw [hout] at hf
  cases result with
  | error e => cases hf
  | ok clients =>
    simp only [Except.toOption, Option.any_some, Bool.and_eq_true, List.contains_iff_mem,
      Bool.not_eq_true', ← Bool.not_eq_true] at hf
    exact ⟨s, t, clients, hr, hout, hf.1.1, hf.1.2, hf.2⟩

end SpaceTerm.Direct.Host
