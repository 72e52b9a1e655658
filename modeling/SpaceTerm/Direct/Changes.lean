import SpaceTerm.Direct.Host
import Mathlib.Logic.Relation

/-! # What the host's requests can change

Every request is a sequence of a few kinds of changes (`Change`). Invariants are shown of one change;
`Ends` says that a procedure makes only such changes and what else holds where it succeeds. -/

namespace SpaceTerm.Direct.Host
open Lib Proc

def Undecided (s : Host) (c : PairingClaim) : Prop :=
  ∃ p ∈ s.claims, p.claim = c ∧ p.decision = none

/-- What the changes of a request may include: the agents of a device, and approvals of the claims
that it names. -/
structure Scope where
  agents : Bool
  named : PairingClaim → Prop

def Scope.all : Scope := ⟨true, fun _ => True⟩

/-- Any change but that of a device's agents. -/
def Scope.plain : Scope := ⟨false, fun _ => True⟩

/-- The device lists that a request may save. Only admissions of agents change agents. -/
inductive Edit (scope : Scope) (s : Host) : List Device → Prop
  | same : Edit scope s s.record.devices
  | enroll (d : Device) (live : d.revoked = false) (empty : d.agents = [])
      (how : (∃ g n, d.claim = .operation g n) ∨ ∃ c ∈ s.approvals, s.Undecided c ∧
        d.claim = c.id ∧ d.key = c.key ∧ d.name = c.name) :
      Edit scope s (s.record.devices ++ [d])
  | agents (allowed : scope.agents = true) (pairing : Nat) (names : List Name) :
      Edit scope s (s.record.modifyDevice pairing fun d => { d with agents := names }).devices

/-- The devices after the revocation of `target`. -/
def revokedDevices (s : Host) (target : Nat) : List Device :=
  (s.record.modifyDevice target fun d => { d with revoked := true }).devices

inductive Change (scope : Scope) (s : Host) : Host → Prop
  | recovered (generation : Nat) (listener : ListenerState) (uncertain : s.uncertain = true) :
      Change scope s { s with record := s.stored, uncertain := false, generation, listener }
  | listener (listener : ListenerState) : Change scope s { s with listener }
  | saved {next : Record} (certain : s.uncertain = false) (valid : next.Valid)
      (edit : Edit scope s next.devices) : Change scope s { s with record := next, stored := next }
  | revoked {next : Record} {target : Nat} (certain : s.uncertain = false) (valid : next.Valid)
      (edit : next.devices = s.revokedDevices target) :
      Change scope s { s with
        record := next, stored := next
        connections := s.connections.filter (·.pairing != target) }
  | saveFailed {stored : Record} (certain : s.uncertain = false)
      (kept : stored = s.stored ∨ stored.Valid ∧
        (Edit scope s stored.devices ∨ ∃ target, stored.devices = s.revokedDevices target)) :
      Change scope s (s.failSave stored)
  | expired (p : Invitation → Bool) (q : PendingClaim → Bool) :
      Change scope s { s with invitations := s.invitations.filter p, claims := s.claims.filter q }
  | switched (generation : Nat) (listener : ListenerState) :
      Change scope s { s with
        generation, listener
        connections := s.connections.filter (·.generation == generation)
        invitations := []
        claims := decideAll s.claims (fun _ => true) .alreadyDecided }
  | registered (e : PairedEntry) (certain : s.uncertain = false)
      (generation : e.generation = s.generation)
      (live : ∃ d ∈ s.record.devices, d.pairing = e.pairing ∧ d.revoked = false) :
      Change scope s { s with connections := s.connections ++ [e] }
  | dropped (p : PairedEntry → Bool) : Change scope s { s with connections := s.connections.filter p }
  | invited (v : Invitation) (unused : v.used = false) (fresh : v.id ∉ s.issued) :
      Change scope s { s with
        invitations := s.invitations ++ [v], issued := v.id :: s.issued }
  | withdrawn (invitation : Nat) :
      Change scope s { s with
        invitations := s.invitations.filter (·.id != invitation)
        claims := decideAll s.claims (·.claim.invitation == invitation) .alreadyDecided }
  | submitted (v : Invitation) (c : PairingClaim) (member : v ∈ s.invitations)
      (unused : v.used = false) (id : c.id = .prepared v.id c.key) (invitation : c.invitation = v.id)
      (new : ∀ p ∈ s.claims, p.claim.id ≠ c.id) :
      Change scope s { s with
        invitations := s.invitations.map fun w => if w.id == v.id then { w with used := true } else w
        claims := s.claims ++ [{ claim := c }]
        submitted := Function.update s.submitted v.id (some c) }
  | approving (c : PairingClaim) (named : scope.named c) (undecided : s.Undecided c) :
      Change scope s { s with approvals := c :: s.approvals }
  | decided (id : ClaimId) (decision : Except DirectError Paired)
      (enrolled : ∀ p, decision = .ok p → ∃ d ∈ s.stored.devices, d.claim = id) :
      Change scope s { s with claims := setDecision s.claims id decision }
  | spent (p : Invitation → Bool) :
      Change scope s { s with
        invitations := s.invitations.map fun v => if p v then { v with used := true } else v }
  | restarted (generation : Nat) (listener : ListenerState) :
      Change scope s { s with
        record := s.stored, uncertain := false, generation, listener
        connections := [], invitations := [], claims := [] }
  | noted (allowed : scope.agents = true) (admitted lost : List (Nat × Name)) :
      Change scope s { s with admitted, lost }

abbrev Changes (scope : Scope) : Host → Host → Prop := Relation.ReflTransGen (Change scope)

/-- `m` makes only changes, and where it succeeds `Q` holds of its value and final state. -/
def Ends {α : Type} (scope : Scope) (s : Host) (m : M α) (Q : α → Host → Prop) : Prop :=
  Post m s (fun r t => Changes scope s t ∧ Q r t) (Changes scope s)

namespace Ends
variable {α β : Type} {scope : Scope} {s t : Host} {m : M α} {f : α → M β} {Q Q' : α → Host → Prop}
  {R : β → Host → Prop}

theorem bind (h : Ends scope s m Q) (hf : ∀ r t, Q r t → Ends scope t (f r) R) : Ends scope s (m >>= f) R := by
  refine Post.bind (h.mono (fun r t ht => ?_) fun _ ht => ht)
  exact (hf r t ht.2).mono (fun _ _ hu => ⟨ht.1.trans hu.1, hu.2⟩) fun _ hu => ht.1.trans hu

theorem mono (h : Ends scope s m Q) (hQ : ∀ r t, Q r t → Q' r t) : Ends scope s m Q' :=
  Post.mono h (fun _ _ ht => ⟨ht.1, hQ _ _ ht.2⟩) fun _ ht => ht

theorem pure {r : α} (h : Q r s) : Ends scope s (Pure.pure r : M α) Q :=
  Post.pure ⟨.refl, h⟩

theorem fail {e : DirectError} : Ends scope s (Proc.fail e : M α) Q :=
  Post.fail .refl

theorem read : Ends scope s (Proc.read : M Host) fun r t => r = s ∧ t = s :=
  Post.read ⟨.refl, rfl, rfl⟩

theorem modify {g : Host → Host} (h : Changes scope s (g s)) :
    Ends scope s (Proc.modify g : M Unit) fun _ t => t = g s :=
  Post.modify ⟨h, rfl⟩

variable {e : DirectError}

theorem require {b : Bool} : Ends scope s (Proc.require b e : M Unit) fun _ t => b = true ∧ t = s :=
  Post.require (fun hb => ⟨.refl, hb, rfl⟩) .refl

theorem ofOption {x : Option α} : Ends scope s (Proc.ofOption x e : M α) fun r t => x = some r ∧ t = s :=
  Post.ofOption (fun _ ha => ⟨.refl, ha, rfl⟩) .refl

theorem changes (h : Ends scope s m Q) : Changes scope s (m s).2 :=
  Post.state (Post.mono h (fun _ _ ht => ht.1) fun _ ht => ht)

theorem ok {r : α} (h : Ends scope s m Q) (hm : m s = (.ok r, t)) : Changes scope s t ∧ Q r t :=
  Post.ok (Q := fun r t => Changes scope s t ∧ Q r t) h hm

theorem require_bind {b : Bool} {m : M β}
    (h : b = true → Ends scope s m R) : Ends scope s (Proc.require b e >>= fun _ => m) R :=
  require.bind fun _ _ ⟨hb, ht⟩ => ht ▸ h hb

theorem ofOption_bind {x : Option α}
    (h : ∀ r, x = some r → Ends scope s (f r) R) : Ends scope s (Proc.ofOption x e >>= f) R :=
  ofOption.bind fun r _ ⟨hr, ht⟩ => ht ▸ h r hr

theorem read_bind {f : Host → M β} (h : Ends scope s (f s) R) : Ends scope s (Proc.read >>= f) R :=
  read.bind fun _ _ ⟨hr, ht⟩ => hr ▸ ht ▸ h

theorem modify_bind {g : Host → Host} {m : M β} (hg : Changes scope s (g s))
    (h : Ends scope (g s) m R) : Ends scope s (Proc.modify g >>= fun _ => m) R :=
  (modify hg).bind fun _ _ ht => ht ▸ h

end Ends

variable {scope : Scope} {s t : Host} {env : Env}

theorem recover_certain (h : s.uncertain = false) : recover env s = (.ok (), s) := by
  simp [recover, h]

theorem recover_uncertain (h : s.uncertain = true) :
    (∃ e, recover env s = (.error e, s)) ∨ ∃ r generation listener, recover env s =
      (r, { s with record := s.stored, uncertain := false, generation, listener }) := by
  simp only [recover, h, if_true]
  cases hl : env.load with
  | false =>
    refine .inl ⟨.storageUnavailable, ?_⟩
    simp only [reload, bind, hl]
    rfl
  | true =>
    cases hr : env.recovery with
    | none =>
      refine .inr ⟨.error .storageUnavailable, s.generation, s.listener, ?_⟩
      simp only [reload, bind, hl, hr]
      rfl
    | some g =>
      refine .inr ⟨.ok (), g, if s.stored.enabled && s.stored.policy.isSome then env.opens else .off, ?_⟩
      simp only [reload, bind, hl, hr]
      rfl

theorem recover_post (h : s.uncertain = true) : Ends scope s (recover env) fun _ t =>
    ∃ generation listener, t = { s with record := s.stored, uncertain := false, generation, listener } := by
  unfold Ends Post
  rcases @recover_uncertain s env h with ⟨e, he⟩ | ⟨r, generation, listener, hr⟩
  · rw [he]
  rw [hr]
  have hc : Changes scope s
      { s with record := s.stored, uncertain := false, generation, listener } :=
    .single (.recovered generation listener h)
  cases r with
  | ok => exact ⟨hc, generation, listener, rfl⟩
  | error => exact hc

/-- A recovered host is certain; one that was certain is unchanged. -/
theorem recover_ends : Ends scope s (recover env) fun _ t =>
    t.uncertain = false ∧ (s.uncertain = false → t = s) := by
  cases h : s.uncertain with
  | false =>
    unfold Ends Post
    rw [recover_certain h]
    exact ⟨.refl, h, fun _ => rfl⟩
  | true =>
    refine (recover_post h).mono fun _ t ht => ?_
    obtain ⟨generation, listener, rfl⟩ := ht
    exact ⟨rfl, fun hc => absurd hc (by simp)⟩

theorem recover_issued : Ends scope s (recover env) fun _ t =>
    t.uncertain = false ∧ t.issued = s.issued := by
  cases h : s.uncertain with
  | false => exact recover_ends.mono fun _ t ⟨hc, hs⟩ => ⟨hc, by rw [hs h]⟩
  | true =>
    refine (recover_post h).mono fun _ t ht => ?_
    obtain ⟨generation, listener, rfl⟩ := ht
    exact ⟨rfl, rfl⟩

variable {next : Record}

theorem commit_post {Q : Host → Prop} {E : Host → Prop}
    (hs : next.Valid → Q { s with record := next, stored := next })
    (hfailed : ∀ stored, (stored = s.stored ∨ next.Valid ∧ stored = next) → E (s.failSave stored)) :
    Post (commit next env) s (fun _ t => Q t) E := by
  unfold Post commit
  by_cases hv : next.Valid
  · rw [if_pos hv]
    cases env.save with
    | done => exact hs hv
    | failedNew => exact hfailed next (.inr ⟨hv, rfl⟩)
    | failedOld => exact hfailed s.stored (.inl rfl)
  · rw [if_neg hv]
    exact hfailed s.stored (.inl rfl)

theorem commit_ends (hc : s.uncertain = false) (he : Edit scope s next.devices) :
    Ends scope s (commit next env) fun _ t =>
      next.Valid ∧ t = { s with record := next, stored := next } := by
  refine commit_post (fun hv => ⟨.single (.saved hc hv he), hv, rfl⟩)
    fun stored hke => .single (.saveFailed hc ?_)
  rcases hke with rfl | ⟨hv, rfl⟩
  · exact .inl rfl
  · exact .inr ⟨hv, .inl he⟩

theorem commit_same (hc : s.uncertain = false) (hd : next.devices = s.record.devices) :
    Ends scope s (commit next env) fun _ _ => True := by
  have he : Edit scope s next.devices := hd ▸ .same
  exact (commit_ends hc he).mono fun _ _ _ => trivial

theorem listen_ends : Ends scope s (listen env) fun _ t => ∃ l, t = { s with listener := l } :=
  (Ends.modify (.single (.listener _))).mono fun _ _ ht => ⟨_, ht⟩

variable {paired : Paired}

theorem authorized_ends : Ends scope s (authorized paired env) fun d t =>
    t.uncertain = false ∧ (s.uncertain = false → t = s) ∧ t.listener = .listening ∧
      t.record.device paired.pairing = some d ∧ d.revoked = false := by
  unfold authorized
  refine recover_ends.bind fun _ t ⟨hc, hs⟩ => ?_
  refine .read_bind (.require_bind fun hl => .require_bind fun _ => .ofOption_bind fun d hd =>
    .require_bind fun _ => .require_bind fun hr => .pure ⟨hc, hs, ?_, hd, ?_⟩)
  · simpa using hl
  · simpa using hr

variable {generation : Nat}

theorem current_ends :
    Ends scope s (current paired generation env) fun _ t =>
      t.uncertain = false ∧ generation = t.generation ∧
        ∃ d ∈ t.record.devices, d.pairing = paired.pairing ∧ d.revoked = false := by
  unfold current
  refine authorized_ends.bind fun d t ⟨hc, _, _, hd, hr⟩ => ?_
  refine .read_bind (Ends.require.mono fun _ _ ⟨hg, ht⟩ => ?_)
  subst ht
  refine ⟨hc, beq_iff_eq.mp hg, d, List.mem_of_find?_eq_some hd, ?_, hr⟩
  simpa using List.find?_some hd

theorem register_ends {generation connection : Nat} {client : Identity} :
    Ends scope s (register paired generation connection client env) fun _ _ => True := by
  unfold register
  refine current_ends.bind fun _ t ⟨hc, hg, hl⟩ => ?_
  refine .read_bind (.require_bind fun _ => (Ends.modify ?_).mono fun _ _ _ => trivial)
  exact .single (.registered ⟨connection, client, paired.pairing, generation⟩ hc hg hl)

theorem prepareListener_ends : Ends scope s (prepareListener next env) fun _ t => t = s := by
  unfold prepareListener
  split
  · split
    · exact .fail
    · exact .read_bind (.require_bind fun _ => .pure rfl)
    · exact .pure rfl
  · exact .pure rfl

theorem switchListener_ends {prepared : Option Readied} :
    Ends scope s (switchListener prepared generation env) fun _ _ => True := by
  have hs : Changes scope s { s with
      generation
      connections := s.connections.filter (·.generation == generation)
      invitations := []
      claims := decideAll s.claims (fun _ => true) .alreadyDecided } :=
    .single (.switched generation s.listener)
  unfold switchListener
  split
  · exact .pure trivial
  refine .modify_bind hs ?_
  split
  · exact (Ends.modify (.single (.listener _))).mono fun _ _ _ => trivial
  · exact listen_ends.mono fun _ _ _ => trivial

theorem setPolicy_ends {policy : Option Nat} {enabled : Bool} (hc : s.uncertain = false) :
    Ends scope s (setPolicy policy enabled env) fun _ _ => True := by
  unfold setPolicy
  refine .read_bind (.require_bind fun _ => .require_bind fun _ => .ofOption_bind fun g _ => ?_)
  refine prepareListener_ends.bind fun _ t ht => ?_
  subst ht
  refine Ends.bind (Q := fun _ _ => True) ?_ fun _ _ _ => switchListener_ends
  exact commit_same hc rfl

theorem cancelReservation_ends {operation : ClaimId} {key : Option Nat} {accountLocal : Bool}
    (hc : s.uncertain = false) :
    Ends scope s (cancelReservation operation key accountLocal env) fun _ _ => True := by
  unfold cancelReservation
  refine .read_bind ?_
  split
  · exact .require_bind fun _ => commit_same hc rfl
  simp only
  split
  · exact .pure trivial
  · exact .require_bind fun _ => .require_bind fun _ => commit_same hc rfl

variable {requested : SetupReservation}

theorem checkSetup_ends {core : Nat} : Ends scope s (checkSetup core requested) fun _ t => t = s := by
  unfold checkSetup
  exact .read_bind (.require_bind fun _ => .require_bind fun _ =>
    Ends.require.mono fun _ _ ⟨_, ht⟩ => ht)

/-- What a revocation that gives a receipt did to the recovered host `s`. -/
inductive Revokes (s : Host) (target : Nat) : List Identity → Host → Prop
  | again {d : Device} (device : s.record.device target = some d) {v : Revocation}
      (member : v ∈ s.record.revocations) (same : v.target = target) :
      Revokes s target d.clients
        { s with connections := s.connections.filter (·.pairing != target) }
  | observed {d : Device} (device : s.record.device target = some d) (revoked : d.revoked = true) :
      Revokes s target d.clients s
  | saved {d : Device} (device : s.record.device target = some d) {next : Record}
      (valid : next.Valid) (edit : next.devices = s.revokedDevices target) :
      Revokes s target d.clients { s with
        record := next, stored := next
        connections := s.connections.filter (·.pairing != target) }

variable {actor : Option Nat}

theorem revoke_ends {operation : OperationId} {target : Nat} :
    Ends scope s (revoke actor operation target env) fun clients t =>
      ∃ u, Changes scope s u ∧ u.uncertain = false ∧ (s.uncertain = false → u = s) ∧
        Revokes u target clients t := by
  unfold revoke
  refine .require_bind fun _ => ?_
  -- what follows runs in the recovered host
  have hr : Ends scope s (recover env) fun _ t =>
      t.uncertain = false ∧ (s.uncertain = false → t = s) ∧ Changes scope s t :=
    Post.mono recover_ends (fun _ _ h => ⟨h.1, h.2.1, h.2.2, h.1⟩) fun _ h => h
  refine Ends.bind hr fun _ u ⟨hc, hs, hch⟩ => ?_
  refine .require_bind fun _ => .read_bind (.ofOption_bind fun d hd => ?_)
  have hdr : Changes scope u
      { u with connections := u.connections.filter (·.pairing != target) } :=
    .single (.dropped _)
  split
  · rename_i original hf
    refine .require_bind fun ht => .modify_bind hdr (.pure ⟨u, hch, hc, hs, ?_⟩)
    exact .again hd (List.mem_of_find?_eq_some hf) (beq_iff_eq.mp ht)
  split
  · rename_i ho
    refine .pure ⟨u, hch, hc, hs, .observed hd ?_⟩
    exact (Bool.and_eq_true_iff.mp ho).1
  refine .require_bind fun _ => .require_bind fun _ => ?_
  -- the save and the end of the connections are one change
  refine Post.bind (commit_post (fun hv => ?_) fun stored hke => ?_)
  · exact ⟨.single (.revoked hc hv rfl), u, hch, hc, hs, .saved hd hv rfl⟩
  refine .single (.saveFailed hc ?_)
  rcases hke with rfl | ⟨hv, rfl⟩
  · exact .inl rfl
  · exact .inr ⟨hv, .inr ⟨target, rfl⟩⟩

theorem prepareSetup_ends {generation core : Nat} (hc : s.uncertain = false) :
    Ends scope s (prepareSetup generation core requested env) fun _ _ => True := by
  unfold prepareSetup
  refine .require_bind fun _ => checkSetup_ends.bind fun _ t ht => ?_
  subst ht
  refine .read_bind (.require_bind fun _ => ?_)
  split
  · exact .pure trivial
  refine .require_bind fun _ => .require_bind fun _ => ?_
  refine Ends.bind (Q := fun _ _ => True) ?_ fun _ _ _ => .pure trivial
  exact commit_same hc rfl

theorem setup_ends {generation core : Nat} (hc : s.uncertain = false) :
    Ends scope s (setup generation core requested env) fun _ _ => True := by
  unfold setup
  refine .require_bind fun _ => checkSetup_ends.bind fun _ t ht => ?_
  subst ht
  refine .read_bind (.require_bind fun _ => .require_bind fun _ => ?_)
  split
  · exact .pure trivial
  refine .require_bind fun _ => .require_bind fun _ => .ofOption_bind fun pairing _ =>
    .ofOption_bind fun client _ => .ofOption_bind fun newGeneration _ => ?_
  refine prepareListener_ends.bind fun _ u hu => ?_
  subst hu
  refine Ends.bind (commit_ends hc ?_) fun _ _ _ =>
    switchListener_ends.bind fun _ _ _ => .pure trivial
  exact .enroll _ rfl rfl (.inl ⟨_, _, rfl⟩)

theorem cancelSetup_ends {core : Nat} {operation : ClaimId} (hc : s.uncertain = false) :
    Ends scope s (cancelSetup core operation env) fun _ _ => True := by
  unfold cancelSetup
  refine .read_bind (.require_bind fun _ => .require_bind fun _ => ?_)
  split
  · exact revoke_ends.bind fun _ _ _ => .pure trivial
  · exact (cancelReservation_ends hc).bind fun _ _ _ => .pure trivial

theorem invite_ends (hf : ∀ id, env.invitation = some id → id ∉ s.issued) :
    Ends scope s (invite env) fun _ _ => True := by
  unfold invite
  refine .read_bind (.require_bind fun _ => .require_bind fun _ => .ofOption_bind fun id hi =>
    .ofOption_bind fun token _ => .modify_bind ?_ (.pure trivial))
  exact .single (.invited ⟨id, token, _, false⟩ rfl (hf id hi))

theorem withdraw_ends {invitation : Nat} : Ends scope s (withdraw invitation) fun _ _ => True :=
  .modify_bind (.single (.withdrawn invitation)) (.pure trivial)

theorem approve_ends {claim : PairingClaim} (hc : s.uncertain = false) (hna : scope.named claim) :
    Ends scope s (approve claim env) fun _ _ => True := by
  unfold approve
  refine .read_bind (.require_bind fun _ => .ofOption_bind fun pending hf => .require_bind fun hcl =>
    .require_bind fun hd => .require_bind fun _ => .ofOption_bind fun pairing _ =>
    .ofOption_bind fun client _ => ?_)
  have hu : s.Undecided claim :=
    ⟨pending, List.mem_of_find?_eq_some hf, beq_iff_eq.mp hcl, by simpa using hd⟩
  refine .modify_bind (.single (.approving claim hna hu)) (Ends.bind (commit_ends hc ?_) ?_)
  · exact .enroll _ rfl rfl (.inr ⟨claim, List.mem_cons_self .., hu, rfl, rfl, rfl⟩)
  · rintro _ t ⟨_, rfl⟩
    refine .modify_bind (.single (.decided claim.id _ fun _ _ => ?_)) (.pure trivial)
    exact ⟨_, List.mem_append_right _ (List.mem_singleton.mpr rfl), rfl⟩

theorem reject_ends {id : ClaimId} : Ends scope s (reject id) fun _ _ => True := by
  unfold reject
  refine .read_bind (.ofOption_bind fun _ _ => .require_bind fun _ => .modify_bind ?_ (.pure trivial))
  exact .single (.decided id (.error .rejected) nofun)

theorem answer_ends {request : Management} (hc : s.uncertain = false)
    (hf : ∀ id, env.invitation = some id → id ∉ s.issued)
    (hna : ∀ c, request = .approve c → scope.named c) :
    Ends scope s (answer actor request env) fun _ _ => True := by
  cases request with
  | status => exact .pure trivial
  | prepareSetup => exact prepareSetup_ends hc
  | setup => exact setup_ends hc
  | cancelSetup => exact cancelSetup_ends hc
  | setPolicy => exact (setPolicy_ends hc).bind fun _ _ _ => .pure trivial
  | invite => exact invite_ends hf
  | withdraw => exact withdraw_ends
  | claims => exact .pure trivial
  | approve c => exact approve_ends hc (hna c rfl)
  | reject => exact reject_ends
  | devices => exact .pure trivial
  | revoke => exact revoke_ends.bind fun _ _ _ => .pure trivial

theorem submit_ends {id : ClaimId} {token key name exchange : Nat} :
    Ends scope s (submit id token key name exchange) fun _ _ => True := by
  unfold submit
  refine .read_bind (.ofOption_bind fun v hv => .require_bind fun hi => ?_)
  split
  · refine .require_bind fun _ => ?_
    split
    · exact .fail
    · exact .pure trivial
  rename_i hnone
  refine .require_bind fun hu => .require_bind fun _ => .modify_bind ?_ (.pure trivial)
  refine .single (.submitted v ⟨id, v.id, s.core, key, name, v.expires, exchange⟩
    (List.mem_of_find?_eq_some hv) (by simpa using hu) (beq_iff_eq.mp hi).symm rfl
    fun p hp hc => ?_)
  exact absurd (List.find?_eq_none.mp hnone p hp) (by simp [hc])

theorem finish_ends {claim : ClaimId} {key : Nat} : Ends scope s (finish claim key) fun _ t => t = s := by
  unfold finish
  refine .read_bind ?_
  split
  · exact .require_bind fun _ => .require_bind fun _ => .pure rfl
  refine .ofOption_bind fun _ _ => .require_bind fun _ => ?_
  split
  · exact .pure rfl
  · exact .fail
  · exact .require_bind fun _ => .pure rfl

theorem cancel_ends {claim : ClaimId} {key : Nat} (hc : s.uncertain = false) :
    Ends scope s (cancel claim key env) fun _ _ => True := by
  unfold cancel
  refine .read_bind ?_
  split
  · exact .require_bind fun _ => revoke_ends.bind fun _ _ _ => .pure trivial
  split
  · exact (cancelReservation_ends hc).bind fun _ _ _ => .pure trivial
  split
  · refine .require_bind fun _ => .modify_bind ?_ (.pure trivial)
    exact .single (.decided claim (.error .alreadyDecided) nofun)
  split
  · exact .modify_bind (.single (.spent _)) (.pure trivial)
  · exact .require_bind fun _ => .pure trivial

variable {action : Action}

theorem perform_ends (hc : s.uncertain = false) : Ends scope s (perform action env) fun _ _ => True := by
  cases action with
  | connect => exact .pure trivial
  | claim => exact submit_ends
  | finish => exact finish_ends.mono fun _ _ _ => trivial
  | revoke => exact revoke_ends.bind fun _ _ _ => .pure trivial
  | cancel => exact cancel_ends hc

theorem expire_ends : Ends scope s (expire env) fun _ t =>
    ∃ p q, t = { s with invitations := s.invitations.filter p, claims := s.claims.filter q } :=
  (Ends.modify (.single (.expired _ _))).mono fun _ _ ht => ⟨_, _, ht⟩

theorem checkToken_ends : Ends scope s (checkToken action env) fun _ t => t = s := by
  unfold checkToken
  refine .read_bind ?_
  split
  · exact Ends.require.mono fun _ _ ⟨_, ht⟩ => ht
  · exact .pure rfl

theorem checkAuthority_ends (hc : s.uncertain = false) :
    Ends scope s (checkAuthority action env) fun _ t => t = s := by
  unfold checkAuthority
  split
  · exact authorized_ends.bind fun _ _ ⟨_, hs, _⟩ => .pure (hs hc)
  · exact .read_bind (.require_bind fun _ => .require_bind fun _ =>
      Ends.require.mono fun _ _ ⟨_, ht⟩ => ht)
  · exact .pure rfl

theorem manage_ends {request : Management} (hf : ∀ id, env.invitation = some id → id ∉ s.issued)
    (hna : ∀ c, request = .approve c → scope.named c) :
    Ends scope s (manage actor request env) fun _ _ => True := by
  unfold manage
  refine .require_bind fun _ => ?_
  have hr : Ends scope s (recover env) fun _ t => t.uncertain = false ∧ t.issued = s.issued :=
    recover_issued
  refine hr.bind fun _ t ⟨hc, his⟩ => expire_ends.bind fun _ u ⟨p, q, hu⟩ => ?_
  subst hu
  exact answer_ends hc (fun id hi => his ▸ hf id hi) hna

theorem authenticate_ends {verified : Bool} :
    Ends scope s (authenticate generation action verified env) fun _ _ => True := by
  unfold authenticate
  refine recover_ends.bind fun _ t ⟨hc, _⟩ => checkToken_ends.bind fun _ u hu => ?_
  subst hu
  refine expire_ends.bind fun _ v ⟨p, q, hv⟩ => ?_
  have hc : v.uncertain = false := by rw [hv]; exact hc
  refine .read_bind (.require_bind fun _ => (checkAuthority_ends hc).bind fun _ w hw => ?_)
  subst hw
  exact .require_bind fun _ => perform_ends hc

theorem admitAgent_ends {agent : Name} {settled : Name → Bool} (hs : scope.agents = true) :
    Ends scope s (admitAgent paired agent settled env) fun _ _ => True := by
  unfold admitAgent
  refine authorized_ends.bind fun d t ⟨hc, _⟩ => .read_bind (.ofOption_bind fun r _ => ?_)
  obtain ⟨names, evicted⟩ := r
  simp only
  split
  · exact .modify_bind (.single (.noted hs _ _)) (.pure trivial)
  have hno : Changes scope t
      (if decide (env.save = .failedNew ∧
          (t.record.modifyDevice paired.pairing fun d => { d with agents := names }).Valid) = true
        then { t with
          lost := t.lost.filter (· != (paired.pairing, agent)) ++ evicted.toList.map (paired.pairing, ·) }
        else t) := by
    split
    · exact .single (.noted hs t.admitted _)
    · exact .refl
  refine Ends.bind (Ends.modify hno) fun _ u hu => ?_
  have hr : u.record = t.record ∧ u.uncertain = false := by
    rw [hu]
    split
    · exact ⟨rfl, hc⟩
    · exact ⟨rfl, hc⟩
  refine Ends.bind (commit_ends hr.2 ?_) fun _ v _ =>
    .modify_bind (.single (.noted hs _ _)) (.pure trivial)
  rw [← hr.1]
  exact .agents hs paired.pairing names

theorem restart_ends : Ends scope s (restart generation env) fun _ _ => True := by
  unfold restart
  refine Ends.modify_bind ?_ (listen_ends.mono fun _ _ _ => trivial)
  exact .single (.restarted generation s.listener)

end SpaceTerm.Direct.Host
