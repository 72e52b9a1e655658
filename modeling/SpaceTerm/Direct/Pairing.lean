import SpaceTerm.Direct.Authority

/-! # Decided pairing claims

Each invitation is used for one claim, and a device of an invitation is enrolled only by an approval of
that claim. A claim that was rejected, withdrawn or cancelled stays closed (`Closed`), provided the
record holds no device of it when that is answered: the decision lives in memory, while the save of an
approval that failed may have taken effect. -/

namespace SpaceTerm.Direct.Host
open Lib Proc
variable {scope : Scope} {s t : Host} {env : Env} {e : Event}

structure Paired.Inv (s : Host) : Prop where
  submitted : ∀ i c, s.submitted i = some c → i ∈ s.issued ∧ c.invitation = i ∧ c.id = .prepared i c.key
  stored : ∀ p ∈ s.claims, s.submitted p.claim.invitation = some p.claim
  unused : ∀ v ∈ s.invitations, v.id ∈ s.issued ∧ (v.used = false → s.submitted v.id = none)
  approved : ∀ c ∈ s.approvals, s.submitted c.invitation = some c
  enrolled : ∀ d ∈ s.stored.devices, ∀ i k, d.claim = .prepared i k →
    ∃ c ∈ s.approvals, c.id = d.claim ∧ c.key = d.key ∧ c.name = d.name
  decided : ∀ p ∈ s.claims, ∀ q, p.decision = some (.ok q) → ∃ d ∈ s.stored.devices, d.claim = p.claim.id

theorem Paired.Inv.start (core generation : Nat) : Paired.Inv (start core generation) where
  submitted := nofun
  stored := nofun
  unused := nofun
  approved := nofun
  enrolled := nofun
  decided := nofun

/-- Where a saved device comes from. -/
inductive Origin (s : Host) (d : Device) : Prop
  | kept {d' : Device} (member : d' ∈ s.stored.devices) (claim : d'.claim = d.claim)
      (key : d'.key = d.key) (name : d'.name = d.name)
      (revoked : d'.revoked = true → d.revoked = true)
  | setup {g n : Nat} (claim : d.claim = .operation g n)
  | approved {c : PairingClaim} (member : c ∈ s.approvals) (undecided : s.Undecided c)
      (claim : d.claim = c.id) (key : d.key = c.key) (name : d.name = c.name)

variable {d : Device}

theorem Edit.source {ds : List Device} (h : Edit scope s ds) (hs : s.record = s.stored)
    (hd : d ∈ ds) : Origin s d := by
  cases h with
  | same => exact .kept (hs ▸ hd) rfl rfl rfl id
  | enroll d' _ _ how =>
    rcases List.mem_append.mp hd with hd | hd
    · exact .kept (hs ▸ hd) rfl rfl rfl id
    cases List.mem_singleton.mp hd
    rcases how with ⟨g, n, hcl⟩ | ⟨c, hc, hu, hcl, hke, hna⟩
    · exact .setup hcl
    · exact .approved hc hu hcl hke hna
  | agents _ pairing names =>
    obtain ⟨d', hd', rfl⟩ := mem_modifyDevice.mp hd
    rw [hs] at hd'
    split
    · exact .kept hd' rfl rfl rfl id
    · exact .kept hd' rfl rfl rfl id

theorem source_revokedDevices (hs : s.record = s.stored) {target : Nat}
    (hd : d ∈ s.revokedDevices target) : Origin s d := by
  obtain ⟨d', hd', rfl⟩ := mem_modifyDevice.mp hd
  rw [hs] at hd'
  split
  · exact .kept hd' rfl rfl rfl fun _ => rfl
  · exact .kept hd' rfl rfl rfl id

theorem Change.source (hch : Change scope s t) (hi : s.Inv) (hd : d ∈ t.stored.devices) : Origin s d := by
  cases hch with
  | saved hc _ he => exact he.source (hi.same hc) hd
  | revoked hc _ he => exact source_revokedDevices (hi.same hc) (he ▸ hd)
  | saveFailed hc hke =>
    rcases hke with rfl | ⟨-, he | ⟨target, he⟩⟩
    · exact .kept hd rfl rfl rfl id
    · exact he.source (hi.same hc) hd
    · exact source_revokedDevices (hi.same hc) (he ▸ hd)
  | _ => exact .kept hd rfl rfl rfl id

theorem mem_decideAll {claims : List PendingClaim} {f : PendingClaim → Bool} {err : DirectError}
    {p : PendingClaim} (hp : p ∈ decideAll claims f err) :
    ∃ p' ∈ claims, p'.claim = p.claim ∧
      (p = p' ∨ p.decision = some (.error err)) ∧ (f p' = true → p.decision.isSome = true) := by
  obtain ⟨p', hp', rfl⟩ := List.mem_map.mp hp
  refine ⟨p', hp', ?_⟩
  split
  · exact ⟨rfl, .inr rfl, fun _ => rfl⟩
  rename_i hc
  refine ⟨rfl, .inl rfl, fun hf => ?_⟩
  rw [hf, Bool.true_and, Bool.not_eq_true, Option.isNone_eq_false_iff] at hc
  exact hc

theorem mem_setDecision {claims : List PendingClaim} {id : ClaimId}
    {decision : Except DirectError Paired} {p : PendingClaim} (hp : p ∈ setDecision claims id decision) :
    ∃ p' ∈ claims, p'.claim = p.claim ∧
      (p = p' ∧ p.claim.id ≠ id ∨ p.claim.id = id ∧ p.decision = some decision) := by
  obtain ⟨p', hp', rfl⟩ := List.mem_map.mp hp
  refine ⟨p', hp', ?_⟩
  split
  · rename_i hi
    exact ⟨rfl, .inr ⟨beq_iff_eq.mp hi, rfl⟩⟩
  · rename_i hi
    exact ⟨rfl, .inl ⟨rfl, fun hc => hi (beq_iff_eq.mpr hc)⟩⟩

theorem Paired.Inv.devices (h : Paired.Inv s) (hin : s.Inv) (hch : Change scope s t) :
    (∀ d ∈ t.stored.devices, ∀ i k, d.claim = .prepared i k →
      ∃ c ∈ s.approvals, c.id = d.claim ∧ c.key = d.key ∧ c.name = d.name) ∧
    ∀ p ∈ s.claims, ∀ q, p.decision = some (.ok q) → ∃ d ∈ t.stored.devices, d.claim = p.claim.id := by
  refine ⟨fun d hd i k hcl => ?_, fun p hp q hq => ?_⟩
  · cases hch.source hin hd with
    | kept member claim key name =>
      obtain ⟨c, hc, hi, hke, hna⟩ := h.enrolled _ member i k (claim.trans hcl)
      exact ⟨c, hc, hi.trans claim, hke.trans key, hna.trans name⟩
    | setup claim => rw [claim] at hcl; cases hcl
    | approved member _ claim key name => exact ⟨_, member, claim.symm, key.symm, name.symm⟩
  · obtain ⟨d, hd, hcl⟩ := h.decided p hp q hq
    obtain ⟨d', hd', -, hc, -⟩ := hch.keeps hin hd
    exact ⟨d', hd', hc.trans hcl⟩

theorem Paired.Inv.change (h : Paired.Inv s) (hinv : s.Inv) (hch : Change scope s t) : Paired.Inv t := by
  obtain ⟨hen, hdec⟩ := h.devices hinv hch
  cases hch with
  | recovered | listener | saved => exact { h with enrolled := hen, decided := hdec }
  | revoked | saveFailed => exact { h with enrolled := hen, decided := hdec }
  | expired f g =>
    exact ⟨h.submitted, fun p hp => h.stored p (List.mem_filter.mp hp).1,
      fun v hv => h.unused v (List.mem_filter.mp hv).1, h.approved, hen,
      fun p hp => hdec p (List.mem_filter.mp hp).1⟩
  | switched =>
    refine ⟨h.submitted, fun p hp => ?_, nofun, h.approved, hen, fun p hp q hq => ?_⟩
    · obtain ⟨p', hp', hcl, -⟩ := mem_decideAll hp
      rw [← hcl]
      exact h.stored p' hp'
    obtain ⟨p', hp', hcl, hde | hde, -⟩ := mem_decideAll hp
    · rw [← hcl]
      exact hdec p' hp' q (hde ▸ hq)
    · rw [hde] at hq
      cases hq
  | registered | dropped => exact { h with enrolled := hen, decided := hdec }
  | invited v hun hf =>
    refine ⟨fun i c hc => ?_, h.stored, fun w hw => ?_, h.approved, hen, hdec⟩
    · obtain ⟨hin, hrest⟩ := h.submitted i c hc
      exact ⟨List.mem_cons_of_mem _ hin, hrest⟩
    rcases List.mem_append.mp hw with hw | hw
    · exact ⟨List.mem_cons_of_mem _ (h.unused w hw).1, (h.unused w hw).2⟩
    cases List.mem_singleton.mp hw
    refine ⟨List.mem_cons_self .., fun _ => ?_⟩
    cases hs : s.submitted v.id with
    | none => rfl
    | some c => exact absurd (h.submitted v.id c hs).1 hf
  | withdrawn i =>
    refine ⟨h.submitted, fun p hp => ?_, fun v hv => h.unused v (List.mem_filter.mp hv).1, h.approved,
      hen, fun p hp q hq => ?_⟩
    · obtain ⟨p', hp', hcl, -⟩ := mem_decideAll hp
      rw [← hcl]
      exact h.stored p' hp'
    obtain ⟨p', hp', hcl, hde | hde, -⟩ := mem_decideAll hp
    · rw [← hcl]
      exact hdec p' hp' q (hde ▸ hq)
    · rw [hde] at hq
      cases hq
  | submitted v c hv hun hid hinvi hnew =>
    -- the invitation was not used before, so nothing is known of another claim of it
    have hnone : s.submitted v.id = none := (h.unused v hv).2 hun
    have hother : ∀ i c', s.submitted i = some c' → i ≠ v.id := by
      rintro i c' hc' rfl
      rw [hnone] at hc'
      cases hc'
    have hke : ∀ i c', s.submitted i = some c' →
        Function.update s.submitted v.id (some c) i = some c' := fun i c' hc' => by
      rw [Function.update_of_ne (hother i c' hc')]
      exact hc'
    refine ⟨fun i c' hc' => ?_, fun p hp => ?_, fun w hw => ?_, fun c' hc' => ?_, hen, fun p hp q hq => ?_⟩
    · by_cases hi : i = v.id
      · subst hi
        have heq : Function.update s.submitted v.id (some c) v.id = some c' := hc'
        rw [Function.update_self] at heq
        cases heq
        exact ⟨(h.unused v hv).1, hinvi, hid⟩
      · have heq : Function.update s.submitted v.id (some c) i = some c' := hc'
        rw [Function.update_of_ne hi] at heq
        exact h.submitted i c' heq
    · rcases List.mem_append.mp hp with hp | hp
      · exact hke _ _ (h.stored p hp)
      cases List.mem_singleton.mp hp
      change Function.update s.submitted v.id (some c) c.invitation = some c
      rw [hinvi, Function.update_self]
    · obtain ⟨w', hw', rfl⟩ := List.mem_map.mp hw
      split
      · exact ⟨(h.unused w' hw').1, nofun⟩
      rename_i hne
      refine ⟨(h.unused w' hw').1, fun hw => ?_⟩
      change Function.update s.submitted v.id (some c) w'.id = none
      rw [Function.update_of_ne fun hco => hne (beq_iff_eq.mpr hco)]
      exact (h.unused w' hw').2 hw
    · exact hke _ _ (h.approved c' hc')
    · rcases List.mem_append.mp hp with hp | hp
      · exact hdec p hp q hq
      · cases List.mem_singleton.mp hp
        cases hq
  | approving c _ hu =>
    refine ⟨h.submitted, h.stored, h.unused, fun c' hc' => ?_, fun d hd i k hcl => ?_, hdec⟩
    · rcases List.mem_cons.mp hc' with rfl | hc'
      · obtain ⟨p, hp, rfl, -⟩ := hu
        exact h.stored p hp
      · exact h.approved c' hc'
    · obtain ⟨c', hc', hrest⟩ := hen d hd i k hcl
      exact ⟨c', List.mem_cons_of_mem _ hc', hrest⟩
  | decided id decision he =>
    refine ⟨h.submitted, fun p hp => ?_, h.unused, h.approved, hen, fun p hp q hq => ?_⟩
    · obtain ⟨p', hp', hcl, -⟩ := mem_setDecision hp
      rw [← hcl]
      exact h.stored p' hp'
    obtain ⟨p', hp', hcl, ⟨hde, -⟩ | ⟨hid, hde⟩⟩ := mem_setDecision hp
    · rw [← hcl]
      exact hdec p' hp' q (hde ▸ hq)
    rw [hde] at hq
    cases hq
    rw [hid]
    exact he q rfl
  | spent f =>
    refine ⟨h.submitted, h.stored, fun w hw => ?_, h.approved, hen, hdec⟩
    obtain ⟨w', hw', rfl⟩ := List.mem_map.mp hw
    split
    · exact ⟨(h.unused w' hw').1, nofun⟩
    · exact h.unused w' hw'
  | restarted =>
    exact ⟨h.submitted, nofun, nofun, h.approved, hen,
      nofun⟩
  | noted => exact { h with enrolled := hen, decided := hdec }

theorem Paired.Inv.changes (h : Paired.Inv s) (hi : s.Inv) (hch : Changes scope s t) : Paired.Inv t := by
  induction hch with
  | refl => exact h
  | tail hb hc ih => exact ih.change (hi.changes hb) hc

theorem Paired.Inv.run {core generation : Nat} {es : List Event}
    (hr : Run Step (Host.start core generation) es s) : Paired.Inv s ∧ s.Inv :=
  hr.invariant (P := fun s => Paired.Inv s ∧ s.Inv)
    ⟨.start core generation, Host.Inv.start core generation⟩
    fun hp hs => ⟨hp.1.changes hp.2 hs.within, hp.2.changes hs.within⟩

/-! ## Closed claims -/

/-- The claim of `key` on the invitation `i` leads to no device any more. -/
structure Closed (s : Host) (i key : Nat) : Prop where
  issued : i ∈ s.issued
  revoked : ∀ d ∈ s.stored.devices, d.claim = .prepared i key → d.revoked = true
  ended : (∃ d ∈ s.stored.devices, d.claim = .prepared i key) ∨
    (∀ p ∈ s.claims, p.claim.id = .prepared i key → p.decision.isSome = true) ∧
    ∀ v ∈ s.invitations, v.id = i → v.used = true

variable {i key : Nat}

theorem Closed.revoked_change (h : s.Closed i key) (hi : s.Inv) (hch : Change scope s t) :
    ∀ d ∈ t.stored.devices, d.claim = .prepared i key → d.revoked = true := by
  intro d hd hcl
  rcases h.ended with ⟨d', hd', hcl'⟩ | ⟨hde, -⟩
  · -- the device of the claim is still the one that was revoked
    obtain ⟨d'', hd'', -, hc, -, hr, -⟩ := hch.keeps hi hd'
    rw [eq_of_claim (hi.change hch).valid hd hd'' (hcl.trans (hc.trans hcl').symm)]
    exact hr (h.revoked d' hd' hcl')
  cases hch.source hi hd with
  | kept member claim _ _ revoked => exact revoked (h.revoked _ member (claim.trans hcl))
  | setup claim => rw [claim] at hcl; cases hcl
  | approved _ undecided claim =>
    obtain ⟨p, hp, rfl, hnone⟩ := undecided
    have hs := hde p hp (claim.symm.trans hcl)
    rw [hnone] at hs
    cases hs

theorem Closed.change (h : s.Closed i key) (hin : s.Inv) (hch : Change scope s t) : t.Closed i key := by
  have hr := h.revoked_change hin hch
  rcases h.ended with ⟨d, hd, hcl⟩ | ⟨hdec, hus⟩
  · obtain ⟨d', hd', -, hc, -⟩ := hch.keeps hin hd
    refine ⟨?_, hr, .inl ⟨d', hd', hc.trans hcl⟩⟩
    cases hch with
    | invited => exact List.mem_cons_of_mem _ h.issued
    | _ => exact h.issued
  cases hch with
  | expired f g =>
    exact ⟨h.issued, hr, .inr ⟨fun p hp => hdec p (List.mem_filter.mp hp).1,
      fun v hv => hus v (List.mem_filter.mp hv).1⟩⟩
  | switched =>
    refine ⟨h.issued, hr, .inr ⟨fun p hp _ => ?_, nofun⟩⟩
    obtain ⟨p', hp', hcl, -, hs⟩ := mem_decideAll hp
    exact hs rfl
  | invited v _ hf =>
    refine ⟨List.mem_cons_of_mem _ h.issued, hr, .inr ⟨hdec, fun w hw hi => ?_⟩⟩
    rcases List.mem_append.mp hw with hw | hw
    · exact hus w hw hi
    · cases List.mem_singleton.mp hw
      exact absurd (hi ▸ h.issued) hf
  | withdrawn j =>
    refine ⟨h.issued, hr, .inr ⟨fun p hp hi => ?_, fun v hv => hus v (List.mem_filter.mp hv).1⟩⟩
    obtain ⟨p', hp', hcl, hde | hde, -⟩ := mem_decideAll hp
    · rw [hde]
      exact hdec p' hp' (hcl ▸ hi)
    · rw [hde]
      rfl
  | submitted v c hv hu hi =>
    refine ⟨h.issued, hr, .inr ⟨fun p hp hpi => ?_, fun w hw hwi => ?_⟩⟩
    · rcases List.mem_append.mp hp with hp | hp
      · exact hdec p hp hpi
      -- the invitation of a new claim is unused
      cases List.mem_singleton.mp hp
      have hcl : ClaimId.prepared v.id c.key = .prepared i key := hi.symm.trans hpi
      injection hcl with hvi _
      rw [hus v hv hvi] at hu
      cases hu
    · obtain ⟨w', hw', rfl⟩ := List.mem_map.mp hw
      split
      · rfl
      rename_i hne
      rw [if_neg hne] at hwi
      exact hus w' hw' hwi
  | decided id decision =>
    refine ⟨h.issued, hr, .inr ⟨fun p hp hpi => ?_, hus⟩⟩
    obtain ⟨p', hp', hcl, ⟨hde, -⟩ | ⟨-, hde⟩⟩ := mem_setDecision hp
    · rw [hde]
      exact hdec p' hp' (hcl ▸ hpi)
    · rw [hde]
      rfl
  | spent f =>
    refine ⟨h.issued, hr, .inr ⟨hdec, fun w hw hwi => ?_⟩⟩
    obtain ⟨w', hw', rfl⟩ := List.mem_map.mp hw
    split
    · rfl
    rename_i hne
    rw [if_neg hne] at hwi
    exact hus w' hw' hwi
  | restarted =>
    exact ⟨h.issued, hr, .inr ⟨nofun, nofun⟩⟩
  | _ => exact ⟨h.issued, hr, .inr ⟨hdec, hus⟩⟩

theorem Closed.changes (h : s.Closed i key) (hi : s.Inv) (hch : Changes scope s t) : t.Closed i key := by
  induction hch with
  | refl => exact h
  | tail hb hc ih => exact ih.change (hi.changes hb) hc

theorem Closed.finish (h : s.Closed i key) (hin : s.Inv) (hp : Paired.Inv s)
    (hc : s.uncertain = false) {key' : Nat} {paired : Paired} :
    Host.finish (.prepared i key) key' s ≠ (.ok (.enrollment (some paired)), t) := by
  intro ho
  unfold Host.finish at ho
  replace ho := read_bind_ok ho
  have hs := hin.same hc
  cases hd : s.record.claimed (.prepared i key) with
  | some d =>
    simp only [hd] at ho
    obtain ⟨-, ho⟩ := require_bind_ok ho
    obtain ⟨hl, ho⟩ := require_bind_ok ho
    have hi := List.mem_of_find?_eq_some hd
    rw [h.revoked d (hs ▸ hi) (by simpa using List.find?_some hd)] at hl
    cases hl
  | none =>
    simp only [hd] at ho
    obtain ⟨p, hf, ho⟩ := ofOption_bind_ok ho
    obtain ⟨-, ho⟩ := require_bind_ok ho
    have hcl : p.claim.id = .prepared i key := by simpa using List.find?_some hf
    rcases hde : p.decision with _ | _ | q
    · rw [hde] at ho
      cases ho
    · rw [hde] at ho
      cases ho
    -- an approved claim has a device, which `claimed` would have found
    obtain ⟨d, hi, hdc⟩ := hp.decided p (List.mem_of_find?_eq_some hf) q hde
    rw [← hs] at hi
    exact absurd (List.find?_eq_none.mp hd d hi) (by simp [hdc, hcl])

def StaysClosed (s : Host) (claim : ClaimId) : Prop :=
  ∀ fs t, Run Step s fs t → (∀ d ∈ t.stored.devices, d.claim = claim → d.revoked = true) ∧
    ∀ generation key verified env u paired,
      authenticate generation (.finish claim key) verified env t ≠ (.ok (.enrollment (some paired)), u)

theorem Closed.stays (h : s.Closed i key) (hi : s.Inv) (hp : Paired.Inv s) : s.StaysClosed (.prepared i key) := by
  intro fs t hr
  obtain ⟨hcl, hi, hp⟩ :=
    hr.invariant (P := fun t => t.Closed i key ∧ t.Inv ∧ Paired.Inv t) ⟨h, hi, hp⟩
      fun hpr hs => ⟨hpr.1.changes hpr.2.1 hs.within, hpr.2.1.changes hs.within, hpr.2.2.changes hpr.2.1 hs.within⟩
  refine ⟨hcl.revoked, fun generation key' verified env u paired ho => ?_⟩
  obtain ⟨v, hch, hc, -, ho⟩ := authenticate_ok ho
  exact (hcl.changes hi hch).finish (hi.changes hch) (hp.changes hi hch)
    hc ho

def NoLiveDevice (s : Host) (claim : ClaimId) : Prop :=
  ∀ d ∈ s.stored.devices, d.claim = claim → d.revoked = true

theorem StaysClosed.noLiveDevice {claim : ClaimId} (h : s.StaysClosed claim) : s.NoLiveDevice claim :=
  (h [] s (.refl s)).1

theorem reject_closes {id : ClaimId} {r : ManagementReply} (hp : Paired.Inv s)
    (ho : reject id s = (.ok r, t)) (hde : t.NoLiveDevice id) :
    ∃ i key, id = .prepared i key ∧ t.Closed i key := by
  unfold reject at ho
  replace ho := read_bind_ok ho
  obtain ⟨p, hf, ho⟩ := ofOption_bind_ok ho
  obtain ⟨-, ho⟩ := require_bind_ok ho
  cases ho
  have hmem := List.mem_of_find?_eq_some hf
  have hi : p.claim.id = id := by simpa using List.find?_some hf
  have hs := hp.stored p hmem
  obtain ⟨his, -, hpr⟩ := hp.submitted _ _ hs
  refine ⟨p.claim.invitation, p.claim.key, hi.symm.trans hpr, his, ?_, .inr ⟨?_, ?_⟩⟩
  · rw [← hpr, hi]
    exact hde
  · intro q hq hqi
    obtain ⟨q', hq', hc, ⟨hd, hne⟩ | ⟨-, hd⟩⟩ := mem_setDecision hq
    · exact absurd (hqi.trans (hpr.symm.trans hi)) hne
    · rw [hd]
      rfl
  · intro v hv hvi
    cases hu : v.used with
    | true => rfl
    | false =>
      rw [← hvi, (hp.unused v hv).2 hu] at hs
      cases hs

theorem withdraw_closes {r : ManagementReply} (hp : Paired.Inv s) (his : i ∈ s.issued)
    (ho : withdraw i s = (.ok r, t)) (hd : t.NoLiveDevice (.prepared i key)) :
    t.Closed i key := by
  cases ho
  refine ⟨his, hd, .inr ⟨fun p hmem hi => ?_, fun v hv hvi => ?_⟩⟩
  · obtain ⟨p', hp', hc, -, hs⟩ := mem_decideAll hmem
    refine hs (beq_iff_eq.mpr ?_)
    obtain ⟨-, -, hpr⟩ := hp.submitted _ _ (hp.stored p' hp')
    rw [← hc, hpr] at hi
    injection hi
  · exact absurd hvi (by simpa using (List.mem_filter.mp hv).2)

theorem keeps_changes (hcha : Changes scope s t) (hi : s.Inv) {d : Device} (hd : d ∈ s.stored.devices) :
    ∃ d' ∈ t.stored.devices, d'.pairing = d.pairing ∧ d'.claim = d.claim := by
  induction hcha with
  | refl => exact ⟨d, hd, rfl, rfl⟩
  | tail hb hch ih =>
    obtain ⟨d', hd', hp, hc⟩ := ih
    obtain ⟨d'', hd'', hp', hc', -⟩ := hch.keeps (hi.changes hb) hd'
    exact ⟨d'', hd'', hp'.trans hp, hc'.trans hc⟩

theorem issued_changes (hch : Changes scope s t) (hi : i ∈ s.issued) : i ∈ t.issued := by
  induction hch with
  | refl => exact hi
  | tail _ hc ih =>
    cases hc with
    | invited => exact List.mem_cons_of_mem _ ih
    | _ => exact ih

theorem approvals_changes (hcha : Changes scope s t) {c : PairingClaim} (hc : c ∈ t.approvals) :
    c ∈ s.approvals ∨ scope.named c := by
  induction hcha with
  | refl => exact .inl hc
  | tail _ hch ih =>
    cases hch with
    | approving c' hna =>
      rcases List.mem_cons.mp hc with rfl | hc
      · exact .inr hna
      · exact ih hc
    | _ => exact ih hc

theorem approvals_run {core generation : Nat} {es : List Event}
    (hr : Run Step (Host.start core generation) es s) {c : PairingClaim} (hc : c ∈ s.approvals) :
    ∃ e ∈ es, e.approves c := by
  generalize hs : Host.start core generation = s₀ at hr
  induction hr with
  | refl =>
    rw [← hs] at hc
    cases hc
  | snoc _ hst ih =>
    rcases approvals_changes hst.within hc with hc | hna
    · obtain ⟨e, he, ha⟩ := ih hc
      exact ⟨e, List.mem_append_left _ he, ha⟩
    · exact ⟨_, List.mem_append_right _ (List.mem_singleton.mpr rfl), hna⟩

theorem cancel_closes {key' : Nat} {a : Answer} (hinv : s.Inv) (hp : Paired.Inv s)
    (hce : s.uncertain = false) (his : i ∈ s.issued)
    (ho : cancel (.prepared i key) key' env s = (.ok a, t)) :
    t.Closed i key := by
  unfold cancel at ho
  replace ho := read_bind_ok ho
  have hs := hinv.same hce
  cases hd : s.record.claimed (.prepared i key) with
  | some d =>
    simp only [hd] at ho
    obtain ⟨-, ho⟩ := require_bind_ok ho
    obtain ⟨clients, u, hr, ho⟩ := bind_ok ho
    cases ho
    have he : Ends .plain s (revoke (some d.pairing) (.cancel (.prepared i key) d.pairing)
      d.pairing env) _ := revoke_ends
    obtain ⟨hch, w, hw, hcer, -, hrevo⟩ := he.ok hr
    obtain ⟨-, -, d', hd', hp', hre, -⟩ := hrevo.receipt (hinv.changes hw) hcer
    -- the device found is the one that is revoked
    have hin : d ∈ s.stored.devices := hs ▸ List.mem_of_find?_eq_some hd
    have hcl : d.claim = .prepared i key := by simpa using List.find?_some hd
    obtain ⟨d'', hd'', hp'', hc''⟩ := keeps_changes hch hinv hin
    have hinvt := hinv.changes hch
    have heq := eq_of_pairing hinvt.valid hd' hd'' (hp'.trans hp''.symm)
    refine ⟨issued_changes hch his, fun x hx hxc => ?_, .inl ⟨d'', hd'', hc''.trans hcl⟩⟩
    rwa [eq_of_claim hinvt.valid hx hd'' (hxc.trans (hc''.trans hcl).symm), ← heq]
  | none =>
    have hnone : ∀ d ∈ s.stored.devices, d.claim = .prepared i key → d.revoked = true := by
      intro d hin hcl
      rw [← hs] at hin
      exact absurd (List.find?_eq_none.mp hd d hin) (by simp [hcl])
    have hse : (s.record.setups.any (·.operation == .prepared i key)) = false := by
      simp [SetupReservation.operation]
    simp only [hd, hse, Bool.false_eq_true, if_false] at ho
    cases hf : s.claims.find? (·.claim.id == .prepared i key) with
    | some p =>
      simp only [hf] at ho
      obtain ⟨-, ho⟩ := require_bind_ok ho
      cases ho
      refine ⟨his, hnone, .inr ⟨fun q hq hqi => ?_, fun v hv hvi => ?_⟩⟩
      · obtain ⟨q', hq', hcl, ⟨-, hne⟩ | ⟨-, hde⟩⟩ := mem_setDecision hq
        · exact absurd hqi hne
        · rw [hde]
          rfl
      -- the invitation of a stored claim is used
      have hst := hp.stored p (List.mem_of_find?_eq_some hf)
      obtain ⟨-, -, hpr⟩ := hp.submitted _ _ hst
      have hcl : p.claim.id = .prepared i key := by simpa using List.find?_some hf
      rw [hpr] at hcl
      injection hcl with hpi _
      cases hu : v.used with
      | true => rfl
      | false =>
        rw [hpi, ← hvi, (hp.unused v hv).2 hu] at hst
        cases hst
    | none =>
      simp only [hf] at ho
      have hcla : ∀ p ∈ s.claims, p.claim.id = .prepared i key → p.decision.isSome = true := by
        intro p hmem hi
        exact absurd (List.find?_eq_none.mp hf p hmem) (by simp [hi])
      cases ha : s.invitations.any fun v => ClaimId.prepared v.id key' == .prepared i key with
      | true =>
        simp only [ha, if_true] at ho
        cases ho
        obtain ⟨v₀, -, hv₀⟩ := List.any_eq_true.mp ha
        have hke : key' = key := by
          injection beq_iff_eq.mp hv₀
        refine ⟨his, hnone, .inr ⟨hcla, fun w hw hwi => ?_⟩⟩
        obtain ⟨w', hw', rfl⟩ := List.mem_map.mp hw
        split
        · rfl
        rename_i hne
        rw [if_neg hne] at hwi
        exact absurd (by rw [hwi, hke]; exact beq_self_eq_true _) hne
      | false =>
        -- no generation that a record reaches is a digest's
        simp only [ha, Bool.false_eq_true, if_false] at ho
        obtain ⟨hl, -⟩ := require_bind_ok ho
        have hb := hinv.valid.1
        rw [← hs] at hb
        have hl : 2 ^ 64 < s.record.setupGeneration := of_decide_eq_true hl
        omega

/-- Over every run: an invitation leads to at most one device; a device of an invitation was enrolled
by an approval that names exactly the claim it was used for; and once a claim is answered as rejected or
its invitation as withdrawn, no later `Finish` of it gives a pairing and no live device of it exists,
exactly when the record holds no live device of it at that moment; a cancelled claim stays closed. -/
theorem claims_stay_decided {core generation : Nat} {es : List Event}
    (hrun : Run Step (Host.start core generation) es s) :
    (∀ d ∈ s.stored.devices, ∀ d' ∈ s.stored.devices, ∀ i k k', d.claim = .prepared i k →
      d'.claim = .prepared i k' → d = d') ∧
    (∀ d ∈ s.stored.devices, ∀ i k, d.claim = .prepared i k → ∃ c, (∃ e ∈ es, e.approves c) ∧
      s.submitted i = some c ∧ c.id = d.claim ∧ c.key = d.key ∧ c.name = d.name) ∧
    (∀ actor id env t, manage actor (.reject id) env s = (.ok .rejected, t) →
      (t.StaysClosed id ↔ t.NoLiveDevice id)) ∧
    (∀ actor i key env t, i ∈ s.issued → manage actor (.withdraw i) env s = (.ok .rejected, t) →
      (t.StaysClosed (.prepared i key) ↔ t.NoLiveDevice (.prepared i key))) ∧
    (∀ generation i key key' verified env clients t, i ∈ s.issued →
      authenticate generation (.cancel (.prepared i key) key') verified env s =
        (.ok (.cancelled clients), t) → t.StaysClosed (.prepared i key)) := by
  obtain ⟨hp, hin⟩ := Paired.Inv.run hrun
  have hen : ∀ d ∈ s.stored.devices, ∀ i k, d.claim = .prepared i k → ∃ c ∈ s.approvals,
      s.submitted i = some c ∧ c.id = d.claim ∧ c.key = d.key ∧ c.name = d.name := by
    intro d hd i k hcl
    obtain ⟨c, hc, hi, hke, hna⟩ := hp.enrolled d hd i k hcl
    have hs := hp.approved c hc
    obtain ⟨-, -, hpr⟩ := hp.submitted _ _ hs
    have heq : ClaimId.prepared c.invitation c.key = .prepared i k :=
      hpr.symm.trans (hi.trans hcl)
    injection heq with hci _
    exact ⟨c, hc, hci ▸ hs, hi, hke, hna⟩
  refine ⟨fun d hd d' hd' i k k' hk hk' => ?_, fun d hd i k hcl => ?_,
    fun actor id env t ho => ⟨StaysClosed.noLiveDevice, fun hde => ?_⟩,
    fun actor i key env t his ho => ⟨StaysClosed.noLiveDevice, fun hde => ?_⟩,
    fun generation i key key' verified env clients t his ho => ?_⟩
  · obtain ⟨c, -, hs, hi, -⟩ := hen d hd i k hk
    obtain ⟨c', -, hs', hi', -⟩ := hen d' hd' i k' hk'
    rw [hs] at hs'
    cases hs'
    exact eq_of_claim hin.valid hd hd' (hi.symm.trans hi')
  · obtain ⟨c, hc, hrest⟩ := hen d hd i k hcl
    exact ⟨c, approvals_run hrun hc, hrest⟩
  · obtain ⟨u, hch, -, ho⟩ := manage_ok ho
    obtain ⟨i, key, rfl, hclo⟩ := reject_closes (hp.changes hin hch) ho hde
    have he : Ends .plain u (reject (.prepared i key)) _ := reject_ends
    obtain ⟨hmo, -⟩ := he.ok ho
    exact hclo.stays (hin.changes (hch.trans hmo)) (hp.changes hin (hch.trans hmo))
  · obtain ⟨u, hch, -, ho⟩ := manage_ok ho
    have hclo := withdraw_closes (hp.changes hin hch) (issued_changes hch his) ho
      hde
    have he : Ends .plain u (withdraw i) _ := withdraw_ends
    obtain ⟨hmo, -⟩ := he.ok ho
    exact hclo.stays (hin.changes (hch.trans hmo)) (hp.changes hin (hch.trans hmo))
  · obtain ⟨u, hch, hce, -, ho⟩ := authenticate_ok ho
    have hclo := cancel_closes (hin.changes hch) (hp.changes hin hch) hce
      (issued_changes hch his) ho
    have he : Ends .plain u (cancel (.prepared i key) key' env) _ := cancel_ends hce
    obtain ⟨hmo, -⟩ := he.ok ho
    exact hclo.stays (hin.changes (hch.trans hmo)) (hp.changes hin (hch.trans hmo))

def usesInvitation : List Event :=
  [.manage none (.setPolicy (some 9) true) { generation := some 2, readies := .ok .fresh },
   .manage none .invite { invitation := some 10, token := some 11 },
   .authenticate 2 (.claim (.prepared 10 3) 11 3 4 5) true {}]

/-- The claim is rejected before anything else happens to it. -/
theorem claims_stay_decided_rejected :
    ∃ s t, Run Step (Host.start 1 0) usesInvitation s ∧
      manage none (.reject (.prepared 10 3)) {} s = (.ok .rejected, t) ∧
      t.StaysClosed (.prepared 10 3) := by
  have hr : Run Step (Host.start 1 0) usesInvitation _ := run_after rfl
  refine ⟨_, _, hr, rfl, ?_⟩
  refine ((claims_stay_decided hr).2.2.1 none (.prepared 10 3) {} _ rfl).mpr fun d hd => ?_
  cases hd

/-- The save of an approval fails after it took effect. The claim is then rejected, and finished with a
pairing. -/
theorem rejected_claim_finished :
    ∃ s t u, Run Step (Host.start 1 0)
        (usesInvitation ++ [.manage none (.approve ⟨.prepared 10 3, 10, 1, 3, 4, 300, 5⟩)
          { save := .failedNew, pairing := some 7, client := some 8 }]) s ∧
      manage none (.reject (.prepared 10 3)) { recovery := some 6 } s = (.ok .rejected, t) ∧
      authenticate 6 (.finish (.prepared 10 3) 3) true {} t = (.ok (.enrollment (some ⟨1, 7, 8⟩)), u) :=
  ⟨_, _, _, run_after rfl, rfl, rfl⟩

end SpaceTerm.Direct.Host
