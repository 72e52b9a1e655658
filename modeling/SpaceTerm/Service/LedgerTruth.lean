import SpaceTerm.Service.Ledger
import Mathlib.Data.List.Forall2
import Mathlib.Data.List.Nodup

/-! # The ledger tells the truth

A record leaves `Admitted` and `Launched` once, a terminal record never changes, and one record at
most is unsettled. A record that reads `NotPerformed` was claimed by nobody as long as no launch is
reported as failed after its helper already claimed the record: `mark` moves a `Running` record to
`NotPerformed` then (`notPerformed_after_claim`). -/

namespace SpaceTerm.Service
open Lib

/-! ### What a call does to one record -/

def Event.reportsFailure (e : Event) (id : OperationId) : Prop :=
  ∃ now, e = .launchReported id false now

inductive StateChange (e : Event) (claim : Option Nat) (r : Record) : OperationState → Prop
  | kept : StateChange e claim r r.state
  | launched (was : r.state = .admitted) : StateChange e claim r .launched
  | settled {state : OperationState} (was : r.state.terminal = false) (now : state.terminal = true)
      (why : ∀ why, state = .notPerformed why → r.state = .running → e.reportsFailure r.id) :
      StateChange e claim r state
  | claimed (was : r.state.claimable = true) (by_ : claim = some r.number) : StateChange e claim r .running

structure Change (e : Event) (claim : Option Nat) (r r' : Record) : Prop where
  number : r'.number = r.number
  state : StateChange e claim r r'.state

variable {e : Event} {claim : Option Nat} {r r' : Record} {xs ys : Ledger.Records}

theorem Change.refl (e : Event) (claim : Option Nat) (r : Record) : Change e claim r r :=
  ⟨rfl, .kept⟩

variable {state : OperationState}

theorem StateChange.of_terminal (h : StateChange e claim r state)
    (ht : r.state.terminal = true) : state = r.state := by
  cases h with
  | kept => rfl
  | launched was | settled was => rw [was] at ht; cases ht
  | claimed was => cases hr : r.state <;> rw [hr] at was ht <;> cases was <;> cases ht

theorem StateChange.claimable (h : StateChange e claim r state)
    (hc : state.claimable = true) : r.state.claimable = true := by
  cases h with
  | kept => exact hc
  | launched was => rw [was]; rfl
  | settled _ now => cases state <;> cases now <;> cases hc
  | claimed => cases hc

theorem StateChange.unsettled (h : StateChange e claim r state)
    (hs : state.terminal = false) : r.state.terminal = false := by
  cases hr : r.state.terminal with
  | false => rfl
  | true => rw [h.of_terminal hr, hr] at hs; exact hs

/-! ### What a call does to the ledger -/

/-- The records after a call, each with the one it comes from. -/
structure Changed (e : Event) (claim : Option Nat) (xs ys : Ledger.Records) : Prop where
  kept : ∃ zs, ys.Sublist zs ∧ List.Forall₂ (Change e claim) xs zs

theorem Changed.refl (e : Event) (claim : Option Nat) (xs : Ledger.Records) : Changed e claim xs xs :=
  ⟨xs, .refl _, List.forall₂_same.mpr fun r _ => .refl e claim r⟩

theorem Changed.sublist {zs : Ledger.Records} (h : Changed e claim xs ys) (hs : zs.Sublist ys) :
    Changed e claim xs zs := by
  obtain ⟨ws, hy, hw⟩ := h.kept
  exact ⟨ws, hs.trans hy, hw⟩

theorem Changed.mem (h : Changed e claim xs ys) (hr : r' ∈ ys) : ∃ r ∈ xs, Change e claim r r' := by
  obtain ⟨zs, hs, ha⟩ := h.kept
  obtain ⟨i, hi, hget⟩ := List.mem_iff_getElem.mp (hs.subset hr)
  have hx : i < xs.length := ha.length_eq ▸ hi
  refine ⟨xs[i], List.getElem_mem hx, ?_⟩
  have := ha.get hx hi
  rwa [List.get_eq_getElem, List.get_eq_getElem, hget] at this

theorem Changed.numbers (h : Changed e claim xs ys) : (ys.map (·.number)).Sublist (xs.map (·.number)) := by
  obtain ⟨zs, hs, ha⟩ := h.kept
  have he : zs.map (·.number) = xs.map (·.number) := by
    clear hs h
    induction ha with
    | nil => rfl
    | cons hc _ ih => rw [List.map_cons, List.map_cons, ih, hc.number]
  exact he ▸ hs.map _

theorem Changed.length_le (h : Changed e claim xs ys) : ys.length ≤ xs.length := by
  have := h.numbers.length_le
  rwa [List.length_map, List.length_map] at this

theorem Changed.unsettled_le (h : Changed e claim xs ys) :
    ys.countP (!·.state.terminal) ≤ xs.countP (!·.state.terminal) := by
  obtain ⟨zs, hs, ha⟩ := h.kept
  refine hs.countP_le.trans ?_
  clear hs h
  induction ha with
  | nil => exact Nat.le_refl _
  | @cons r r' rs rs' hc _ ih =>
    rw [List.countP_cons, List.countP_cons]
    have : (if (!r'.state.terminal) = true then 1 else 0) ≤
        if (!r.state.terminal) = true then 1 else 0 := by
      cases hr' : r'.state.terminal with
      | true => simp
      | false => simp [hc.state.unsettled hr']
    omega

/-- `change` deletes what is settled and orphaned, besides what the call does. -/
theorem change_changed {α : Type} {apply : Ledger.Records → Except CoreError (α × Ledger.Records)}
    (h : ∀ a ys, apply xs = .ok (a, ys) → Changed e claim xs ys) :
    Changed e claim xs (Ledger.change xs apply).2 := by
  unfold Ledger.change
  split
  · exact .refl ..
  · rename_i a ys he
    exact (h a ys he).sublist List.filter_sublist

theorem forall₂_modifyFirst {p : Record → Bool} {f : Record → Record}
    {R : Record → Record → Prop} (hf : ∀ r, xs.find? p = some r → R r (f r)) (hr : ∀ r, R r r) :
    List.Forall₂ R xs (modifyFirst p f xs) := by
  induction xs with
  | nil => exact .nil
  | cons r xs ih =>
    rw [modifyFirst]
    by_cases hp : p r = true
    · rw [if_pos hp]
      exact .cons (hf r (List.find?_cons_of_pos hp)) (List.forall₂_same.mpr fun r _ => hr r)
    · rw [if_neg hp]
      exact .cons (hr r) (ih fun r' hr' => hf r' ((List.find?_cons_of_neg hp).trans hr'))

variable {id : OperationId} {now : Nat}

theorem changed_set (h : ∀ r, Ledger.find xs id = some r → StateChange e claim r state) :
    Changed e claim xs (Ledger.set xs id state now) :=
  ⟨_, .refl _, forall₂_modifyFirst (fun r hr => ⟨rfl, h r hr⟩) (Change.refl e claim)⟩

theorem find_id (h : Ledger.find xs id = some r) : r.id = id :=
  eq_of_beq (List.find?_some (p := fun v : Record => v.id == id) h)

theorem changed_mark (hs : state = .launched ∨ state.terminal = true)
    (hwh : ∀ why, state = .notPerformed why → e.reportsFailure id) :
    Changed e claim xs (Ledger.mark xs id state now).2 := by
  refine change_changed fun a ys he => ?_
  split at he
  · cases he
  rename_i r hf
  split at he
  · cases he
  rename_i ho
  have ho : r.state.terminal = false := by simpa using ho
  split at he
  · cases he
    exact .refl ..
  · cases he
  rename_i ha
  cases he
  refine changed_set fun r' hr' => ?_
  cases hf.symm.trans hr'
  rcases hs with rfl | ht
  · -- only an admitted record is marked `Launched`
    have : r.state = .admitted := by
      cases hr : r.state <;> rw [hr] at ha <;> first | rfl | cases ha
    exact .launched this
  · exact .settled ho ht fun why hw _ => (find_id hf).symm ▸ hwh why hw

theorem changed_acknowledge {actor : Actor} : Changed e claim xs (Ledger.acknowledge xs id actor).2 := by
  refine change_changed fun a ys he => ?_
  split at he
  · cases he
    exact .refl ..
  split at he
  · cases he
  split at he
  · cases he
  · cases he
    exact (Changed.refl e claim xs).sublist List.eraseP_sublist

theorem changed_forgetPairing {pairing : PairingId} : Changed e claim xs (Ledger.forgetPairing xs pairing).2 := by
  refine change_changed fun a ys he => ?_
  cases he
  refine ⟨_, .refl _, List.forall₂_map_right_iff.mpr (List.forall₂_same.mpr fun r _ => ?_)⟩
  split
  · exact ⟨rfl, .kept⟩
  · exact .refl ..

/-! ### Settlement -/

variable {activation : Ledger.Activation} {boot : Id}

theorem settledState_spec (h : Ledger.settledState r boot activation now = .ok (some state)) :
    r.state.terminal = false ∧ state.terminal = true ∧ ∀ why, state = .notPerformed why → r.state ≠ .running := by
  unfold Ledger.settledState at h
  cases hr : r.state with
  | admitted =>
    rw [hr] at h
    simp only [Except.ok.injEq, Option.ite_none_right_eq_some, Option.some.injEq] at h
    obtain ⟨-, rfl⟩ := h
    exact ⟨rfl, rfl, nofun⟩
  | launched =>
    rw [hr] at h
    simp only [Except.ok.injEq] at h
    split at h
    · cases h
      exact ⟨rfl, rfl, nofun⟩
    split at h
    · cases h
      exact ⟨rfl, rfl, nofun⟩
    · cases h
  | running =>
    rw [hr] at h
    suffices state = .done ∨ (∃ code, state = .failed code) ∨ state = .unresolved by
      rcases this with rfl | ⟨code, rfl⟩ | rfl <;> exact ⟨rfl, rfl, nofun⟩
    cases ha : r.action with
    | update =>
      rw [ha] at h
      cases activation with
      | proves phase =>
        simp only [Except.ok.injEq, Option.some.injEq] at h
        subst h
        cases phase with
        | none => exact .inr (.inr rfl)
        | some phase =>
          cases phase with
          | activating | uncertain => exact .inr (.inr rfl)
          | completed => exact .inl rfl
          | returned => exact .inr (.inl ⟨_, rfl⟩)
      | busy | fails => cases h
    | restart =>
      rw [ha] at h
      simp only [Except.ok.injEq, Option.some.injEq] at h
      subst h
      split
      · exact .inl rfl
      · exact .inr (.inr rfl)
    | stop | uninstall =>
      rw [ha] at h
      cases h
      exact .inr (.inr rfl)
    | network =>
      rw [ha] at h
      simp only [Except.ok.injEq, Option.ite_none_right_eq_some, Option.some.injEq] at h
      exact .inr (.inr h.2.symm)
  | done | failed | notPerformed | unresolved =>
    rw [hr] at h
    cases h

theorem change_settleRecord (h : Ledger.settleRecord boot activation now r = .ok r') : Change e claim r r' := by
  unfold Ledger.settleRecord at h
  split at h
  · cases h
    exact .refl ..
  cases hs : Ledger.settledState r boot activation now with
  | error err => rw [hs] at h; cases h
  | ok next =>
    rw [hs] at h
    cases next with
    | none =>
      cases h
      exact .refl ..
    | some state =>
      obtain ⟨ho, ht, hwh⟩ := settledState_spec hs
      cases h
      exact ⟨rfl, .settled ho ht fun why hw hr => absurd hr (hwh why hw)⟩

theorem forall₂_of_mapM {ε : Type} {f : Record → Except ε Record} {R : Record → Record → Prop}
    (hf : ∀ r r', f r = .ok r' → R r r') (h : xs.mapM f = .ok ys) : List.Forall₂ R xs ys := by
  induction xs generalizing ys with
  | nil =>
    cases h
    exact .nil
  | cons r xs ih =>
    rw [List.mapM_cons] at h
    cases hr : f r with
    | error err => rw [hr] at h; cases h
    | ok r' =>
      rw [hr] at h
      cases hx : xs.mapM f with
      | error err =>
        change (xs.mapM f >>= _) = _ at h
        rw [hx] at h
        cases h
      | ok zs =>
        change (xs.mapM f >>= _) = _ at h
        rw [hx] at h
        cases h
        exact .cons (hf r r' hr) (ih hx)

theorem Changed.of_sublist {zs : Ledger.Records} (hs : ys.Sublist xs)
    (ha : List.Forall₂ (Change e claim) ys zs) : Changed e claim xs zs := by
  suffices ∃ ws, zs.Sublist ws ∧ List.Forall₂ (Change e claim) xs ws from ⟨this⟩
  induction hs generalizing zs with
  | slnil => exact ⟨zs, .refl _, ha⟩
  | cons r _ ih =>
    obtain ⟨ws, hw, hx⟩ := ih ha
    exact ⟨r :: ws, hw.cons r, .cons (.refl ..) hx⟩
  | cons_cons r _ ih =>
    obtain ⟨r', zs', hr, ht, rfl⟩ := List.forall₂_cons_left_iff.mp ha
    obtain ⟨ws, hw, hx⟩ := ih ht
    exact ⟨r' :: ws, hw.cons_cons r', .cons hr hx⟩

theorem changed_settle {active : Bool} : Changed e claim xs (Ledger.settle xs boot active activation now).2 := by
  refine change_changed fun a ys he => ?_
  dsimp only at he
  split at he
  · cases he
    exact (Changed.refl e claim xs).sublist List.filter_sublist
  cases hma : List.mapM (Ledger.settleRecord boot activation now)
      (xs.filter fun v => !(v.actor == Actor.core && v.state.terminal)) with
  | error err => rw [hma] at he; cases he
  | ok zs =>
    rw [hma] at he
    cases he
    exact .of_sublist List.filter_sublist
      (forall₂_of_mapM (fun r r' => change_settleRecord) hma)

/-! ### What an event does -/

namespace Machine

variable {m t : Machine}

inductive Effect (e : Event) (m t : Machine) : Prop
  | changed (claim : Option Nat) (records : Changed e claim m.records t.records)
      (claims : t.claims = m.claims ++ claim.toList)
      (claimable : ∀ n, claim = some n → ∃ r ∈ m.records, r.number = n ∧ r.state.claimable = true)
      (running : ∀ n, claim = some n → ∃ r ∈ t.records, r.number = n ∧ r.state = .running)
      (next : t.next = m.next) (dispatched : t.dispatched = m.dispatched)
  | admitted (r : Record) (settled : ∀ r ∈ m.records, r.state.terminal = true)
      (room : m.records.length < maxRecords) (number : r.number = m.next)
      (state : r.state = .admitted) (kept : Ledger.Records) (sub : kept.Sublist m.records)
      (records : t.records = kept ++ [r]) (claims : t.claims = m.claims)
      (next : t.next = m.next + 1)

theorem Effect.quiet (records : t.records = m.records) (claims : t.claims = m.claims)
    (next : t.next = m.next) (dispatched : t.dispatched = m.dispatched) : Effect e m t :=
  .changed none (records ▸ .refl ..) (claims.trans (List.append_nil _).symm) nofun
    nofun next dispatched

theorem Effect.records {records : Ledger.Records} {helpers : List Helper} (h : Changed e none m.records records) :
    Effect e m { m with records, helpers } :=
  .changed none h (List.append_nil _).symm nofun nofun rfl rfl

variable {now : Nat}

/-- A claim that succeeds names the record it made `Running`. -/
theorem claimed_effect {id : OperationId} {helpers : List Helper} :
    Effect e m { (m.claimed id now).2 with helpers } := by
  unfold claimed
  cases hf : Ledger.find m.records id with
  | none =>
    have : Ledger.claim m.records id now = (.error .changed, m.records) := by
      simp [Ledger.claim, Ledger.change, hf]
    rw [this]
    exact .records (.refl ..)
  | some r =>
    by_cases hc : r.state.claimable = true
    · have : Ledger.claim m.records id now = (.ok (some r),
          (Ledger.set m.records id .running now).filter
            fun v => !(v.orphaned && v.state.terminal)) := by
        simp [Ledger.claim, Ledger.change, hf, hc]
      rw [this]
      refine .changed (some r.number) ?_ rfl (fun n hn => ?_) (fun n hn => ?_) rfl rfl
      · refine (changed_set fun r' hr' => ?_).sublist List.filter_sublist
        cases hf.symm.trans hr'
        exact .claimed hc rfl
      · cases hn
        exact ⟨r, List.mem_of_find?_eq_some hf, rfl, hc⟩
      cases hn
      obtain ⟨before, after, -, -, -, hs, -⟩ := exists_split hf
      refine ⟨{ r with state := .running, updatedAt := now }, List.mem_filter.mpr ⟨?_, ?_⟩, rfl, rfl⟩
      · unfold Ledger.set
        rw [hs]
        exact List.mem_append_right _ List.mem_cons_self
      · simp [OperationState.terminal]
    · have : Ledger.claim m.records id now = (.ok none,
          m.records.filter fun v => !(v.orphaned && v.state.terminal)) := by
        simp [Ledger.claim, Ledger.change, hf, hc]
      rw [this]
      exact .records ((Changed.refl ..).sublist List.filter_sublist)

theorem outcome_terminal {state : OperationState} (h : outcome state = true) :
    state.terminal = true ∧ ∀ why, state ≠ .notPerformed why := by
  cases state <;> cases h <;> exact ⟨rfl, nofun⟩

theorem mark_outcome {id : OperationId} {state : OperationState}
    (h : outcome state = true) : Changed e claim xs (Ledger.mark xs id state now).2 :=
  changed_mark (.inr (outcome_terminal h).1) fun why hw => absurd hw ((outcome_terminal h).2 why)

theorem execute_effect {record : Record} (hst : Step m (.execute record now) t) :
    Effect (.execute record now) m t := by
  unfold Step event at hst
  simp only at hst
  split at hst
  · cases hst
    exact .quiet rfl rfl rfl rfl
  rename_i hf
  unfold Ledger.admitRecord at hst
  by_cases hb : (record.state != .admitted || record.orphaned) = true
  · rw [if_pos hb] at hst
    cases hst
    exact .quiet rfl rfl rfl rfl
  rw [if_neg hb] at hst
  have hg : record.state = .admitted ∧ record.orphaned = false := by simpa using hb
  unfold Ledger.change at hst
  simp only [hf] at hst
  by_cases hbu : m.records.any (!·.state.terminal) = true
  · simp only [hbu, if_true] at hst
    cases hst
    exact .quiet rfl rfl rfl rfl
  have hs : ∀ r ∈ m.records, r.state.terminal = true := by simpa using hbu
  by_cases hfu : m.records.length ≥ maxRecords
  · simp only [hbu, hfu, if_true] at hst
    cases hst
    exact .quiet rfl rfl rfl rfl
  simp only [hbu, hfu, if_false] at hst
  cases hst
  refine .admitted { record with number := m.next, updatedAt := now } hs
    (Nat.lt_of_not_le hfu) rfl hg.1
    (m.records.filter fun v => !(v.orphaned && v.state.terminal)) List.filter_sublist ?_
    rfl rfl
  rw [List.filter_append]
  simp [hg.2]

theorem Step.effect (hs : Step m e t) : Effect e m t := by
  cases e with
  | execute record now => exact execute_effect hs
  | starts id =>
    simp only [Step, event, Option.ite_none_right_eq_some, Option.some.injEq] at hs
    obtain ⟨-, rfl⟩ := hs
    exact .quiet rfl rfl rfl rfl
  | launchReported id ok now =>
    simp only [Step, event, Option.ite_none_right_eq_some, Option.some.injEq] at hs
    obtain ⟨-, rfl⟩ := hs
    refine .records (changed_mark ?_ fun why hw => ?_)
    · cases ok
      · exact .inr rfl
      · exact .inl rfl
    · cases ok
      · exact ⟨now, rfl⟩
      · cases hw
  | helperLocks i =>
    simp only [Step, event] at hs
    split at hs
    · split at hs <;> cases hs <;> exact .quiet rfl rfl rfl rfl
    · cases hs
  | helperClaims i now =>
    simp only [Step, event] at hs
    split at hs
    · split at hs
      all_goals
        rename_i he
        cases hs
        have := congrArg Prod.snd he
        subst this
        exact claimed_effect
    · cases hs
  | helperMarks i state now =>
    simp only [Step, event] at hs
    split at hs
    · split at hs
      · rename_i hout
        cases hs
        exact .records (mark_outcome hout)
      · cases hs
    · cases hs
  | helperExits i =>
    cases hs
    exact .quiet rfl rfl rfl rfl
  | networkClaims id now =>
    simp only [Step, event, Option.ite_none_right_eq_some, Option.some.injEq] at hs
    obtain ⟨-, rfl⟩ := hs
    exact claimed_effect
  | networkMarks id state now =>
    simp only [Step, event, Option.ite_none_right_eq_some, Option.some.injEq, Bool.and_eq_true] at hs
    obtain ⟨⟨-, hout⟩, rfl⟩ := hs
    exact .records (mark_outcome hout)
  | settles boot activation now =>
    cases hs
    exact .records changed_settle
  | acknowledges id actor =>
    cases hs
    exact .records changed_acknowledge
  | forgetsPairing pairing =>
    cases hs
    exact .records changed_forgetPairing

/-! ### The invariant -/

structure Truth (m : Machine) : Prop where
  unsettled : m.records.countP (!·.state.terminal) ≤ 1
  bounded : m.records.length ≤ maxRecords
  numbers : (m.records.map (·.number)).Nodup
  below : ∀ r ∈ m.records, r.number < m.next
  claims : m.claims.Nodup
  claimsBelow : ∀ n ∈ m.claims, n < m.next
  unclaimed : ∀ r ∈ m.records, r.state.claimable = true → r.number ∉ m.claims

theorem Truth.start : Truth {} :=
  ⟨Nat.zero_le _, Nat.zero_le _, .nil, by simp, .nil, by simp, by simp⟩

theorem eq_of_number (h : m.Truth) {r r' : Record} (hr : r ∈ m.records) (hr' : r' ∈ m.records)
    (he : r.number = r'.number) : r = r' :=
  List.inj_on_of_nodup_map h.numbers hr hr' he

theorem Truth.step (h : m.Truth) (hs : Step m e t) : t.Truth := by
  cases hs.effect with
  | changed claim records claims claimable running next =>
    refine ⟨records.unsettled_le.trans h.unsettled, records.length_le.trans h.bounded,
      h.numbers.sublist records.numbers, fun r' hr' => ?_, ?_, fun n hn => ?_, fun r' hr' hc => ?_⟩
    · obtain ⟨r, hr, hch⟩ := records.mem hr'
      rw [next, hch.number]
      exact h.below r hr
    · rw [claims]
      cases claim with
      | none => simpa using h.claims
      | some n =>
        obtain ⟨r, hr, rfl, hc⟩ := claimable n rfl
        refine h.claims.append (List.nodup_singleton _) ?_
        exact List.disjoint_singleton.mpr (h.unclaimed r hr hc)
    · rw [claims] at hn
      rw [next]
      rcases List.mem_append.mp hn with hn | hn
      · exact h.claimsBelow n hn
      · obtain ⟨r, hr, rfl, -⟩ := claimable n (Option.mem_toList.mp hn)
        exact h.below r hr
    · obtain ⟨r, hr, hch⟩ := records.mem hr'
      have hw := hch.state.claimable hc
      rw [claims, hch.number]
      intro hmem
      rcases List.mem_append.mp hmem with hmem | hmem
      · exact h.unclaimed r hr hw hmem
      -- the record that was claimed is `Running` now
      obtain ⟨r'', hr'', hnu, hru⟩ := running _ (Option.mem_toList.mp hmem)
      have hno := h.numbers.sublist records.numbers
      have := List.inj_on_of_nodup_map hno hr' hr'' (hch.number.trans hnu.symm)
      rw [this, hru] at hc
      cases hc
  | admitted r settled room number state kept sub records claims next =>
    refine ⟨?_, ?_, ?_, fun r' hr' => ?_, claims ▸ h.claims, fun n hn => ?_, fun r' hr' hc => ?_⟩
    · rw [records, List.countP_append]
      have : kept.countP (!·.state.terminal) = 0 :=
        List.countP_eq_zero.mpr fun r hr => by simp [settled r (sub.subset hr)]
      rw [this, List.countP_singleton, state]
      exact Nat.le_refl 1
    · rw [records, List.length_append, List.length_singleton]
      have := sub.length_le
      omega
    · rw [records, List.map_append, List.nodup_append]
      refine ⟨h.numbers.sublist (sub.map _), List.nodup_singleton _, fun n hn n' hn' => ?_⟩
      obtain ⟨r', hr', rfl⟩ := List.mem_map.mp hn
      have := h.below r' (sub.subset hr')
      simp only [List.map_cons, List.map_nil, List.mem_singleton] at hn'
      omega
    · rw [records] at hr'
      rw [next]
      rcases List.mem_append.mp hr' with hr' | hr'
      · exact Nat.lt_succ_of_lt (h.below r' (sub.subset hr'))
      · rw [List.mem_singleton.mp hr', number]
        exact Nat.lt_succ_self _
    · rw [next]
      rw [claims] at hn
      exact Nat.lt_succ_of_lt (h.claimsBelow n hn)
    · rw [records] at hr'
      rw [claims]
      rcases List.mem_append.mp hr' with hr' | hr'
      · exact h.unclaimed r' (sub.subset hr') hc
      intro hmem
      have := h.claimsBelow _ hmem
      rw [List.mem_singleton.mp hr', number] at this
      exact Nat.lt_irrefl _ this

theorem Truth.run {es : List Event} (hr : Run Step {} es m) : m.Truth :=
  hr.invariant .start .step

/-! ### Terminal records -/

/-- The admission `n` is over: its record is terminal or gone, and nobody claims it. -/
structure Over (n : Nat) (m : Machine) : Prop where
  below : n < m.next
  terminal : ∀ r ∈ m.records, r.number = n → r.state.terminal = true

theorem Over.step {n : Nat} (h : Over n m) (hst : Step m e t) :
    Over n t ∧ (n ∉ m.claims → n ∉ t.claims) ∧
      ∀ r' ∈ t.records, r'.number = n → ∃ r ∈ m.records, r.number = n ∧ r'.state = r.state := by
  cases hst.effect with
  | changed claim records claims claimable _ next =>
    have hf : ∀ r' ∈ t.records, r'.number = n → ∃ r ∈ m.records, r.number = n ∧ r'.state = r.state := by
      intro r' hr' hn
      obtain ⟨r, hr, hch⟩ := records.mem hr'
      have hrn := hch.number.symm.trans hn
      exact ⟨r, hr, hrn, hch.state.of_terminal (h.terminal r hr hrn)⟩
    refine ⟨⟨next ▸ h.below, fun r' hr' hn => ?_⟩, fun hn hmem => ?_, hf⟩
    · obtain ⟨r, hr, hrn, hs⟩ := hf r' hr' hn
      rw [hs]
      exact h.terminal r hr hrn
    rw [claims] at hmem
    rcases List.mem_append.mp hmem with hmem | hmem
    · exact hn hmem
    obtain ⟨r, hr, hrn, hc⟩ := claimable n (Option.mem_toList.mp hmem)
    have := h.terminal r hr hrn
    cases hs : r.state <;> rw [hs] at this hc <;> cases this <;> cases hc
  | admitted r _ _ number _ kept sub records claims next =>
    have hf : ∀ r' ∈ t.records, r'.number = n → ∃ r ∈ m.records, r.number = n ∧ r'.state = r.state := by
      intro r' hr' hn
      rw [records] at hr'
      rcases List.mem_append.mp hr' with hr' | hr'
      · exact ⟨r', sub.subset hr', hn, rfl⟩
      have := h.below
      rw [List.mem_singleton.mp hr', number] at hn
      omega
    refine ⟨⟨next ▸ Nat.lt_succ_of_lt h.below, fun r' hr' hn => ?_⟩, fun hn => claims ▸ hn, hf⟩
    obtain ⟨r, hr, hrn, hs⟩ := hf r' hr' hn
    rw [hs]
    exact h.terminal r hr hrn

theorem Over.run {n : Nat} {es : List Event} (hru : Run Step m es t) (h : Over n m) :
    Over n t ∧ (n ∉ m.claims → n ∉ t.claims) ∧
      ∀ r' ∈ t.records, r'.number = n → ∃ r ∈ m.records, r.number = n ∧ r'.state = r.state := by
  induction hru with
  | refl => exact ⟨h, id, fun r hr hn => ⟨r, hr, hn, rfl⟩⟩
  | snoc _ hl ih =>
    obtain ⟨ho, hc, hf⟩ := ih
    obtain ⟨ho', hc', hf'⟩ := ho.step hl
    refine ⟨ho', fun hn => hc' (hc hn), fun r' hr' hn => ?_⟩
    obtain ⟨r'', hr'', hn'', hs⟩ := hf' r' hr' hn
    obtain ⟨r, hr, hn, hs'⟩ := hf r'' hr'' hn''
    exact ⟨r, hr, hn, hs.trans hs'⟩

theorem Truth.over (h : m.Truth) {r : Record} (hr : r ∈ m.records)
    (ht : r.state.terminal = true) : Over r.number m :=
  ⟨h.below r hr, fun _ hr' hn => eq_of_number h hr' hr hn ▸ ht⟩

/-! ### What `NotPerformed` means -/

/-- No launch is reported as failed while the record of its operation is claimed. -/
def Accurate (m : Machine) (e : Event) : Prop :=
  ∀ r ∈ m.records, e.reportsFailure r.id → r.state ≠ .running

def AccurateStep (m : Machine) (e : Event) (t : Machine) : Prop := Step m e t ∧ Accurate m e

def NotPerformedUnclaimed (m : Machine) : Prop :=
  ∀ r ∈ m.records, ∀ why, r.state = .notPerformed why → r.number ∉ m.claims

theorem NotPerformedUnclaimed.step (h : m.NotPerformedUnclaimed) (hm : m.Truth)
    (hst : AccurateStep m e t) : t.NotPerformedUnclaimed := by
  intro r' hr' why hs
  have ho := (hm.step hst.1).over hr' (by rw [hs]; rfl)
  cases hst.1.effect with
  | changed claim records claims claimable running =>
    obtain ⟨r, hr, hc⟩ := records.mem hr'
    -- nobody claims the record in the step that makes it terminal
    have hnew : r'.number ∉ claim.toList := by
      intro hmem
      obtain ⟨r'', hr'', hn, hrun⟩ := running _ (Option.mem_toList.mp hmem)
      have := ho.terminal r'' hr'' hn
      rw [hrun] at this
      cases this
    suffices r.number ∉ m.claims by
      rw [claims, List.mem_append, not_or]
      exact ⟨hc.number ▸ this, hnew⟩
    have hch := hc.state
    rw [hs] at hch
    generalize hne : OperationState.notPerformed why = next at hch
    cases hch with
    | kept => exact h r hr why hne.symm
    | launched | claimed => cases hne
    | settled was _ because =>
      have hidle : r.state ≠ .running := fun hru =>
        hst.2 r hr (because why hne.symm hru) hru
      refine hm.unclaimed r hr ?_
      cases hr : r.state <;> rw [hr] at was hidle <;> first | rfl | exact absurd rfl hidle | cases was
  | admitted r _ _ number state kept sub records claims =>
    rw [claims]
    rw [records] at hr'
    rcases List.mem_append.mp hr' with hr' | hr'
    · exact h r' (sub.subset hr') why hs
    · rw [List.mem_singleton.mp hr', state] at hs
      cases hs

/-- In every run: one record at most is unsettled and sixteen at most are kept; a record is claimed
at most once; a terminal record keeps its state as long as it is kept; an Execute of an id that is
kept dispatches nothing and changes no record. If no launch was reported as failed while its record
was claimed, then a record that reads `NotPerformed` was not claimed and never will be. -/
theorem ledger_tells_truth {es : List Event} (hrun : Run Step {} es m) :
    m.records.countP (!·.state.terminal) ≤ 1 ∧ m.records.length ≤ maxRecords ∧ m.claims.Nodup ∧
    (∀ r ∈ m.records, r.state.terminal = true → ∀ es' t, Run Step m es' t →
      ∀ r' ∈ t.records, r'.number = r.number → r'.state = r.state) ∧
    (∀ record now t, Step m (.execute record now) t → (∃ r ∈ m.records, r.id = record.id) →
      t.dispatched = m.dispatched ∧ t.records = m.records) ∧
    (Run AccurateStep {} es m → ∀ r ∈ m.records, ∀ why, r.state = .notPerformed why →
      r.number ∉ m.claims ∧ ∀ es' t, Run Step m es' t → r.number ∉ t.claims) := by
  have h := Truth.run hrun
  refine ⟨h.unsettled, h.bounded, h.claims, fun r hr ht es' t hl r' hr' hn => ?_,
    fun record now t hste ⟨r, hr, hi⟩ => ?_, fun ha r hr why hst => ?_⟩
  · obtain ⟨-, -, hf⟩ := Over.run hl (h.over hr ht)
    obtain ⟨r'', hr'', hn'', hst⟩ := hf r' hr' hn
    rw [hst, eq_of_number h hr'' hr hn'']
  · have hs : (Ledger.find m.records record.id).isSome = true :=
      List.find?_isSome.mpr ⟨r, hr, beq_iff_eq.mpr hi⟩
    unfold Step event at hste
    simp only at hste
    split at hste
    · cases hste
      exact ⟨rfl, rfl⟩
    rename_i hnone
    rw [hnone] at hs
    cases hs
  · have hal : m.Truth ∧ m.NotPerformedUnclaimed :=
      ha.invariant (P := fun m => m.Truth ∧ m.NotPerformedUnclaimed)
        ⟨.start, by simp [NotPerformedUnclaimed]⟩
        fun h hste => ⟨h.1.step hste.1, h.2.step h.1 hste⟩
    have hu := hal.2 r hr why hst
    refine ⟨hu, fun es' t hl => ?_⟩
    exact (Over.run hl (h.over hr (by rw [hst]; rfl))).2.1 hu

/-- A Stop the account asked for. -/
def stopRecord : Record := { id := 1, actor := ⟨none, 7⟩, boot := 1, action := .stop }

/-- A launch that failed before any helper started: the record stays unclaimed. -/
theorem ledger_tells_truth_launch_failed : ∃ es m, Run Step {} es m ∧
    ∃ r ∈ m.records, r.state = .notPerformed .launchFailed ∧ ∀ es' t, Run Step m es' t → r.number ∉ t.claims := by
  have ha : AccurateStep {} (.execute stopRecord 0)
      { records := [stopRecord], next := 1, dispatched := [(0, 1)] } :=
    ⟨rfl, nofun⟩
  have hre : AccurateStep { records := [stopRecord], next := 1, dispatched := [(0, 1)] }
      (.launchReported 1 false 0)
      { records := [{ stopRecord with state := .notPerformed .launchFailed }], next := 1,
        dispatched := [(0, 1)] } := by
    refine ⟨rfl, fun r hr _ => ?_⟩
    rw [List.mem_singleton.mp hr]
    exact nofun
  have hru := Run.cons ha (Run.single hre)
  have hp : Run Step {} _ _ := hru.mono And.left
  refine ⟨_, _, hp, _, List.mem_singleton_self _, rfl, ?_⟩
  obtain ⟨-, -, -, -, -, ht⟩ := ledger_tells_truth hp
  exact (ht hru _ (List.mem_singleton_self _) _ rfl).2

/-- The helper starts, takes the lock and claims its record; then its launch is reported as failed.
The record reads `NotPerformed` while its helper performs it. -/
theorem notPerformed_after_claim : ∃ es m, Run Step {} es m ∧
    ∃ r ∈ m.records, r.state = .notPerformed .launchFailed ∧ r.number ∈ m.claims ∧
      m.helpers = [⟨r.id, .performing⟩] := by
  refine ⟨[.execute stopRecord 0, .starts 1, .helperLocks 0, .helperClaims 0 0,
    .launchReported 1 false 0], _, Run.of_foldlM (f := event) rfl, ?_⟩
  exact ⟨_, List.mem_singleton_self _, rfl, List.mem_singleton_self _, rfl⟩

end Machine

end SpaceTerm.Service
