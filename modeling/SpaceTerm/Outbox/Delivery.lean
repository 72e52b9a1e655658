import SpaceTerm.Outbox.Invariant

/-! # The last event of a channel

`Outbox::end` keeps a channel's last event in its slot while a screen of the channel waits or a frame
is in flight. The event leaves the slot with the final screen or with the acknowledgement, so it is
delivered as long as one of them is still to come: `KeepsEnd` excludes the one step after which none
is, an encode that gives nothing while the event alone waits for it. -/

namespace SpaceTerm.Outbox
open Wire Lib

variable {P : Payloads} {C : Postcard P} {c : Channel}

/-- The event is no encode that gives nothing and leaves a last event with nothing to wait for. -/
def Connection.KeepsEnd (s : Connection P) (e : Event P) : Prop :=
  ∀ ticket p k, e = .encoded none → s.encoding = some (ticket, p, none) →
    s.credits ticket.channel = some k → k.sent = some ticket.frame → k.ending.isSome →
    k.pending.isSome

/-- The encode of a screen of the channel, or the acknowledgement of a frame, is over. -/
def Happening.settles (c : Channel) : Happening P → Bool
  | .acknowledged d _ => d == c
  | .wrote ticket _ | .equalled ticket _ | .failed ticket _ => ticket.channel == c
  | .presented _ _ | .hidden _ | .keyframe _ | .took _ _ => false

/-- How many encodes and acknowledgements of the channel are over. -/
def Connection.settled (s : Connection P) (c : Channel) : Nat := s.log.countP (·.settles c)

/-- How many the last event of the channel waits for at most. -/
def Connection.remaining (s : Connection P) (c : Channel) (k : Credit P) : Nat :=
  k.pending.isSome.toNat + k.sent.isSome.toNat + (s.encoding.any (·.1.channel == c)).toNat

/-- The last event is in L1, or the final screen of its channel is being encoded. -/
def Connection.Emits (s t : Connection P) (c : Channel) (frames : Frames P) : Prop :=
  t.state.l1 = s.state.l1 ++ [.message frames none] ∨
    ∃ ticket p, t.encoding = some (ticket, p, some frames) ∧ ticket.channel = c

def Connection.Released (s t : Connection P) (e : Event P) (c : Channel) : Prop :=
  e = .close c ∨ (∃ encoded, e = .encodedSemantics (some encoded)) ∨
    ∃ ticket p, ticket.channel = c ∧ t.log = s.log ++ [.failed ticket p]

theorem Change.endsOk {k k' : Credit P} {log : List (Happening P)} {entries : List (Entry P)}
    (h : Change c k (some k') log entries)
    (hk : k.ending.isSome → k.pending.isSome ∨ k.sent.isSome) (hend : k'.ending.isSome) :
    k'.pending.isSome ∨ k'.sent.isSome := by
  cases h with
  | endLater frames _ hleft => exact hleft
  | shown | keyframe => exact hk hend
  | hidden hleft =>
    rcases hleft with hsent | hnone
    · exact .inr hsent
    · simp [hnone] at hend
  | presented | presentedQueue => exact .inl rfl
  | acknowledged n _ hwait =>
    rcases hwait with ⟨hpending, _⟩ | ⟨_, hnone⟩
    · exact .inl hpending
    · simp [hnone] at hend
  | acknowledgedQueue n _ hpending => exact .inl hpending

theorem FrameTurn.endsOk {k k' : Credit P} {taken : Taken P} (h : FrameTurn c k taken (some k'))
    (hk : k.ending.isSome → k.pending.isSome ∨ k.sent.isSome) (hend : k'.ending.isSome) :
    k'.pending.isSome ∨ k'.sent.isSome := by
  cases h with
  | skipped => exact hk hend
  | took => exact .inr rfl

theorem happened_eq_equalled {ticket : FrameTicket} {p : P.Presentation} {presented : Option (Presented P)}
    (h : .equalled ticket p = happened ticket p (encodeFrame C ticket presented)) :
    presented = none := by
  cases presented with
  | none => rfl
  | some presented =>
    unfold encodeFrame happened at h
    dsimp only [Option.map_some] at h
    cases he : encode C (ticket.message presented) <;> rw [he] at h <;> cases h

namespace Connection

variable {s t : Connection P} {e : Event P}

def KeepingStep (C : Postcard P) (s : Connection P) (e : Event P) (t : Connection P) : Prop :=
  Step C s e t ∧ s.KeepsEnd e

/-- A stored last event waits for a screen or for a frame. -/
def EndsOk (s : Connection P) : Prop :=
  ∀ c k, s.credits c = some k → k.ending.isSome → k.pending.isSome ∨ k.sent.isSome

/-! ### What is stored waits for something -/

theorem EndsOk.of_touch {k' : Option (Credit P)} {entries : List (Entry P)} (h : s.EndsOk)
    (touch : Touch s.state t.state c k' entries)
    (ho : ∀ k, k' = some k → k.ending.isSome → k.pending.isSome ∨ k.sent.isSome) : t.EndsOk :=
  forall_update touch.credits (fun d _ k hk => h d k hk) ho

theorem EndsOk.of_same (h : s.EndsOk) (hs : Same s.state t.state) : t.EndsOk := by
  intro c k hk
  exact h c k (by rw [← hk]; exact congrFun hs.credits.symm c)

theorem EndsOk.step (h : s.EndsOk) (he : Effect C s t e) (hke : s.KeepsEnd e) : t.EndsOk := by
  cases he with
  | same hs => exact h.of_same hs
  | opened _ _ touch =>
    refine h.of_touch touch fun k hk hend => ?_
    cases hk
    cases hend
  | forgot _ touch => exact h.of_touch touch nofun
  | change was hc touch =>
    refine h.of_touch touch fun k hk hend => ?_
    subst hk
    exact hc.endsOk (h _ _ was) hend
  | turn _ was ht credits =>
    refine forall_update credits (fun d _ k hk => h d k hk) fun k hk hend => ?_
    subst hk
    exact ht.endsOk (h _ _ was) hend
  | finished event was hf =>
    cases hf with
    | wrote hs | equalled hs | failedLast hs => exact h.of_same hs
    | failed _ touch => exact h.of_touch touch nofun
    | unsent k hnone was' hsent _ touch =>
      obtain ⟨presented, rfl, heq⟩ := event
      obtain rfl := happened_eq_equalled heq
      subst hnone
      refine h.of_touch touch fun k' hk hend => ?_
      cases hk
      exact .inl (hke _ _ k rfl was was' hsent hend)
    | unsentQueue k _ _ _ hpending _ touch =>
      refine h.of_touch touch fun k' hk _ => ?_
      cases hk
      exact .inl hpending

/-! ### Each step moves it on -/

/-- The last event stays stored, and the step used up what it settled. -/
def Stores (s t : Connection P) (c : Channel) (k : Credit P) (frames : Frames P) : Prop :=
  ∃ k', t.credits c = some k' ∧ k'.ending = some frames ∧
    t.remaining c k' + t.settled c ≤ s.remaining c k + s.settled c

section Progress

variable {k : Credit P} {frames : Frames P} {d : Channel}

variable {happened : List (Happening P)}

theorem settled_append (hl : t.log = s.log ++ happened) :
    t.settled c = s.settled c + happened.countP (·.settles c) := by
  simp [settled, hl, List.countP_append]

theorem not_settles_of_channel {happening : Happening P} (h : happening.channel ≠ c) :
    happening.settles c = false := by
  cases happening <;> simp_all [Happening.settles, Happening.channel]

theorem Stores.other (hk : s.credits c = some k) (hend : k.ending = some frames) (hc : t.credits c = s.credits c)
    (hl : t.log = s.log ++ happened)
    (hother : ∀ happening ∈ happened, happening.channel ≠ c)
    (he : t.encoding.any (·.1.channel == c) = s.encoding.any (·.1.channel == c)) :
    Stores s t c k frames := by
  refine ⟨k, hc.trans hk, hend, ?_⟩
  have hz : happened.countP (·.settles c) = 0 :=
    List.countP_eq_zero.mpr fun x hx => by simp [not_settles_of_channel (hother x hx)]
  simp only [remaining, he, settled_append hl, hz]
  exact le_rfl

theorem Stores.change {k' : Option (Credit P)} {entries : List (Entry P)} (hend : k.ending = some frames)
    (h : Change c k k' happened entries) (touch : Touch s.state t.state c k' entries)
    (hlo : t.log = s.log ++ happened) (he : t.encoding = s.encoding)
    (ho : t.state.closing = false) : Stores s t c k frames ∨ s.Emits t c frames := by
  have hcr := credits_own touch.credits
  have hp : t.state.l1 = s.state.l1 ++ entries := by
    rcases touch.pushed.l1 with ⟨hc, _⟩ | ⟨_, hl1⟩
    · simp [ho] at hc
    · exact hl1
  have hst : ∀ k₁, k' = some k₁ → k₁.ending = k.ending →
      k₁.pending.isSome.toNat + k₁.sent.isSome.toNat + happened.countP (·.settles c) ≤
        k.pending.isSome.toNat + k.sent.isSome.toNat → Stores s t c k frames := by
    rintro k₁ rfl hs hle
    refine ⟨k₁, hcr, hs.trans hend, ?_⟩
    simp only [remaining, he, settled_append hlo]
    omega
  cases h with
  | endNow _ hnone | endLater _ hnone | presented _ _ hnone | presentedQueue _ _ hnone =>
    rw [hend] at hnone
    cases hnone
  | shown | keyframe | hidden => exact .inl (hst _ rfl rfl (by simp [Happening.settles]))
  | hiddenEnd frames' hend' | acknowledgedEnd _ frames' _ _ hend' =>
    obtain rfl := Option.mem_unique hend hend'
    exact .inr (.inl hp)
  | acknowledged n hsent | acknowledgedQueue n hsent =>
    exact .inl (hst _ rfl rfl (by simp [Happening.settles, hsent]))

theorem Stores.finished {ticket : FrameTicket} {p : P.Presentation} {ending : Option (Frames P)}
    {happening : Happening P} (hk : s.credits ticket.channel = some k)
    (hend : k.ending = some frames) (was : s.encoding = some (ticket, p, ending))
    (h : Finish s.state t.state ticket p ending happening) (hlo : t.log = s.log ++ [happening])
    (he : t.encoding = none) :
    Stores s t ticket.channel k frames ∨ t.log = s.log ++ [.failed ticket p] := by
  have ho : [happening].countP (·.settles ticket.channel) ≤ 1 := List.countP_le_length
  have hst : ∀ k', t.credits ticket.channel = some k' → k'.ending = k.ending →
      k'.pending = k.pending → k'.sent = k.sent ∨ k'.sent = none →
      Stores s t ticket.channel k frames := by
    intro k' hk' hs hpending hsent
    refine ⟨k', hk', hs.trans hend, ?_⟩
    have hl : k'.sent.isSome.toNat ≤ k.sent.isSome.toNat := by
      rcases hsent with hsent | hsent <;> simp [hsent]
    have hw : (s.encoding.any (·.1.channel == ticket.channel)).toNat = 1 := by simp [was]
    have hidle : (t.encoding.any (·.1.channel == ticket.channel)).toNat = 0 := by simp [he]
    simp only [remaining, settled_append hlo, hpending, hw, hidle]
    omega
  have hs : t.credits = s.credits → Stores s t ticket.channel k frames := fun hc =>
    hst k ((congrFun hc _).trans hk) rfl rfl (.inl rfl)
  cases h with
  | wrote h | equalled h | failedLast h => exact .inl (hs h.credits)
  | failed => exact .inr hlo
  | unsent k₀ _ was' _ _ touch | unsentQueue k₀ _ was' _ _ _ touch =>
    obtain rfl := Option.mem_unique hk was'
    exact .inl (hst _ (credits_own touch.credits) rfl rfl (.inr rfl))

theorem stores_or_emits (he : Effect C s t e) (hk : s.credits c = some k)
    (hend : k.ending = some frames) (ho : t.state.closing = false) :
    Stores s t c k frames ∨ s.Emits t c frames ∨ s.Released t e c := by
  have hse : t.log = s.log → t.log = s.log ++ [] := fun h => by simp [h]
  have hnone : t.encoding = s.encoding →
      t.encoding.any (·.1.channel == c) = s.encoding.any (·.1.channel == c) := fun h => by rw [h]
  cases he with
  | same hs log encoding =>
    exact .inl (.other hk hend (congrFun hs.credits c) (hse log) (by simp) (hnone encoding))
  | @opened d _ was touch log encoding =>
    have hd : c ≠ d := by
      rintro rfl
      rw [hk] at was
      cases was
    exact .inl (.other hk hend (credits_other touch.credits hd) (hse log) (by simp)
      (hnone encoding))
  | @forgot d event touch log encoding =>
    by_cases hd : c = d
    · subst hd
      exact .inr (.inr (event.imp_right .inl))
    · exact .inl (.other hk hend (credits_other touch.credits hd) (hse log) (by simp)
        (hnone encoding))
  | @change d k₀ k' happened entries was hc touch log encoding =>
    by_cases hd : c = d
    · subst hd
      obtain rfl := Option.mem_unique hk was
      exact (Stores.change hend hc touch log encoding ho).imp_right .inl
    refine .inl (.other hk hend (credits_other touch.credits hd) log (fun x hx => ?_)
      (hnone encoding))
    rw [hc.channel x hx]
    exact fun h => hd h.symm
  | @turn d k₀ k' taken idle was ht credits _ _ log encoding =>
    by_cases hd : c = d
    · subst hd
      obtain rfl := Option.mem_unique hk was
      cases ht with
      | skipped =>
        refine .inl ⟨_, credits_own credits, hend, ?_⟩
        simp only [remaining, encoding, idle, settled_append log, Taken.noted, Taken.encoding, List.countP_nil]
        omega
      | took p _ _ _ hnone =>
        rw [hend] at hnone
        cases hnone
      | tookLast p frames' _ _ _ hend' =>
        obtain rfl := Option.mem_unique hend hend'
        exact .inr (.inl (.inr ⟨_, p, encoding, rfl⟩))
    · refine .inl (.other hk hend (credits_other credits hd) log (fun x hx => ?_) ?_)
      · cases ht with
        | skipped => cases hx
        | took | tookLast =>
          obtain rfl := List.mem_singleton.mp hx
          exact fun h => hd h.symm
      rw [idle, encoding]
      cases ht with
      | skipped => rfl
      | took | tookLast =>
        simp only [Taken.encoding, Option.any_some, Option.any_none, beq_eq_false_iff_ne]
        exact fun h => hd h.symm
  | @finished ticket p ending happening _ was hf log encoding =>
    by_cases hd : c = ticket.channel
    · subst hd
      rcases Stores.finished hk hend was hf log encoding with h | h
      · exact .inl h
      · exact .inr (.inr (.inr (.inr ⟨ticket, p, rfl, h⟩)))
    refine .inl (.other hk hend (hf.credits_other hd) log (fun x hx => ?_) ?_)
    · obtain rfl := List.mem_singleton.mp hx
      rcases hf.happening with rfl | rfl | rfl <;> exact fun h => hd h.symm
    · simp only [encoding, was, Option.any_none, Option.any_some]
      exact (beq_eq_false_iff_ne.mpr fun h => hd h.symm).symm

theorem finishFrame_ending (state : State P) (ticket : FrameTicket) (frames : Frames P)
    (encoded : Option (Except OutboxError (Frames P))) :
    ∃ before, finishFrame C state ticket (some frames) encoded = (before ++ frames, state) := by
  rcases encoded with _ | _ | screen
  · exact ⟨[], rfl⟩
  · exact ⟨[], rfl⟩
  · exact ⟨screen, rfl⟩

end Progress

/-! ### Every run -/

theorem EndsOk.run {es : List (Event P)} (hr : Run (KeepingStep C) {} es s) : s.EndsOk := by
  refine hr.invariant (fun c k hk => ?_) fun h hs => h.step hs.1.effect hs.2
  simp [credits, State.credits] at hk

/-- In every run without a stranding encode: a stored last event waits for a queued screen, for an
encode or for an acknowledgement; each step keeps it and uses up what it settled, or puts it in L1 or
after the final frame, unless the channel is released or fails; and what is after the final frame is
handed out with it. -/
theorem stored_end_delivered {es : List (Event P)} (hrun : Run (KeepingStep C) {} es s) :
    (∀ c k frames, s.state.closing = false → s.credits c = some k → k.ending = some frames →
      s.Awaits c k ∧ ∀ e t, KeepingStep C s e t → t.state.closing = false →
        Stores s t c k frames ∨ s.Emits t c frames ∨ s.Released t e c) ∧
    ∀ ticket p frames presented t, s.encoding = some (ticket, p, some frames) →
      Step C s (.encoded presented) t → ∃ before, t.state = (handOut s.state (before ++ frames)).2 ∧
        t.sent = s.sent ++ (handOut s.state (before ++ frames)).1.toList.map (·, .l1) := by
  have hi : s.Inv := Inv.run (hrun.mono fun h => h.1)
  refine ⟨fun c k frames ho hk hend => ⟨?_, fun e t hs ho' => ?_⟩, fun ticket p frames presented t he hs => ?_⟩
  · exact hi.awaits ho hk (EndsOk.run hrun c k hk (by simp [hend]))
  · exact stores_or_emits hs.1.effect hk hend ho'
  have hwork : s.work = some (.present ticket p (some frames)) := by
    unfold encoding at he
    split at he
    · rename_i heq
      simp only [Option.some.injEq, Prod.mk.injEq] at he
      rw [heq, he.1, he.2.1, he.2.2]
    · cases he
  obtain ⟨before, hb⟩ := finishFrame_ending (C := C) s.state ticket frames
    (encodeFrame C ticket presented)
  simp only [Step, event, hwork, hb, Option.some.injEq] at hs
  subst hs
  exact ⟨before, rfl, rfl⟩

def endsEncoding : List (Event plain) :=
  [.openChannel 1, .present 1 (), .take .l2, .encoded (some ⟨0, ()⟩), .acknowledge 1 1,
    .present 1 (), .take .l2, .endChannel 1 ()]

theorem run_keeping {P : Payloads} {C : Postcard P} {s t : Connection P} {es : List (Event P)}
    (h : Run (Step C) s es t) (hes : .encoded none ∉ es) : Run (KeepingStep C) s es t := by
  induction h with
  | refl => exact .refl _
  | @snoc t u es e hr hs ih =>
    rw [List.mem_append, not_or] at hes
    refine (ih hes.1).snoc ⟨hs, fun _ _ _ he => ?_⟩
    exact absurd (List.mem_singleton.mpr he.symm) hes.2

theorem stored_end_delivered_second : ∃ es s k frames, Run (KeepingStep plainCard) {} es s ∧
    s.credits 1 = some k ∧ k.ending = some frames ∧ s.Awaits 1 k := by
  have hr : (endsEncoding.foldlM (event plainCard) {}).map (fun s : Connection plain =>
      (s.state.closing, (s.credits 1).map fun k : Credit plain => k.ending.isSome)) =
      some (false, some true) := by
    decide +kernel
  obtain ⟨s, hs, he⟩ := Option.map_eq_some_iff.mp hr
  simp only [Prod.mk.injEq, Option.map_eq_some_iff, Option.isSome_iff_exists] at he
  obtain ⟨ho, k, hk, frames, hend⟩ := he
  have hke : Run (KeepingStep plainCard) {} _ s :=
    run_keeping (Run.of_foldlM hs) (by simp [endsEncoding])
  exact ⟨_, s, k, frames, hke, hk, hend, ((stored_end_delivered hke).1 1 k frames ho hk hend).1⟩

/-- `end` arrives while the second screen is being encoded, and the encode finds it equal to its base.
The last event stays in the slot: nothing is queued, encoded or in flight, the I/O thread has nothing
to take and an acknowledgement is a violation. -/
theorem end_stranded_by_equal_screen : ∃ es s k, Run (Step plainCard) {} es s ∧
    s.state.closing = false ∧ s.credits 1 = some k ∧ k.ending.isSome ∧ k.sent = none ∧
    k.pending = none ∧ s.state.l1 = [] ∧ s.encoding = none ∧ (s.state.take .l2).1.isNone ∧
    ∀ n, (acknowledge plainCard s.state 1 n).1 = .error .violation := by
  have hr : ((endsEncoding ++ [Event.encoded none]).foldlM (event plainCard)
      {}).map (fun s : Connection plain => ((s.state.closing, s.state.l1.isEmpty, s.encoding.isNone,
        (s.state.take .l2).1.isNone), (s.state.channels[1]?).map fun slot : Slot plain =>
          (slot.ending.isSome, slot.inFlight.isNone, slot.pending.isNone))) =
      some ((false, true, true, true), some (true, true, true)) := by
    decide +kernel
  obtain ⟨s, hs, heq⟩ := Option.map_eq_some_iff.mp hr
  simp only [Prod.mk.injEq, Option.map_eq_some_iff, List.isEmpty_iff, Option.isNone_iff_eq_none] at heq
  obtain ⟨⟨ho, hl1, he, ht⟩, slot, hsl, hend, hflight, hpending⟩ := heq
  have hsent : slot.sent = none := Slot.sent_eq_none.mpr hflight
  refine ⟨_, s, slot.credit, Run.of_foldlM hs, ho, State.credits_of_get hsl, hend, hsent,
    hpending, hl1, he, by simp [ht], fun n => ?_⟩
  simp [acknowledge, hsl, hsent]

end Connection

end SpaceTerm.Outbox
