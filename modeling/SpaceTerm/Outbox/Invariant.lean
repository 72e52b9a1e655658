import SpaceTerm.Outbox.Effect

/-! # What every reachable connection keeps

A pending screen is queued in L1 or waits for credit (`Credit.Ok`), a queued flag has its entry in L1,
and a frame in flight is being encoded or was written (`Connection.Inv`). -/

namespace SpaceTerm.Outbox
open Wire Lib

variable {P : Payloads} {C : Postcard P} {c : Channel}

def Happening.channel : Happening P → Channel
  | presented c _ | hidden c | keyframe c | acknowledged c _ => c
  | took ticket _ | wrote ticket _ | equalled ticket _ | failed ticket _ => ticket.channel

structure Credit.Ok (k : Credit P) : Prop where
  hidden : k.visible = false → k.pending = none
  queued : k.queued = true → k.sent = none
  waits : k.pending.isSome → k.queued = true ∨ k.sent.isSome

/-! ### The flags of one credit -/

section Flags

variable {k k' : Credit P} {log : List (Happening P)} {entries : List (Entry P)}

theorem Credit.ok_fresh : (Credit.fresh : Credit P).Ok := ⟨nofun, nofun, nofun⟩

theorem Change.ok (h : Change c k (some k') log entries) (hk : k.Ok) : k'.Ok := by
  cases h with
  | endLater => exact ⟨hk.hidden, hk.queued, hk.waits⟩
  | shown => exact ⟨nofun, hk.queued, hk.waits⟩
  | hidden => exact ⟨fun _ => rfl, hk.queued, nofun⟩
  | presented p hvisible hend hwait =>
    exact ⟨fun h => absurd (hvisible.symm.trans h) (by simp), hk.queued, fun _ => hwait⟩
  | presentedQueue p hvisible hend hqueued hsent =>
    exact ⟨fun h => absurd (hvisible.symm.trans h) (by simp), fun _ => hsent, fun _ => .inl rfl⟩
  | keyframe => exact ⟨hk.hidden, hk.queued, hk.waits⟩
  | acknowledged n hsent hwait =>
    refine ⟨hk.hidden, fun _ => rfl, fun hpending => ?_⟩
    rcases hwait with ⟨_, hqueued⟩ | ⟨hnone, _⟩
    · exact .inl hqueued
    · simp [hnone] at hpending
  | acknowledgedQueue => exact ⟨hk.hidden, fun _ => rfl, fun _ => .inl rfl⟩

theorem Change.listed (h : Change c k (some k') log entries) (hq : k'.queued = true) :
    k.queued = true ∨ .frame c ∈ entries := by
  cases h with
  | presentedQueue | acknowledgedQueue => exact .inr (List.mem_singleton_self _)
  | endLater | shown | hidden | presented | keyframe | acknowledged => exact .inl hq

theorem Change.next (h : Change c k (some k') log entries) : k'.next = k.next := by
  cases h <;> rfl

variable {x : Option (Credit P)}

theorem Change.channel (h : Change c k x log entries) : ∀ happening ∈ log, happening.channel = c := by
  cases h <;> simp [Happening.channel]

theorem Change.not_wrote (h : Change c k x log entries)
    (ticket : FrameTicket) (p : P.Presentation) : .wrote ticket p ∉ log := by
  cases h <;> simp

theorem Change.sent (h : Change c k x log entries) :
    (∀ n, .acknowledged c n ∉ log) ∧ (∀ k', x = some k' → k'.sent = k.sent) ∨
      ∃ n, k.sent = some n ∧ log = [.acknowledged c n] ∧ ∀ k', x = some k' → k'.sent = none := by
  cases h with
  | acknowledged n hsent | acknowledgedQueue n hsent =>
    exact .inr ⟨n, hsent, rfl, fun _ h => by obtain rfl := Option.some.inj h; rfl⟩
  | acknowledgedEnd n _ hsent => exact .inr ⟨n, hsent, rfl, nofun⟩
  | endNow | hiddenEnd => exact .inl ⟨by simp, nofun⟩
  | endLater | shown | hidden | presented | presentedQueue | keyframe =>
    exact .inl ⟨by simp, fun _ h => by obtain rfl := Option.some.inj h; rfl⟩

theorem FrameTurn.ok {taken : Taken P} (h : FrameTurn c k taken (some k')) (hk : k.Ok) : k'.Ok := by
  cases h with
  | skipped h =>
    refine ⟨hk.hidden, nofun, fun hpending => .inr ?_⟩
    rcases h with h | h | h
    · simp [hk.hidden h] at hpending
    · exact h
    · simp [h] at hpending
  | took => exact ⟨fun _ => rfl, nofun, nofun⟩

theorem FrameTurn.queued {taken : Taken P} (h : FrameTurn c k taken (some k')) : k'.queued = false := by
  cases h <;> rfl

theorem Credit.Ok.unsent (hk : k.Ok) (hwait : k.pending = none ∨ k.queued = true) (b : Bool) :
    Credit.Ok { k with sent := none, keyframe := b } := by
  refine ⟨hk.hidden, fun _ => rfl, fun hpending => ?_⟩
  rcases hwait with h | h
  · simp [h] at hpending
  · exact .inl h

theorem Credit.Ok.unsentQueue (hk : k.Ok) (b : Bool) :
    Credit.Ok { k with sent := none, keyframe := b, queued := true } :=
  ⟨hk.hidden, fun _ => rfl, fun _ => .inl rfl⟩

theorem Finish.happening {ticket : FrameTicket} {p : P.Presentation} {ending : Option (Frames P)} {a b : State P}
    {x : Happening P} (h : Finish a b ticket p ending x) :
    x = .wrote ticket p ∨ x = .equalled ticket p ∨ x = .failed ticket p := by
  cases h <;> simp

theorem Finish.credits_other {ticket : FrameTicket} {p : P.Presentation}
    {ending : Option (Frames P)} {a b : State P} {x : Happening P} {d : Channel}
    (h : Finish a b ticket p ending x) (hd : d ≠ ticket.channel) : b.credits d = a.credits d := by
  cases h with
  | wrote h | equalled h | failedLast h => exact congrFun h.credits d
  | unsent _ _ _ _ _ touch | unsentQueue _ _ _ _ _ _ touch => rw [touch.credits, Function.update_of_ne hd]
  | failed _ touch => rw [touch.credits, Function.update_of_ne hd]

end Flags

theorem forall_update {Q : Channel → Credit P → Prop} {f g : Channel → Option (Credit P)}
    {x : Option (Credit P)} (h : g = Function.update f c x)
    (hother : ∀ d, d ≠ c → ∀ k, f d = some k → Q d k) (ho : ∀ k, x = some k → Q c k) :
    ∀ d k, g d = some k → Q d k := by
  intro d k hk
  rw [h] at hk
  by_cases hd : d = c
  · subst hd
    rw [Function.update_self] at hk
    exact ho k hk
  · rw [Function.update_of_ne hd] at hk
    exact hother d hd k hk

theorem Pushed.mem {s t : State P} {entries : List (Entry P)} (h : Pushed s t entries)
    {entry : Entry P} (hmem : entry ∈ s.l1 ∨ s.closing = true ∨ entry ∈ entries) :
    entry ∈ t.l1 ∨ t.closing = true := by
  rcases h.l1 with ⟨hc, _⟩ | ⟨_, hl1⟩
  · exact .inr hc
  rcases hmem with hmem | hmem | hmem
  · exact .inl (by rw [hl1]; exact List.mem_append_left _ hmem)
  · exact .inr (h.closing hmem)
  · exact .inl (by rw [hl1]; exact List.mem_append_right _ hmem)

namespace Connection

variable {s t : Connection P} {e : Event P}

def Encodes (s : Connection P) (c : Channel) (n : Nat) : Prop :=
  ∃ ticket p, s.encoding = some (ticket, p, none) ∧ ticket.channel = c ∧ ticket.frame = n

/-- Frame `n` of the channel was handed out for writing. -/
def Wrote (s : Connection P) (c : Channel) (n : Nat) : Prop :=
  ∃ ticket p, .wrote ticket p ∈ s.log ∧ ticket.channel = c ∧ ticket.frame = n

/-- A screen of the channel is being encoded as frame `n`, the last one of an ending channel
included. -/
def Takes (s : Connection P) (c : Channel) (n : Nat) : Prop :=
  ∃ ticket p ending, s.encoding = some (ticket, p, ending) ∧ ticket.channel = c ∧ ticket.frame = n

def Acked (s : Connection P) (c : Channel) (n : Nat) : Prop := .acknowledged c n ∈ s.log

/-- Frame `n` is written or about to be, and not acknowledged. -/
def Outstanding (s : Connection P) (c : Channel) (n : Nat) : Prop :=
  (s.Wrote c n ∨ s.Takes c n) ∧ ¬s.Acked c n

theorem Encodes.takes {n : Nat} (h : s.Encodes c n) : s.Takes c n := by
  obtain ⟨ticket, p, h⟩ := h
  exact ⟨ticket, p, none, h⟩

variable {happened : List (Happening P)}

theorem Wrote.mono {n : Nat} (h : s.Wrote c n) (hl : t.log = s.log ++ happened) : t.Wrote c n := by
  obtain ⟨ticket, p, hmem, hc⟩ := h
  exact ⟨ticket, p, by rw [hl]; exact List.mem_append_left _ hmem, hc⟩

theorem Effect.log (h : Effect C s t e) : ∃ happened, t.log = s.log ++ happened := by
  cases h with
  | same _ log | opened _ _ _ log | forgot _ _ log => exact ⟨[], by simp [log]⟩
  | change _ _ _ log | turn _ _ _ _ _ _ log | finished _ _ _ log => exact ⟨_, log⟩

/-! ### Flags -/

def FlagsOk (s : Connection P) : Prop :=
  ∀ c k, s.credits c = some k → k.Ok ∧ (k.queued = true → .frame c ∈ s.state.l1 ∨ s.state.closing = true)

theorem FlagsOk.of_same (h : s.FlagsOk) (hs : Same s.state t.state) : t.FlagsOk := by
  intro c k hk
  have hk' : s.credits c = some k := by rw [← hk]; exact congrFun hs.credits.symm c
  obtain ⟨ho, hl⟩ := h c k hk'
  refine ⟨ho, fun hq => (hl hq).imp (hs.queued c (by simp [hk'])) hs.closing⟩

theorem FlagsOk.of_touch {k' : Option (Credit P)} {entries : List (Entry P)} (h : s.FlagsOk)
    (touch : Touch s.state t.state c k' entries)
    (hown : ∀ k, k' = some k → k.Ok ∧ (k.queued = true →
      .frame c ∈ s.state.l1 ∨ s.state.closing = true ∨ .frame c ∈ entries)) : t.FlagsOk := by
  refine forall_update touch.credits (fun d hd k hk => ?_) fun k hk => ?_
  · obtain ⟨ho, hl⟩ := h d k hk
    exact ⟨ho, fun hq => touch.pushed.mem ((hl hq).imp_right .inl)⟩
  · obtain ⟨ho, hl⟩ := hown k hk
    exact ⟨ho, fun hq => touch.pushed.mem (hl hq)⟩

theorem FlagsOk.step (h : s.FlagsOk) (he : Effect C s t e) : t.FlagsOk := by
  cases he with
  | same hs => exact h.of_same hs
  | opened new was touch =>
    refine h.of_touch touch fun k hk => ?_
    cases hk
    exact ⟨Credit.ok_fresh, nofun⟩
  | forgot _ touch => exact h.of_touch touch nofun
  | change was hc touch =>
    refine h.of_touch touch fun k hk => ?_
    subst hk
    obtain ⟨ho, hl⟩ := h _ _ was
    refine ⟨hc.ok ho, fun hq => ?_⟩
    rcases hc.listed hq with hq | hmem
    · exact (hl hq).imp_right .inl
    · exact .inr (.inr hmem)
  | @turn c k k' taken idle was ht credits l1 closing =>
    refine forall_update credits (fun d hd k hk => ?_) fun k hk => ?_
    · obtain ⟨ho, hl⟩ := h d k hk
      refine ⟨ho, fun hq => ?_⟩
      rcases hl hq with hmem | hcl
      · rw [l1] at hmem
        exact .inl ((List.mem_cons.mp hmem).resolve_left fun heq => hd (by simpa using heq))
      · exact .inr (closing.trans hcl)
    · subst hk
      exact ⟨ht.ok (h _ _ was).1, fun hq => absurd (ht.queued.symm.trans hq) (by simp)⟩
  | finished _ _ hf =>
    cases hf with
    | wrote hs | equalled hs | failedLast hs => exact h.of_same hs
    | failed _ touch => exact h.of_touch touch nofun
    | unsent k _ was _ hwait touch =>
      refine h.of_touch touch fun k' hk => ?_
      cases hk
      obtain ⟨ho, hl⟩ := h _ _ was
      exact ⟨ho.unsent hwait _, fun hq => (hl hq).imp_right .inl⟩
    | unsentQueue k _ was _ _ _ touch =>
      refine h.of_touch touch fun k' hk => ?_
      cases hk
      exact ⟨(h _ _ was).1.unsentQueue _, fun _ => .inr (.inr (List.mem_singleton_self _))⟩

/-! ### Frame numbers -/

/-- The credit `k` of channel `c` against what was written, is being encoded and was acknowledged. -/
structure CreditOk (s : Connection P) (c : Channel) (k : Credit P) : Prop where
  below : ∀ n, s.Wrote c n ∨ s.Takes c n ∨ s.Acked c n → n < k.next
  outstanding : ∀ n, s.Outstanding c n → k.sent = some n
  sent : ∀ n, k.sent = some n → (s.Encodes c n ∨ s.Wrote c n) ∧ ¬s.Acked c n

structure ChannelOk (s : Connection P) (c : Channel) : Prop where
  /-- Nothing happened yet on a channel that was not opened. -/
  new : c ∉ s.opened → s.credits c = none ∧ ∀ n, ¬s.Wrote c n ∧ ¬s.Takes c n ∧ ¬s.Acked c n
  increasing : ∀ m n, s.Wrote c m → s.Takes c n → m < n
  single : ∀ m n, s.Outstanding c m → s.Outstanding c n → m = n
  credit : ∀ k, s.credits c = some k → s.CreditOk c k

structure Agree (s t : Connection P) (c : Channel) : Prop where
  wrote : ∀ n, t.Wrote c n ↔ s.Wrote c n
  takes : ∀ n, t.Takes c n ↔ s.Takes c n
  encodes : ∀ n, t.Encodes c n ↔ s.Encodes c n
  acked : ∀ n, t.Acked c n ↔ s.Acked c n

theorem Agree.outstanding (h : Agree s t c) (n : Nat) : t.Outstanding c n ↔ s.Outstanding c n := by
  simp only [Outstanding, h.wrote, h.takes, h.acked]

theorem CreditOk.of_agree {k k' : Credit P} (h : s.CreditOk c k) (ha : Agree s t c)
    (hne : k'.next = k.next) (hsent : k'.sent = k.sent) : t.CreditOk c k' where
  below n hn := by
    rw [ha.wrote, ha.takes, ha.acked] at hn
    rw [hne]
    exact h.below n hn
  outstanding n hn := hsent.trans (h.outstanding n ((ha.outstanding n).mp hn))
  sent n hn := by
    rw [ha.wrote, ha.encodes, ha.acked]
    exact h.sent n (hsent.symm.trans hn)

theorem ChannelOk.of_agree (h : s.ChannelOk c) (ha : Agree s t c) (ho : c ∉ t.opened → c ∉ s.opened)
    (hcr : ∀ k', t.credits c = some k' → ∃ k, s.credits c = some k ∧ k'.next = k.next ∧
      k'.sent = k.sent) : t.ChannelOk c where
  new hc := by
    obtain ⟨hnone, hn⟩ := h.new (ho hc)
    refine ⟨?_, fun n => by rw [ha.wrote, ha.takes, ha.acked]; exact hn n⟩
    rcases ht : t.credits c with _ | k'
    · rfl
    obtain ⟨k, hk, _⟩ := hcr k' ht
    rw [hnone] at hk
    cases hk
  increasing m n hm hn := h.increasing m n ((ha.wrote m).mp hm) ((ha.takes n).mp hn)
  single m n hm hn :=
    h.single m n ((ha.outstanding m).mp hm) ((ha.outstanding n).mp hn)
  credit k' hk' := by
    obtain ⟨k, hk, hne, hsent⟩ := hcr k' hk'
    exact (h.credit k hk).of_agree ha hne hsent

/-! What a longer log and another encode change. -/

theorem wrote_append (hl : t.log = s.log ++ happened) (n : Nat) :
    t.Wrote c n ↔ s.Wrote c n ∨
      ∃ ticket p, .wrote ticket p ∈ happened ∧ ticket.channel = c ∧ ticket.frame = n := by
  simp only [Wrote, hl, List.mem_append, or_and_right, exists_or]

theorem acked_append (hl : t.log = s.log ++ happened) (n : Nat) :
    t.Acked c n ↔ s.Acked c n ∨ .acknowledged c n ∈ happened := by
  simp only [Acked, hl, List.mem_append]

theorem takes_congr (h : t.encoding = s.encoding) (n : Nat) : t.Takes c n ↔ s.Takes c n := by
  simp only [Takes, h]

theorem encodes_congr (h : t.encoding = s.encoding) (n : Nat) : t.Encodes c n ↔ s.Encodes c n := by
  simp only [Encodes, h]

theorem not_takes_of_idle (h : s.encoding = none) (n : Nat) : ¬s.Takes c n := by
  simp [Takes, h]

theorem not_encodes_of_idle (h : s.encoding = none) (n : Nat) : ¬s.Encodes c n := by
  simp [Encodes, h]

theorem takes_of_encoding {ticket : FrameTicket} {p : P.Presentation} {ending : Option (Frames P)}
    (h : s.encoding = some (ticket, p, ending)) (n : Nat) :
    s.Takes c n ↔ ticket.channel = c ∧ ticket.frame = n := by
  constructor
  · rintro ⟨ticket', p', ending', he, hc, hn⟩
    rw [h] at he
    cases he
    exact ⟨hc, hn⟩
  · exact fun hn => ⟨ticket, p, ending, h, hn⟩

/-- Neither a longer log nor another encode is about channel `c`. -/
theorem Agree.of_quiet (hl : t.log = s.log ++ happened) (hq : ∀ happening ∈ happened, happening.channel ≠ c)
    (he : (∀ n, t.Takes c n ↔ s.Takes c n) ∧ ∀ n, t.Encodes c n ↔ s.Encodes c n) :
    Agree s t c where
  wrote n := by
    rw [wrote_append hl, or_iff_left]
    rintro ⟨ticket, p, hmem, hc, -⟩
    exact hq _ hmem hc
  takes := he.1
  encodes := he.2
  acked n := by
    rw [acked_append hl, or_iff_left]
    exact fun hmem => hq _ hmem rfl

theorem Agree.of_eq (hl : t.log = s.log) (he : t.encoding = s.encoding) : Agree s t c :=
  .of_quiet (show t.log = s.log ++ [] by simp [hl]) (by simp)
    ⟨takes_congr he, encodes_congr he⟩

section Steps

variable {k : Credit P} {k' : Option (Credit P)} {d : Channel}

theorem credits_other (hc : t.credits = Function.update s.credits c k') (hd : d ≠ c) :
    t.credits d = s.credits d := by rw [hc, Function.update_of_ne hd]

theorem credits_own (hc : t.credits = Function.update s.credits c k') :
    t.credits c = k' := by rw [hc, Function.update_self]

theorem ChannelOk.other (h : s.ChannelOk d) (ha : Agree s t d)
    (ho : d ∉ t.opened → d ∉ s.opened) (hc : t.credits d = s.credits d) :
    t.ChannelOk d :=
  h.of_agree ha ho fun k' hk' => ⟨k', hc ▸ hk', rfl, rfl⟩

theorem ChannelOk.opened (h : s.ChannelOk c) (hnew : c ∉ s.opened) (ho : c ∈ t.opened)
    (ha : Agree s t c) (hcr : t.credits c = some .fresh) : t.ChannelOk c := by
  obtain ⟨-, hnone⟩ := h.new hnew
  have hno : ∀ n, ¬t.Wrote c n ∧ ¬t.Takes c n ∧ ¬t.Acked c n := fun n => by
    rw [ha.wrote, ha.takes, ha.acked]
    exact hnone n
  refine ⟨fun hc => absurd ho hc, fun m n hm _ => absurd hm (hno m).1, fun m n hm _ => ?_, fun k hk => ?_⟩
  · exact absurd hm.1 (not_or.mpr ⟨(hno m).1, (hno m).2.1⟩)
  rw [hcr] at hk
  cases hk
  refine ⟨fun n hn => ?_, fun n hn => ?_, nofun⟩
  · exact absurd hn (not_or.mpr ⟨(hno n).1, not_or.mpr (hno n).2⟩)
  · exact absurd hn.1 (not_or.mpr ⟨(hno n).1, (hno n).2.1⟩)

theorem ChannelOk.change {log : List (Happening P)} {entries : List (Entry P)}
    (h : s.ChannelOk c) (was : s.credits c = some k) (hch : Change c k k' log entries)
    (hl : t.log = s.log ++ log) (he : t.encoding = s.encoding)
    (ho : t.opened = s.opened) (hcr : t.credits c = k') : t.ChannelOk c := by
  have hw : ∀ n, t.Wrote c n ↔ s.Wrote c n := fun n => by
    rw [wrote_append hl, or_iff_left]
    rintro ⟨ticket, p, hmem, -⟩
    exact hch.not_wrote ticket p hmem
  have ht : ∀ n, t.Takes c n ↔ s.Takes c n := takes_congr he
  have hi : c ∈ t.opened := by
    by_contra hc
    rw [ho] at hc
    rw [(h.new hc).1] at was
    cases was
  have hk := h.credit k was
  rcases hch.sent with ⟨hno, hsent⟩ | ⟨n, hsent, rfl, hnone⟩
  · refine h.of_agree ⟨hw, ht, encodes_congr he, fun n => ?_⟩ (by simp [hi])
      fun k'' hk'' => ⟨k, was, ?_⟩
    · rw [acked_append hl, or_iff_left (hno n)]
    · rw [hcr] at hk''
      subst hk''
      exact ⟨hch.next, hsent _ rfl⟩
  -- the frame in flight was the only outstanding one
  have ha : ∀ m, t.Acked c m ↔ s.Acked c m ∨ m = n := fun m => by
    rw [acked_append hl]; simp
  have hno : ∀ m, ¬t.Outstanding c m := by
    rintro m ⟨hm, hunacked⟩
    rw [hw, ht] at hm
    rw [ha, not_or] at hunacked
    have := hk.outstanding m ⟨hm, hunacked.1⟩
    rw [hsent] at this
    exact hunacked.2 (Option.some.inj this).symm
  refine ⟨fun hc => absurd hi hc, fun m m' hm hm' => ?_, fun m m' hm => absurd hm (hno m), fun k'' hk'' => ?_⟩
  · exact h.increasing m m' ((hw m).mp hm) ((ht m').mp hm')
  rw [hcr] at hk''
  subst hk''
  refine ⟨fun m hm => ?_, fun m hm => absurd hm (hno m), fun m hm => ?_⟩
  · rw [hw, ht, ha] at hm
    rw [hch.next]
    have hn : n < k.next := by
      rcases (hk.sent n hsent).1 with hn | hn
      · exact hk.below n (.inr (.inl hn.takes))
      · exact hk.below n (.inl hn)
    rcases hm with hm | hm | hm | rfl
    · exact hk.below m (.inl hm)
    · exact hk.below m (.inr (.inl hm))
    · exact hk.below m (.inr (.inr hm))
    · exact hn
  · rw [hnone _ rfl] at hm
    cases hm

theorem ChannelOk.turn {taken : Taken P} (h : s.ChannelOk c) (idle : s.encoding = none)
    (was : s.credits c = some k) (htu : FrameTurn c k taken k')
    (hl : t.log = s.log ++ taken.noted) (he : t.encoding = taken.encoding)
    (ho : t.opened = s.opened) (hcr : t.credits c = k') : t.ChannelOk c := by
  have hk := h.credit k was
  have hi : c ∈ t.opened := by
    by_contra hc
    rw [ho] at hc
    rw [(h.new hc).1] at was
    cases was
  -- what both ways of taking a screen have in common
  have hto : ∀ {p : P.Presentation} {ending : Option (Frames P)}, k.sent = none →
      taken = .present (k.ticket c) p ending →
      (∀ n, t.Wrote c n ↔ s.Wrote c n) ∧ (∀ n, t.Acked c n ↔ s.Acked c n) ∧
      (∀ n, t.Takes c n ↔ n = k.next) ∧ (∀ n, t.Outstanding c n → n = k.next) := by
    intro p ending hsent htaken
    subst htaken
    have hw : ∀ n, t.Wrote c n ↔ s.Wrote c n := fun n => by
      rw [wrote_append hl, or_iff_left (by simp [Taken.noted])]
    have ha : ∀ n, t.Acked c n ↔ s.Acked c n := fun n => by
      rw [acked_append hl, or_iff_left (by simp [Taken.noted])]
    have ht : ∀ n, t.Takes c n ↔ n = k.next := fun n => by
      rw [takes_of_encoding he]
      exact ⟨fun h => h.2.symm, fun h => ⟨rfl, h.symm⟩⟩
    refine ⟨hw, ha, ht, fun n ⟨hn, hunacked⟩ => ?_⟩
    rw [hw, ht] at hn
    rw [ha] at hunacked
    rcases hn with hn | hn
    · have := hk.outstanding n ⟨.inl hn, hunacked⟩
      rw [hsent] at this
      cases this
    · exact hn
  cases htu with
  | skipped hs =>
    refine h.of_agree (.of_eq (by simpa [Taken.noted] using hl) (he.trans idle.symm))
      (by simp [hi]) fun k' hk' => ⟨k, was, ?_⟩
    rw [hcr] at hk'
    cases hk'
    exact ⟨rfl, rfl⟩
  | took p hvisible hsent hpending hend =>
    obtain ⟨hw, ha, ht, hout⟩ := hto hsent rfl
    refine ⟨fun hc => absurd hi hc, fun m n hm hn => ?_, fun m n hm hn => ?_, fun k' hk' => ?_⟩
    · rw [hw] at hm
      rw [(ht n).mp hn]
      exact hk.below m (.inl hm)
    · rw [hout m hm, hout n hn]
    rw [hcr] at hk'
    cases hk'
    refine ⟨fun n hn => ?_, fun n hn => ?_, fun n hn => ?_⟩
    · rw [hw, ht, ha] at hn
      show n < k.next + 1
      rcases hn with hn | hn | hn
      · exact Nat.lt_succ_of_lt (hk.below n (.inl hn))
      · omega
      · exact Nat.lt_succ_of_lt (hk.below n (.inr (.inr hn)))
    · rw [hout n hn]
      rfl
    · obtain rfl : k.next = n := Option.some.inj hn
      refine ⟨.inl ⟨k.ticket c, p, he, rfl, rfl⟩, fun hn => ?_⟩
      exact absurd (hk.below _ (.inr (.inr ((ha _).mp hn)))) (lt_irrefl _)
  | tookLast p frames hvisible hsent hpending hend =>
    obtain ⟨hw, ha, ht, hout⟩ := hto hsent rfl
    refine ⟨fun hc => absurd hi hc, fun m n hm hn => ?_, fun m n hm hn => ?_, fun k' hk' => ?_⟩
    · rw [hw] at hm
      rw [(ht n).mp hn]
      exact hk.below m (.inl hm)
    · rw [hout m hm, hout n hn]
    · rw [hcr] at hk'
      cases hk'

/-- The encode of a channel's screen is over: it was written, or nothing came of it. -/
structure Settled (s t : Connection P) (ticket : FrameTicket) : Prop where
  takes : ∀ n, s.Takes ticket.channel n ↔ n = ticket.frame
  idle : t.encoding = none
  wrote : ∀ n, s.Wrote ticket.channel n → t.Wrote ticket.channel n
  wroteOnly : ∀ n, t.Wrote ticket.channel n → s.Wrote ticket.channel n ∨ n = ticket.frame
  acked : ∀ n, t.Acked ticket.channel n ↔ s.Acked ticket.channel n

variable {ticket : FrameTicket}

theorem Settled.outstanding (h : Settled s t ticket) {n : Nat}
    (hn : t.Outstanding ticket.channel n) : s.Outstanding ticket.channel n := by
  refine ⟨?_, fun ha => hn.2 ((h.acked n).mpr ha)⟩
  rw [h.takes]
  rcases hn.1 with hw | ht
  · exact h.wroteOnly n hw
  · exact absurd ht (not_takes_of_idle h.idle n)

theorem CreditOk.settled {k k' : Credit P} (hk : s.CreditOk ticket.channel k)
    (h : Settled s t ticket) (hne : k'.next = k.next)
    (hsent : k'.sent = k.sent ∧ (∀ n, s.Encodes ticket.channel n → k.sent = some n →
      t.Wrote ticket.channel n) ∨ k'.sent = none ∧ ∀ n, ¬t.Outstanding ticket.channel n) :
    t.CreditOk ticket.channel k' where
  below n hn := by
    rw [hne]
    rcases hn with hn | hn | hn
    · exact hk.below n ((h.wroteOnly n hn).imp_right fun hn => .inl ((h.takes n).mpr hn))
    · exact absurd hn (not_takes_of_idle h.idle n)
    · exact hk.below n (.inr (.inr ((h.acked n).mp hn)))
  outstanding n hn := by
    rcases hsent with ⟨hsent, -⟩ | ⟨-, hno⟩
    · exact hsent.trans (hk.outstanding n (h.outstanding hn))
    · exact absurd hn (hno n)
  sent n hn := by
    rcases hsent with ⟨hsent, hw⟩ | ⟨hnone, -⟩
    · rw [hsent] at hn
      obtain ⟨hs, hunacked⟩ := hk.sent n hn
      refine ⟨.inr ?_, fun ha => hunacked ((h.acked n).mp ha)⟩
      rcases hs with hs | hs
      · exact hw n hs hn
      · exact h.wrote n hs
    · rw [hnone] at hn
      cases hn

theorem ChannelOk.settled (hs : s.ChannelOk ticket.channel) (h : Settled s t ticket) (ho : t.opened = s.opened)
    (hcr : ∀ k', t.credits ticket.channel = some k' → t.CreditOk ticket.channel k') :
    t.ChannelOk ticket.channel where
  new hc := by
    rw [ho] at hc
    exact absurd ((h.takes _).mpr rfl) ((hs.new hc).2 ticket.frame).2.1
  increasing m n _ hn := absurd hn (not_takes_of_idle h.idle n)
  single m n hm hn := hs.single m n (h.outstanding hm) (h.outstanding hn)
  credit := hcr

theorem settled_of_finish {p : P.Presentation} {ending : Option (Frames P)}
    {happening : Happening P} (was : s.encoding = some (ticket, p, ending))
    (hf : Finish s.state t.state ticket p ending happening)
    (hl : t.log = s.log ++ [happening]) (he : t.encoding = none) : Settled s t ticket where
  takes n := by
    rw [takes_of_encoding was]
    exact ⟨fun h => h.2.symm, fun h => ⟨rfl, h.symm⟩⟩
  idle := he
  wrote n hn := hn.mono hl
  wroteOnly n hn := by
    rw [wrote_append hl] at hn
    refine hn.imp_right ?_
    rintro ⟨ticket', p', hmem, -, hn⟩
    rw [List.mem_singleton] at hmem
    rcases hf.happening with rfl | rfl | rfl
    · cases hmem
      exact hn.symm
    · cases hmem
    · cases hmem
  acked n := by
    rw [acked_append hl, or_iff_left]
    rw [List.mem_singleton]
    rcases hf.happening with rfl | rfl | rfl <;> simp

theorem ChannelOk.finished {p : P.Presentation} {ending : Option (Frames P)}
    {happening : Happening P} (h : s.ChannelOk ticket.channel)
    (was : s.encoding = some (ticket, p, ending))
    (hf : Finish s.state t.state ticket p ending happening)
    (hl : t.log = s.log ++ [happening]) (he : t.encoding = none)
    (ho : t.opened = s.opened) : t.ChannelOk ticket.channel := by
  have hse := settled_of_finish was hf hl he
  refine h.settled hse ho fun k' hk' => ?_
  have hfr : ∀ n, s.Encodes ticket.channel n → n = ticket.frame ∧ ending = none := by
    rintro n ⟨ticket', p', heq, -, hn⟩
    rw [was] at heq
    cases heq
    exact ⟨hn.symm, rfl⟩
  -- a frame handed back is not outstanding: nothing written has its number
  have hback : ∀ k, s.credits ticket.channel = some k → k.sent = some ticket.frame →
      happening = .equalled ticket p → ∀ n, ¬t.Outstanding ticket.channel n := by
    rintro k hk hsent rfl n hn
    have hs := (h.credit k hk).outstanding n (hse.outstanding hn)
    rw [hsent] at hs
    cases hs
    rcases hn.1 with hw | ht
    · rw [wrote_append hl, or_iff_left (by simp)] at hw
      exact absurd (h.increasing _ _ hw ((hse.takes _).mpr rfl)) (lt_irrefl _)
    · exact not_takes_of_idle he _ ht
  have hsa : ∀ k, s.credits ticket.channel = some k → k' = k →
      (∀ n, s.Encodes ticket.channel n → k.sent = some n → t.Wrote ticket.channel n) →
      t.CreditOk ticket.channel k' := by
    rintro k hk rfl hw
    exact (h.credit k' hk).settled hse rfl (.inl ⟨rfl, hw⟩)
  cases hf with
  | wrote heq =>
    refine hsa k' (by rw [← hk']; exact congrFun heq.credits.symm _) rfl fun n hn _ => ?_
    rw [(hfr n hn).1]
    exact ⟨ticket, p, by simp [hl], rfl, rfl⟩
  | equalled heq hlate =>
    have hk : s.credits ticket.channel = some k' := by rw [← hk']; exact congrFun heq.credits.symm _
    refine hsa k' hk rfl fun n hn hsent => ?_
    obtain ⟨rfl, hend⟩ := hfr n hn
    exact absurd hsent (hlate hend k' hk)
  | failedLast heq hend =>
    refine hsa k' (by rw [← hk']; exact congrFun heq.credits.symm _) rfl fun n hn _ => ?_
    rw [(hfr n hn).2] at hend
    cases hend
  | unsent k hend was' hsent hwait touch | unsentQueue k hend was' hsent hpending hqueued touch =>
    rw [credits_own touch.credits] at hk'
    cases hk'
    exact (h.credit k was').settled hse rfl (.inr ⟨rfl, hback k was' hsent rfl⟩)
  | failed hend touch =>
    rw [credits_own touch.credits] at hk'
    cases hk'

end Steps

theorem channelsOk_step (h : ∀ c, s.ChannelOk c) (he : Effect C s t e) (d : Channel) : t.ChannelOk d := by
  cases he with
  | same hs log encoding opened =>
    exact (h d).other (.of_eq log encoding) (by rw [opened]; exact id) (congrFun hs.credits d)
  | @opened c new was touch log encoding opened =>
    by_cases hd : d = c
    · subst hd
      exact (h d).opened new (by simp [opened]) (.of_eq log encoding) (credits_own touch.credits)
    · exact (h d).other (.of_eq log encoding) (by rw [opened]; simp [hd])
        (credits_other touch.credits hd)
  | @forgot c event touch log encoding opened =>
    refine (h d).of_agree (.of_eq log encoding) (by rw [opened]; exact id) fun k hk => ?_
    by_cases hd : d = c
    · subst hd
      rw [credits_own touch.credits] at hk
      cases hk
    · exact ⟨k, (credits_other touch.credits hd).symm.trans hk, rfl, rfl⟩
  | @change c k k' log' entries was hch touch log encoding opened =>
    by_cases hd : d = c
    · subst hd
      exact (h d).change was hch log encoding opened (credits_own touch.credits)
    refine (h d).other (.of_quiet log (fun x hx => ?_) ⟨takes_congr encoding, encodes_congr encoding⟩)
      (by rw [opened]; exact id) (credits_other touch.credits hd)
    rw [hch.channel x hx]
    exact fun h => hd h.symm
  | @turn c k k' taken idle was htu credits l1 closing log encoding opened =>
    by_cases hd : d = c
    · subst hd
      exact (h d).turn idle was htu log encoding opened (credits_own credits)
    have ht : ∀ ticket p ending, taken = .present ticket p ending → ticket.channel ≠ d := by
      rintro ticket p ending rfl heq
      cases htu <;> exact hd heq.symm
    refine (h d).other (.of_quiet log (fun x hx => ?_) ⟨fun n => ?_, fun n => ?_⟩)
      (by rw [opened]; exact id) (credits_other credits hd)
    · cases taken with
      | present ticket p ending =>
        obtain rfl := List.mem_singleton.mp hx
        exact ht ticket p ending rfl
      | frame | semantics | skip => cases hx
    · refine iff_of_false ?_ (not_takes_of_idle idle n)
      rintro ⟨ticket, p, ending, heq, hc, -⟩
      rw [encoding] at heq
      cases taken with
      | present ticket' p' ending' =>
        cases heq
        exact ht _ _ _ rfl hc
      | frame | semantics | skip => cases heq
    · refine iff_of_false ?_ (not_encodes_of_idle idle n)
      rintro ⟨ticket, p, heq, hc, -⟩
      rw [encoding] at heq
      cases taken with
      | present ticket' p' ending' =>
        cases heq
        exact ht _ _ _ rfl hc
      | frame | semantics | skip => cases heq
  | @finished ticket p ending happening event was hf log encoding opened =>
    by_cases hd : d = ticket.channel
    · subst hd
      exact (h _).finished was hf log encoding opened
    refine (h d).other (.of_quiet log (fun x hx => ?_) ⟨fun n => ?_, fun n => ?_⟩)
      (by rw [opened]; exact id) ?_
    · obtain rfl := List.mem_singleton.mp hx
      rcases hf.happening with rfl | rfl | rfl <;> exact fun h => hd h.symm
    · refine iff_of_false (not_takes_of_idle encoding n) fun hn => ?_
      exact hd ((takes_of_encoding was n).mp hn).1.symm
    · refine iff_of_false (not_encodes_of_idle encoding n) fun hn => ?_
      exact hd ((takes_of_encoding was n).mp hn.takes).1.symm
    · exact hf.credits_other hd

/-! ### Every run -/

/-- What every reachable connection keeps. -/
structure Inv (s : Connection P) : Prop where
  flags : s.FlagsOk
  channels : ∀ c, s.ChannelOk c

theorem Inv.start : (({} : Connection P)).Inv := by
  have hc : ∀ c, ({} : Connection P).credits c = none := fun c => by
    simp [credits, State.credits]
  refine ⟨fun c k hk => ?_, fun c => ⟨fun _ => ⟨hc c, fun n => ?_⟩, ?_, ?_, fun k hk => ?_⟩⟩
  · rw [hc c] at hk
    cases hk
  · simp [Wrote, Takes, Acked, encoding]
  · simp [Wrote]
  · simp [Outstanding, Wrote, Takes, encoding]
  · rw [hc c] at hk
    cases hk

theorem Inv.step (h : s.Inv) (hs : Step C s e t) : t.Inv :=
  ⟨h.flags.step hs.effect, channelsOk_step h.channels hs.effect⟩

theorem Inv.run {es : List (Event P)} (hr : Run (Step C) {} es s) : s.Inv :=
  hr.invariant Inv.start Inv.step

/-- What moves a waiting screen or last event of a channel on. -/
inductive Awaits (s : Connection P) (c : Channel) (k : Credit P) : Prop
  | queued (hmem : .frame c ∈ s.state.l1) (hvisible : k.visible = true)
      (hpending : k.pending.isSome) (hsent : k.sent = none)
  | encoding {n : Nat} (hsent : k.sent = some n) (h : s.Encodes c n)
  | written {n : Nat} (hsent : k.sent = some n) (h : s.Wrote c n) (hunacked : ¬s.Acked c n)

theorem Inv.awaits {k : Credit P} (h : s.Inv) (hop : s.state.closing = false)
    (hk : s.credits c = some k) (hw : k.pending.isSome ∨ k.sent.isSome) : s.Awaits c k := by
  obtain ⟨ho, hl⟩ := h.flags c k hk
  cases hsent : k.sent with
  | some n =>
    obtain ⟨hs, hunacked⟩ := ((h.channels c).credit k hk).sent n hsent
    rcases hs with he | hwr
    · exact .encoding hsent he
    · exact .written hsent hwr hunacked
  | none =>
    have hpending : k.pending.isSome := hw.resolve_right (by simp [hsent])
    have hqueued : k.queued = true := (ho.waits hpending).resolve_right (by simp [hsent])
    refine .queued ((hl hqueued).resolve_right (by simp [hop])) ?_ hpending hsent
    by_contra hvisible
    rw [ho.hidden (by simpa using hvisible)] at hpending
    cases hpending

end Connection

end SpaceTerm.Outbox
