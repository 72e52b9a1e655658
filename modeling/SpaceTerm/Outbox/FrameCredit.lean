import SpaceTerm.Outbox.Invariant

/-! # Frame credit

Over every run of a connection: the frames of a channel are numbered in the order they are written,
one at a time is not acknowledged, each is a keyframe or builds on the last frame acknowledged when
it was taken, a keyframe is owed until a frame taken after the request is written, and the newest
screen is never lost. The log tells the order of what happened, so the statements split it. -/

namespace SpaceTerm.Outbox
open Wire Lib

variable {P : Payloads} {C : Postcard P} {c : Channel}

def Happening.writtenOn (c : Channel) : Happening P → Option Nat
  | .wrote ticket _ => if ticket.channel = c then some ticket.frame else none
  | _ => none

def Happening.ackedOn (c : Channel) : Happening P → Option Nat
  | .acknowledged d n => if d = c then some n else none
  | _ => none

def lastAcked (c : Channel) (log : List (Happening P)) : Option Nat :=
  (log.filterMap (·.ackedOn c)).getLast?

def AcksWritten (log : List (Happening P)) : Prop :=
  ∀ before c n after, log = before ++ .acknowledged c n :: after →
    ∃ ticket p, .wrote ticket p ∈ before ∧ ticket.channel = c ∧ ticket.frame = n

theorem AcksWritten.of_append {log happened : List (Happening P)}
    (h : AcksWritten (log ++ happened)) : AcksWritten log := by
  rintro before c n after rfl
  exact h before c n (after ++ happened) (by simp)

theorem lastAcked_append (log happened : List (Happening P)) :
    lastAcked c (log ++ happened) = (lastAcked c happened).or (lastAcked c log) := by
  simp [lastAcked, List.filterMap_append, List.getLast?_append]

theorem lastAcked_of_not_mem {happened : List (Happening P)}
    (h : ∀ n, .acknowledged c n ∉ happened) : lastAcked c happened = none := by
  have hni : happened.filterMap (·.ackedOn c) = [] := by
    rw [List.filterMap_eq_nil_iff]
    intro x hx
    cases x with
    | acknowledged d n =>
      simp only [Happening.ackedOn, ite_eq_right_iff, reduceCtorEq, imp_false]
      rintro rfl
      exact h n hx
    | _ => rfl
  rw [lastAcked, hni]
  rfl

theorem lastAcked_append_quiet {log happened : List (Happening P)}
    (h : ∀ n, .acknowledged c n ∉ happened) : lastAcked c (log ++ happened) = lastAcked c log := by
  rw [lastAcked_append, lastAcked_of_not_mem h]
  rfl

/-! ### What a change of one credit keeps -/

section Change

variable {k k' : Credit P} {x : Option (Credit P)} {log : List (Happening P)}
  {entries : List (Entry P)}

theorem Change.acknowledged_eq (h : Change c k (some k') log entries) :
    k'.acknowledged = (lastAcked c log).or k.acknowledged := by
  cases h <;> simp [lastAcked, Happening.ackedOn]

theorem Change.not_took (h : Change c k x log entries) (ticket : FrameTicket) (p : P.Presentation) :
    .took ticket p ∉ log := by
  cases h <;> simp

theorem Change.keyframe_mono (h : Change c k (some k') log entries) (hk : k.keyframe = true) :
    k'.keyframe = true := by
  cases h <;> first | exact hk | rfl

theorem Change.keyframe_noted {d : Channel} (h : Change c k x log entries)
    (hd : .keyframe d ∈ log) : log = [.keyframe d] ∧ d = c ∧ ∀ k', x = some k' → k'.keyframe = true := by
  cases h with
  | keyframe =>
    obtain rfl : d = c := by simpa using hd
    exact ⟨rfl, rfl, fun _ h => by obtain rfl := Option.some.inj h; rfl⟩
  | _ => simp at hd

theorem Change.presented_noted {d : Channel} {p : P.Presentation} (h : Change c k x log entries)
    (hd : .presented d p ∈ log) :
    log = [.presented d p] ∧ d = c ∧ ∀ k', x = some k' → k'.pending = some p := by
  cases h with
  | presented q | presentedQueue q =>
    obtain ⟨rfl, rfl⟩ : d = c ∧ p = q := by simpa using hd
    exact ⟨rfl, rfl, fun _ h => by obtain rfl := Option.some.inj h; rfl⟩
  | _ => simp at hd

theorem Change.pending_cases (h : Change c k (some k') log entries) :
    k'.pending = k.pending ∨ (∃ p, .presented c p ∈ log) ∨ .hidden c ∈ log := by
  cases h with
  | presented p | presentedQueue p => exact .inr (.inl ⟨p, List.mem_singleton_self _⟩)
  | hidden => exact .inr (.inr (List.mem_singleton_self _))
  | _ => exact .inl rfl

theorem FrameTurn.noted {taken : Taken P} (h : FrameTurn c k taken x) {happening : Happening P}
    (hmem : happening ∈ taken.noted) :
    ∃ p, happening = .took (k.ticket c) p ∧ k.pending = some p := by
  cases h with
  | skipped => cases hmem
  | took p _ _ hpending | tookLast p _ _ _ hpending =>
    exact ⟨p, List.mem_singleton.mp hmem, hpending⟩

theorem FrameTurn.not_wrote {taken : Taken P} (h : FrameTurn c k taken x)
    (ticket : FrameTicket) (p : P.Presentation) : .wrote ticket p ∉ taken.noted := by
  cases h <;> simp [Taken.noted]

end Change

namespace Connection

variable {s t : Connection P} {e : Event P}

theorem Inv.opened_of_credit {k : Credit P} (h : s.Inv) (hk : s.credits c = some k) : c ∈ s.opened := by
  by_contra hc
  rw [((h.channels c).new hc).1] at hk
  cases hk

variable {ticket : FrameTicket} {p : P.Presentation} {ending : Option (Frames P)}

theorem Inv.opened_of_encoding (h : s.Inv) (he : s.encoding = some (ticket, p, ending)) :
    ticket.channel ∈ s.opened := by
  by_contra hc
  exact (((h.channels _).new hc).2 ticket.frame).2.1 ⟨ticket, p, ending, he, rfl, rfl⟩

/-! ### The log is about opened channels, and an ending channel is gone -/

def LogOpened (s : Connection P) : Prop := ∀ x ∈ s.log, x.channel ∈ s.opened

variable {happened : List (Happening P)}

theorem LogOpened.append (h : s.LogOpened) (hl : t.log = s.log ++ happened) (ho : t.opened = s.opened)
    (hnew : ∀ x ∈ happened, x.channel ∈ s.opened) : t.LogOpened := by
  intro x hx
  rw [hl] at hx
  rw [ho]
  exact (List.mem_append.mp hx).elim (h x) (hnew x)

theorem LogOpened.step (h : s.LogOpened) (hi : s.Inv) (he : Effect C s t e) : t.LogOpened := by
  cases he with
  | same _ log _ opened => exact h.append (log.trans (List.append_nil _).symm) opened nofun
  | opened _ _ _ log _ opened =>
    intro x hx
    rw [log] at hx
    rw [opened]
    exact List.mem_cons_of_mem _ (h x hx)
  | forgot _ _ log _ opened => exact h.append (log.trans (List.append_nil _).symm) opened nofun
  | change was hc _ log _ opened =>
    refine h.append log opened fun x hx => ?_
    rw [hc.channel x hx]
    exact hi.opened_of_credit was
  | turn _ was ht _ _ _ log _ opened =>
    refine h.append log opened fun x hx => ?_
    cases ht with
    | skipped => cases hx
    | took | tookLast =>
      obtain rfl := List.mem_singleton.mp hx
      exact hi.opened_of_credit was
  | finished _ was hf log _ opened =>
    refine h.append log opened fun x hx => ?_
    obtain rfl := List.mem_singleton.mp hx
    rcases hf.happening with rfl | rfl | rfl <;> exact hi.opened_of_encoding was

def LastGone (s : Connection P) : Prop :=
  ∀ ticket p frames, s.encoding = some (ticket, p, some frames) → s.credits ticket.channel = none

theorem LastGone.step (h : s.LastGone) (hi : s.Inv) (he : Effect C s t e) : t.LastGone := by
  intro ticket p frames hen
  cases he with
  | same hs _ encoding =>
    exact (congrFun hs.credits _).trans (h ticket p frames (encoding.symm.trans hen))
  | @opened c new _ touch _ encoding =>
    have hen := encoding.symm.trans hen
    have hne : ticket.channel ≠ c := fun heq => new (heq ▸ hi.opened_of_encoding hen)
    exact (credits_other touch.credits hne).trans (h ticket p frames hen)
  | @forgot c _ touch _ encoding =>
    by_cases hc : ticket.channel = c
    · rw [hc]
      exact credits_own touch.credits
    · exact (credits_other touch.credits hc).trans (h ticket p frames (encoding.symm.trans hen))
  | @change c k _ _ _ was _ touch _ encoding =>
    have hnone := h ticket p frames (encoding.symm.trans hen)
    have hne : ticket.channel ≠ c := by
      rintro rfl
      rw [was] at hnone
      cases hnone
    exact (credits_other touch.credits hne).trans hnone
  | turn _ _ ht credits _ _ _ encoding =>
    rw [encoding] at hen
    cases ht with
    | skipped | took => cases hen
    | tookLast =>
      cases hen
      exact credits_own credits
  | finished _ _ _ _ encoding =>
    rw [encoding] at hen
    cases hen

/-! ### Frames are written in order -/

theorem increasing_step (hi : s.Inv) (he : Effect C s t e)
    (h : (s.log.filterMap (·.writtenOn c)).Pairwise (· < ·)) :
    (t.log.filterMap (·.writtenOn c)).Pairwise (· < ·) := by
  have hq : ∀ happened, t.log = s.log ++ happened → (∀ x ∈ happened, Happening.writtenOn c x = none) →
      (t.log.filterMap (·.writtenOn c)).Pairwise (· < ·) := by
    intro happened hl hnone
    rw [hl, List.filterMap_append, List.filterMap_eq_nil_iff.mpr hnone, List.append_nil]
    exact h
  cases he with
  | same _ log | opened _ _ _ log | forgot _ _ log => exact hq [] (by simpa using log) (by simp)
  | change _ hch _ log =>
    refine hq _ log fun x hx => ?_
    cases x with
    | wrote ticket p => exact absurd hx (hch.not_wrote ticket p)
    | _ => rfl
  | turn _ _ ht _ _ _ log =>
    refine hq _ log fun x hx => ?_
    cases ht with
    | skipped => cases hx
    | took | tookLast =>
      obtain rfl := List.mem_singleton.mp hx
      rfl
  | @finished ticket p ending _ _ was hf log =>
    rcases hf.happening with rfl | rfl | rfl
    · by_cases hc : ticket.channel = c
      · subst hc
        rw [log, List.filterMap_append, List.pairwise_append]
        refine ⟨h, by simp [Happening.writtenOn], fun m hm n hn => ?_⟩
        obtain rfl : ticket.frame = n := by simpa [Happening.writtenOn, eq_comm] using hn
        obtain ⟨x, hx, hxm⟩ := List.mem_filterMap.mp hm
        cases x with
        | wrote ticket' p' =>
          simp only [Happening.writtenOn, Option.ite_none_right_eq_some, Option.some.injEq] at hxm
          exact (hi.channels ticket.channel).increasing m ticket.frame
            ⟨ticket', p', hx, hxm.1, hxm.2⟩ ⟨ticket, p, ending, was, rfl, rfl⟩
        | _ => cases hxm
      · exact hq _ log (by simp [Happening.writtenOn, hc])
    · exact hq _ log (by simp [Happening.writtenOn])
    · exact hq _ log (by simp [Happening.writtenOn])

/-! ### Each frame builds on what was acknowledged -/

def KnowsAcked (s : Connection P) : Prop :=
  ∀ c k, s.credits c = some k → k.acknowledged = lastAcked c s.log

theorem KnowsAcked.step (h : s.KnowsAcked) (hlo : s.LogOpened) (he : Effect C s t e) : t.KnowsAcked := by
  have hq : ∀ {happened}, t.log = s.log ++ happened → ∀ {d k}, s.credits d = some k →
      (∀ n, .acknowledged d n ∉ happened) → k.acknowledged = lastAcked d t.log := by
    intro happened hl d k hk hnone
    rw [hl, lastAcked_append_quiet hnone]
    exact h d k hk
  cases he with
  | same hs log =>
    intro c k hk
    rw [log]
    exact h c k ((congrFun hs.credits c).symm.trans hk)
  | @opened c new _ touch log =>
    refine forall_update touch.credits (fun d _ k hk => by rw [log]; exact h d k hk) fun k hk => ?_
    cases hk
    rw [log, lastAcked_of_not_mem fun n hn => new (hlo _ hn)]
    rfl
  | forgot _ touch log =>
    exact forall_update touch.credits (fun d _ k hk => by rw [log]; exact h d k hk) nofun
  | change was hc touch log =>
    refine forall_update touch.credits (fun d hd k hk => hq log hk fun n hn => ?_) fun k hk => ?_
    · exact hd (hc.channel _ hn)
    · subst hk
      rw [hc.acknowledged_eq, log, lastAcked_append, h _ _ was]
  | @turn c k k' taken _ was ht credits _ _ log =>
    have hnone : ∀ d n, .acknowledged d n ∉ taken.noted := fun d n hmem => by
      obtain ⟨p, heq, -⟩ := ht.noted hmem
      cases heq
    refine forall_update credits (fun d _ k hk => hq log hk (hnone d)) fun k hk => ?_
    have hk' := hq log was (hnone _)
    cases ht with
    | skipped | took => obtain rfl := Option.some.inj hk; exact hk'
    | tookLast => cases hk
  | @finished _ _ _ happening _ _ hf log =>
    have hnone : ∀ d n, .acknowledged d n ∉ [happening] := fun d n => by
      rcases hf.happening with rfl | rfl | rfl <;> simp
    have hs : t.credits = s.credits → t.KnowsAcked := fun hcr d k hk =>
      hq log ((congrFun hcr d).symm.trans hk) (hnone d)
    cases hf with
    | wrote heq | equalled heq | failedLast heq => exact hs heq.credits
    | failed _ touch =>
      exact forall_update touch.credits (fun d _ k hk => hq log hk (hnone d)) nofun
    | unsent k _ was _ _ touch | unsentQueue k _ was _ _ _ touch =>
      refine forall_update touch.credits (fun d _ k hk => hq log hk (hnone d)) fun k' hk => ?_
      have hk' := hq log was (hnone _)
      cases hk
      exact hk'

section Wrote

variable {R : List (Happening P) → FrameTicket → P.Presentation → Prop}
    (h : ∀ before ticket p after, s.log = before ++ .wrote ticket p :: after → R before ticket p)

include h

theorem wrote_keeps {happened : List (Happening P)}
    (hl : t.log = s.log ++ happened) (hw : ∀ ticket p, .wrote ticket p ∉ happened) :
    ∀ before ticket p after, t.log = before ++ .wrote ticket p :: after → R before ticket p := by
  intro before ticket p after heq
  obtain ⟨after', hs, -⟩ := split_of_append (hl.symm.trans heq) (hw ticket p)
  exact h before ticket p after' hs

theorem wrote_finish {ticket : FrameTicket} {p : P.Presentation} {ending : Option (Frames P)}
    {happening : Happening P}
    (hl : t.log = s.log ++ [happening]) (hf : Finish s.state t.state ticket p ending happening)
    (hnew : R s.log ticket p) :
    ∀ before ticket p after, t.log = before ++ .wrote ticket p :: after → R before ticket p := by
  intro before ticket' p' after heq
  rcases split_snoc (hl.symm.trans heq) with ⟨after', hs, -⟩ | ⟨rfl, rfl, -⟩
  · exact h before ticket' p' after' hs
  · rcases hf.happening with heq | heq | heq <;> cases heq
    exact hnew

end Wrote

def BaseAt (log : List (Happening P)) (ticket : FrameTicket) (p : P.Presentation) : Prop :=
  ∃ before after, log = before ++ .took ticket p :: after ∧
    (ticket.base = none ∨ ticket.base = lastAcked ticket.channel before)

theorem BaseAt.append {log : List (Happening P)} (h : BaseAt log ticket p) (happened : List (Happening P)) :
    BaseAt (log ++ happened) ticket p := by
  obtain ⟨before, after, rfl, hb⟩ := h
  exact ⟨before, after ++ happened, by simp, hb⟩

structure Based (s : Connection P) : Prop where
  encoding : ∀ ticket p ending, s.encoding = some (ticket, p, ending) → BaseAt s.log ticket p
  wrote : ∀ before ticket p after, s.log = before ++ .wrote ticket p :: after → BaseAt before ticket p

theorem Based.quiet (h : s.Based) (hl : t.log = s.log ++ happened)
    (hen : t.encoding = s.encoding) (hw : ∀ ticket p, .wrote ticket p ∉ happened) :
    t.Based where
  encoding ticket p ending he := by
    rw [hl]
    exact (h.encoding ticket p ending (hen.symm.trans he)).append _
  wrote := wrote_keeps h.wrote hl hw

theorem Based.step (h : s.Based) (ha : s.KnowsAcked) (he : Effect C s t e) : t.Based := by
  cases he with
  | same _ log encoding => exact h.quiet (log.trans (List.append_nil _).symm) encoding nofun
  | opened _ _ _ log encoding => exact h.quiet (log.trans (List.append_nil _).symm) encoding nofun
  | forgot _ _ log encoding => exact h.quiet (log.trans (List.append_nil _).symm) encoding nofun
  | change _ hc _ log encoding => exact h.quiet log encoding hc.not_wrote
  | @turn c k _ _ idle was ht _ _ _ log encoding =>
    have hb : (k.ticket c).base = none ∨ (k.ticket c).base = lastAcked c s.log := by
      rw [← ha c k was, Credit.ticket]
      cases k.keyframe
      · exact .inr rfl
      · exact .inl rfl
    refine ⟨fun ticket p ending hen => ?_, wrote_keeps h.wrote log ht.not_wrote⟩
    rw [encoding] at hen
    cases ht with
    | skipped => cases hen
    | took | tookLast =>
      cases hen
      exact ⟨s.log, [], log, hb⟩
  | @finished ticket p ending happening _ was hf log encoding =>
    refine ⟨fun ticket' p' ending' hen => ?_, wrote_finish h.wrote log hf (h.encoding ticket p ending was)⟩
    rw [encoding] at hen
    cases hen

/-! ### When only written frames are acknowledged -/

section AcksWritten

variable {ticket : FrameTicket} {p : P.Presentation} {ending : Option (Frames P)}

theorem wrote_of_acked {log : List (Happening P)} (h : AcksWritten log) {n : Nat}
    (hmem : .acknowledged c n ∈ log) :
    ∃ ticket p, .wrote ticket p ∈ log ∧ ticket.channel = c ∧ ticket.frame = n := by
  obtain ⟨before, after, rfl⟩ := List.append_of_mem hmem
  obtain ⟨ticket, p, hw, he⟩ := h before c n after rfl
  exact ⟨ticket, p, List.mem_append_left _ hw, he⟩

theorem Inv.sent_of_encoding (h : s.Inv) (ha : AcksWritten s.log)
    (he : s.encoding = some (ticket, p, ending)) {k : Credit P}
    (hk : s.credits ticket.channel = some k) : k.sent = some ticket.frame := by
  have ht : s.Takes ticket.channel ticket.frame := ⟨ticket, p, ending, he, rfl, rfl⟩
  refine ((h.channels _).credit k hk).outstanding _ ⟨.inr ht, fun hmem => ?_⟩
  exact lt_irrefl _ ((h.channels _).increasing _ _ (wrote_of_acked ha hmem) ht)

theorem Inv.not_acknowledged (h : s.Inv) {k : Credit P} {k' : Option (Credit P)}
    {happened : List (Happening P)} {entries : List (Entry P)}
    (ha : AcksWritten (s.log ++ happened)) (he : s.encoding = some (ticket, p, ending))
    (hk : s.credits c = some k) (hc : Change c k k' happened entries) (n : Nat) :
    .acknowledged ticket.channel n ∉ happened := by
  intro hmem
  obtain rfl : c = ticket.channel := (hc.channel _ hmem).symm
  rcases hc.sent with ⟨hno, -⟩ | ⟨m, hsent, rfl, -⟩
  · exact hno n hmem
  have hf := h.sent_of_encoding ha.of_append he hk
  rw [hsent] at hf
  cases hf
  have hw : s.Wrote ticket.channel ticket.frame := ha s.log _ _ [] rfl
  exact lt_irrefl _ ((h.channels _).increasing _ _ hw ⟨ticket, p, ending, he, rfl, rfl⟩)

end AcksWritten

/-- Each frame is a keyframe or builds on the last frame acknowledged until now. -/
structure Current (s : Connection P) : Prop where
  encoding : ∀ ticket p ending, s.encoding = some (ticket, p, ending) →
    ticket.base = none ∨ ticket.base = lastAcked ticket.channel s.log
  wrote : ∀ before ticket p after, s.log = before ++ .wrote ticket p :: after →
    ticket.base = none ∨ ticket.base = lastAcked ticket.channel before

theorem Current.quiet (h : s.Current) (hl : t.log = s.log ++ happened) (hen : t.encoding = s.encoding)
    (hw : ∀ ticket p, .wrote ticket p ∉ happened)
    (ha : ∀ ticket p ending, s.encoding = some (ticket, p, ending) →
      ∀ n, .acknowledged ticket.channel n ∉ happened) : t.Current where
  encoding ticket p ending he := by
    have he := hen.symm.trans he
    rw [hl, lastAcked_append_quiet (ha ticket p ending he)]
    exact h.encoding ticket p ending he
  wrote := wrote_keeps h.wrote hl hw

theorem Current.step (h : s.Current) (hi : s.Inv) (hkn : s.KnowsAcked)
    (hac : AcksWritten t.log) (he : Effect C s t e) : t.Current := by
  cases he with
  | same _ log encoding => exact h.quiet (log.trans (List.append_nil _).symm) encoding nofun nofun
  | opened _ _ _ log encoding | forgot _ _ log encoding =>
    exact h.quiet (log.trans (List.append_nil _).symm) encoding nofun nofun
  | change was hc _ log encoding =>
    rw [log] at hac
    exact h.quiet log encoding hc.not_wrote fun ticket p ending hen n =>
      hi.not_acknowledged hac hen was hc n
  | @turn c k _ taken idle was ht _ _ _ log encoding =>
    have ha : ∀ n, .acknowledged c n ∉ taken.noted := fun n hmem => by
      obtain ⟨_, heq, -⟩ := ht.noted hmem
      cases heq
    have hb : (k.ticket c).base = none ∨ (k.ticket c).base = lastAcked c t.log := by
      rw [log, lastAcked_append_quiet ha, ← hkn c k was, Credit.ticket]
      cases k.keyframe
      · exact .inr rfl
      · exact .inl rfl
    refine ⟨fun ticket p ending hen => ?_, wrote_keeps h.wrote log ht.not_wrote⟩
    rw [encoding] at hen
    cases ht with
    | skipped => cases hen
    | took | tookLast =>
      cases hen
      exact hb
  | @finished ticket p ending happening _ was hf log encoding =>
    refine ⟨fun ticket' p' ending' hen => ?_, wrote_finish h.wrote log hf (h.encoding ticket p ending was)⟩
    rw [encoding] at hen
    cases hen

/-! ### A requested keyframe is owed -/

/-- Nothing that was taken since was written. -/
def Owed (c : Channel) (since : List (Happening P)) : Prop :=
  ∀ ticket p, .wrote ticket p ∈ since → ticket.channel = c → .took ticket p ∉ since

theorem Owed.of_append {since happened : List (Happening P)} (h : Owed c (since ++ happened)) :
    Owed c since := fun ticket p hw hc ht =>
  h ticket p (List.mem_append_left _ hw) hc (List.mem_append_left _ ht)

structure Keyframes (s : Connection P) : Prop where
  /-- The credit owes the keyframe, or the frame being encoded was taken since. -/
  owed : ∀ before c since, s.log = before ++ .keyframe c :: since → Owed c since →
    ∀ k, s.credits c = some k → k.keyframe = true ∨ ∃ ticket p ending,
      s.encoding = some (ticket, p, ending) ∧ ticket.channel = c ∧ .took ticket p ∈ since
  taken : ∀ before c since ticket p ending, s.log = before ++ .keyframe c :: since → Owed c since →
    s.encoding = some (ticket, p, ending) → ticket.channel = c → .took ticket p ∈ since →
    ticket.base = none
  wrote : ∀ before c since ticket p after,
    s.log = before ++ .keyframe c :: since ++ .wrote ticket p :: after → Owed c since →
    ticket.channel = c → .took ticket p ∈ since → ticket.base = none

theorem Keyframes.quiet (h : s.Keyframes) (hl : t.log = s.log ++ happened) (hen : t.encoding = s.encoding)
    (ht : ∀ ticket p, .took ticket p ∉ happened) (hw : ∀ ticket p, .wrote ticket p ∉ happened)
    (hcr : ∀ c k', t.credits c = some k' → k'.keyframe = true ∨ .keyframe c ∉ happened ∧
      ∃ k, s.credits c = some k ∧ (k.keyframe = true → k'.keyframe = true)) : t.Keyframes where
  owed before c since heq ho k' hk' := by
    rcases hcr c k' hk' with hke | ⟨hno, k, hk, hmo⟩
    · exact .inl hke
    obtain ⟨since', hs, rfl⟩ := split_of_append (hl.symm.trans heq) hno
    rcases h.owed before c since' hs ho.of_append k hk with hke | ⟨ticket, p, ending, he, hc, hmem⟩
    · exact .inl (hmo hke)
    · exact .inr ⟨ticket, p, ending, hen.trans he, hc, List.mem_append_left _ hmem⟩
  taken before c since ticket p ending heq ho he hc hmem := by
    rcases split_append (hl.symm.trans heq) with ⟨since', hs, rfl⟩ | ⟨_, -, rfl⟩
    · exact h.taken before c since' ticket p ending hs ho.of_append (hen.symm.trans he) hc
        ((List.mem_append.mp hmem).resolve_right (ht ticket p))
    · exact absurd (by simp [hmem]) (ht ticket p)
  wrote before c since ticket p after heq ho hc hmem := by
    obtain ⟨after', hs, -⟩ := split_of_append (hl.symm.trans heq) (hw ticket p)
    exact h.wrote before c since ticket p after' hs ho hc hmem

/-- A screen of channel `c` is taken: the frame owes the keyframe now. -/
theorem Keyframes.took {k : Credit P} {k' : Option (Credit P)} (h : s.Keyframes) (idle : s.encoding = none)
    (was : s.credits c = some k) (hc : t.credits = Function.update s.credits c k')
    (hl : t.log = s.log ++ [.took (k.ticket c) p])
    (hen : t.encoding = some (k.ticket c, p, ending)) : t.Keyframes := by
  -- until now nothing was being encoded, so it was the credit that owed it
  have hold : ∀ {before d since}, t.log = before ++ .keyframe d :: since → Owed d since →
      .took (k.ticket c) p ∈ since ∧ ∀ k, s.credits d = some k → k.keyframe = true := by
    intro before d since heq ho
    obtain ⟨since', hs, rfl⟩ := split_of_append (hl.symm.trans heq) (by simp)
    refine ⟨by simp, fun k hk => ?_⟩
    rcases h.owed before d since' hs ho.of_append k hk with hke | ⟨_, _, _, he, -⟩
    · exact hke
    · rw [idle] at he
      cases he
  refine ⟨fun before d since heq ho k₁ hk₁ => ?_, fun before d since ticket q ending' heq ho he hd hmem => ?_,
    fun before d since ticket q after heq ho hd hmem => ?_⟩
  · obtain ⟨hmem, hke⟩ := hold heq ho
    by_cases hd : d = c
    · subst hd
      exact .inr ⟨_, p, ending, hen, rfl, hmem⟩
    · rw [credits_other hc hd] at hk₁
      exact .inl (hke k₁ hk₁)
  · rw [hen] at he
    cases he
    subst hd
    have hke := (hold heq ho).2 k was
    simp [Credit.ticket, hke]
  · obtain ⟨after', hs, -⟩ := split_of_append (hl.symm.trans heq) (by simp)
    exact h.wrote before d since ticket q after' hs ho hd hmem

theorem Keyframes.finished {happening : Happening P} (h : s.Keyframes) (hi : s.Inv)
    (hg : s.LastGone) (ha : AcksWritten s.log)
    (was : s.encoding = some (ticket, p, ending))
    (hf : Finish s.state t.state ticket p ending happening)
    (hl : t.log = s.log ++ [happening]) (hen : t.encoding = none) : t.Keyframes := by
  refine ⟨fun before c since heq ho k' hk' => .inl ?_, fun _ _ _ _ _ _ _ _ he => ?_,
    fun before c since ticket' p' after heq ho hc hmem => ?_⟩
  · obtain ⟨since', hs, rfl⟩ := split_of_append (hl.symm.trans heq) fun hmem => by
      rcases hf.happening with rfl | rfl | rfl <;> simp at hmem
    have hold := h.owed before c since' hs ho.of_append
    -- unless it is this frame that was taken since, the credit owes it
    have hke : ∀ k, s.credits c = some k → (c = ticket.channel → .took ticket p ∉ since') → k.keyframe = true := by
      intro k hk hno
      rcases hold k hk with hkey | ⟨ticket', p', ending', he, hc, hmem⟩
      · exact hkey
      rw [was] at he
      cases he
      exact absurd hmem (hno hc.symm)
    by_cases hc : c = ticket.channel
    · subst hc
      have hback : ∀ k, s.credits ticket.channel = some k → (k.keyframe || ticket.base.isNone) = true := by
        intro k hk
        by_cases hmem : .took ticket p ∈ since'
        · simp [h.taken before _ since' ticket p ending hs ho.of_append was rfl hmem]
        · simp [hke k hk fun _ => hmem]
      have hso : ∀ k, s.credits ticket.channel = some k → ending = none := by
        intro k hk
        cases ending with
        | none => rfl
        | some frames =>
          rw [hg ticket p frames was] at hk
          cases hk
      cases hf with
      | wrote hsa =>
        refine hke k' ((congrFun hsa.credits _).symm.trans hk') fun _ hmem => ?_
        exact ho ticket p (by simp) rfl (List.mem_append_left _ hmem)
      | equalled hsa hlate =>
        have hk := (congrFun hsa.credits _).symm.trans hk'
        exact absurd (hi.sent_of_encoding ha was hk) (hlate (hso k' hk) k' hk)
      | failedLast hsa hend =>
        rw [hso k' ((congrFun hsa.credits _).symm.trans hk')] at hend
        cases hend
      | failed _ touch =>
        rw [credits_own touch.credits] at hk'
        cases hk'
      | unsent k _ was' _ _ touch | unsentQueue k _ was' _ _ _ touch =>
        rw [credits_own touch.credits] at hk'
        cases hk'
        exact hback k was'
    · exact hke k' ((hf.credits_other hc).symm.trans hk') fun h => absurd h hc
  · rw [hen] at he
    cases he
  · rcases split_snoc (hl.symm.trans heq) with ⟨after', hs, -⟩ | ⟨hs, rfl, -⟩
    · exact h.wrote before c since ticket' p' after' hs ho hc hmem
    · rcases hf.happening with heq | heq | heq <;> cases heq
      exact h.taken before c since ticket p ending hs.symm ho was hc hmem

theorem Keyframes.step (h : s.Keyframes) (hi : s.Inv) (hg : s.LastGone)
    (ha : AcksWritten s.log) (he : Effect C s t e) : t.Keyframes := by
  cases he with
  | same hs log encoding =>
    refine h.quiet (log.trans (List.append_nil _).symm) encoding nofun nofun fun c k hk => ?_
    exact .inr ⟨nofun, k, (congrFun hs.credits c).symm.trans hk, id⟩
  | opened _ _ touch log encoding =>
    refine h.quiet (log.trans (List.append_nil _).symm) encoding nofun nofun
      (forall_update touch.credits (fun d _ k hk => .inr ⟨nofun, k, hk, id⟩) fun k hk => .inl ?_)
    cases hk
    rfl
  | forgot _ touch log encoding =>
    exact h.quiet (log.trans (List.append_nil _).symm) encoding nofun nofun
      (forall_update touch.credits (fun d _ k hk => .inr ⟨nofun, k, hk, id⟩) nofun)
  | @change c k k' happened entries was hc touch log encoding =>
    refine h.quiet log encoding hc.not_took hc.not_wrote
      (forall_update touch.credits (fun d hd k hk => .inr ⟨fun hmem => ?_, k, hk, id⟩) fun k₁ hk => ?_)
    · exact hd (hc.channel _ hmem)
    by_cases hmem : .keyframe c ∈ happened
    · exact .inl ((hc.keyframe_noted hmem).2.2 k₁ hk)
    · subst hk
      exact .inr ⟨hmem, k, was, hc.keyframe_mono⟩
  | turn idle was ht credits _ _ log encoding =>
    cases ht with
    | skipped =>
      refine h.quiet log (encoding.trans idle.symm) nofun nofun
        (forall_update credits (fun d _ k hk => .inr ⟨nofun, k, hk, id⟩) fun k hk => ?_)
      cases hk
      exact .inr ⟨nofun, _, was, id⟩
    | took | tookLast => exact h.took idle was credits log encoding
  | finished _ was hf log encoding =>
    exact h.finished hi hg ha was hf log encoding

/-! ### The newest screen -/

def Undisturbed (c : Channel) (since : List (Happening P)) : Prop :=
  (∀ p, .presented c p ∉ since) ∧ .hidden c ∉ since

theorem Undisturbed.of_append {since happened : List (Happening P)}
    (h : Undisturbed c (since ++ happened)) : Undisturbed c since ∧ Undisturbed c happened :=
  ⟨⟨fun p hp => h.1 p (List.mem_append_left _ hp), fun hh => h.2 (List.mem_append_left _ hh)⟩,
    ⟨fun p hp => h.1 p (List.mem_append_right _ hp), fun hh => h.2 (List.mem_append_right _ hh)⟩⟩

/-- The screen was encoded since: it was written, or it equalled the client's. -/
def Reached (c : Channel) (p : P.Presentation) (since : List (Happening P)) : Prop :=
  ∃ ticket : FrameTicket, ticket.channel = c ∧ (.wrote ticket p ∈ since ∨ .equalled ticket p ∈ since)

theorem Reached.append {since : List (Happening P)} (h : Reached c p since)
    (happened : List (Happening P)) : Reached c p (since ++ happened) := by
  obtain ⟨ticket, hc, h⟩ := h
  exact ⟨ticket, hc, h.imp (List.mem_append_left _) (List.mem_append_left _)⟩

def EncodesScreen (s : Connection P) (c : Channel) (p : P.Presentation) : Prop :=
  ∃ ticket ending, s.encoding = some (ticket, p, ending) ∧ ticket.channel = c

def Newest (s : Connection P) : Prop :=
  ∀ before c p since, s.log = before ++ .presented c p :: since → Undisturbed c since →
    ∀ k, s.credits c = some k → k.pending = some p ∨ s.EncodesScreen c p ∨ Reached c p since

theorem Newest.step (h : s.Newest) (hlo : s.LogOpened) (hg : s.LastGone) (he : Effect C s t e) : t.Newest := by
  -- a step that keeps the screen of the channel and what is being encoded
  have hke : ∀ {happened before c p since}, t.log = s.log ++ happened →
      t.encoding = s.encoding → t.log = before ++ .presented c p :: since →
      .presented c p ∉ happened → Undisturbed c since → ∀ {k k' : Credit P},
      s.credits c = some k → (Undisturbed c happened → k'.pending = k.pending) →
      k'.pending = some p ∨ t.EncodesScreen c p ∨ Reached c p since := by
    intro happened before c p since hl henc heq hno hsi k k' hk hpending
    obtain ⟨since', hs, rfl⟩ := split_of_append (hl.symm.trans heq) hno
    obtain ⟨hsi', hha⟩ := hsi.of_append
    rw [hpending hha]
    rcases h before c p since' hs hsi' k hk with hp | ⟨ticket, ending, hen, hc⟩ | hr
    · exact .inl hp
    · exact .inr (.inl ⟨ticket, ending, henc.trans hen, hc⟩)
    · exact .inr (.inr (hr.append _))
  intro before c p since heq hsi k' hk'
  cases he with
  | same hsa log encoding =>
    exact hke (log.trans (List.append_nil _).symm) encoding heq nofun hsi
      ((congrFun hsa.credits c).symm.trans hk') fun _ => rfl
  | @opened d new _ touch log encoding =>
    have hd : c ≠ d := by
      rintro rfl
      have hmem : Happening.presented c p ∈ s.log := by rw [← log, heq]; simp
      exact new (hlo _ hmem)
    exact hke (log.trans (List.append_nil _).symm) encoding heq nofun hsi
      ((credits_other touch.credits hd).symm.trans hk') fun _ => rfl
  | @forgot d _ touch log encoding =>
    have hd : c ≠ d := by
      rintro rfl
      rw [credits_own touch.credits] at hk'
      cases hk'
    exact hke (log.trans (List.append_nil _).symm) encoding heq nofun hsi
      ((credits_other touch.credits hd).symm.trans hk') fun _ => rfl
  | @change d k x happened entries was hch touch log encoding =>
    by_cases hmem : .presented c p ∈ happened
    · obtain ⟨-, rfl, hp⟩ := hch.presented_noted hmem
      exact .inl (hp k' ((credits_own touch.credits).symm.trans hk'))
    by_cases hd : c = d
    · subst hd
      obtain rfl : x = some k' := (credits_own touch.credits).symm.trans hk'
      refine hke log encoding heq hmem hsi was fun hu => ?_
      rcases hch.pending_cases with hp | ⟨q, hq⟩ | hh
      · exact hp
      · exact absurd hq (hu.1 q)
      · exact absurd hh hu.2
    · exact hke log encoding heq hmem hsi
        ((credits_other touch.credits hd).symm.trans hk') fun _ => rfl
  | @turn d k x taken idle was ht credits _ _ log encoding =>
    have hno : .presented c p ∉ taken.noted := fun hmem => by
      obtain ⟨_, hne, -⟩ := ht.noted hmem
      cases hne
    obtain ⟨since', hs, rfl⟩ := split_of_append (log.symm.trans heq) hno
    have hidle : ¬s.EncodesScreen c p := by simp [EncodesScreen, idle]
    -- nothing was being encoded, so the screen was pending or had reached the client
    have hold : ∀ k₁, s.credits c = some k₁ →
        k₁.pending = some p ∨ Reached c p (since' ++ taken.noted) := fun k₁ hk₁ =>
      (h before c p since' hs hsi.of_append.1 k₁ hk₁).imp_right fun hr =>
        (hr.resolve_left hidle).append _
    by_cases hd : c = d
    · subst hd
      have hx : x = some k' := (credits_own credits).symm.trans hk'
      rcases hold k was with hp | hr
      · cases ht with
        | skipped =>
          cases hx
          exact .inl hp
        | took q _ _ hpending =>
          obtain rfl := Option.mem_unique hp hpending
          exact .inr (.inl ⟨_, _, encoding, rfl⟩)
        | tookLast => cases hx
      · exact .inr (.inr hr)
    · rcases hold k' ((credits_other credits hd).symm.trans hk') with hp | hr
      · exact .inl hp
      · exact .inr (.inr hr)
  | @finished ticket q ending happening _ was hf log encoding =>
    obtain ⟨since', hs, rfl⟩ := split_of_append (log.symm.trans heq) fun hmem => by
      rcases hf.happening with rfl | rfl | rfl <;> simp at hmem
    have hold : ∀ k₁, s.credits c = some k₁ → k₁.pending = some p ∨
        (ticket.channel = c ∧ q = p) ∨ Reached c p (since' ++ [happening]) := by
      intro k₁ hk₁
      rcases h before c p since' hs hsi.of_append.1 k₁ hk₁ with hp | ⟨_, _, hen, hc⟩ | hr
      · exact .inl hp
      · rw [was] at hen
        cases hen
        exact .inr (.inl ⟨hc, rfl⟩)
      · exact .inr (.inr (hr.append _))
    -- a frame that was written, or a screen that equalled its base, reached the client
    have hdo : ∀ k₁, s.credits c = some k₁ → k'.pending = k₁.pending →
        (happening = .wrote ticket q ∨ happening = .equalled ticket q) →
        k'.pending = some p ∨ t.EncodesScreen c p ∨ Reached c p (since' ++ [happening]) := by
      intro k₁ hk₁ hpending hx
      rcases hold k₁ hk₁ with hp | ⟨hc, rfl⟩ | hr
      · exact .inl (hpending.trans hp)
      · refine .inr (.inr ⟨ticket, hc, ?_⟩)
        rcases hx with rfl | rfl
        · exact .inl (by simp)
        · exact .inr (by simp)
      · exact .inr (.inr hr)
    by_cases hd : c = ticket.channel
    · subst hd
      cases hf with
      | wrote hsa =>
        exact hdo k' ((congrFun hsa.credits _).symm.trans hk') rfl (.inl rfl)
      | equalled hsa =>
        exact hdo k' ((congrFun hsa.credits _).symm.trans hk') rfl (.inr rfl)
      | failedLast hsa hend =>
        obtain ⟨frames, rfl⟩ := Option.isSome_iff_exists.mp hend
        have hk : s.credits ticket.channel = some k' := (congrFun hsa.credits _).symm.trans hk'
        rw [hg ticket q frames was] at hk
        cases hk
      | failed _ touch =>
        rw [credits_own touch.credits] at hk'
        cases hk'
      | unsent k _ was' _ _ touch | unsentQueue k _ was' _ _ _ touch =>
        obtain rfl := Option.some.inj ((credits_own touch.credits).symm.trans hk')
        exact hdo k was' rfl (.inr rfl)
    · rcases hold k' ((hf.credits_other hd).symm.trans hk') with hp | ⟨hc, -⟩ | hr
      · exact .inl hp
      · exact absurd hc.symm hd
      · exact .inr (.inr hr)

/-! ### Every run -/

structure Credited (s : Connection P) : Prop where
  inv : s.Inv
  logged : s.LogOpened
  gone : s.LastGone
  knows : s.KnowsAcked
  increasing : ∀ c, (s.log.filterMap (·.writtenOn c)).Pairwise (· < ·)
  based : s.Based
  newest : s.Newest
  honest : AcksWritten s.log → s.Current ∧ s.Keyframes

theorem Credited.start : ({} : Connection P).Credited := by
  have hc : ∀ c k, ({} : Connection P).credits c ≠ some k := fun c k => by
    simp [credits, State.credits]
  have he : ({} : Connection P).encoding = none := rfl
  refine ⟨.start, by simp [LogOpened], by simp [LastGone, he],
    fun c k hk => absurd hk (hc c k), fun _ => .nil, ⟨by simp [he], by simp⟩,
    by simp [Newest], fun _ => ⟨⟨by simp [he], by simp⟩, ⟨by simp, ?_, by simp⟩⟩⟩
  simp [he]

theorem Credited.step (h : s.Credited) (hs : Step C s e t) : t.Credited where
  inv := h.inv.step hs
  logged := h.logged.step h.inv hs.effect
  gone := h.gone.step h.inv hs.effect
  knows := h.knows.step h.logged hs.effect
  increasing c := increasing_step h.inv hs.effect (h.increasing c)
  based := h.based.step h.knows hs.effect
  newest := h.newest.step h.logged h.gone hs.effect
  honest ha := by
    obtain ⟨happened, hl⟩ := hs.effect.log
    have ha' : AcksWritten s.log := (hl ▸ ha).of_append
    obtain ⟨hc, hke⟩ := h.honest ha'
    exact ⟨hc.step h.inv h.knows ha hs.effect, hke.step h.inv h.gone ha' hs.effect⟩

theorem Credited.run {es : List (Event P)} (hr : Run (Step C) {} es s) : s.Credited :=
  hr.invariant Credited.start Credited.step

/-- In every run, on every channel: one frame at most is written and not acknowledged; frame numbers
increase in the order of writing; each frame written is a keyframe or builds on the last frame
acknowledged when it was taken; and the newest screen, unless it was hidden, reached the client, is
being encoded, or is pending with something that moves it on. If only written frames are acknowledged,
a frame's base is also the last frame acknowledged when it is written, and the first frame that is
taken and written after a keyframe was required is a keyframe. -/
theorem frames_follow_credit {es : List (Event P)} (hrun : Run (Step C) {} es s) :
    (∀ c m n, s.Wrote c m → ¬s.Acked c m → s.Wrote c n → ¬s.Acked c n → m = n) ∧
    (∀ c, (s.log.filterMap (·.writtenOn c)).Pairwise (· < ·)) ∧
    (∀ before ticket p after, s.log = before ++ .wrote ticket p :: after → BaseAt before ticket p) ∧
    (∀ before c p since, s.log = before ++ .presented c p :: since → Undisturbed c since →
      ∀ k, s.state.closing = false → s.credits c = some k →
        Reached c p since ∨ s.EncodesScreen c p ∨ k.pending = some p ∧ s.Awaits c k) ∧
    (AcksWritten s.log →
      (∀ before ticket p after, s.log = before ++ .wrote ticket p :: after →
        ticket.base = none ∨ ticket.base = lastAcked ticket.channel before) ∧
      ∀ before c since ticket p after,
        s.log = before ++ .keyframe c :: since ++ .wrote ticket p :: after → Owed c since →
        ticket.channel = c → .took ticket p ∈ since → ticket.base = none) := by
  have h : s.Credited := .run hrun
  refine ⟨fun c m n hm hm' hn hn' => ?_, h.increasing, h.based.wrote,
    fun before c p since heq hs k ho hk => ?_, fun ha => ⟨?_, ?_⟩⟩
  · exact (h.inv.channels c).single m n ⟨.inl hm, hm'⟩ ⟨.inl hn, hn'⟩
  · rcases h.newest before c p since heq hs k hk with hp | he | hr
    · exact .inr (.inr ⟨hp, h.inv.awaits ho hk (.inl (by simp [hp]))⟩)
    · exact .inr (.inl he)
    · exact .inl hr
  · exact (h.honest ha).1.wrote
  · exact (h.honest ha).2.wrote

/-- A channel whose first frame is acknowledged and whose second screen is being encoded on it, when
a keyframe is required. -/
def keyframeWhileEncoding : List (Event plain) :=
  [.openChannel 1, .present 1 (), .take .l2, .encoded (some ⟨0, ()⟩), .acknowledge 1 1,
    .present 1 (), .take .l2, .requireKeyframe 1, .encoded (some ⟨0, ()⟩)]

def keyframeLog : List (Happening plain) :=
  [.presented 1 (), .took ⟨1, 1, none⟩ (), .wrote ⟨1, 1, none⟩ (), .acknowledged 1 1,
    .presented 1 (), .took ⟨1, 2, some 1⟩ (), .keyframe 1, .wrote ⟨1, 2, some 1⟩ ()]

theorem run_keyframeWhileEncoding :
    ∃ s, Run (Step plainCard) {} keyframeWhileEncoding s ∧ s.log = keyframeLog := by
  have hr : ∃ s, keyframeWhileEncoding.foldlM (event plainCard) {} = some s ∧ s.log = keyframeLog := ⟨_, rfl, rfl⟩
  obtain ⟨s, hs, hl⟩ := hr
  exact ⟨s, Run.of_foldlM hs, hl⟩

theorem frames_follow_credit_second : ∃ es s, Run (Step plainCard) {} es s ∧
    s.Wrote 1 2 ∧ (s.log.filterMap (·.writtenOn 1)).Pairwise (· < ·) := by
  obtain ⟨s, hr, hl⟩ := run_keyframeWhileEncoding
  refine ⟨_, s, hr, ⟨⟨1, 2, some 1⟩, (), ?_, rfl, rfl⟩, (frames_follow_credit hr).2.1 1⟩
  rw [hl]
  simp [keyframeLog]

/-- A keyframe is required while a frame is being encoded. The next frame written on the channel is
that one, and it is no keyframe. -/
theorem written_after_request_not_keyframe : ∃ es s before ticket after, Run (Step plainCard) {} es s ∧
    s.log = before ++ .keyframe 1 :: .wrote ticket () :: after ∧ ticket.channel = 1 ∧
    ticket.base = some 1 := by
  obtain ⟨s, hr, hl⟩ := run_keyframeWhileEncoding
  exact ⟨_, s, keyframeLog.take 6, ⟨1, 2, some 1⟩, [], hr, hl, rfl, rfl⟩

end Connection

end SpaceTerm.Outbox
