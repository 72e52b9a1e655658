import Mathlib.Logic.Function.Basic
import Mathlib.Tactic.Simps.Basic
import SpaceTerm.Outbox.Connection

/-! # What one step does to the screens of a connection

A slot without its semantics and timers is a `Credit`: what decides which frames its channel gets. An
event of the connection touches the credit of one channel at most, and `Effect` lists how
(`Step.effect`). Everything about frame credit and about the delivery of last events follows from
these cases. -/

namespace SpaceTerm.Outbox
open Wire

variable {P : Payloads} {C : Postcard P} (s : State P) (c : Channel)

@[ext]
structure Credit (P : Payloads) where
  pending : Option P.Presentation
  queued : Bool
  visible : Bool
  next : Nat
  sent : Option Nat
  acknowledged : Option Nat
  keyframe : Bool
  ending : Option (Frames P)

@[simps]
def Slot.credit (slot : Slot P) : Credit P :=
  ⟨slot.pending, slot.queued, slot.visible, slot.next, slot.sent, slot.acknowledged, slot.keyframe, slot.ending⟩

def State.credits (s : State P) (c : Channel) : Option (Credit P) := s.channels[c]?.map Slot.credit

def Credit.fresh : Credit P := Slot.fresh.credit

/-- The screen being encoded. -/
def Connection.encoding (s : Connection P) : Option (FrameTicket × P.Presentation × Option (Frames P)) :=
  match s.work with
  | some (.present ticket presentation ending) => some (ticket, presentation, ending)
  | _ => none

/-! ### Steps that leave every credit as it is -/

structure Same (s t : State P) : Prop where
  credits : t.credits = s.credits
  queued : ∀ c, (s.credits c).isSome → Entry.frame c ∈ s.l1 → Entry.frame c ∈ t.l1
  closing : s.closing = true → t.closing = true

structure Pushed (s t : State P) (entries : List (Entry P)) : Prop where
  l1 : t.closing = true ∧ t.l1 = s.l1 ∨ t.closing = s.closing ∧ t.l1 = s.l1 ++ entries
  closing : s.closing = true → t.closing = true

namespace Same

theorem refl : Same s s := ⟨rfl, fun _ _ h => h, id⟩

theorem trans {s t u : State P} (h₁ : Same s t) (h₂ : Same t u) : Same s u where
  credits := h₂.credits.trans h₁.credits
  queued c hc h := h₂.queued c (by rw [h₁.credits]; exact hc) (h₁.queued c hc h)
  closing h := h₂.closing (h₁.closing h)

theorem of_pushed {s t : State P} {entries : List (Entry P)} (hc : t.channels = s.channels)
    (h : Pushed s t entries) : Same s t where
  credits := by funext c; simp [State.credits, hc]
  queued c _ hmem := by
    rcases h.l1 with ⟨_, hl1⟩ | ⟨_, hl1⟩ <;> rw [hl1]
    · exact hmem
    · exact List.mem_append_left _ hmem
  closing := h.closing

theorem of_eq {s t : State P} (hc : t.channels = s.channels) (hl1 : t.l1 = s.l1)
    (hcl : t.closing = s.closing) : Same s t :=
  of_pushed hc (show Pushed s t [] from
    ⟨.inr ⟨hcl, by simp [hl1]⟩, fun h => hcl ▸ h⟩)

end Same

theorem Pushed.refl : Pushed s s [] := ⟨.inr ⟨rfl, by simp⟩, id⟩

/-- No slot changes, and no semantic turn is queued. -/
structure Untouched (s t : State P) : Prop where
  channels : t.channels = s.channels
  l1 : ∃ entries, t.l1 = s.l1 ++ entries ∧ ∀ c, Entry.semantics c ∉ entries
  closing : s.closing = true → t.closing = true

namespace Untouched

theorem of_eq {s t : State P} (hc : t.channels = s.channels) (hl1 : t.l1 = s.l1)
    (hcl : s.closing = true → t.closing = true) : Untouched s t :=
  ⟨hc, ⟨[], by simp [hl1], by simp⟩, hcl⟩

theorem refl : Untouched s s := .of_eq rfl rfl id

theorem trans {s t u : State P} (h₁ : Untouched s t) (h₂ : Untouched t u) : Untouched s u := by
  obtain ⟨entries, hl, he⟩ := h₁.l1
  obtain ⟨entries', hl', he'⟩ := h₂.l1
  refine ⟨h₂.channels.trans h₁.channels, ⟨entries ++ entries', by rw [hl', hl, List.append_assoc], fun c hc => ?_⟩,
    fun h => h₂.closing (h₁.closing h)⟩
  rcases List.mem_append.mp hc with hc | hc
  · exact he c hc
  · exact he' c hc

theorem same {s t : State P} (h : Untouched s t) : Same s t where
  credits := by funext c; simp [State.credits, h.channels]
  queued c _ hmem := by
    obtain ⟨entries, hl, -⟩ := h.l1
    exact hl ▸ List.mem_append_left _ hmem
  closing := h.closing

end Untouched

/-- The semantics of channel `c` change, and its turn is queued. -/
inductive Semantic (c : Channel) : State P → State P → Prop
  | refl (s : State P) : Semantic c s s
  | slot {s : State P} {slot : Slot P} (hs : s.channels[c]? = some slot) (semantics : SemanticSlot P) :
      Semantic c s (s.setSlot c { slot with semantics })
  | turn (C : Postcard P) (s : State P) : Semantic c s (s.pushL1 C (.semantics c)).2
  | trans {s t u : State P} (h : Semantic c s t) (h' : Semantic c t u) : Semantic c s u

namespace State

theorem credits_setSlot (slot : Slot P) :
    (s.setSlot c slot).credits = Function.update s.credits c (some slot.credit) := by
  funext d
  by_cases hd : d = c
  · subst hd; simp [credits, setSlot]
  · have hc : ¬c = d := fun h => hd h.symm
    simp [credits, setSlot, Std.TreeMap.getElem?_insert, hd, hc]

theorem credits_forget : (s.forget c).credits = Function.update s.credits c none := by
  funext d
  by_cases hd : d = c
  · subst hd; simp [credits, forget]
  · have hc : ¬c = d := fun h => hd h.symm
    simp [credits, forget, Std.TreeMap.getElem?_erase, hd, hc]

variable {slot : Slot P}

variable {s c} in
theorem credits_of_get (h : s.channels[c]? = some slot) : s.credits c = some slot.credit := by simp [credits, h]

variable {s c} in
theorem same_setSlot {slot slot' : Slot P} (h : s.channels[c]? = some slot) (hc : slot'.credit = slot.credit) :
    Same s (s.setSlot c slot') where
  credits := by rw [credits_setSlot, hc, ← credits_of_get h, Function.update_eq_self]
  queued _ _ h := h
  closing h := h

theorem get_setSlot (slot : Slot P) :
    (s.setSlot c slot).channels[c]? = some slot := by simp [setSlot]

/-! ### Pushing -/

theorem overflow_pushed (entries : List (Entry P)) :
    Pushed s (s.overflow C).2 entries ∧ (s.overflow C).2.channels = s.channels := by
  unfold overflow
  split
  · rename_i h
    exact ⟨⟨.inl ⟨h, rfl⟩, id⟩, rfl⟩
  · split <;> exact ⟨⟨.inl ⟨rfl, rfl⟩, fun _ => rfl⟩, rfl⟩

theorem pushL1_pushed (entry : Entry P) :
    Pushed s (s.pushL1 C entry).2 [entry] ∧ (s.pushL1 C entry).2.channels = s.channels := by
  unfold pushL1
  split
  · rename_i h
    exact ⟨⟨.inl ⟨h, rfl⟩, id⟩, rfl⟩
  split
  · exact overflow_pushed s _
  · exact ⟨⟨.inr ⟨rfl, rfl⟩, id⟩, rfl⟩

theorem untouched_overflow : Untouched s (s.overflow C).2 := by
  unfold overflow
  split
  · exact .refl s
  · split <;> exact .of_eq rfl rfl fun _ => rfl

theorem untouched_pushL1 (entry : Entry P) (h : ∀ c, .semantics c ≠ entry) :
    Untouched s (s.pushL1 C entry).2 := by
  unfold pushL1
  split
  · exact .refl s
  split
  · exact untouched_overflow s
  · exact ⟨rfl, ⟨[entry], rfl, by simpa using h⟩, id⟩

theorem same_pushL1 (entry : Entry P) : Same s (s.pushL1 C entry).2 :=
  .of_pushed (pushL1_pushed s entry).2 (pushL1_pushed s entry).1

theorem untouched_pushL0 (m : CoreMessage P) : Untouched s (s.pushL0 C m).2 := by
  unfold pushL0
  split
  · exact .refl s
  split
  · exact .refl s
  split
  · exact untouched_overflow s
  · exact .of_eq rfl rfl id

theorem same_answered (reply : Option RequestId) : Same s (s.answered reply) := by
  cases reply <;> exact .of_eq rfl rfl rfl

/-! ### Semantics -/

variable {c} in
theorem same_of_semantic {s t : State P} (h : Semantic c s t) : Same s t := by
  induction h with
  | refl s => exact .refl s
  | slot hs semantics => exact same_setSlot hs rfl
  | turn C s => exact same_pushL1 s _
  | trans _ _ ih ih' => exact ih.trans ih'

theorem semantic_queueSemantics : Semantic c s (s.queueSemantics C c).2 := by
  unfold queueSemantics
  split
  · exact .refl s
  rename_i slot hs
  split
  · exact .refl s
  · exact (Semantic.slot hs _).trans (.turn C _)

variable {s c} in
theorem semantic_setDemand (h : s.channels[c]? = some slot) (demand : Demand P) :
    Semantic c s ((s.setDemand c slot demand).queueSemantics C c).2 :=
  (Semantic.slot h _).trans (semantic_queueSemantics _ c)

theorem queueSemantics_pushed :
    ∃ entries, Pushed s (s.queueSemantics C c).2 entries := by
  unfold queueSemantics
  split
  · exact ⟨[], .refl s⟩
  rename_i slot hs
  split
  · exact ⟨[], .refl s⟩
  have h := (pushL1_pushed (C := C) (s.setSlot c
    { slot with semantics := { slot.semantics with queued := true } }) (.semantics c)).1
  exact ⟨_, h.l1, h.closing⟩

theorem semantic_startSemantics (generation : Nat) :
    Semantic c s (s.startSemantics c generation).2 := by
  unfold startSemantics
  split
  · exact .refl s
  rename_i slot hs
  split
  · exact .refl s
  · exact .slot hs _

theorem semantic_endSemantics : Semantic c s (s.endSemantics c) := by
  unfold endSemantics
  split
  · exact .refl s
  · rename_i slot hs
    exact .slot hs _

theorem semantic_offerSemantics (model : P.Model) :
    Semantic c s (s.offerSemantics C c model).2 := by
  unfold offerSemantics
  split
  · exact .refl s
  rename_i slot hs
  split
  · exact .refl s
  split
  · exact .refl s
  · exact semantic_setDemand hs _

theorem semantic_acknowledgeSemantics (generation revision : Nat) :
    Semantic c s (s.acknowledgeSemantics C c generation revision).2 := by
  unfold acknowledgeSemantics
  split
  · exact .refl s
  rename_i slot hs
  split
  · exact .refl s
  split
  · exact .refl s
  split
  · exact .refl s
  dsimp only
  split
  · split <;> exact .refl s
  split
  · exact semantic_setDemand hs _
  · split <;> exact .refl s

theorem semantic_takeSemantics : Semantic c s (s.takeSemantics c).2 := by
  unfold takeSemantics
  split
  · exact .refl s
  rename_i slot hs
  dsimp only
  split
  · exact .slot hs _
  split
  · exact .slot hs _
  split
  · split <;> exact (Semantic.slot hs _).trans (.slot (get_setSlot ..) _)
  split
  · exact .slot hs _
  · split <;> exact (Semantic.slot hs _).trans (.slot (get_setSlot ..) _)

variable {s c} in
theorem get_of_flight {serial : Nat} {demand : Demand P}
    {flight : InFlight P} (h : s.flight c serial = some (slot, demand, flight)) :
    s.channels[c]? = some slot := by
  simp only [State.flight, Option.bind_eq_bind, Option.bind_eq_some_iff] at h
  obtain ⟨slot', hs, demand', -, flight', -, h⟩ := h
  split at h
  · simp only [Option.some.injEq, Prod.mk.injEq] at h
    rw [hs, h.1]
  · cases h

theorem semantic_semanticsTaken (serial : Nat) (rest : Option P.Encoding) :
    Semantic c s (s.semanticsTaken C c serial rest).2 := by
  unfold semanticsTaken
  split
  · exact .refl s
  rename_i slot demand flight hflight
  have hqueue := fun demand : Demand P => semantic_setDemand (C := C) (get_of_flight hflight) demand
  dsimp only
  split <;> rename_i he
  · exact congrArg Prod.snd he ▸ hqueue _
  · exact congrArg Prod.snd he ▸ hqueue _

theorem semantic_semanticsUnsent (serial : Nat) :
    Semantic c s (s.semanticsUnsent C c serial) := by
  unfold semanticsUnsent
  split
  · exact .refl s
  · rename_i slot demand flight hflight
    exact semantic_setDemand (get_of_flight hflight) _

end State

/-! ### Producers that touch no screen -/

theorem untouched_begin (id : RequestId) : Untouched s (begin s id).2 := by
  unfold begin
  split
  · exact .refl s
  · dsimp only
    split <;> exact .of_eq rfl rfl fun h => h

theorem untouched_reply (id : RequestId) (result) : Untouched s (reply C s id result).2 := by
  unfold reply
  split
  · exact .refl s
  split
  · exact .refl s
  split
  · exact .refl s
  split
  · split
    · exact s.untouched_overflow
    · exact .of_eq rfl rfl fun h => h
  rename_i frames _ _ _ _
  have h := s.untouched_pushL1 (C := C) (.message frames (some id)) (by simp)
  split
  · rename_i he
    rw [he] at h
    exact h.trans (.of_eq rfl rfl fun h => h)
  · exact h

theorem untouched_replyOrRefuse (id : RequestId) (result) :
    Untouched s (replyOrRefuse C s id result).2 := by
  have h := untouched_reply (C := C) s id result
  unfold replyOrRefuse
  split <;> rename_i he
  · rw [he] at h; exact h.trans (untouched_reply _ _ _)
  · rw [he] at h; exact h.trans (untouched_reply _ _ _)
  · exact h

theorem untouched_pane (event : P.PaneEvent) : Untouched s (pane C s c event).2 := by
  unfold pane
  split
  · exact .refl s
  · exact s.untouched_pushL1 _ (by simp)

theorem untouched_inventory (i : P.Inventory) (n : Nat) : Untouched s (inventory C s i n).2 := by
  unfold inventory
  split
  · exact .refl s
  split
  · exact .refl s
  split
  · exact .of_eq rfl rfl fun h => h
  have h := s.untouched_pushL1 (C := C) .inventory (by simp)
  split
  · rename_i he
    rw [he] at h
    exact h.trans (.of_eq rfl rfl fun h => h)
  · exact h

theorem untouched_updateFacts (facts : UpdateFacts P) : Untouched s (updateFacts C s facts).2 := by
  unfold updateFacts
  split
  · exact .refl s
  split
  · exact .refl s
  split
  · exact .of_eq rfl rfl fun h => h
  have h := s.untouched_pushL1 (C := C) .updateFacts (by simp)
  split
  · rename_i he
    rw [he] at h
    exact h.trans (.of_eq rfl rfl fun h => h)
  · exact h

theorem untouched_goodbye (fatal : Fatal) : Untouched s (goodbye C s fatal).2 := by
  unfold goodbye
  split
  · exact .refl s
  split
  · exact .refl s
  · exact .of_eq rfl rfl fun _ => rfl

theorem semantic_semantics (model : P.Model) :
    Semantic c s (semantics C s c model).2 := by
  unfold semantics
  split
  · exact .refl s
  · exact s.semantic_offerSemantics c model

theorem same_written (now : Nat) : Same s (written s now) where
  credits := by
    funext c
    simp only [State.credits, written, Std.TreeMap.getElem?_map, Option.map_map]
    congr 1
    funext slot
    rcases h : slot.inFlight with _ | ⟨sent, _ | _⟩ <;> simp [Slot.credit, Slot.sent, h]
  queued _ _ h := h
  closing h := h

/-! ### Producers that change one credit -/

/-- How a producer changes the credit of channel `c`, what is noted and what it queues in L1. -/
inductive Change (c : Channel) (k : Credit P) :
    Option (Credit P) → List (Happening P) → List (Entry P) → Prop
  /-- `end` with nothing left to write first. -/
  | endNow (frames : Frames P) (hend : k.ending = none) (hpending : k.pending = none)
      (hsent : k.sent = none) : Change c k none [] [.message frames none]
  | endLater (frames : Frames P) (hend : k.ending = none)
      (hleft : k.pending.isSome ∨ k.sent.isSome) :
      Change c k (some { k with ending := some frames }) [] []
  /-- Showing a channel can queue its semantic turn. -/
  | shown (entries : List (Entry P)) : Change c k (some { k with visible := true }) [] entries
  | hidden (hleft : k.sent.isSome ∨ k.ending = none) :
      Change c k (some { k with visible := false, pending := none }) [.hidden c] []
  | hiddenEnd (frames : Frames P) (hend : k.ending = some frames) (hsent : k.sent = none) :
      Change c k none [.hidden c] [.message frames none]
  | presented (p : P.Presentation) (hvisible : k.visible = true) (hend : k.ending = none)
      (hwait : k.queued = true ∨ k.sent.isSome) :
      Change c k (some { k with pending := some p }) [.presented c p] []
  | presentedQueue (p : P.Presentation) (hvisible : k.visible = true) (hend : k.ending = none)
      (hqueued : k.queued = false) (hsent : k.sent = none) :
      Change c k (some { k with pending := some p, queued := true }) [.presented c p] [.frame c]
  | keyframe : Change c k (some { k with keyframe := true }) [.keyframe c] []
  | acknowledged (n : Nat) (hsent : k.sent = some n)
      (hwait : k.pending.isSome ∧ k.queued = true ∨ k.pending = none ∧ k.ending = none) :
      Change c k (some { k with sent := none, acknowledged := some n }) [.acknowledged c n] []
  | acknowledgedQueue (n : Nat) (hsent : k.sent = some n) (hpending : k.pending.isSome)
      (hqueued : k.queued = false) :
      Change c k (some { k with sent := none, acknowledged := some n, queued := true })
        [.acknowledged c n] [.frame c]
  | acknowledgedEnd (n : Nat) (frames : Frames P) (hsent : k.sent = some n)
      (hpending : k.pending = none) (hend : k.ending = some frames) :
      Change c k none [.acknowledged c n] [.message frames none]

/-- The credit of `c` becomes `k`, every other credit stays, and `entries` are queued. -/
structure Touch (s t : State P) (c : Channel) (k : Option (Credit P)) (entries : List (Entry P)) :
    Prop where
  credits : t.credits = Function.update s.credits c k
  pushed : Pushed s t entries

inductive Changed (s t : State P) (c : Channel) : List (Happening P) → Prop
  | same (h : Same s t) : Changed s t c []
  | change {k : Credit P} {k' : Option (Credit P)} {log : List (Happening P)}
      {entries : List (Entry P)} (was : s.credits c = some k) (h : Change c k k' log entries)
      (touch : Touch s t c k' entries) : Changed s t c log

namespace State

theorem touch_setSlot (slot : Slot P) :
    Touch s (s.setSlot c slot) c (some slot.credit) [] :=
  ⟨credits_setSlot s c slot, ⟨.inr ⟨rfl, (List.append_nil _).symm⟩, id⟩⟩

theorem touch_forget : Touch s (s.forget c) c none [] :=
  ⟨credits_forget s c, ⟨.inr ⟨rfl, (List.append_nil _).symm⟩, id⟩⟩

theorem touch_setSlot_pushL1 (slot : Slot P) (entry : Entry P) :
    Touch s ((s.setSlot c slot).pushL1 C entry).2 c (some slot.credit) [entry] where
  credits := by rw [(same_pushL1 _ entry).credits, credits_setSlot]
  pushed := ⟨(pushL1_pushed (s.setSlot c slot) entry).1.l1, (pushL1_pushed (s.setSlot c slot) entry).1.closing⟩

theorem touch_forget_pushL1 (entry : Entry P) :
    Touch s ((s.forget c).pushL1 C entry).2 c none [entry] where
  credits := by rw [(same_pushL1 _ entry).credits, credits_forget]
  pushed := ⟨(pushL1_pushed (s.forget c) entry).1.l1, (pushL1_pushed (s.forget c) entry).1.closing⟩

end State

theorem Slot.sent_eq_none {slot : Slot P} : slot.sent = none ↔ slot.inFlight = none := by
  simp [Slot.sent]

theorem Slot.sent_isSome {slot : Slot P} : slot.sent.isSome = slot.inFlight.isSome := by
  simp [Slot.sent]

theorem changed_endChannel (event : P.PaneEvent) :
    Changed s (endChannel C s c event).2 c [] := by
  unfold endChannel
  split
  · exact .same (.refl s)
  rename_i frames _
  split
  · exact .same (.refl s)
  split
  · refine .same (.trans ?_ (State.same_pushL1 _ _))
    exact .of_eq rfl rfl rfl
  rename_i slot hs
  split
  · exact .same (.refl s)
  rename_i hend
  have hend : slot.ending = none := by simpa using hend
  dsimp only
  split
  · rename_i hleft
    simp only [Bool.and_eq_true, Option.isNone_iff_eq_none] at hleft
    exact .change (State.credits_of_get hs)
      (.endNow frames hend hleft.1 (Slot.sent_eq_none.mpr hleft.2))
      (s.touch_forget_pushL1 c _)
  rename_i hleft
  refine .change (State.credits_of_get hs) (.endLater frames hend ?_)
    (s.touch_setSlot c _)
  simp only [Bool.and_eq_true, Option.isNone_iff_eq_none, not_and_or] at hleft
  rcases hleft with h | h
  · exact .inl (Option.isSome_iff_ne_none.mpr h)
  · exact .inr (by rw [Slot.credit, Slot.sent_isSome]; exact Option.isSome_iff_ne_none.mpr h)

theorem changed_view (visible : Bool) :
    Changed s (view C s c visible) c
      (if s.channels.contains c && !visible then [.hidden c] else []) := by
  unfold view
  split
  · rename_i hs
    rw [if_neg (by simp [Std.TreeMap.contains_eq_isSome_getElem?, hs])]
    exact .same (.refl s)
  rename_i slot hs
  have hi : s.channels.contains c = true := by
    simp [Std.TreeMap.contains_eq_isSome_getElem?, hs]
  rw [hi]
  cases visible with
  | true =>
    rw [if_pos rfl]
    obtain ⟨entries, hp⟩ :=
      State.queueSemantics_pushed (C := C) (s.setSlot c { slot with visible := true }) c
    refine .change (State.credits_of_get hs) (.shown entries) ⟨?_, hp.l1, hp.closing⟩
    rw [(State.same_of_semantic (State.semantic_queueSemantics _ c)).credits, State.credits_setSlot]
    rfl
  | false =>
    rw [if_neg (by simp), if_pos (by simp)]
    dsimp only
    split
    · rename_i frames hsent hend
      exact .change (State.credits_of_get hs)
        (.hiddenEnd frames hend (Slot.sent_eq_none.mpr hsent)) (s.touch_forget_pushL1 c _)
    rename_i hno
    refine .change (State.credits_of_get hs) (.hidden ?_) (s.touch_setSlot c _)
    rcases hsent : slot.inFlight with _ | sent
    · right
      rcases hend : slot.ending with _ | frames
      · exact hend
      · exact absurd hend (hno frames hsent)
    · left
      rw [Slot.credit, Slot.sent_isSome, hsent]
      rfl

theorem changed_present (p : P.Presentation) :
    Changed s (present C s c p).2 c (if s.presents c then [.presented c p] else []) := by
  generalize hl : (if s.presents c then [Happening.presented c p] else []) = log
  unfold State.presents at hl
  unfold present
  split
  · rename_i hc
    rw [if_neg (by simp [hc])] at hl
    exact hl ▸ .same (.refl s)
  rename_i hc
  split
  · rename_i hs
    rw [if_neg (by simp [hs])] at hl
    exact hl ▸ .same (.refl s)
  rename_i slot hs
  split
  · rename_i h
    rw [if_neg (by
      simpa [hs, hc, imp_iff_not_or, Option.isSome_iff_ne_none] using h)] at hl
    exact hl ▸ .same (.refl s)
  rename_i h
  simp only [Bool.or_eq_true, Bool.not_eq_true', not_or, Bool.not_eq_false,
    Bool.not_eq_true, Option.isSome_eq_false_iff, Option.isNone_iff_eq_none] at h
  rw [if_pos (by simp [hs, hc, h.1, h.2])] at hl
  subst hl
  dsimp only
  split
  · rename_i hq
    simp only [Bool.and_eq_true, Bool.not_eq_true', Option.isNone_iff_eq_none] at hq
    exact .change (State.credits_of_get hs)
      (.presentedQueue p h.1 h.2 hq.1 (Slot.sent_eq_none.mpr hq.2))
      (s.touch_setSlot_pushL1 c _ _)
  rename_i hq
  refine .change (State.credits_of_get hs) (.presented p h.1 h.2 ?_)
    (s.touch_setSlot c _)
  rw [Slot.credit, Slot.sent_isSome]
  cases hqueued : slot.queued
  · exact .inr (by simpa [hqueued, Option.isSome_iff_ne_none] using hq)
  · exact .inl rfl

theorem changed_requireKeyframe :
    Changed s (requireKeyframe s c) c (if s.channels.contains c then [.keyframe c] else []) := by
  unfold requireKeyframe
  split
  · rename_i hs
    rw [if_neg (by simp [Std.TreeMap.contains_eq_isSome_getElem?, hs])]
    exact .same (.refl s)
  · rename_i slot hs
    rw [if_pos (by simp [Std.TreeMap.contains_eq_isSome_getElem?, hs])]
    exact .change (State.credits_of_get hs) .keyframe (s.touch_setSlot c _)

theorem changed_acknowledge (n : Nat) :
    Changed s (acknowledge C s c n).2 c (if s.awaits c n then [.acknowledged c n] else []) := by
  generalize hl : (if s.awaits c n then [Happening.acknowledged (P := P) c n] else []) = log
  unfold State.awaits at hl
  unfold acknowledge
  split
  · rename_i hs
    rw [if_neg (by simp [hs])] at hl
    exact hl ▸ .same (.refl s)
  rename_i slot hs
  split
  · rename_i h
    rw [if_neg (by simpa [hs] using h)] at hl
    exact hl ▸ .same (.refl s)
  rename_i h
  have hsent : slot.sent = some n := by simpa using h
  have hw := State.credits_of_get hs
  rw [if_pos (by simp [hs, hsent])] at hl
  subst hl
  dsimp only
  split
  · rename_i hpending
    split
    · rename_i hqueued
      exact .change hw (.acknowledged n hsent (.inl ⟨hpending, hqueued⟩)) (s.touch_setSlot c _)
    rename_i hqueued
    exact .change hw (.acknowledgedQueue n hsent hpending (Bool.eq_false_of_not_eq_true hqueued))
      (s.touch_setSlot_pushL1 c _ _)
  rename_i hpending
  have hpending : slot.pending = none := by simpa using hpending
  split
  · rename_i frames hend
    exact .change hw (.acknowledgedEnd n frames hsent hpending hend)
      (s.touch_forget_pushL1 c _)
  · rename_i hend
    exact .change hw (.acknowledged n hsent (.inr ⟨hpending, hend⟩)) (s.touch_setSlot c _)

/-! ### Taking -/

def Credit.ticket (k : Credit P) (c : Channel) : FrameTicket :=
  ⟨c, k.next, if k.keyframe then none else k.acknowledged⟩

def Credit.taken (k : Credit P) : Credit P :=
  { k with pending := none, queued := false, next := k.next + 1, keyframe := false, sent := some k.next }

/-- How the turn of a frame entry of `c` ends: what it takes, and what becomes of the credit. -/
inductive FrameTurn (c : Channel) (k : Credit P) : Taken P → Option (Credit P) → Prop
  | skipped (h : k.visible = false ∨ k.sent.isSome ∨ k.pending = none) :
      FrameTurn c k .skip (some { k with queued := false })
  | took (p : P.Presentation) (hvisible : k.visible = true) (hsent : k.sent = none)
      (hpending : k.pending = some p) (hend : k.ending = none) :
      FrameTurn c k (.present (k.ticket c) p none) (some k.taken)
  | tookLast (p : P.Presentation) (frames : Frames P) (hvisible : k.visible = true)
      (hsent : k.sent = none) (hpending : k.pending = some p) (hend : k.ending = some frames) :
      FrameTurn c k (.present (k.ticket c) p (some frames)) none

/-- How `take` acts on the screens. -/
inductive TakenAs (s t : State P) : Option (Taken P) → Prop
  | other {taken : Option (Taken P)} (h : Same s t)
      (hother : ∀ ticket p ending, taken ≠ some (.present ticket p ending)) : TakenAs s t taken
  | turn {c : Channel} {k : Credit P} {k' : Option (Credit P)} {taken : Taken P}
      (was : s.credits c = some k) (h : FrameTurn c k taken k')
      (credits : t.credits = Function.update s.credits c k')
      (l1 : s.l1 = .frame c :: t.l1) (closing : t.closing = s.closing) : TakenAs s t (some taken)

namespace State

theorem keepRest_same (rest : Frames P) (reply : Option RequestId)
    (priority : Priority) : Same s (s.keepRest rest reply priority) := by
  cases priority <;> exact .of_eq rfl rfl rfl

theorem first_same (frames : Frames P) (reply : Option RequestId)
    (priority : Priority) : Same s (s.first frames reply priority).2 := by
  unfold first
  split
  · exact s.same_answered reply
  split
  · exact s.same_answered reply
  · exact s.keepRest_same _ _ _

theorem first_ne_present (frames : Frames P) (reply : Option RequestId)
    (priority : Priority) (ticket : FrameTicket) (p : P.Presentation) (ending : Option (Frames P)) :
    (s.first frames reply priority).1 ≠ .present ticket p ending := by
  unfold first
  split
  · simp
  · split <;> simp

variable {l1 : List (Entry P)} {s : State P}

theorem same_pop {entry : Entry P} (h : s.l1 = entry :: l1)
    (hentry : ∀ c, entry = .frame c → s.credits c = none) : Same s { s with l1 } where
  credits := rfl
  queued c hc hmem := by
    rw [h] at hmem
    rcases List.mem_cons.mp hmem with he | hmem
    · rw [hentry c he.symm] at hc
      cases hc
    · exact hmem
  closing h := h

theorem present_cases {c : Channel} (hl1 : s.l1 = .frame c :: l1) :
    TakenAs s ({ s with l1 }.present c).2 (some ({ s with l1 }.present c).1) := by
  unfold present
  split
  · rename_i hs
    refine .other (same_pop hl1 fun d hd => ?_) (by simp)
    obtain rfl : c = d := by simpa using hd
    simpa [credits] using hs
  rename_i slot hs
  have hw : s.credits c = some slot.credit := credits_of_get hs
  dsimp only
  split
  · rename_i h
    refine .turn hw (.skipped ?_) (credits_setSlot _ c _) hl1 rfl
    rw [Slot.credit, Slot.sent_isSome]
    simp only [Bool.or_eq_true, Bool.not_eq_true'] at h
    exact h.imp_right .inl
  rename_i h
  simp only [Bool.or_eq_true, Bool.not_eq_true', not_or, Bool.not_eq_false,
    Bool.not_eq_true, Option.isSome_eq_false_iff, Option.isNone_iff_eq_none] at h
  have hsent : slot.credit.sent = none := Slot.sent_eq_none.mpr h.2
  split
  · rename_i hpending
    exact .turn hw (.skipped (.inr (.inr hpending))) (credits_setSlot _ c _) hl1 rfl
  rename_i p hpending
  split
  · rename_i frames hend
    exact .turn hw (.tookLast p frames h.1 hsent hpending hend) (credits_forget _ c) hl1 rfl
  · rename_i hend
    exact .turn hw (.took p h.1 hsent hpending hend) (credits_setSlot _ c _) hl1 rfl

theorem turn_cases {entry : Entry P} (hl1 : s.l1 = entry :: l1) :
    TakenAs s ({ s with l1 }.turn entry).2 (some ({ s with l1 }.turn entry).1) := by
  have hp : (∀ c, entry ≠ .frame c) → Same s { s with l1 } := fun h =>
    same_pop hl1 fun c hc => absurd hc (h c)
  have hf : (∀ c, entry ≠ .frame c) → ∀ (t : State P) frames reply,
      t.channels = s.channels → t.l1 = l1 → t.closing = s.closing →
      TakenAs s (t.first frames reply .l1).2 (some (t.first frames reply .l1).1) := by
    intro h t frames reply hc ht hcl
    have hs : Same s t := (hp h).trans (.of_eq hc ht hcl)
    exact .other (hs.trans (t.first_same frames reply .l1))
      fun ticket p ending he => t.first_ne_present _ _ _ ticket p ending (Option.some.inj he)
  cases entry with
  | message frames reply | inventory | updateFacts => exact hf (by simp) _ _ _ rfl rfl rfl
  | frame c => exact present_cases hl1
  | semantics c =>
    have h := (hp (by simp)).trans (same_of_semantic (semantic_takeSemantics { s with l1 } c))
    unfold turn
    dsimp only
    split <;> rename_i he <;> rw [he] at h
    · exact .other h (by simp)
    · exact .other h (by simp)

theorem take_cases (lowest : Priority) : TakenAs s (s.take lowest).2 (s.take lowest).1 := by
  unfold take
  split
  · exact .other (.of_eq rfl rfl rfl) (by simp)
  split
  · exact .other (.refl s) (by simp)
  split
  · dsimp only
    split
    · refine .other (.trans ?_ (same_answered _ _)) (by simp)
      exact .of_eq rfl rfl rfl
    · exact .other (.of_eq rfl rfl rfl) (by simp)
  split
  · rename_i entry l1 hl1
    exact turn_cases hl1
  split
  · exact .other (.refl s) (by simp)
  split
  · dsimp only
    split
    · refine .other (.trans ?_ (same_answered _ _)) (by simp)
      exact .of_eq rfl rfl rfl
    · exact .other (.of_eq rfl rfl rfl) (by simp)
  split
  · rename_i id frames l2 _
    refine .other (.trans ?_ (first_same _ _ _ _)) fun ticket p ending he =>
      first_ne_present _ _ _ _ ticket p ending (Option.some.inj he)
    exact .of_eq rfl rfl rfl
  · exact .other (.refl s) (by simp)

end State

/-! ### The end of an encode -/

/-- What the end of an encode does to the screens, and what is noted of it. -/
inductive Finish (s t : State P) (ticket : FrameTicket) (p : P.Presentation)
    (ending : Option (Frames P)) : Happening P → Prop
  | wrote (h : Same s t) : Finish s t ticket p ending (.wrote ticket p)
  | equalled (h : Same s t)
      (hlate : ending = none → ∀ k, s.credits ticket.channel = some k → k.sent ≠ some ticket.frame) :
      Finish s t ticket p ending (.equalled ticket p)
  | unsent (k : Credit P) (hend : ending = none) (was : s.credits ticket.channel = some k)
      (hsent : k.sent = some ticket.frame) (hwait : k.pending = none ∨ k.queued = true)
      (touch : Touch s t ticket.channel
        (some { k with sent := none, keyframe := k.keyframe || ticket.base.isNone }) []) :
      Finish s t ticket p ending (.equalled ticket p)
  | unsentQueue (k : Credit P) (hend : ending = none) (was : s.credits ticket.channel = some k)
      (hsent : k.sent = some ticket.frame) (hpending : k.pending.isSome) (hqueued : k.queued = false)
      (touch : Touch s t ticket.channel
        (some { k with sent := none, keyframe := k.keyframe || ticket.base.isNone, queued := true })
        [.frame ticket.channel]) :
      Finish s t ticket p ending (.equalled ticket p)
  | failedLast (h : Same s t) (hend : ending.isSome) : Finish s t ticket p ending (.failed ticket p)
  | failed (hend : ending = none) (touch : Touch s t ticket.channel none []) :
      Finish s t ticket p ending (.failed ticket p)

theorem handOut_same (frames : Frames P) : Same s (handOut s frames).2 := by
  cases frames <;> exact .of_eq rfl rfl rfl

theorem handOutLast_same (frames : Frames P) : Same s (handOutLast s frames).2 := by
  cases frames <;> exact .of_eq rfl rfl rfl

theorem Touch.trans_same {s t u : State P} {c : Channel} {k : Option (Credit P)}
    {entries : List (Entry P)} (h : Touch s t c k entries) (hc : u.channels = t.channels)
    (hl1 : u.l1 = t.l1) (hcl : u.closing = t.closing) : Touch s u c k entries where
  credits := by
    rw [← h.credits]
    funext d
    simp [State.credits, hc]
  pushed := ⟨by rw [hl1, hcl]; exact h.pushed.l1, by rw [hcl]; exact h.pushed.closing⟩

theorem Touch.handOut {s t : State P} {c : Channel} {k : Option (Credit P)}
    {entries : List (Entry P)} (h : Touch s t c k entries) (frames : Frames P) :
    Touch s (handOut t frames).2 c k entries := by
  cases frames <;> exact h.trans_same rfl rfl rfl

theorem finish_unsent (ticket : FrameTicket) (p : P.Presentation) :
    Finish s (s.unsent C ticket) ticket p none (.equalled ticket p) := by
  unfold State.unsent
  split
  · rename_i hs
    exact .equalled (.refl s) fun _ k hk => by simp [State.credits, hs] at hk
  rename_i slot hs
  have hw : s.credits ticket.channel = some slot.credit := State.credits_of_get hs
  split
  · rename_i hsent
    have hsent : slot.credit.sent = some ticket.frame := by simpa using hsent
    dsimp only
    split
    · rename_i h
      simp only [Bool.and_eq_true, Bool.not_eq_true'] at h
      exact .unsentQueue slot.credit rfl hw hsent h.1 h.2 (s.touch_setSlot_pushL1 _ _ _)
    rename_i h
    refine .unsent slot.credit rfl hw hsent ?_ (s.touch_setSlot _ _)
    simp only [Bool.and_eq_true, Bool.not_eq_true', not_and_or, Bool.not_eq_false] at h
    exact h.imp_left fun h => by simpa [Slot.credit] using h
  · rename_i hsent
    refine .equalled (.refl s) fun _ k hk => ?_
    rw [hw, Option.some.injEq] at hk
    subst hk
    simpa using hsent

theorem finish_finishFrame (ticket : FrameTicket) (p : P.Presentation)
    (ending : Option (Frames P)) (encoded : Option (Except OutboxError (Frames P))) :
    Finish s (handOut (finishFrame C s ticket ending encoded).2
      (finishFrame C s ticket ending encoded).1).2 ticket p ending (happened ticket p encoded) := by
  rcases encoded with _ | _ | frames
  · cases ending with
    | none => exact finish_unsent s ticket p
    | some frames => exact .equalled (handOut_same s frames) (by simp)
  · cases ending with
    | none => exact .failed rfl ((s.touch_forget ticket.channel).handOut _)
    | some frames => exact .failedLast (handOut_same s frames) rfl
  · exact .wrote (handOut_same s _)

/-- A semantic message that cannot be encoded ends its channel; otherwise no screen is touched. -/
theorem finishSemantics_cases (work : SemanticWork P)
    (encoded : Option (P.SemanticUpdate × P.Encoding)) :
    Same s (handOutLast (finishSemantics C s work encoded).2
        (finishSemantics C s work encoded).1).2 ∨
      encoded.isSome ∧ Touch s (handOutLast (finishSemantics C s work encoded).2
        (finishSemantics C s work encoded).1).2 work.channel none [] := by
  unfold finishSemantics
  split
  · exact .inl (State.same_of_semantic (s.semantic_semanticsUnsent _ _))
  rename_i update encoding
  split
  · rename_i frames _
    have h := State.same_of_semantic (s.semantic_semanticsTaken (C := C) work.channel work.serial
      (if P.hasTail update then none else some encoding))
    split <;> rename_i he <;> rw [he] at h
    · exact .inl (h.trans (handOutLast_same _ frames))
    · exact .inl h
  · split
    · refine .inr ⟨rfl, ?_⟩
      cases failedFrames C work.channel <;>
        exact (s.touch_forget work.channel).trans_same rfl rfl rfl
    · exact .inl (.refl s)

end SpaceTerm.Outbox
