import SpaceTerm.Outbox.Credit

/-! # What a step does to the queues

Every producer but `reply` and `inventory` appends to L0 and L1 what neither answers a request nor
carries an inventory (`Queues`), and `take` takes the head of one queue (`TakesLane`). -/

namespace SpaceTerm.Outbox
open Wire
open Hierarchy (Refusal)

variable {P : Payloads} {C : Postcard P}

/-! ## Frames by what they complete -/

def WireFrame.answers (f : WireFrame P) : Bool :=
  match f.completes with
  | some (.reply ..) => true
  | _ => false

def WireFrame.inventory? (f : WireFrame P) : Option P.Inventory :=
  match f.completes with
  | some (.inventory i _) => some i
  | _ => none

def Plain (frames : Frames P) : Prop := ∀ f ∈ frames, f.answers = false ∧ f.inventory? = none

def Bare (frames : Frames P) : Prop := ∀ f ∈ frames, f.inventory? = none

variable {frames : Frames P}

theorem Plain.bare (h : Plain frames) : Bare frames := fun f hf => (h f hf).2

theorem Plain.append {frames more : Frames P} (h : Plain frames) (hmo : Plain more) : Plain (frames ++ more) := by
  intro f hf
  rcases List.mem_append.mp hf with hf | hf
  · exact h f hf
  · exact hmo f hf

theorem plain_nil : Plain ([] : Frames P) := fun _ hf => by cases hf

theorem framesOf_completes (m : CoreMessage P) {raw : List RawFrame} {f : WireFrame P}
    (hf : f ∈ framesOf m raw) : f.completes = none ∨ f.completes = some m := by
  induction raw with
  | nil => cases hf
  | cons r rest ih =>
    cases rest with
    | nil =>
      obtain rfl : f = ⟨r, some m⟩ := by simpa [framesOf] using hf
      exact .inr rfl
    | cons r' rest =>
      rcases List.mem_cons.mp hf with rfl | hf
      · exact .inl rfl
      · exact ih hf

theorem framesOf_last (m : CoreMessage P) {raw : List RawFrame} (hraw : raw ≠ []) :
    ∃ front f, framesOf m raw = front ++ [f] ∧ f.completes = some m ∧ ∀ g ∈ front, g.completes = none := by
  induction raw with
  | nil => exact absurd rfl hraw
  | cons r rest ih =>
    cases rest with
    | nil => exact ⟨[], _, rfl, rfl, fun _ hg => by cases hg⟩
    | cons r' rest =>
      obtain ⟨front, f, hframes, hf, hfront⟩ := ih (by simp)
      refine ⟨⟨r, none⟩ :: front, f, by rw [framesOf, hframes]; rfl, hf, fun g hg => ?_⟩
      rcases List.mem_cons.mp hg with rfl | hg
      · rfl
      · exact hfront g hg

theorem encode_framesOf {m : CoreMessage P} (h : encode C m = .ok frames) :
    ∃ raw, raw ≠ [] ∧ frames = framesOf m raw := by
  unfold encode at h
  split at h
  · next raw hraw =>
    cases h
    refine ⟨raw, ?_, rfl⟩
    unfold encodeCore at hraw
    split at hraw
    · cases hraw
    split at hraw
    · cases hraw
    split at hraw
    · cases hraw
      exact List.cons_ne_nil _ _
    next hl =>
    cases hraw
    have hp (kind : Kind) (parts : List Bytes) (h : parts ≠ []) : frameParts kind parts ≠ [] := by
      match parts with
      | [_] => exact List.cons_ne_nil _ _
      | _ :: _ :: _ => exact List.cons_ne_nil _ _
    refine hp _ _ ?_
    unfold chunks
    rw [dif_neg]
    · exact List.cons_ne_nil _ _
    have hpo : 0 < m.kind.maxFrameBody := by cases m.kind <;> decide
    rintro (hni | hz)
    · simp [hni] at hl
    · omega
  · cases h

theorem plain_encode {m : CoreMessage P} (h : encode C m = .ok frames)
    (hr : ∀ id result, m ≠ .reply id result) (hi : ∀ i n, m ≠ .inventory i n) : Plain frames := by
  obtain ⟨raw, -, rfl⟩ := encode_framesOf h
  intro f hf
  unfold WireFrame.answers WireFrame.inventory?
  rcases framesOf_completes m hf with hnone | hs
  · simp [hnone]
  rw [hs]
  cases m with
  | reply id result => exact absurd rfl (hr id result)
  | inventory i n => exact absurd rfl (hi i n)
  | _ => exact ⟨rfl, rfl⟩

theorem plain_failedFrames (c : Channel) : Plain (failedFrames C c) := by
  unfold failedFrames
  split
  · next h => exact plain_encode h (by simp) (by simp)
  · exact plain_nil

def Entry.Plain : Entry P → Prop
  | .message frames none => Outbox.Plain frames
  | .message _ (some _) | .inventory => False
  | .updateFacts | .frame _ | .semantics _ => True

/-- Last events answer nothing. -/
def Endings (s : State P) : Prop :=
  ∀ (c : Channel) (slot : Slot P) frames, s.channels[c]? = some slot → slot.ending = some frames → Plain frames

/-! ## Producers -/

structure Queues (a b : State P) : Prop where
  l0 : ∃ frames, b.l0 = a.l0 ++ frames ∧ Plain frames
  l1 : ∃ entries, b.l1 = a.l1 ++ entries ∧ ∀ e ∈ entries, e.Plain
  l1Rest : b.l1Rest = a.l1Rest
  l2 : b.l2 = a.l2
  l2Rest : b.l2Rest = a.l2Rest
  inventory : b.inventory = a.inventory
  inventoryQueued : b.inventoryQueued = a.inventoryQueued
  facts : (∀ frames ∈ a.updateFacts, Plain frames) → ∀ frames ∈ b.updateFacts, Plain frames
  endings : Endings a → Endings b

namespace Queues
variable {a b c : State P}

theorem trans (h : Queues a b) (h' : Queues b c) : Queues a c where
  l0 := by
    obtain ⟨frames, hb, hp⟩ := h.l0
    obtain ⟨more, hc, hmo⟩ := h'.l0
    exact ⟨frames ++ more, by rw [hc, hb, List.append_assoc], hp.append hmo⟩
  l1 := by
    obtain ⟨entries, hb, hp⟩ := h.l1
    obtain ⟨more, hc, hmo⟩ := h'.l1
    refine ⟨entries ++ more, by rw [hc, hb, List.append_assoc], fun e he => ?_⟩
    rcases List.mem_append.mp he with he | he
    · exact hp e he
    · exact hmo e he
  l1Rest := h'.l1Rest.trans h.l1Rest
  l2 := h'.l2.trans h.l2
  l2Rest := h'.l2Rest.trans h.l2Rest
  inventory := h'.inventory.trans h.inventory
  inventoryQueued := h'.inventoryQueued.trans h.inventoryQueued
  facts hp := h'.facts (h.facts hp)
  endings hen := h'.endings (h.endings hen)

theorem channels {channels : Std.TreeMap Channel (Slot P)} {closed : List Channel}
    {requests : Std.TreeMap RequestId Bool} {closing : Bool}
    (hen : Endings a → Endings { a with channels := channels }) :
    Queues a { a with channels := channels, closed := closed, requests := requests, closing := closing } where
  l0 := ⟨[], (List.append_nil _).symm, plain_nil⟩
  l1 := ⟨[], (List.append_nil _).symm, fun _ he => by cases he⟩
  l1Rest := rfl
  l2 := rfl
  l2Rest := rfl
  inventory := rfl
  inventoryQueued := rfl
  facts := id
  endings := hen

theorem refl : Queues a a := channels id

variable {ch : Channel}

theorem setSlot {slot' : Slot P} (hend : ∀ frames, slot'.ending = some frames →
    Plain frames ∨ ∃ slot, a.channels[ch]? = some slot ∧ slot.ending = some frames) :
    Queues a (a.setSlot ch slot') := by
  refine channels fun he d slot frames hs hframes => ?_
  rw [Std.TreeMap.getElem?_insert] at hs
  split at hs
  · cases hs
    rcases hend frames hframes with hp | ⟨slot, hs, hframes⟩
    · exact hp
    · exact he ch slot frames hs hframes
  · exact he d slot frames hs hframes

theorem setSlot_same {slot slot' : Slot P} (hs : a.channels[ch]? = some slot)
    (hend : slot'.ending = slot.ending) : Queues a (a.setSlot ch slot') :=
  setSlot fun _ hframes => .inr ⟨slot, hs, hend ▸ hframes⟩

theorem forget (ch : Channel) : Queues a (a.forget ch) := by
  refine channels fun he d slot frames hs hframes => ?_
  rw [Std.TreeMap.getElem?_erase] at hs
  split at hs
  · cases hs
  · exact he d slot frames hs hframes

theorem pushed (entries : List (Entry P)) (frames : Frames P) {l0Bytes l1Bytes : Nat} {closing : Bool}
    (he : ∀ e ∈ entries, e.Plain) (hframes : Plain frames) :
    Queues a { a with
      l0 := a.l0 ++ frames, l0Bytes := l0Bytes, l1 := a.l1 ++ entries, l1Bytes := l1Bytes, closing := closing } :=
  ⟨⟨frames, rfl, hframes⟩, ⟨entries, rfl, he⟩, rfl, rfl, rfl, rfl, rfl, id, id⟩

theorem overflow : Queues a (a.overflow C).2 := by
  unfold State.overflow
  split
  · exact refl
  split
  · next h =>
    have hp := plain_encode h (by simp) (by simp)
    simpa using pushed [] _ (fun _ he => by cases he) hp
  · exact channels id

theorem pushL0 {m : CoreMessage P} (hr : ∀ id result, m ≠ .reply id result)
    (hi : ∀ i n, m ≠ .inventory i n) : Queues a (a.pushL0 C m).2 := by
  unfold State.pushL0
  split
  · exact refl
  split
  · exact refl
  next h =>
  split
  · exact overflow
  · have hp := plain_encode h hr hi
    simpa using pushed [] _ (fun _ he => by cases he) hp

theorem pushL1 {entry : Entry P} (hentry : entry.Plain) : Queues a (a.pushL1 C entry).2 := by
  unfold State.pushL1
  split
  · exact refl
  split
  · exact overflow
  · have he : ∀ e ∈ [entry], e.Plain := by simpa using hentry
    simpa using pushed _ [] he plain_nil

/-! ### Semantics -/

theorem of_semantic (h : Semantic ch a b) : Queues a b := by
  induction h with
  | refl s => exact refl
  | slot hs semantics => exact setSlot_same hs rfl
  | turn C s => exact pushL1 (show (Entry.semantics ch : Entry P).Plain from trivial)
  | trans _ _ ih ih' => exact ih.trans ih'

/-! ### The others -/

theorem begin (request : RequestId) : Queues a (Outbox.begin a request).2 := by
  unfold Outbox.begin
  split
  · exact refl
  · dsimp only
    split <;> exact channels id

theorem pane (ch : Channel) (event : P.PaneEvent) : Queues a (Outbox.pane C a ch event).2 := by
  unfold Outbox.pane
  split
  · exact refl
  · next frames h =>
    exact pushL1 (show (Entry.message frames none).Plain from plain_encode h (by simp) (by simp))

theorem updateFacts (facts : UpdateFacts P) : Queues a (Outbox.updateFacts C a facts).2 := by
  unfold Outbox.updateFacts
  split
  · exact refl
  next frames h =>
  have hp : Plain frames := plain_encode h (by simp) (by simp)
  have hs (b : State P) (queued : Bool) :
      Queues b { b with updateFactsQueued := queued, updateFacts := some frames } := by
    refine ⟨⟨[], (List.append_nil _).symm, plain_nil⟩, ⟨[], (List.append_nil _).symm, fun _ he => by cases he⟩,
      rfl, rfl, rfl, rfl, rfl, fun _ f hf => ?_, id⟩
    cases hf
    exact hp
  split
  · exact refl
  split
  · exact hs a _
  have hpu : Queues a (a.pushL1 C .updateFacts).2 := pushL1 trivial
  split
  · next heq =>
    rw [heq] at hpu
    exact hpu.trans (hs _ _)
  · exact hpu

theorem goodbye (fatal : Fatal) : Queues a (Outbox.goodbye C a fatal).2 := by
  unfold Outbox.goodbye
  split
  · exact refl
  next h =>
  have hp := plain_encode h (by simp) (by simp)
  split
  · exact refl
  · simpa using pushed [] _ (fun _ he => by cases he) hp

theorem openChannel (ch : Channel) : Queues a (Outbox.openChannel a ch).2 := by
  unfold Outbox.openChannel
  split
  · exact refl
  split
  · exact refl
  · exact setSlot fun frames hframes => by cases hframes

theorem forgetPush {frames : Frames P} (hp : Plain frames) :
    Queues a ((a.forget ch).pushL1 C (.message frames none)).2 :=
  (forget ch).trans (pushL1 hp)

theorem endChannel (ch : Channel) (event : P.PaneEvent) : Queues a (Outbox.endChannel C a ch event).2 := by
  unfold Outbox.endChannel
  split
  · exact refl
  next frames h =>
  have hp : Plain frames := plain_encode h (by simp) (by simp)
  split
  · exact refl
  split
  · exact (channels id).trans (pushL1 hp)
  split
  · exact refl
  dsimp only
  split
  · exact forgetPush hp
  refine setSlot fun frames' hframes' => .inl ?_
  cases hframes'
  exact hp

theorem view (he : Endings a) (ch : Channel) (visible : Bool) : Queues a (Outbox.view C a ch visible) := by
  unfold Outbox.view
  split
  · exact refl
  next slot hs =>
  split
  · refine trans (setSlot_same hs ?_) (of_semantic (State.semantic_queueSemantics _ ch))
    rfl
  dsimp only
  split
  · next frames _ hframes => exact forgetPush (he ch slot frames hs hframes)
  · exact setSlot_same hs rfl

theorem present (ch : Channel) (presentation : P.Presentation) :
    Queues a (Outbox.present C a ch presentation).2 := by
  unfold Outbox.present
  split
  · exact refl
  split
  · exact refl
  next slot hs =>
  split
  · exact refl
  dsimp only
  split
  · refine trans (setSlot_same hs ?_) (pushL1 (show (Entry.frame ch : Entry P).Plain from trivial))
    rfl
  · exact setSlot_same hs rfl

theorem requireKeyframe (ch : Channel) : Queues a (Outbox.requireKeyframe a ch) := by
  unfold Outbox.requireKeyframe
  split
  · exact refl
  · next slot hs => exact setSlot_same hs rfl

theorem acknowledge (he : Endings a) (ch : Channel) (frame : Nat) :
    Queues a (Outbox.acknowledge C a ch frame).2 := by
  unfold Outbox.acknowledge
  split
  · exact refl
  next slot hs =>
  split
  · exact refl
  dsimp only
  split
  · split
    · exact setSlot_same hs rfl
    · refine trans (setSlot_same hs ?_) (pushL1 (show (Entry.frame ch : Entry P).Plain from trivial))
      rfl
  · split
    · next frames hframes => exact forgetPush (he ch slot frames hs hframes)
    · exact setSlot_same hs rfl

theorem written (now : Nat) : Queues a (Outbox.written a now) := by
  refine channels fun he ch slot frames hs hframes => ?_
  simp only [Std.TreeMap.getElem?_map, Option.map_eq_some_iff] at hs
  obtain ⟨slot', hs', rfl⟩ := hs
  refine he ch slot' frames hs' ?_
  split at hframes <;> exact hframes

theorem unsent (ticket : FrameTicket) : Queues a (a.unsent C ticket) := by
  unfold State.unsent
  split
  · exact refl
  next slot hs =>
  split
  · dsimp only
    split
    · refine trans (setSlot_same hs ?_)
        (pushL1 (show (Entry.frame ticket.channel : Entry P).Plain from trivial))
      rfl
    · exact setSlot_same hs rfl
  · exact refl

theorem finishFrame (ticket : FrameTicket) {ending : Option (Frames P)}
    (hending : ∀ frames ∈ ending, Plain frames) (presented : Option (Presented P)) :
    Queues a (finishFrame C a ticket ending (encodeFrame C ticket presented)).2 ∧
      Plain (Outbox.finishFrame C a ticket ending (encodeFrame C ticket presented)).1 := by
  have hl : Plain (ending.getD []) := by
    cases ending with
    | none => exact plain_nil
    | some frames => exact hending frames rfl
  unfold Outbox.finishFrame
  split
  · next hencoded =>
    refine ⟨refl, Plain.append ?_ hl⟩
    unfold encodeFrame at hencoded
    obtain ⟨p, -, hp⟩ := Option.map_eq_some_iff.mp hencoded
    exact plain_encode hp (by simp [FrameTicket.message]) (by simp [FrameTicket.message])
  · exact ⟨unsent ticket, plain_nil⟩
  · next frames _ => exact ⟨refl, hending frames rfl⟩
  · exact ⟨forget _, plain_failedFrames _⟩

theorem finishSemantics (work : SemanticWork P) (encoded : Option (P.SemanticUpdate × P.Encoding)) :
    Queues a (finishSemantics C a work encoded).2 ∧ Plain (Outbox.finishSemantics C a work encoded).1 := by
  unfold Outbox.finishSemantics
  split
  · exact ⟨of_semantic (a.semantic_semanticsUnsent _ _), plain_nil⟩
  next update encoding =>
  split
  · next frames hframes =>
    have htaken := of_semantic (a.semantic_semanticsTaken (C := C) work.channel work.serial
      (if P.hasTail update then none else some encoding))
    split
    · next he =>
      rw [he] at htaken
      exact ⟨htaken, plain_encode hframes (by simp) (by simp)⟩
    · next he =>
      exact ⟨congrArg Prod.snd he ▸ htaken, plain_nil⟩
  · split
    · exact ⟨forget _, plain_failedFrames _⟩
    · exact ⟨refl, plain_nil⟩

end Queues

/-! ## Taking -/

structure Lanes (P : Payloads) where
  l0 : Frames P
  l1 : List (Entry P)
  l1Rest : Frames P
  l2 : List (RequestId × Frames P)
  l2Rest : Frames P
  inventory : Option (Frames P)
  inventoryQueued : Bool

def State.lanes (s : State P) : Lanes P :=
  ⟨s.l0, s.l1, s.l1Rest, s.l2, s.l2Rest, s.inventory, s.inventoryQueued⟩

inductive TakesLane (v : Lanes P) : Option (Taken P) → Lanes P → Prop
  | idle : TakesLane v none v
  | l0 {f rest} (h : v.l0 = f :: rest) : TakesLane v (some (.frame f .l0)) { v with l0 := rest }
  | rest {f rest} (h : v.l1Rest = f :: rest) : TakesLane v (some (.frame f .l1)) { v with l1Rest := rest }
  | message {entry l1 f rest} (hrest : v.l1Rest = []) (h : v.l1 = entry :: l1)
      (hframes : (∃ reply, entry = .message (f :: rest) reply) ∨ entry = .updateFacts ∧ Plain (f :: rest)) :
      TakesLane v (some (.frame f .l1)) { v with l1 := l1, l1Rest := rest }
  | inventory {l1 f rest} (hrest : v.l1Rest = []) (h : v.l1 = .inventory :: l1)
      (hframes : v.inventory = some (f :: rest)) :
      TakesLane v (some (.frame f .l1))
        { v with l1 := l1, l1Rest := rest, inventory := none, inventoryQueued := false }
  | inventoryNone {l1} (hrest : v.l1Rest = []) (h : v.l1 = .inventory :: l1)
      (hframes : v.inventory.getD [] = []) :
      TakesLane v (some .skip) { v with l1 := l1, inventory := none, inventoryQueued := false }
  /-- An entry that hands out nothing now. -/
  | later {entry l1 taken} (hrest : v.l1Rest = []) (h : v.l1 = entry :: l1) (hentry : entry ≠ .inventory)
      (hempty : ∀ frames reply, entry = .message frames reply → frames = [])
      (htaken : ∀ f priority, taken ≠ .frame f priority)
      (hending : ∀ ticket p frames, taken = .present ticket p (some frames) → Plain frames) :
      TakesLane v (some taken) { v with l1 := l1 }
  | l2Rest {f rest} (hrest : v.l1Rest = []) (hl1 : v.l1 = []) (h : v.l2Rest = f :: rest) :
      TakesLane v (some (.frame f .l2)) { v with l2Rest := rest }
  | l2 {id f rest l2} (hrest : v.l1Rest = []) (hl1 : v.l1 = []) (hl2 : v.l2Rest = [])
      (h : v.l2 = (id, f :: rest) :: l2) : TakesLane v (some (.frame f .l2)) { v with l2 := l2, l2Rest := rest }
  | l2None {id l2} (hrest : v.l1Rest = []) (hl1 : v.l1 = []) (h : v.l2 = (id, []) :: l2) :
      TakesLane v (some .skip) { v with l2 := l2 }

/-- What is handed out at once. -/
def handed : Option (Taken P) → List (WireFrame P × Priority)
  | some (.frame f priority) => [(f, priority)]
  | _ => []

theorem TakesLane.ending {v w : Lanes P} {taken : Option (Taken P)} (h : TakesLane v taken w) {ticket : FrameTicket}
    {p : P.Presentation} {frames : Frames P} (htaken : taken = some (.present ticket p (some frames))) :
    Plain frames := by
  cases h with
  | later hrest hl1 hentry hempty hf hending => exact hending ticket p frames (Option.some.inj htaken)
  | _ => cases htaken

namespace State
variable {s : State P}

theorem answered_lanes (reply : Option RequestId) : (s.answered reply).lanes = s.lanes := by
  cases reply <;> rfl

theorem answered_channels (reply : Option RequestId) : (s.answered reply).channels = s.channels := by
  cases reply <;> rfl

theorem answered_updateFacts (reply : Option RequestId) : (s.answered reply).updateFacts = s.updateFacts := by
  cases reply <;> rfl

theorem first_cases (frames : Frames P) (reply : Option RequestId) (priority : Priority)
    (hrest : s.restOf priority = []) :
    (frames = [] ∧ s.first frames reply priority = (.skip, s.answered reply)) ∨
      ∃ f rest, frames = f :: rest ∧ (s.first frames reply priority).1 = .frame f priority ∧
        (s.first frames reply priority).2.lanes = (s.keepRest rest reply priority).lanes ∧
        (s.first frames reply priority).2.channels = s.channels ∧
        (s.first frames reply priority).2.updateFacts = s.updateFacts := by
  cases frames with
  | nil => exact .inl ⟨rfl, rfl⟩
  | cons f rest =>
    refine .inr ⟨f, rest, rfl, ?_⟩
    unfold first
    dsimp only
    rw [hrest, List.nil_append]
    cases rest with
    | nil =>
      rw [if_pos List.isEmpty_nil]
      refine ⟨rfl, ?_, answered_channels reply, answered_updateFacts reply⟩
      rw [answered_lanes]
      cases priority <;> simp [keepRest, lanes]
    | cons g rest =>
      rw [if_neg (by simp)]
      refine ⟨rfl, rfl, ?_, ?_⟩
      · cases priority <;> rfl
      · cases priority <;> rfl

theorem keepRest_l1 (rest : Frames P) (reply : Option RequestId) (hrest : s.l1Rest = []) :
    (s.keepRest rest reply .l1).lanes = { s.lanes with l1Rest := rest } := by
  simp [keepRest, lanes, hrest]

theorem keepRest_l2 (rest : Frames P) (reply : Option RequestId) (hrest : s.l2Rest = []) :
    (s.keepRest rest reply .l2).lanes = { s.lanes with l2Rest := rest } := by
  simp [keepRest, lanes, hrest]

/-- The parts of the state that a turn keeps in order. -/
structure Holds (s : State P) : Prop where
  endings : Endings s
  facts : ∀ frames ∈ s.updateFacts, Plain frames

theorem Holds.congr {t : State P} (h : s.Holds) (hc : t.channels = s.channels)
    (hf : t.updateFacts = s.updateFacts) : t.Holds := by
  refine ⟨?_, hf ▸ h.facts⟩
  unfold Endings
  rw [hc]
  exact h.endings

theorem Holds.queues {t : State P} (h : s.Holds) (hq : Queues s t) : t.Holds :=
  ⟨hq.endings h.endings, hq.facts h.facts⟩

theorem present_takes (h : s.Holds) (c : Channel) :
    (s.present c).2.lanes = s.lanes ∧ (s.present c).2.Holds ∧ (∀ f priority, (s.present c).1 ≠ .frame f priority) ∧
      ∀ ticket p frames, (s.present c).1 = .present ticket p (some frames) → Plain frames := by
  unfold present
  split
  · exact ⟨rfl, h, by simp, by simp⟩
  next slot hsl =>
  dsimp only
  have hs {slot' : Slot P} (hend : slot'.ending = slot.ending) : (s.setSlot c slot').Holds :=
    h.queues (Queues.setSlot_same hsl hend)
  split
  · exact ⟨rfl, hs rfl, by simp, by simp⟩
  split
  · exact ⟨rfl, hs rfl, by simp, by simp⟩
  split
  · next frames hframes =>
    refine ⟨rfl, h.queues (Queues.forget c), by simp, ?_⟩
    intro ticket p frames' he
    simp only [Taken.present.injEq, Option.some.injEq] at he
    obtain ⟨-, -, rfl⟩ := he
    exact h.endings c slot frames hsl hframes
  · exact ⟨rfl, hs rfl, by simp, by simp⟩

theorem takeSemantics_takes (h : s.Holds) (c : Channel) :
    (s.takeSemantics c).2.lanes = s.lanes ∧ (s.takeSemantics c).2.Holds := by
  unfold takeSemantics
  split
  · exact ⟨rfl, h⟩
  next slot hsl =>
  dsimp only
  have hs {slot' : Slot P} (hend : slot'.ending = slot.ending) : (s.setSlot c slot').Holds :=
    h.queues (Queues.setSlot_same hsl hend)
  have ht {slot₁ slot₂ : Slot P} (h₁ : slot₁.ending = slot.ending) (h₂ : slot₂.ending = slot.ending) :
      ((s.setSlot c slot₁).setSlot c slot₂).Holds :=
    (hs h₁).queues (Queues.setSlot_same (get_setSlot s c slot₁) (h₂.trans h₁.symm))
  split
  · exact ⟨rfl, hs rfl⟩
  split
  · exact ⟨rfl, hs rfl⟩
  split
  · split
    · exact ⟨rfl, ht rfl rfl⟩
    · exact ⟨rfl, ht rfl rfl⟩
  split
  · exact ⟨rfl, hs rfl⟩
  split
  · exact ⟨rfl, ht rfl rfl⟩
  · exact ⟨rfl, ht rfl rfl⟩

theorem turn_takes (h : s.Holds) {entry : Entry P} {l1 : List (Entry P)} (hrest : s.l1Rest = [])
    (hl1 : s.l1 = entry :: l1) :
    TakesLane s.lanes (some ({ s with l1 := l1 }.turn entry).1) ({ s with l1 := l1 }.turn entry).2.lanes ∧
      ({ s with l1 := l1 }.turn entry).2.Holds := by
  cases entry with
  | message frames reply =>
    unfold turn
    rcases first_cases (s := { s with l1 := l1, l1Bytes := s.l1Bytes - size frames }) frames reply .l1 hrest with
      ⟨rfl, he⟩ | ⟨f, rest, rfl, htaken, hla', hc, hfa⟩
    · dsimp only
      rw [he, answered_lanes]
      exact ⟨.later hrest hl1 (by simp) (by simp) (by simp) (by simp),
        h.congr (answered_channels _) (answered_updateFacts _)⟩
    · dsimp only
      rw [htaken, hla'.trans (keepRest_l1 rest _ hrest)]
      exact ⟨.message hrest hl1 (.inl ⟨reply, rfl⟩), h.congr hc hfa⟩
  | inventory =>
    unfold turn
    rcases first_cases (s := { s with l1 := l1, inventoryQueued := false, inventory := none })
      (s.inventory.getD []) none .l1 hrest with ⟨hni, he⟩ | ⟨f, rest, hco, htaken, hla', hc, hfa⟩
    · dsimp only
      rw [he, answered_lanes]
      exact ⟨.inventoryNone hrest hl1 hni, h.congr rfl rfl⟩
    dsimp only
    rw [htaken, hla'.trans (keepRest_l1 rest _ hrest)]
    refine ⟨.inventory hrest hl1 ?_, h.congr hc hfa⟩
    change s.inventory = _
    cases hi : s.inventory with
    | none => simp [hi] at hco
    | some frames =>
      rw [hi] at hco
      exact congrArg some hco
  | updateFacts =>
    unfold turn
    have hp : Plain (s.updateFacts.getD []) := by
      cases hfa : s.updateFacts with
      | none => exact plain_nil
      | some frames => exact h.facts frames hfa
    have hh : ({ s with l1 := l1, updateFactsQueued := false, updateFacts := none } : State P).Holds :=
      ⟨h.endings, fun _ hf => by cases hf⟩
    rcases first_cases (s := { s with l1 := l1, updateFactsQueued := false, updateFacts := none })
      (s.updateFacts.getD []) none .l1 hrest with ⟨hni, he⟩ | ⟨f, rest, hco, htaken, hla', hc, hfa⟩
    · dsimp only
      rw [he, answered_lanes]
      exact ⟨.later hrest hl1 (by simp) (by simp) (by simp) (by simp), hh⟩
    · dsimp only
      rw [htaken, hla'.trans (keepRest_l1 rest _ hrest)]
      exact ⟨.message hrest hl1 (.inr ⟨rfl, hco ▸ hp⟩), hh.congr hc hfa⟩
  | frame c =>
    have hh : ({ s with l1 := l1 } : State P).Holds := h.congr rfl rfl
    obtain ⟨hla', hh', htaken, hending⟩ := present_takes hh c
    unfold turn
    rw [hla']
    exact ⟨.later hrest hl1 (by simp) (by simp) htaken hending, hh'⟩
  | semantics c =>
    have hh : ({ s with l1 := l1 } : State P).Holds := h.congr rfl rfl
    obtain ⟨hla', hh'⟩ := takeSemantics_takes hh c
    unfold turn
    dsimp only
    split
    · next he =>
      rw [he] at hla' hh'
      dsimp only at hla' hh' ⊢
      rw [hla']
      exact ⟨.later hrest hl1 (by simp) (by simp) (by simp) (by simp), hh'⟩
    next he =>
    rw [he] at hla' hh'
    dsimp only at hla' hh' ⊢
    rw [hla']
    exact ⟨.later hrest hl1 (by simp) (by simp) (by simp) (by simp), hh'⟩

theorem take_takes (h : s.Holds) (lowest : Priority) :
    TakesLane s.lanes (s.take lowest).1 (s.take lowest).2.lanes ∧ (s.take lowest).2.Holds := by
  unfold take
  split
  · next f l0 hl0 => exact ⟨.l0 hl0, h.congr rfl rfl⟩
  split
  · exact ⟨.idle, h⟩
  split
  · next f rest hrest =>
    dsimp only
    split
    · rw [answered_lanes]
      exact ⟨.rest hrest, h.congr (answered_channels _) (answered_updateFacts _)⟩
    · exact ⟨.rest hrest, h.congr rfl rfl⟩
  next hrest =>
  split
  · next entry l1 hl1 => exact turn_takes h hrest hl1
  next hl1 =>
  split
  · exact ⟨.idle, h⟩
  split
  · next f rest hl2 =>
    dsimp only
    split
    · rw [answered_lanes]
      exact ⟨.l2Rest hrest hl1 hl2, h.congr (answered_channels _) (answered_updateFacts _)⟩
    · exact ⟨.l2Rest hrest hl1 hl2, h.congr rfl rfl⟩
  next hl2Rest =>
  split
  · next id frames l2 hl2 =>
    dsimp only
    rcases first_cases (s := { s with l2 := l2, l2Bytes := s.l2Bytes - size frames }) frames
      (some id) .l2 hl2Rest
      with ⟨rfl, he⟩ | ⟨f, rest, rfl, htaken, hla', hc, hf⟩
    · rw [he, answered_lanes]
      exact ⟨.l2None hrest hl1 hl2, h.congr (answered_channels _) (answered_updateFacts _)⟩
    · rw [htaken, hla'.trans (keepRest_l2 rest _ hl2Rest)]
      exact ⟨.l2 hrest hl1 hl2Rest hl2, h.congr hc hf⟩
  · exact ⟨.idle, h⟩

end State

/-! ## Events -/

namespace Connection
variable {s t : Connection P} {e : Event P}

/-- Last events answer nothing, in the slots and with the screen being encoded. -/
structure Holds (s : Connection P) : Prop where
  state : s.state.Holds
  work : ∀ ticket p frames, s.work = some (.present ticket p (some frames)) → Plain frames

/-- The reply that `Outbox::reply` queues. -/
def replyQueued (C : Postcard P) (s : State P) (id : RequestId) (result : Except Refusal (ReplyBody P)) :
    Option (CoreMessage P) :=
  if (reply C s id result).1.isOk then some (.reply id result) else none

def replies (C : Postcard P) (s : State P) : Event P → Option (CoreMessage P)
  | .reply id result => replyQueued C s id result
  | .replyOrRefuse id result =>
    match (reply C s id result).1 with
    | .error (.encode .tooLarge) => replyQueued C s id (.error .capacity)
    | .error (.encode .unencodable) => replyQueued C s id (.error .failed)
    | _ => replyQueued C s id result
  | _ => none

def announces (C : Postcard P) (s : State P) : Event P → Option P.Inventory
  | .inventory i n => if (Outbox.inventory C s i n).1.isOk then some i else none
  | _ => none

inductive Moved (C : Postcard P) (s t : Connection P) (e : Event P) : Prop
  | produced (queues : Queues s.state t.state) (sent : t.sent = s.sent) (work : t.work = s.work)
      (hreplies : replies C s.state e = none) (hannounces : announces C s.state e = none)
  | replied {id : RequestId} {result : Except Refusal (ReplyBody P)} {raw : List RawFrame} (hraw : raw ≠ [])
      (hreplies : replies C s.state e = some (.reply id result)) (hannounces : announces C s.state e = none)
      (lanes : t.state.lanes = if (CoreMessage.reply id result).bulk
        then { s.state.lanes with l2 := s.state.l2 ++ [(id, framesOf (.reply id result) raw)] }
        else { s.state.lanes with l1 := s.state.l1 ++ [.message (framesOf (.reply id result) raw) (some id)] })
      (holds : s.state.Holds → t.state.Holds) (sent : t.sent = s.sent) (work : t.work = s.work)
  | offered {i : P.Inventory} {n : Nat} {raw : List RawFrame} (event : e = .inventory i n) (hraw : raw ≠ [])
      (hreplies : replies C s.state e = none) (hannounces : announces C s.state e = some i)
      (lanes : t.state.lanes = { s.state.lanes with
        l1 := if s.state.inventoryQueued then s.state.l1 else s.state.l1 ++ [.inventory]
        inventory := some (framesOf (.inventory i n) raw)
        inventoryQueued := true })
      (holds : s.state.Holds → t.state.Holds) (sent : t.sent = s.sent) (work : t.work = s.work)
  | took {taken : Option (Taken P)} (lanes : TakesLane s.state.lanes taken t.state.lanes)
      (holds : t.state.Holds)
      (sent : t.sent = s.sent ++ handed taken)
      (work : ∀ ticket p frames, t.work = some (.present ticket p (some frames)) → Plain frames)
      (hreplies : replies C s.state e = none) (hannounces : announces C s.state e = none)
  | finished {mid : State P} {front back : Frames P} {out : List (WireFrame P × Priority)}
      (queues : Queues s.state mid) (hfront : Plain front) (hback : Plain back)
      (state : t.state = { mid with l1Rest := front ++ mid.l1Rest ++ back })
      (sent : t.sent = s.sent ++ out) (hout : Plain (out.map Prod.fst)) (work : t.work = none)
      (hreplies : replies C s.state e = none) (hannounces : announces C s.state e = none)

theorem Moved.holds (h : s.Holds) (hmo : Moved C s t e) : t.Holds := by
  cases hmo with
  | produced queues sent work => exact ⟨h.state.queues queues, work ▸ h.work⟩
  | replied hraw hreplies hannounces lanes holds sent work => exact ⟨holds h.state, work ▸ h.work⟩
  | offered event hraw hreplies hannounces lanes holds sent work => exact ⟨holds h.state, work ▸ h.work⟩
  | took lanes holds sent work => exact ⟨holds, work⟩
  | finished queues hfront hback state sent hout work =>
    refine ⟨state ▸ (h.state.queues queues).congr rfl rfl, fun _ _ _ hwork => ?_⟩
    rw [work] at hwork
    cases hwork

theorem overflow_stalled (a : State P) : (a.overflow C).1 = .error .stalled := by
  unfold State.overflow
  split
  · rfl
  · split <;> rfl

theorem pushL1_cases (a : State P) (entry : Entry P) :
    (∃ error next, a.pushL1 C entry = (.error error, next) ∧ (∀ e, error ≠ .encode e) ∧ Queues a next) ∨
      a.pushL1 C entry = (.ok (), { a with l1 := a.l1 ++ [entry], l1Bytes := a.l1Bytes + entry.bytes }) := by
  unfold State.pushL1
  split
  · exact .inl ⟨_, _, rfl, by simp, .refl⟩
  split
  · exact .inl ⟨_, _, Prod.ext (overflow_stalled a) rfl, by simp, .overflow⟩
  · exact .inr rfl

theorem reply_unencoded {a next : State P} {id : RequestId} {result : Except Refusal (ReplyBody P)}
    {error : EncodeError} (h : reply C a id result = (.error (.encode error), next)) : next = a := by
  unfold reply at h
  split at h
  · exact (congrArg Prod.snd h).symm
  next frames hframes =>
  split at h
  · cases h
  split at h
  · cases h
  split at h
  · split at h
    · have hs := overflow_stalled (C := C) a
      rw [h] at hs
      cases hs
    · cases h
  rcases pushL1_cases (C := C) a (.message frames (some id)) with ⟨error', next', he, hne, -⟩ | he
  · rw [he] at h
    have her : error' = .encode error := by simpa using congrArg Prod.fst h
    exact absurd her (hne error)
  · rw [he] at h
    cases h

theorem reply_cases (a : State P) (id : RequestId) (result : Except Refusal (ReplyBody P)) :
    (Queues a (reply C a id result).2 ∧ replyQueued C a id result = none) ∨
      ∃ raw, raw ≠ [] ∧ replyQueued C a id result = some (.reply id result) ∧
        ((reply C a id result).2.lanes = if (CoreMessage.reply id result).bulk
          then { a.lanes with l2 := a.l2 ++ [(id, framesOf (.reply id result) raw)] }
          else { a.lanes with l1 := a.l1 ++ [.message (framesOf (.reply id result) raw) (some id)] }) ∧
        (a.Holds → (reply C a id result).2.Holds) := by
  unfold replyQueued reply
  split
  · exact .inl ⟨.refl, rfl⟩
  next frames hframes =>
  obtain ⟨raw, hraw, rfl⟩ := encode_framesOf hframes
  split
  · exact .inl ⟨.refl, rfl⟩
  split
  · exact .inl ⟨.refl, rfl⟩
  split
  · split
    · refine .inl ⟨.overflow, ?_⟩
      rw [overflow_stalled]
      rfl
    · exact .inr ⟨raw, hraw, rfl, rfl, fun h => h.congr rfl rfl⟩
  rcases pushL1_cases (C := C) a (.message (framesOf (.reply id result) raw) (some id)) with
    ⟨error, next, he, -, hq⟩ | he
  · rw [he]
    exact .inl ⟨hq, rfl⟩
  · rw [he]
    exact .inr ⟨raw, hraw, rfl, rfl, fun h => h.congr rfl rfl⟩

theorem inventory_cases (a : State P) (i : P.Inventory) (n : Nat) :
    (Queues a (inventory C a i n).2 ∧ ∃ error, (inventory C a i n).1 = .error error) ∨
      ∃ raw, raw ≠ [] ∧ (inventory C a i n).1 = .ok () ∧ (inventory C a i n).2.lanes = { a.lanes with
        l1 := if a.inventoryQueued then a.l1 else a.l1 ++ [.inventory]
        inventory := some (framesOf (.inventory i n) raw)
        inventoryQueued := true } ∧ (a.Holds → (inventory C a i n).2.Holds) := by
  unfold inventory
  split
  · exact .inl ⟨.refl, _, rfl⟩
  next frames hframes =>
  obtain ⟨raw, hraw, rfl⟩ := encode_framesOf hframes
  split
  · exact .inl ⟨.refl, _, rfl⟩
  split
  · next hqueued =>
    refine .inr ⟨raw, hraw, rfl, ?_, fun h => h.congr rfl rfl⟩
    simp [State.lanes, hqueued]
  next hqueued =>
  rcases pushL1_cases (C := C) a .inventory with ⟨error, next, he, -, hq⟩ | he
  · rw [he]
    exact .inl ⟨hq, _, rfl⟩
  rw [he]
  refine .inr ⟨raw, hraw, rfl, ?_, fun h => h.congr rfl rfl⟩
  simp [State.lanes, hqueued]

theorem moved_reply (id : RequestId) (result : Except Refusal (ReplyBody P))
    (hst : t = { s with state := (reply C s.state id result).2 })
    (hreplies : replies C s.state e = replyQueued C s.state id result) (hannounces : announces C s.state e = none) :
    Moved C s t e := by
  subst hst
  rcases reply_cases (C := C) s.state id result with ⟨hq, hnone⟩ | ⟨raw, hraw, hs, hl, hh⟩
  · exact .produced hq rfl rfl (hreplies.trans hnone) hannounces
  · exact .replied hraw (hreplies.trans hs) hannounces hl hh rfl rfl

theorem moved_take (h : s.Holds) (lowest : Priority) (hidle : s.work = none) :
    Moved C s ({ s with state := (s.state.take lowest).2, turns := s.turns ++ s.state.turnNow }.begin
      (s.state.take lowest).1) (.take lowest) := by
  obtain ⟨ht, hh⟩ := State.take_takes h.state lowest
  generalize s.state.take lowest = out at ht hh ⊢
  obtain ⟨taken, state⟩ := out
  have hnone (ticket : FrameTicket) (p : P.Presentation) (frames : Frames P)
      (hwork : s.work = some (.present ticket p (some frames))) : Plain frames := by
    rw [hidle] at hwork
    cases hwork
  rcases taken with _ | f | ⟨ticket, p, ending⟩ | work | _
  · exact .took ht hh (by simp [Connection.begin, handed]) hnone rfl rfl
  · exact .took ht hh rfl hnone rfl rfl
  · refine .took ht hh (by simp [Connection.begin, handed]) ?_ rfl rfl
    intro ticket' p' frames hwork
    obtain ⟨rfl, rfl, rfl⟩ : ticket = ticket' ∧ p = p' ∧ ending = some frames := by
      simpa [Connection.begin] using hwork
    exact ht.ending rfl
  · refine .took ht hh (by simp [Connection.begin, handed]) ?_ rfl rfl
    intro ticket p frames hwork
    simp [Connection.begin] at hwork
  · exact .took ht hh (by simp [Connection.begin, handed]) hnone rfl rfl

theorem Step.moved (h : s.Holds) (hs : Step C s e t) : Moved C s t e := by
  unfold Step event at hs
  cases e with
  | begin id => cases hs; exact .produced (.begin id) rfl rfl rfl rfl
  | reply id result => exact moved_reply id result (Option.some.inj hs).symm rfl rfl
  | replyOrRefuse id result =>
    cases hs
    unfold replyOrRefuse
    split
    · next next he =>
      obtain rfl := reply_unencoded he
      exact moved_reply id (.error .capacity) rfl (by simp [replies, he]) rfl
    · next next he =>
      obtain rfl := reply_unencoded he
      exact moved_reply id (.error .failed) rfl (by simp [replies, he]) rfl
    next hla hu =>
    refine moved_reply id result rfl ?_ rfl
    unfold replies
    dsimp only
    split
    · next her => exact (hla _ (Prod.ext her rfl)).elim
    · next her => exact (hu _ (Prod.ext her rfl)).elim
    · rfl
  | pane c event => cases hs; exact .produced (.pane c event) rfl rfl rfl rfl
  | inventory i n =>
    dsimp only at hs
    rcases inventory_cases (C := C) s.state i n with ⟨hq, error, her⟩ | ⟨raw, hraw, ho, hl, hh⟩
    · split at hs
      · next he =>
        rw [he] at her
        cases her
      next he =>
      rw [he] at hq
      cases hs
      exact .produced hq rfl rfl rfl (by simp [announces, he, Except.isOk, Except.toBool])
    split at hs
    · next he =>
      rw [he] at hl hh
      cases hs
      exact .offered rfl hraw rfl (by simp [announces, he, Except.isOk, Except.toBool]) hl hh rfl rfl
    · next he =>
      rw [he] at ho
      cases ho
  | updateFacts facts =>
    have hq := Queues.updateFacts (a := s.state) (C := C) facts
    dsimp only at hs
    split at hs
    · next he =>
      rw [he] at hq
      cases hs
      exact .produced hq rfl rfl rfl rfl
    next he =>
    rw [he] at hq
    cases hs
    exact .produced hq rfl rfl rfl rfl
  | ping nonce | pong nonce => cases hs; exact .produced (.pushL0 (by simp) (by simp)) rfl rfl rfl rfl
  | goodbye fatal => cases hs; exact .produced (.goodbye fatal) rfl rfl rfl rfl
  | disconnected => cases hs; exact .produced (.channels id) rfl rfl rfl rfl
  | openChannel c =>
    have hq := Queues.openChannel (a := s.state) c
    dsimp only at hs
    split at hs
    · cases hs
    split at hs
    · next he =>
      rw [he] at hq
      cases hs
      exact .produced hq rfl rfl rfl rfl
    next he =>
    rw [he] at hq
    cases hs
    exact .produced hq rfl rfl rfl rfl
  | close c => cases hs; exact .produced (.forget c) rfl rfl rfl rfl
  | endChannel c event => cases hs; exact .produced (.endChannel c event) rfl rfl rfl rfl
  | takeClosed => cases hs; exact .produced (.channels id) rfl rfl rfl rfl
  | view c visible => cases hs; exact .produced (.view h.state.endings c visible) rfl rfl rfl rfl
  | present c p => cases hs; exact .produced (.present c p) rfl rfl rfl rfl
  | requireKeyframe c => cases hs; exact .produced (.requireKeyframe c) rfl rfl rfl rfl
  | acknowledge c frame => cases hs; exact .produced (.acknowledge h.state.endings c frame) rfl rfl rfl rfl
  | startSemantics c generation => cases hs; exact .produced (.of_semantic (s.state.semantic_startSemantics c generation)) rfl rfl rfl rfl
  | endSemantics c => cases hs; exact .produced (.of_semantic (s.state.semantic_endSemantics c)) rfl rfl rfl rfl
  | semantics c model => cases hs; exact .produced (.of_semantic (semantic_semantics s.state c model)) rfl rfl rfl rfl
  | acknowledgeSemantics c generation revision =>
    cases hs
    exact .produced (.of_semantic (s.state.semantic_acknowledgeSemantics c generation revision)) rfl rfl rfl rfl
  | written now => cases hs; exact .produced (.written now) rfl rfl rfl rfl
  | take lowest =>
    dsimp only at hs
    split at hs
    · cases hs
    next hidle =>
    cases hs
    exact moved_take h lowest (by simpa using hidle)
  | encoded presented =>
    dsimp only at hs
    split at hs
    · next ticket p ending hwork =>
      cases hs
      have hending : ∀ frames ∈ ending, Plain frames := by
        intro frames hframes
        obtain rfl : ending = some frames := hframes
        exact h.work ticket p frames hwork
      obtain ⟨hq, hp⟩ := Queues.finishFrame (a := s.state) (C := C) ticket hending presented
      generalize finishFrame C s.state ticket ending (encodeFrame C ticket presented) = out at hq hp
      obtain ⟨frames, mid⟩ := out
      cases frames with
      | nil => exact .finished hq plain_nil plain_nil (by simp [done, handOut]) rfl plain_nil rfl rfl rfl
      | cons f rest =>
        refine .finished hq (fun g hg => hp g (List.mem_cons_of_mem _ hg)) plain_nil
          (by simp [done, handOut]) rfl ?_ rfl rfl rfl
        intro g hg
        obtain rfl : g = f := by simpa [handOut] using hg
        exact hp _ List.mem_cons_self
    · cases hs
  | encodedSemantics encoded =>
    dsimp only at hs
    split at hs
    · next work hwork =>
      split at hs
      · cases hs
      cases hs
      obtain ⟨hq, hp⟩ := Queues.finishSemantics (a := s.state) (C := C) work encoded
      generalize finishSemantics C s.state work encoded = out at hq hp
      obtain ⟨frames, mid⟩ := out
      cases frames with
      | nil => exact .finished hq plain_nil plain_nil (by simp [done, handOutLast]) rfl plain_nil rfl rfl rfl
      | cons f rest =>
        refine .finished hq plain_nil (fun g hg => hp g (List.mem_cons_of_mem _ hg))
          (by simp [done, handOutLast]) rfl ?_ rfl rfl rfl
        intro g hg
        obtain rfl : g = f := by simpa [handOutLast] using hg
        exact hp _ List.mem_cons_self
    · cases hs

end Connection
end SpaceTerm.Outbox
