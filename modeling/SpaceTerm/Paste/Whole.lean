import SpaceTerm.Paste.Host
import SpaceTerm.Link.Effect

/-! # Pastes reach the Pane whole

A text is passed on only at a chunk marked last, and is then the chunks since the last one marked so or
the binding. A chunk that is discarded aborts the paste it belongs to only while that paste is in
progress: one that would have begun it is forgotten, and the rest of its paste is passed on alone. -/

namespace SpaceTerm.Paste
open Lib
open Hierarchy (Refusal)
open Link (maxPasteBytes maxPasteChunkBytes)

variable {X : Contents} {σ : Type}

namespace Item

/-- Where a new paste may begin. -/
def ends : Item → Bool
  | bound | chunk _ _ true | lost _ true | passed _ => true
  | _ => false

def isChunk : Item → Bool
  | chunk .. | lost .. => true
  | _ => false

end Item

/-- What happened since the last chunk marked so or the binding, newest first. -/
def since (trace : List Item) : List Item := trace.takeWhile (!·.ends)

/-- A text of the last chunk and the chunks before it, which followed one another: all of its
generation, nothing between them, and within the limit. -/
def Whole (text : Text) (trace : List Item) : Prop :=
  ∃ (generation : Nat) (chunks : List Text) (final : Text) (older before : List Item), trace = .chunk generation final true :: older ∧
    since older = (chunks.map (Item.chunk generation · false)).reverse ++ before ∧
    (∀ item ∈ before, item.isChunk = false) ∧ text = chunks.flatten ++ final ∧
    Text.utf8Len text ≤ maxPasteBytes

/-- No chunk that began a paste was discarded. -/
def Begun (trace : List Item) : Prop :=
  ∀ text older, Item.lost text false :: older <:+ trace → ∃ item ∈ since older, item.isChunk = true

variable {trace : List Item} {item : Item}

theorem Begun.older (h : Begun (item :: trace)) : Begun trace :=
  fun text older hs => h text older (hs.trans (List.suffix_cons _ _))

def Follows (p : PendingPaste) (trace : List Item) : Prop :=
  ∃ (chunks : List Text) (before : List Item), since trace = (chunks.map (Item.chunk p.generation · false)).reverse ++ before ∧
    (∀ item ∈ before, item.isChunk = false) ∧
    (p.tooLarge = false → p.text = chunks.flatten ∧ Text.utf8Len p.text ≤ maxPasteBytes)

def Agrees : Binding → List Item → Prop
  | .bound none, trace => ∀ item ∈ since trace, item.isChunk = false
  | .bound (some p), trace => p.aborted = none → Follows p trace
  | _, _ => True

structure Inv (s : State σ) : Prop where
  passed : ∀ text older, Item.passed text :: older <:+ s.trace → Whole text older
  agrees : Agrees s.binding s.trace

/-- The invariant, as long as no chunk that began a paste was discarded. -/
def Ok (s : State σ) : Prop := Begun s.trace → Inv s

theorem since_cons_ends (h : item.ends = true) : since (item :: trace) = [] := by
  simp [since, h]

theorem since_cons (h : item.ends = false) : since (item :: trace) = item :: since trace := by
  simp [since, h]

theorem agrees_ends (h : item.ends = true) : Agrees (.bound none) (item :: trace) := by
  intro item' hi'
  rw [since_cons_ends h] at hi'
  cases hi'

theorem passed_cons (h : ∀ text older, Item.passed text :: older <:+ trace → Whole text older)
    (hi : ∀ text, item ≠ .passed text) (text : Text) (older : List Item)
    (hs : Item.passed text :: older <:+ item :: trace) : Whole text older := by
  rcases List.suffix_cons_iff.mp hs with he | hs
  · exact absurd (List.cons.inj he).1.symm (hi text)
  · exact h text older hs

namespace Ok
variable {s : State σ} {P : Pane X σ}

theorem congr {t : State σ} (h : Ok s) (hbi : t.binding = s.binding) (ht : t.trace = s.trace) : Ok t := by
  intro hb
  obtain ⟨hp, ha⟩ := h (ht ▸ hb)
  exact ⟨ht ▸ hp, by rw [hbi, ht]; exact ha⟩

theorem rebind (h : Ok s) {binding : Binding} (ha : Inv s → Agrees binding s.trace) :
    Ok { s with binding := binding } :=
  fun hb => ⟨(h hb).passed, ha (h hb)⟩

theorem abort (h : Ok s) (refusal : Refusal) : Ok (s.abort refusal) := by
  unfold State.abort
  split
  · next p hb =>
    refine h.rebind fun hi ha => ?_
    exact absurd ha (by cases hp : p.aborted <;> simp [PendingPaste.abort, hp])
  · exact h

/-- No paste is in progress that was not aborted. -/
def Aborted (s : State σ) : Prop := ∀ p, s.binding = .bound (some p) → p.aborted ≠ none

theorem abort_aborted (s : State σ) (refusal : Refusal) : Aborted (s.abort refusal) := by
  intro p hp ha
  unfold State.abort at hp
  split at hp
  · next q hb =>
    obtain rfl : q.abort refusal = p := by simpa using hp
    cases hq : q.aborted <;> simp [PendingPaste.abort, hq] at ha
  · next hnone => exact hnone p hp

theorem record (h : Ok s) (ha : Aborted s) {item : Item} (hc : item.isChunk = false)
    (he : item.ends = false) : Ok (s.record item) := by
  intro hb
  have hi := h hb.older
  refine ⟨passed_cons hi.passed fun text heq => ?_, ?_⟩
  · rw [heq] at he
    cases he
  change Agrees s.binding (item :: s.trace)
  have hag := hi.agrees
  rcases hbi : s.binding with _ | _ | _ | p
  · trivial
  · trivial
  · rw [hbi] at hag
    intro item' hit'
    rw [since_cons he] at hit'
    rcases List.mem_cons.mp hit' with rfl | hit'
    · exact hc
    · exact hag item' hit'
  · exact fun hnone => absurd hnone (ha p hbi)

theorem lose (h : Ok s) (ha : Aborted s) (rest : List (Turn X)) :
    Ok { s with trace := lostChunks rest ++ s.trace } := by
  induction rest generalizing s with
  | nil => exact h
  | cons turn rest ih =>
    cases turn with
    | request request => exact ih h ha
    | chunk text last =>
      rw [lostChunks, List.append_assoc]
      refine ih (s := s.record (.lost text last)) (fun hb => ?_) ha
      have hi := h hb.older
      refine ⟨passed_cons hi.passed (by simp), ?_⟩
      change Agrees s.binding (.lost text last :: s.trace)
      have hag := hi.agrees
      rcases hbi : s.binding with _ | _ | _ | p
      · trivial
      · trivial
      · rw [hbi] at hag
        cases last with
        | true => exact agrees_ends rfl
        | false =>
          -- With no paste in progress the chunk would have begun one.
          obtain ⟨item, hit, hc⟩ := hb text s.trace (List.suffix_refl _)
          rw [hag item hit] at hc
          cases hc
      · exact fun hnone => absurd hnone (ha p hbi)

/-! ## Chunks -/

variable {generation : Nat}

theorem add_aborted {p : PendingPaste} {text : Text}
    (h : (p.add generation text).aborted = none) : p.aborted = none ∧ p.generation = generation := by
  unfold PendingPaste.add at h
  by_cases hg : p.generation = generation
  · rw [if_neg (not_not.mpr hg)] at h
    dsimp only at h
    refine ⟨?_, hg⟩
    split_ifs at h <;> exact h
  rw [if_pos hg] at h
  dsimp only at h
  have ha : (p.abort .stale).aborted = none := by split_ifs at h <;> exact h
  cases hp : p.aborted <;> simp [PendingPaste.abort, hp] at ha

theorem add_spec {p : PendingPaste} (text : Text) {chunks : List Text}
    (h : p.tooLarge = false → p.text = chunks.flatten ∧ Text.utf8Len p.text ≤ maxPasteBytes) :
    (p.add p.generation text).generation = p.generation ∧
      ((p.add p.generation text).tooLarge = false →
        (p.add p.generation text).text = (chunks ++ [text]).flatten ∧
          Text.utf8Len (p.add p.generation text).text ≤ maxPasteBytes) := by
  unfold PendingPaste.add
  rw [if_neg (not_not.mpr rfl)]
  dsimp only
  split_ifs with hs hl
  · exact ⟨rfl, fun hf => by cases hf⟩
  · exact ⟨rfl, fun hf => absurd hl (by simp [hf])⟩
  refine ⟨rfl, fun _ => ?_⟩
  obtain ⟨ht, -⟩ := h (Bool.eq_false_iff.mpr hl)
  refine ⟨by simp [ht], ?_⟩
  rw [Text.utf8Len_append]
  omega

theorem pending_follows {pending : Option PendingPaste} {trace : List Item} (h : Agrees (.bound pending) trace)
    (ha : (pending.getD { generation := generation }).aborted = none) :
    Follows (pending.getD { generation := generation }) trace := by
  cases pending with
  | none => exact ⟨[], since trace, rfl, h, fun _ => ⟨rfl, Nat.zero_le _⟩⟩
  | some p => exact h ha

theorem pass (h : Ok s) {text : Text} (hbi : s.binding = .bound none)
    (hw : Begun s.trace → Whole text s.trace) : Ok (s.pass P generation text).2 := by
  have hr : Ok ({ s with pane := (P.request s.pane (.paste generation text)).2 }.record (.passed text)) := by
    intro hb
    have hi := h hb.older
    refine ⟨fun text' older hs => ?_, ?_⟩
    · rcases List.suffix_cons_iff.mp hs with he | hs
      · obtain ⟨ht, rfl⟩ := List.cons.inj he
        obtain rfl : text' = text := Item.passed.inj ht
        exact hw hb.older
      · exact hi.passed text' older hs
    · change Agrees s.binding _
      rw [hbi]
      exact agrees_ends rfl
  unfold State.pass
  dsimp only
  split <;> exact hr

theorem paste (h : Ok s) (generation : Nat) (text : Text) (last : Bool) :
    Ok (s.paste P generation text last).2 := by
  unfold State.paste
  split
  · next pending hbi =>
    -- The chunks so far, with this one, where the paste is not aborted.
    have hf (hbe : Begun s.trace)
        (ha : ((pending.getD { generation := generation }).add generation text).aborted = none) :
        ∃ (chunks : List Text) (before : List Item),
          since s.trace = (chunks.map (Item.chunk generation · false)).reverse ++ before ∧
          (∀ item ∈ before, item.isChunk = false) ∧
          ((pending.getD { generation := generation }).add generation text).generation = generation ∧
          (((pending.getD { generation := generation }).add generation text).tooLarge = false →
            ((pending.getD { generation := generation }).add generation text).text = (chunks ++ [text]).flatten ∧
              Text.utf8Len ((pending.getD { generation := generation }).add generation text).text ≤
                maxPasteBytes) := by
      obtain ⟨hnone, hg⟩ := add_aborted ha
      obtain ⟨chunks, before, hsi, hb, ht⟩ :=
        pending_follows (hbi ▸ (h hbe).agrees) hnone
      obtain ⟨hs, hadd⟩ := add_spec text ht
      rw [hg] at hsi hs hadd
      exact ⟨chunks, before, hsi, hb, hs, hadd⟩
    generalize (pending.getD { generation := generation }).add generation text = p at hf
    dsimp only
    split
    · next hla =>
      subst hla
      intro hbe
      have hi := h hbe.older
      refine ⟨passed_cons hi.passed (by simp), fun ha => ?_⟩
      obtain ⟨chunks, before, hsi, hb, hg, ht⟩ := hf hbe.older ha
      refine ⟨chunks ++ [text], before, ?_, hb, ht⟩
      change since (.chunk generation text false :: s.trace) = _
      rw [since_cons rfl, hsi, hg]
      simp
    next hla =>
    obtain rfl : last = true := by simpa using hla
    have he : Ok { s.record (.chunk generation text true) with binding := .bound none } := by
      exact fun hbe => ⟨passed_cons (h hbe.older).passed (by simp), agrees_ends rfl⟩
    split
    · exact he
    next ha =>
    split
    · exact he
    next hl =>
    refine he.pass rfl fun hbe => ?_
    obtain ⟨chunks, before, hsi, hb, -, ht⟩ := hf hbe.older ha
    obtain ⟨ht, hsiz⟩ := ht (Bool.eq_false_iff.mpr hl)
    exact ⟨generation, chunks, text, s.trace, before, rfl, hsi, hb, by simp [ht], hsiz⟩
  · exact h

/-! ## Messages -/

theorem ask (h : Ok s) (request : Request X) : Ok (s.ask P request).2 := h.congr rfl rfl

theorem take (h : Ok s) (generation : Nat) (turn : Turn X) : Ok (s.take P generation turn).2 := by
  cases turn with
  | chunk text last => exact h.paste generation text last
  | request request =>
    exact ((h.abort .stale).record (abort_aborted s .stale) rfl rfl).ask request

theorem applyTurns (h : Ok s) (generation : Nat) (rest : List (Turn X)) (outcome : Option InputOutcome) :
    Ok (s.applyTurns P generation rest outcome).2 := by
  induction rest generalizing s outcome with
  | nil => exact h
  | cons turn rest ih =>
    have htaken := h.take (P := P) generation turn
    unfold State.applyTurns
    split
    · next settled s' hs =>
      rw [hs] at htaken
      exact ih htaken _
    next refusal s' hs =>
    rw [hs] at htaken
    have ha := abort_aborted s' refusal
    exact ((htaken.abort refusal).record ha rfl rfl).lose ha rest

theorem refuse (h : Ok s) (ha : Aborted s) (input : Input X) (refusal : Refusal) : Ok (s.refuse input refusal).2 :=
  (h.record ha rfl rfl).lose ha (turns input.generation input.events)

theorem apply (h : Ok s) (input : Input X) : Ok (s.apply P input).2 := by
  unfold State.apply
  split
  · next hb => exact h.refuse (fun p hp => by rw [hb] at hp; cases hp) input _
  · next hb => exact h.refuse (fun p hp => by rw [hb] at hp; cases hp) input _
  · exact h.applyTurns _ _ _

theorem inputMessage (h : Ok s) (input : Input X) : Ok (s.inputMessage P input).2 := by
  have ha := h.apply (P := P) input
  unfold State.inputMessage
  dsimp only
  split
  · dsimp only
    split_ifs
    · exact ha
    · exact ha.congr rfl rfl
  · exact ha

theorem step (h : Ok s) (event : Event X) : Ok (s.step P event) := by
  cases event with
  | input input => exact h.inputMessage input
  | bind =>
    exact fun hb => ⟨passed_cons (h hb.older).passed (by simp), agrees_ends rfl⟩
  | observe | close => exact h.rebind fun _ => trivial

theorem run (h : Ok s) (events : List (Event X)) : Ok (s.run P events) := by
  induction events generalizing s with
  | nil => exact h
  | cons event events ih => exact ih (h.step event)

end Ok

namespace State
variable {P : Pane X σ} {s : State σ}

theorem paste_last {pending : Option PendingPaste} {generation : Nat} {text : Text}
    {settled : Option InputOutcome} {s' : State σ} (hb : s.binding = .bound pending)
    (h : s.paste P generation text true = (.ok settled, s')) : settled.isSome = true := by
  unfold paste at h
  rw [hb] at h
  dsimp only at h
  rw [if_neg (by simp)] at h
  split at h
  · cases h
  split at h
  · cases h
    rfl
  unfold pass at h
  dsimp only at h
  split at h <;> cases h
  rfl

theorem inputMessage_last (P : Pane X σ) (s : State σ) (serial generation : Nat) (text : Text) :
    ((s.inputMessage P ⟨serial, generation, [.paste text true]⟩).1).isSome = true := by
  have ha : ((s.apply P ⟨serial, generation, [.paste text true]⟩).1).isSome = true := by
    unfold apply
    split
    · rfl
    · rfl
    next hb =>
    simp only [turns, applyTurns, take]
    split
    · next hp => simpa using paste_last hb hp
    · rfl
  unfold inputMessage
  dsimp only
  split <;> exact ha

end State

/-! ## The client's side -/

section Client
open Link (ClientMessage Encoding LinkError chunksFrom chunks pasteMessages messages queueAll_cases)
variable {Y : Link.Contents}

theorem chunksFrom_spec {limit : Nat} (hl : 4 ≤ limit) (piece text : Text)
    (hpi : Text.utf8Len piece ≤ limit) : ∃ front final, chunksFrom limit piece text = front ++ [final] ∧
      (front ++ [final]).flatten = piece ++ text ∧ ∀ p ∈ front ++ [final], Text.utf8Len p ≤ limit := by
  induction text generalizing piece with
  | nil =>
    refine ⟨[], piece, rfl, by simp, fun p hp => ?_⟩
    obtain rfl : p = piece := by simpa using hp
    exact hpi
  | cons c rest ih =>
    unfold chunksFrom
    split
    · next hf =>
      obtain ⟨front, final, he, hfl, hsi⟩ := ih _ hf
      exact ⟨front, final, he, by simp [hfl], hsi⟩
    have hs : Text.utf8Len [c] ≤ limit := by
      have := Char.utf8Size_le_four c
      simp only [Text.utf8Len_cons, Text.utf8Len_nil]
      omega
    obtain ⟨front, final, he, hfl, hsi⟩ := ih _ hs
    refine ⟨piece :: front, final, by rw [he]; rfl, ?_, fun p hp => ?_⟩
    · rw [List.cons_append, List.flatten_cons, hfl]
      rfl
    · rcases List.mem_cons.mp hp with rfl | hp
      · exact hpi
      · exact hsi p hp

def numbered (channel : Wire.Channel) : Nat → List (Text × Bool) → List (ClientMessage Y)
  | _, [] => []
  | serial, (text, last) :: rest => .input channel serial (.paste text last) :: numbered channel (serial + 1) rest

theorem pasteMessages_numbered {channel : Wire.Channel} {front : List Text} {final : Text} {last serial : Nat}
    {ms : List (ClientMessage Y)} (h : pasteMessages channel last (front ++ [final]) = .ok (ms, serial)) :
    ms = numbered channel (last + 1) (front.map (·, false) ++ [(final, true)]) := by
  induction front generalizing last ms serial with
  | nil =>
    simp only [List.nil_append, pasteMessages] at h
    split at h
    · cases h
    · cases h
      rfl
  | cons piece front ih =>
    rw [List.cons_append, pasteMessages] at h
    split at h
    · cases h
    split at h
    · cases h
    next hrest =>
    cases h
    rw [ih hrest]
    simp [numbered]

theorem paste_queued (E : Encoding Y) (s : Link.State Y) (channel : Wire.Channel) (text : Text)
    (ht : Text.utf8Len text ≤ maxPasteBytes) : (∃ e, s.paste E channel text = (.error e, s)) ∨
      ∃ first last s' front final, s.paste E channel text = (.ok last, s') ∧
        messages s'.l0 = messages s.l0 ++ numbered channel first (front.map (·, false) ++ [(final, true)]) ∧
        (front ++ [final]).flatten = text ∧
        ∀ piece ∈ front ++ [final], Text.utf8Len piece ≤ maxPasteChunkBytes := by
  obtain ⟨front, final, hc, hf, hs⟩ := chunksFrom_spec
    (show 4 ≤ maxPasteChunkBytes by decide) [] text (Nat.zero_le _)
  unfold Link.State.paste
  rw [if_neg (not_lt.mpr ht)]
  unfold Link.State.sendChannel
  split
  · exact .inl ⟨_, rfl⟩
  split
  · exact .inl ⟨_, rfl⟩
  next state _ =>
  split
  · exact .inl ⟨_, rfl⟩
  split
  · exact .inl ⟨_, rfl⟩
  next ms serial hms =>
  rw [chunks, hc] at hms
  rcases queueAll_cases (E := E) (s := s) ms true with ⟨e, hqueue⟩ | ⟨-, ⟨hu, -⟩ | ⟨queued, bytes, -, hqueued, hqueue⟩⟩
  · exact .inl ⟨e, by rw [hqueue]⟩
  · cases hu
  · refine .inr ⟨state.serial + 1, _, _, front, final, by rw [hqueue], ?_, hf, hs⟩
    simp only [Link.messages_append, hqueued]
    rw [pasteMessages_numbered hms]

end Client

/-! ## Both sides -/

/-- A paste within the limit is queued as a whole or not at all, in pieces within theirs of which the
last is marked. Over every run on a channel that discarded no chunk which began a paste, each text that
reached the Pane was whole; and a message of one last chunk is reported. -/
theorem pastes_whole {Y : Link.Contents} (E : Link.Encoding Y) (P : Pane X σ) (pane : σ) (events : List (Event X))
    (hbegun : Begun (State.run P { pane := pane } events).trace) :
    (∀ (link : Link.State Y) channel text, Text.utf8Len text ≤ maxPasteBytes →
      (∃ e, link.paste E channel text = (.error e, link)) ∨
        ∃ first last link' front final, link.paste E channel text = (.ok last, link') ∧
          Link.messages link'.l0 =
            Link.messages link.l0 ++ numbered channel first (front.map (·, false) ++ [(final, true)]) ∧
          (front ++ [final]).flatten = text ∧
          ∀ piece ∈ front ++ [final], Text.utf8Len piece ≤ maxPasteChunkBytes) ∧
    (∀ text older, Item.passed text :: older <:+ (State.run P { pane := pane } events).trace → Whole text older) ∧
    ∀ serial generation text, (((State.run P { pane := pane } events).inputMessage P
      ⟨serial, generation, [.paste text true]⟩).1).isSome = true := by
  have hnew : Ok ({ pane := pane } : State σ) := fun _ =>
    ⟨fun text older hs => absurd hs (by simp), trivial⟩
  exact ⟨fun link channel text ht => paste_queued E link channel text ht,
    (hnew.run events hbegun).passed, fun serial generation text => State.inputMessage_last P _ serial generation text⟩

def keylessPane : Pane ⟨Unit, Unit, Unit, Unit, Unit, Unit⟩ Unit where
  request _
    | .keys .. => (.refused .unsupported, ())
    | .paste .. => (.paste .written, ())
    | _ => (.done, ())
  inputWritten _ _ := ()

def twoChunks : List (Event ⟨Unit, Unit, Unit, Unit, Unit, Unit⟩) :=
  [.bind, .input ⟨1, 1, [.paste ['a'] false]⟩, .input ⟨2, 1, [.paste ['b'] true]⟩]

theorem pastes_whole_twoChunks : Whole ['a', 'b']
    [.chunk 1 ['b'] true, .chunk 1 ['a'] false, .bound] := by
  have ht : (State.run keylessPane { pane := () } twoChunks).trace =
      [.passed ['a', 'b'], .chunk 1 ['b'] true, .chunk 1 ['a'] false, .bound] := by decide +kernel
  have hb : Begun (State.run keylessPane { pane := () } twoChunks).trace := by
    intro text older hs
    exact absurd (hs.subset List.mem_cons_self) (by simp [ht])
  exact (pastes_whole (Y := ⟨Unit, Unit, Unit, Unit⟩) ⟨fun _ => some 1, fun _ => true, fun _ => true, fun _ => true⟩
    keylessPane () twoChunks hb).2.1 _ _ (ht ▸ List.suffix_refl _)

/-- A first chunk behind a key that is refused, and the last chunk in the next message. -/
def discardedStart : List (Event ⟨Unit, Unit, Unit, Unit, Unit, Unit⟩) :=
  [.bind, .input ⟨1, 1, [.key (), .paste ['a'] false]⟩, .input ⟨2, 1, [.paste ['b'] true]⟩]

/-- The discarded first chunk is forgotten, and the second reaches the Pane alone. -/
theorem rest_passed_alone : ∃ older,
    Item.passed ['b'] :: older <:+ (State.run keylessPane { pane := () } discardedStart).trace ∧
      ¬Whole ['b'] older := by
  have ht : (State.run keylessPane { pane := () } discardedStart).trace =
      [.passed ['b'], .chunk 1 ['b'] true, .lost ['a'] false, .refused, .other, .bound] := by decide +kernel
  rw [ht]
  refine ⟨_, List.suffix_refl _, ?_⟩
  rintro ⟨generation, chunks, final, older, before, ht, hs, hb, -, -⟩
  obtain ⟨-, rfl⟩ := List.cons.inj ht
  -- The lost chunk is among what happened since the binding, and is none of the paste's own.
  have hl : Item.lost ['a'] false ∈ (chunks.map (Item.chunk generation · false)).reverse ++ before :=
    hs ▸ by decide
  rcases List.mem_append.mp hl with hmem | hmem
  · simp at hmem
  · exact absurd (hb _ hmem) (by decide)

end SpaceTerm.Paste
