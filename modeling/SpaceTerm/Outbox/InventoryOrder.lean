import SpaceTerm.Outbox.Queues

/-! # Replies and the inventories before them

The last frames of replies and inventories leave the outbox through two lines: L1 with its inventory
entry, and L2, which is taken from only while L1 is empty (`Lines.Step`). So what was sent, then L1,
then L2 is one sequence that taking does not change, and in it each reply stands behind an inventory
at least as new as the one announced before it (`Ordered`). -/

namespace SpaceTerm.Outbox
open Wire Lib
open Connection (replies announces)

variable {P : Payloads} {C : Postcard P} {rev : P.Inventory → Nat}

/-! ## The connection with the order of its calls -/

/-- A reply in the order of its level, with the revision announced last before it. -/
structure Queued (P : Payloads) where
  message : CoreMessage P
  level : Priority
  announced : Option Nat

/-- A connection, the revision of the last inventory it was given, and the replies it was given. -/
structure Offers (P : Payloads) where
  connection : Connection P := {}
  announced : Option Nat := none
  queued : List (Queued P) := []

def replyLevel (m : CoreMessage P) : Priority := if m.bulk then .l2 else .l1

def Offers.event (C : Postcard P) (rev : P.Inventory → Nat) (o : Offers P) (e : Event P) : Option (Offers P) :=
  if (announces C o.connection.state e).all fun i => o.announced.all (· ≤ rev i) then
    (o.connection.event C e).map fun connection =>
      { connection
        announced := ((announces C o.connection.state e).map rev).or o.announced
        queued := o.queued ++ (replies C o.connection.state e).toList.map fun m =>
          ⟨m, replyLevel m, o.announced⟩ }
  else none

def Offers.Step (C : Postcard P) (rev : P.Inventory → Nat) (o : Offers P) (e : Event P) (o' : Offers P) : Prop :=
  o.event C rev e = some o'

/-! ## Marks -/

def isReply : CoreMessage P → Bool
  | .reply .. => true
  | _ => false

def inventoryOf : CoreMessage P → Option P.Inventory
  | .inventory i _ => some i
  | _ => none

def WireFrame.mark? (f : WireFrame P) : Option (CoreMessage P) :=
  f.completes.filter fun m => isReply m || (inventoryOf m).isSome

theorem WireFrame.mark?_of_completes {f : WireFrame P} {m : CoreMessage P} (h : f.completes = some m)
    (hm : isReply m || (inventoryOf m).isSome) : f.mark? = some m := by
  unfold mark?
  rw [h, Option.filter_some, if_pos hm]

theorem WireFrame.mark?_plain {f : WireFrame P} (h : f.answers = false ∧ f.inventory? = none) : f.mark? = none := by
  obtain ⟨hr, hi⟩ := h
  unfold answers at hr
  unfold inventory? at hi
  unfold mark?
  cases hc : f.completes with
  | none => rfl
  | some m =>
    rw [hc] at hr hi
    cases m with
    | reply id result => cases hr
    | inventory i n => cases hi
    | _ => rfl

theorem WireFrame.answers_iff {f : WireFrame P} : f.answers = true ↔ ∃ m, f.mark? = some m ∧ isReply m = true := by
  unfold answers mark?
  cases hc : f.completes with
  | none => simp
  | some m => cases m <;> simp [isReply, inventoryOf, Option.filter]

theorem WireFrame.mark?_completes {f : WireFrame P} {m : CoreMessage P} (h : f.mark? = some m) :
    f.completes = some m := by
  unfold mark? at h
  exact (Option.filter_eq_some_iff.mp h).1

theorem WireFrame.inventory?_eq (f : WireFrame P) : f.inventory? = f.mark?.bind inventoryOf := by
  unfold inventory? mark?
  cases hc : f.completes with
  | none => rfl
  | some m => cases m <;> simp [isReply, inventoryOf, Option.filter]

/-- The replies and the inventories that the frames complete, in their order. -/
def marks (frames : Frames P) : List (CoreMessage P) := frames.filterMap WireFrame.mark?

theorem marks_cons (f : WireFrame P) (rest : Frames P) : marks (f :: rest) = f.mark?.toList ++ marks rest := by
  unfold marks
  cases hma : f.mark? with
  | none => rw [List.filterMap_cons_none hma]; rfl
  | some m => rw [List.filterMap_cons_some hma]; rfl

theorem marks_append (frames more : Frames P) : marks (frames ++ more) = marks frames ++ marks more :=
  List.filterMap_append

theorem marks_plain {frames : Frames P} (h : Plain frames) : marks frames = [] :=
  List.filterMap_eq_nil_iff.mpr fun f hf => WireFrame.mark?_plain (h f hf)

theorem marks_framesOf {m : CoreMessage P} {raw : List RawFrame} (hm : isReply m || (inventoryOf m).isSome)
    (hraw : raw ≠ []) : marks (framesOf m raw) = [m] := by
  obtain ⟨front, f, hframes, hf, hfront⟩ := framesOf_last m hraw
  have hnone : marks front = [] := by
    refine List.filterMap_eq_nil_iff.mpr fun g hg => ?_
    unfold WireFrame.mark?
    rw [hfront g hg]
    rfl
  rw [hframes, marks_append, hnone, marks_cons, WireFrame.mark?_of_completes hf hm]
  rfl

def Entry.marks (inventory : Option (Frames P)) : Entry P → List (CoreMessage P)
  | .message frames _ => Outbox.marks frames
  | .inventory => Outbox.marks (inventory.getD [])
  | .updateFacts | .frame _ | .semantics _ => []

theorem Entry.marks_plain {inventory : Option (Frames P)} {entry : Entry P} (h : entry.Plain) :
    entry.marks inventory = [] := by
  cases entry with
  | message frames reply =>
    cases reply with
    | none => exact Outbox.marks_plain h
    | some id => exact h.elim
  | inventory => exact h.elim
  | _ => rfl

theorem entries_marks_congr {entries : List (Entry P)} (h : .inventory ∉ entries) (a b : Option (Frames P)) :
    entries.flatMap (Entry.marks a) = entries.flatMap (Entry.marks b) := by
  refine List.flatMap_congr fun entry hentry => ?_
  cases entry with
  | inventory => exact absurd hentry h
  | _ => rfl

theorem entries_marks_plain {entries : List (Entry P)} {inventory : Option (Frames P)}
    (h : ∀ entry ∈ entries, entry.Plain) : entries.flatMap (Entry.marks inventory) = [] :=
  List.flatMap_eq_nil_iff.mpr fun entry hentry => Entry.marks_plain (h entry hentry)

def Lanes.line1 (v : Lanes P) : List (CoreMessage P) := marks v.l1Rest ++ v.l1.flatMap (Entry.marks v.inventory)

def Lanes.line2 (v : Lanes P) : List (CoreMessage P) := marks v.l2Rest ++ v.l2.flatMap (marks ·.2)

/-- The replies and the inventories that were sent, each with its level. -/
def sentMarks (sent : List (WireFrame P × Priority)) : List (CoreMessage P × Priority) :=
  sent.filterMap fun g => g.1.mark?.map (·, g.2)

theorem sentMarks_append (sent more : List (WireFrame P × Priority)) :
    sentMarks (sent ++ more) = sentMarks sent ++ sentMarks more := List.filterMap_append

theorem sentMarks_plain {sent : List (WireFrame P × Priority)} (h : Plain (sent.map Prod.fst)) :
    sentMarks sent = [] := by
  refine List.filterMap_eq_nil_iff.mpr fun g hg => ?_
  rw [WireFrame.mark?_plain (h g.1 (List.mem_map_of_mem hg))]
  rfl

/-! ## Two lines -/

structure Lines (P : Payloads) where
  sent : List (CoreMessage P × Priority)
  line1 : List (CoreMessage P)
  line2 : List (CoreMessage P)

inductive Lines.Step (a : Lines P) : Option (CoreMessage P) → Option P.Inventory → Lines P → Prop
  | keep : Step a none none a
  | reply1 {m} (hm : isReply m = true) (hbulk : replyLevel m = .l1) :
      Step a (some m) none { a with line1 := a.line1 ++ [m] }
  | reply2 {m} (hm : isReply m = true) (hbulk : replyLevel m = .l2) :
      Step a (some m) none { a with line2 := a.line2 ++ [m] }
  | offer {i n} : Step a none (some i) { a with line1 := a.line1 ++ [.inventory i n] }
  /-- The inventory that waits in L1 takes the new content in its place. -/
  | replace {i n j k pre post} (h : a.line1 = pre ++ .inventory j k :: post)
      (hpost : ∀ m ∈ post, inventoryOf m = none) :
      Step a none (some i) { a with line1 := pre ++ .inventory i n :: post }
  | take1 {m rest} (h : a.line1 = m :: rest) :
      Step a none none { a with sent := a.sent ++ [(m, .l1)], line1 := rest }
  | take2 {m rest} (h1 : a.line1 = []) (h : a.line2 = m :: rest) :
      Step a none none { a with sent := a.sent ++ [(m, .l2)], line2 := rest }

def Connection.lines (s : Connection P) : Lines P := ⟨sentMarks s.sent, s.state.lanes.line1, s.state.lanes.line2⟩

theorem Lines.emit1 {sent : List (WireFrame P × Priority)} {line1 rest line2 : List (CoreMessage P)}
    (f : WireFrame P) (h : line1 = f.mark?.toList ++ rest) :
    Step ⟨sentMarks sent, line1, line2⟩ none none ⟨sentMarks (sent ++ [(f, .l1)]), rest, line2⟩ := by
  subst h
  rw [sentMarks_append]
  cases hma : f.mark? with
  | none => simpa [sentMarks, hma] using Step.keep
  | some m =>
    have hsent : sentMarks [(f, .l1)] = [(m, Priority.l1)] := by simp [sentMarks, hma]
    rw [hsent]
    exact .take1 (a := ⟨sentMarks sent, m :: rest, line2⟩) rfl

theorem Lines.emit2 {sent : List (WireFrame P × Priority)} {line1 line2 rest : List (CoreMessage P)}
    (f : WireFrame P) (h1 : line1 = []) (h : line2 = f.mark?.toList ++ rest) :
    Step ⟨sentMarks sent, line1, line2⟩ none none ⟨sentMarks (sent ++ [(f, .l2)]), line1, rest⟩ := by
  subst h
  rw [sentMarks_append]
  cases hma : f.mark? with
  | none => simpa [sentMarks, hma] using Step.keep
  | some m =>
    have hsent : sentMarks [(f, .l2)] = [(m, Priority.l2)] := by simp [sentMarks, hma]
    rw [hsent]
    exact .take2 (a := ⟨sentMarks sent, line1, m :: rest⟩) h1 rfl

/-- One inventory entry waits in L1 while `inventory_queued` is set, and no message there is one. -/
structure Tidy (v : Lanes P) : Prop where
  l0 : Plain v.l0
  bare : ∀ frames reply, .message frames reply ∈ v.l1 → Bare frames
  queued : v.inventoryQueued = true → ∃ pre post i n raw, v.l1 = pre ++ .inventory :: post ∧
    .inventory ∉ pre ∧ .inventory ∉ post ∧ raw ≠ [] ∧ v.inventory = some (framesOf (.inventory i n) raw)
  unqueued : v.inventoryQueued = false → .inventory ∉ v.l1

theorem marks_bare {frames : Frames P} (h : Bare frames) : ∀ m ∈ marks frames, inventoryOf m = none := by
  intro m hm
  obtain ⟨f, hf, hma⟩ := List.mem_filterMap.mp hm
  have hnone := h f hf
  rw [WireFrame.inventory?_eq, hma] at hnone
  exact hnone

theorem bare_reply (id : RequestId) (result : Except Hierarchy.Refusal (ReplyBody P)) (raw : List RawFrame) :
    Bare (framesOf (.reply id result) raw) := by
  intro f hf
  unfold WireFrame.inventory?
  rcases framesOf_completes _ hf with hnone | hs
  · rw [hnone]
  · rw [hs]

namespace Tidy
variable {v w : Lanes P}

theorem tail (h : Tidy v) {entry : Entry P} {l1 : List (Entry P)} (hl1 : v.l1 = entry :: l1)
    (hentry : entry ≠ .inventory) (rest : Frames P) : Tidy { v with l1 := l1, l1Rest := rest } where
  l0 := h.l0
  bare frames reply hmem := h.bare frames reply (hl1 ▸ List.mem_cons_of_mem _ hmem)
  queued hqueued := by
    obtain ⟨pre, post, i, n, raw, hs, hp, hpost, hraw, hframes⟩ := h.queued hqueued
    rw [hl1] at hs
    rcases List.cons_eq_append_iff.mp hs with ⟨rfl, hc⟩ | ⟨pre', rfl, ht⟩
    · exact absurd (List.cons.inj hc).1.symm hentry
    · exact ⟨pre', post, i, n, raw, ht, fun hmem => hp (List.mem_cons_of_mem _ hmem), hpost, hraw, hframes⟩
  unqueued hu hmem := h.unqueued hu (hl1 ▸ List.mem_cons_of_mem _ hmem)

theorem inventory_left (h : Tidy v) {l1 : List (Entry P)} (hl1 : v.l1 = .inventory :: l1) : .inventory ∉ l1 := by
  have hqueued : v.inventoryQueued = true := by
    by_contra hu
    exact h.unqueued (by simpa using hu) (hl1 ▸ List.mem_cons_self)
  obtain ⟨pre, post, i, n, raw, hs, hp, hpost, -⟩ := h.queued hqueued
  rw [hl1] at hs
  rcases List.cons_eq_append_iff.mp hs with ⟨rfl, hc⟩ | ⟨pre', rfl, -⟩
  · exact (List.cons.inj hc).2 ▸ hpost
  · exact absurd List.mem_cons_self hp

theorem inventory_tail (h : Tidy v) {l1 : List (Entry P)} (hl1 : v.l1 = .inventory :: l1) (rest : Frames P) :
    Tidy { v with l1 := l1, l1Rest := rest, inventory := none, inventoryQueued := false } where
  l0 := h.l0
  bare frames reply hmem := h.bare frames reply (hl1 ▸ List.mem_cons_of_mem _ hmem)
  queued hqueued := by cases hqueued
  unqueued _ := h.inventory_left hl1

theorem push (h : Tidy v) {frames : Frames P} (hframes : Plain frames) (entries : List (Entry P))
    (hb : ∀ frames reply, .message frames reply ∈ entries → Bare frames) (hnone : .inventory ∉ entries)
    (hl0 : w.l0 = v.l0 ++ frames) (hl1 : w.l1 = v.l1 ++ entries) (hi : w.inventory = v.inventory)
    (hqueued : w.inventoryQueued = v.inventoryQueued) : Tidy w where
  l0 := by
    rw [hl0]
    exact h.l0.append hframes
  bare frames reply hmem := by
    rw [hl1] at hmem
    rcases List.mem_append.mp hmem with hmem | hmem
    · exact h.bare frames reply hmem
    · exact hb frames reply hmem
  queued hw := by
    obtain ⟨pre, post, i, n, raw, hs, hp, hpost, hraw, hframes⟩ := h.queued (hqueued ▸ hw)
    refine ⟨pre, post ++ entries, i, n, raw, ?_, hp, ?_, hraw, hi.trans hframes⟩
    · rw [hl1, hs, List.append_assoc, List.cons_append]
    · intro hmem
      exact (List.mem_append.mp hmem).elim hpost hnone
  unqueued hw hmem := by
    rw [hl1] at hmem
    exact (List.mem_append.mp hmem).elim (h.unqueued (hqueued ▸ hw)) hnone

theorem offer (h : Tidy v) (i : P.Inventory) (n : Nat) {raw : List RawFrame} (hraw : raw ≠ []) :
    Tidy { v with
      l1 := if v.inventoryQueued then v.l1 else v.l1 ++ [.inventory]
      inventory := some (framesOf (.inventory i n) raw)
      inventoryQueued := true } where
  l0 := h.l0
  bare frames reply hmem := by
    dsimp only at hmem
    split at hmem
    · exact h.bare frames reply hmem
    rcases List.mem_append.mp hmem with hmem | hmem
    · exact h.bare frames reply hmem
    · simp at hmem
  queued _ := by
    split
    · next hqueued =>
      obtain ⟨pre, post, -, -, -, hs, hp, hpost, -⟩ := h.queued hqueued
      exact ⟨pre, post, i, n, raw, hs, hp, hpost, hraw, rfl⟩
    · next hqueued =>
      exact ⟨v.l1, [], i, n, raw, rfl, h.unqueued (by simpa using hqueued), by simp, hraw, rfl⟩
  unqueued hw := by cases hw

end Tidy

/-! ## The outbox as two lines -/

theorem TakesLane.lines {v w : Lanes P} {taken : Option (Taken P)} (ht : Tidy v) (h : TakesLane v taken w)
    (sent : List (WireFrame P × Priority)) : Tidy w ∧
      Lines.Step ⟨sentMarks sent, v.line1, v.line2⟩ none none ⟨sentMarks (sent ++ handed taken), w.line1, w.line2⟩ := by
  have hke {line1 line2 : List (CoreMessage P)} {more : List (WireFrame P × Priority)} (hmo : sentMarks more = [])
      (hline1 : line1 = v.line1) (hline2 : line2 = v.line2) :
      Lines.Step ⟨sentMarks sent, v.line1, v.line2⟩ none none ⟨sentMarks (sent ++ more), line1, line2⟩ := by
    rw [sentMarks_append, hmo, List.append_nil, hline1, hline2]
    exact .keep
  have hline1 (hrest : v.l1Rest = []) (hl1 : v.l1 = []) : v.line1 = [] := by
    unfold Lanes.line1
    rw [hrest, hl1]
    rfl
  cases h with
  | idle => exact ⟨ht, hke rfl rfl rfl⟩
  | @l0 f rest h =>
    have hp : Plain (f :: rest) := h ▸ ht.l0
    refine ⟨⟨fun g hg => hp g (List.mem_cons_of_mem _ hg), ht.bare, ht.queued, ht.unqueued⟩, ?_⟩
    refine hke (sentMarks_plain fun g hg => ?_) rfl rfl
    obtain rfl : g = f := by simpa [handed] using hg
    exact hp _ List.mem_cons_self
  | @rest f rest h =>
    refine ⟨{ ht with }, Lines.emit1 f ?_⟩
    unfold Lanes.line1
    rw [h, marks_cons, List.append_assoc]
  | @message entry l1 f rest hrest hl1 hframes =>
    have hentry : entry ≠ .inventory ∧ entry.marks v.inventory = marks (f :: rest) := by
      rcases hframes with ⟨reply, rfl⟩ | ⟨rfl, hp⟩
      · exact ⟨by simp, rfl⟩
      · exact ⟨by simp, (marks_plain hp).symm⟩
    refine ⟨ht.tail hl1 hentry.1 rest, Lines.emit1 f ?_⟩
    unfold Lanes.line1
    rw [hrest, hl1, List.flatMap_cons, hentry.2, marks_cons]
    simp [marks]
  | @inventory l1 f rest hrest hl1 hframes =>
    refine ⟨ht.inventory_tail hl1 rest, Lines.emit1 f ?_⟩
    unfold Lanes.line1
    rw [hrest, hl1, List.flatMap_cons, entries_marks_congr (ht.inventory_left hl1) none v.inventory]
    unfold Entry.marks
    rw [hframes, Option.getD_some, marks_cons]
    simp [marks]
  | @inventoryNone l1 hrest hl1 hframes =>
    refine ⟨by simpa [hrest] using ht.inventory_tail hl1 [], hke rfl ?_ rfl⟩
    unfold Lanes.line1
    rw [hrest, hl1, List.flatMap_cons, entries_marks_congr (ht.inventory_left hl1) none v.inventory]
    unfold Entry.marks
    rw [hframes]
    rfl
  | @later entry l1 taken hrest hl1 hentry hempty htaken hending =>
    have hh : handed (some taken) = [] := by
      cases taken with
      | frame f priority => exact absurd rfl (htaken f priority)
      | _ => rfl
    refine ⟨by simpa [hrest] using ht.tail hl1 hentry [], hke (by rw [hh]; rfl) ?_ rfl⟩
    have hma : entry.marks v.inventory = [] := by
      cases entry with
      | message frames reply =>
        rw [hempty frames reply rfl]
        rfl
      | inventory => exact absurd rfl hentry
      | _ => rfl
    unfold Lanes.line1
    rw [hl1, List.flatMap_cons, hma, List.nil_append]
  | @l2Rest f rest hrest hl1 h =>
    refine ⟨{ ht with }, Lines.emit2 f (hline1 hrest hl1) ?_⟩
    unfold Lanes.line2
    rw [h, marks_cons, List.append_assoc]
  | @l2 id f rest l2 hrest hl1 hl2 h =>
    refine ⟨{ ht with }, Lines.emit2 f (hline1 hrest hl1) ?_⟩
    unfold Lanes.line2
    rw [hl2, h, List.flatMap_cons, marks_cons]
    simp [marks]
  | @l2None id l2 hrest hl1 h =>
    refine ⟨{ ht with }, hke rfl rfl ?_⟩
    unfold Lanes.line2
    rw [h]
    rfl

theorem lines_plain {s t : Connection P} (ht : Tidy s.state.lanes) (hq : Queues s.state t.state) :
    Tidy t.state.lanes ∧ t.state.lanes.line1 = s.state.lanes.line1 ∧ t.state.lanes.line2 = s.state.lanes.line2 := by
  obtain ⟨frames, hl0, hframes⟩ := hq.l0
  obtain ⟨entries, hl1, he⟩ := hq.l1
  refine ⟨ht.push hframes entries ?_ ?_ hl0 hl1 hq.inventory hq.inventoryQueued, ?_, ?_⟩
  · intro frames reply hmem
    have hp := he _ hmem
    cases reply with
    | none => exact Plain.bare hp
    | some id => exact hp.elim
  · exact fun hmem => he _ hmem
  · change marks t.state.l1Rest ++ t.state.l1.flatMap (Entry.marks t.state.inventory) = _
    rw [hl1, hq.l1Rest, hq.inventory, List.flatMap_append, entries_marks_plain he, List.append_nil]
    rfl
  · change marks t.state.l2Rest ++ t.state.l2.flatMap (marks ·.2) = _
    rw [hq.l2, hq.l2Rest]
    rfl

theorem Tidy.line1_offer {v : Lanes P} (h : Tidy v) {i : P.Inventory} {n : Nat} {raw : List RawFrame}
    (hraw : raw ≠ []) {sent : List (CoreMessage P × Priority)} {line2 : List (CoreMessage P)} :
    Lines.Step ⟨sent, v.line1, line2⟩ none (some i) ⟨sent, Lanes.line1 { v with
      l1 := if v.inventoryQueued then v.l1 else v.l1 ++ [.inventory]
      inventory := some (framesOf (.inventory i n) raw)
      inventoryQueued := true }, line2⟩ := by
  have hnew : Entry.marks (some (framesOf (.inventory i n) raw)) .inventory = [.inventory i n] :=
    marks_framesOf rfl hraw
  cases hqueued : v.inventoryQueued with
  | false =>
    have hl : Lanes.line1 { v with
        l1 := if false = true then v.l1 else v.l1 ++ [.inventory]
        inventory := some (framesOf (.inventory i n) raw)
        inventoryQueued := true } = v.line1 ++ [.inventory i n] := by
      unfold Lanes.line1
      rw [if_neg (by simp), List.flatMap_append, List.flatMap_singleton, hnew,
        entries_marks_congr (h.unqueued hqueued) _ v.inventory, List.append_assoc]
    rw [hl]
    exact .offer (a := ⟨sent, v.line1, line2⟩)
  | true =>
    obtain ⟨pre, post, j, k, raw', hs, hp, hpost, hraw', hframes⟩ := h.queued hqueued
    have hold : Entry.marks v.inventory .inventory = [.inventory j k] := by
      rw [hframes]
      exact marks_framesOf rfl hraw'
    have hb : v.line1 = (marks v.l1Rest ++ pre.flatMap (Entry.marks v.inventory)) ++
        .inventory j k :: post.flatMap (Entry.marks v.inventory) := by
      unfold Lanes.line1
      rw [hs, List.flatMap_append, List.flatMap_cons, hold]
      simp
    have hl : Lanes.line1 { v with
        l1 := if true = true then v.l1 else v.l1 ++ [.inventory]
        inventory := some (framesOf (.inventory i n) raw)
        inventoryQueued := true } = (marks v.l1Rest ++ pre.flatMap (Entry.marks v.inventory)) ++
        .inventory i n :: post.flatMap (Entry.marks v.inventory) := by
      unfold Lanes.line1
      rw [if_pos rfl, hs, List.flatMap_append, List.flatMap_cons, hnew, entries_marks_congr hp _ v.inventory,
        entries_marks_congr hpost _ v.inventory]
      simp
    rw [hl]
    refine .replace (a := ⟨sent, v.line1, line2⟩) hb ?_
    intro m hm
    obtain ⟨entry, hentry, hm⟩ := List.mem_flatMap.mp hm
    cases entry with
    | message frames reply =>
      refine marks_bare (h.bare frames reply ?_) m hm
      rw [hs]
      exact List.mem_append_right _ (List.mem_cons_of_mem _ hentry)
    | inventory => exact absurd hentry hpost
    | _ => cases hm

theorem Connection.Moved.lines {s t : Connection P} {e : Event P} (ht : Tidy s.state.lanes)
    (hmo : Moved C s t e) : Tidy t.state.lanes ∧
      Lines.Step s.lines (replies C s.state e) (announces C s.state e) t.lines := by
  cases hmo with
  | produced queues sent work hreplies hannounces =>
    obtain ⟨ht', hline1, hline2⟩ := lines_plain ht queues
    refine ⟨ht', ?_⟩
    unfold Connection.lines
    rw [hreplies, hannounces, sent, hline1, hline2]
    exact .keep
  | @replied id result raw hraw hreplies hannounces lanes holds sent work =>
    have hmar := marks_framesOf (m := .reply id result) rfl hraw
    rw [hreplies, hannounces]
    unfold Connection.lines
    rw [sent, lanes]
    split
    · next hbulk =>
      refine ⟨{ ht with }, ?_⟩
      have hl : Lanes.line2 { s.state.lanes with l2 := s.state.l2 ++ [(id, framesOf (.reply id result) raw)] } =
          s.state.lanes.line2 ++ [.reply id result] := by
        unfold Lanes.line2
        rw [List.flatMap_append, List.flatMap_singleton, hmar, List.append_assoc]
        rfl
      rw [hl]
      exact .reply2 (a := s.lines) rfl (if_pos hbulk)
    · next hbulk =>
      refine ⟨ht.push plain_nil [.message (framesOf (.reply id result) raw) (some id)] ?_ (by simp)
        (by simp) rfl rfl rfl, ?_⟩
      · intro frames reply hmem
        obtain ⟨rfl, rfl⟩ : frames = framesOf (.reply id result) raw ∧ reply = some id := by simpa using hmem
        exact bare_reply id result raw
      · have hma (inventory : Option (Frames P)) :
            Entry.marks inventory (.message (framesOf (.reply id result) raw) (some id)) = [.reply id result] := hmar
        have hl : Lanes.line1 { s.state.lanes with
            l1 := s.state.l1 ++ [.message (framesOf (.reply id result) raw) (some id)] } =
            s.state.lanes.line1 ++ [.reply id result] := by
          unfold Lanes.line1
          rw [List.flatMap_append, List.flatMap_singleton, hma, ← List.append_assoc]
          rfl
        rw [hl]
        exact .reply1 (a := s.lines) rfl (if_neg hbulk)
  | offered event hraw hreplies hannounces lanes holds sent work =>
    rw [hreplies, hannounces]
    unfold Connection.lines
    rw [sent, lanes]
    exact ⟨ht.offer _ _ hraw, ht.line1_offer hraw⟩
  | took lanes holds sent work hreplies hannounces =>
    rw [hreplies, hannounces]
    unfold Connection.lines
    rw [sent]
    exact lanes.lines ht s.sent
  | @finished mid front back out queues hfront hback state sent hout work hreplies hannounces =>
    rw [hreplies, hannounces]
    obtain ⟨ht', hline1, hline2⟩ := lines_plain (t := { t with state := mid }) ht queues
    have hl : t.state.lanes.line1 = mid.lanes.line1 := by
      rw [state]
      change marks (front ++ mid.l1Rest ++ back) ++ _ = _
      rw [marks_append, marks_append, marks_plain hfront, marks_plain hback, List.append_nil, List.nil_append]
      rfl
    refine ⟨state ▸ { ht' with }, ?_⟩
    unfold Connection.lines
    rw [sent, sentMarks_append, sentMarks_plain hout, List.append_nil, hl, hline1,
      show t.state.lanes.line2 = s.state.lanes.line2 by rw [state]; exact hline2]
    exact .keep

/-! ## The order of the marks -/

def Queued.rev? (rev : P.Inventory → Nat) (q : Queued P) : Option Nat := (inventoryOf q.message).map rev

/-- The revisions of the inventories, in their order. -/
def revs (rev : P.Inventory → Nat) (h : List (Queued P)) : List Nat := h.filterMap (Queued.rev? rev)

theorem revs_append (a b : List (Queued P)) : revs rev (a ++ b) = revs rev a ++ revs rev b := List.filterMap_append

theorem revs_singleton_none {q : Queued P} (h : inventoryOf q.message = none) : revs rev [q] = [] := by
  simp [revs, Queued.rev?, h]

theorem revs_inventory {q : Queued P} {i : P.Inventory} (h : inventoryOf q.message = some i) :
    revs rev [q] = [rev i] := by
  simp [revs, Queued.rev?, h]

theorem inventoryOf_reply {m : CoreMessage P} (h : isReply m = true) : inventoryOf m = none := by
  cases m with
  | reply id result => rfl
  | _ => cases h

theorem not_reply_of_inventory {m : CoreMessage P} {i : P.Inventory} (h : inventoryOf m = some i) :
    isReply m = false := by
  cases m with
  | inventory i n => rfl
  | _ => cases h

/-- Each reply stands behind an inventory as new as the one announced before it, after `seen`. -/
def Covered (rev : P.Inventory → Nat) (seen : List Nat) : List (Queued P) → Prop
  | [] => True
  | q :: rest => (isReply q.message = true → ∀ r ∈ q.announced, ∃ x ∈ seen, r ≤ x) ∧
      Covered rev (seen ++ revs rev [q]) rest

theorem covered_append {seen : List Nat} {a b : List (Queued P)} :
    Covered rev seen (a ++ b) ↔ Covered rev seen a ∧ Covered rev (seen ++ revs rev a) b := by
  induction a generalizing seen with
  | nil => simp [Covered, revs]
  | cons q a ih =>
    rw [List.cons_append, Covered, Covered, ih, and_assoc, List.append_assoc, ← revs_append, List.singleton_append]

theorem Covered.mono {seen seen' : List Nat} {l : List (Queued P)} (h : Covered rev seen l)
    (hs : ∀ x ∈ seen, ∃ y ∈ seen', x ≤ y) : Covered rev seen' l := by
  induction l generalizing seen seen' with
  | nil => trivial
  | cons q l ih =>
    refine ⟨fun hre r hr => ?_, ih h.2 fun x hx => ?_⟩
    · obtain ⟨x, hx, hl⟩ := h.1 hre r hr
      obtain ⟨y, hy, hxy⟩ := hs x hx
      exact ⟨y, hy, hl.trans hxy⟩
    · rcases List.mem_append.mp hx with hx | hx
      · obtain ⟨y, hy, hxy⟩ := hs x hx
        exact ⟨y, List.mem_append_left _ hy, hxy⟩
      · exact ⟨x, List.mem_append_right _ hx, le_rfl⟩

theorem covered_singleton {seen : List Nat} {q : Queued P} :
    Covered rev seen [q] ↔ (isReply q.message = true → ∀ r ∈ q.announced, ∃ x ∈ seen, r ≤ x) := by
  simp [Covered]

theorem covered_inventory {seen : List Nat} {q : Queued P} {i : P.Inventory} (h : inventoryOf q.message = some i) :
    Covered rev seen [q] := by
  rw [covered_singleton, not_reply_of_inventory h]
  simp

/-- The replies of one level, in their order. -/
def atLevel (level : Priority) (h : List (Queued P)) : List (Queued P) :=
  h.filter fun q => isReply q.message && q.level == level

theorem atLevel_append (level : Priority) (a b : List (Queued P)) :
    atLevel level (a ++ b) = atLevel level a ++ atLevel level b := List.filter_append ..

theorem atLevel_inventory {level : Priority} {q : Queued P} {i : P.Inventory} (h : inventoryOf q.message = some i) :
    atLevel level [q] = [] := by
  simp [atLevel, not_reply_of_inventory h]

/-- The order of what was sent and waits in L1 (`h`), and of what waits in L2. -/
structure Ordered (rev : P.Inventory → Nat) (announced : Option Nat) (queued h l2 : List (Queued P)) : Prop where
  covered : Covered rev [] (h ++ l2)
  ahead : ∀ r ∈ announced, ∃ x ∈ revs rev h, r ≤ x
  rising : (revs rev h).Pairwise (· ≤ ·)
  below : ∀ x ∈ revs rev h, ∃ r ∈ announced, x ≤ r
  bulk : ∀ q ∈ l2, isReply q.message = true ∧ q.level = .l2
  replies : ∀ level, atLevel level (h ++ l2) = atLevel level queued

namespace Ordered
variable {announced : Option Nat} {queued h l2 : List (Queued P)}

theorem reply1 (ho : Ordered rev announced queued h l2) {m : CoreMessage P} (hm : isReply m = true) :
    Ordered rev announced (queued ++ [⟨m, .l1, announced⟩]) (h ++ [⟨m, .l1, announced⟩]) l2 := by
  obtain ⟨hc, hcovered2⟩ := covered_append.mp ho.covered
  have hr : revs rev (h ++ [⟨m, .l1, announced⟩]) = revs rev h := by
    rw [revs_append, revs_singleton_none (inventoryOf_reply hm), List.append_nil]
  refine ⟨?_, hr ▸ ho.ahead, hr ▸ ho.rising, hr ▸ ho.below, ho.bulk, fun level => ?_⟩
  · refine covered_append.mpr ⟨covered_append.mpr ⟨hc, covered_singleton.mpr fun _ => ?_⟩, hr ▸ hcovered2⟩
    simpa using ho.ahead
  · have hl := ho.replies level
    rw [atLevel_append] at hl ⊢
    rw [atLevel_append, atLevel_append, ← hl]
    cases level with
    | l1 =>
      -- no reply that waits in L2 is of L1
      have hnone : atLevel .l1 l2 = [] := by
        refine List.filter_eq_nil_iff.mpr fun q hq => ?_
        simp [(ho.bulk q hq).2]
      rw [hnone, List.append_nil, List.append_nil]
    | _ => simp [atLevel, hm]

theorem reply2 (ho : Ordered rev announced queued h l2) {m : CoreMessage P} (hm : isReply m = true) :
    Ordered rev announced (queued ++ [⟨m, .l2, announced⟩]) h (l2 ++ [⟨m, .l2, announced⟩]) := by
  refine ⟨?_, ho.ahead, ho.rising, ho.below, fun q hq => ?_, fun level => ?_⟩
  · rw [← List.append_assoc]
    refine covered_append.mpr ⟨ho.covered, covered_singleton.mpr fun _ r hr => ?_⟩
    obtain ⟨x, hx, hl⟩ := ho.ahead r hr
    refine ⟨x, ?_, hl⟩
    rw [revs_append]
    exact List.mem_append_right _ (List.mem_append_left _ hx)
  · rcases List.mem_append.mp hq with hq | hq
    · exact ho.bulk q hq
    · obtain rfl := List.mem_singleton.mp hq
      exact ⟨hm, rfl⟩
  · rw [← List.append_assoc, atLevel_append, ho.replies level, ← atLevel_append]

theorem offer (a old b : List (Queued P)) (ho : Ordered rev announced queued (a ++ old ++ b) l2)
    {q : Queued P} {i : P.Inventory} (hq : inventoryOf q.message = some i) (hg : ∀ r ∈ announced, r ≤ rev i)
    (hold : ∀ q' ∈ old, isReply q'.message = false) (hb : revs rev b = []) :
    Ordered rev (some (rev i)) queued (a ++ [q] ++ b) l2 := by
  have hbe (x : Nat) (hx : x ∈ revs rev (a ++ old ++ b)) : x ≤ rev i := by
    obtain ⟨r, hr, hl⟩ := ho.below x hx
    exact hl.trans (hg r hr)
  have hre : revs rev (a ++ [q] ++ b) = revs rev a ++ [rev i] := by
    rw [revs_append, revs_append, revs_inventory hq, hb, List.append_nil]
  have hrev : revs rev (a ++ old ++ b) = revs rev a ++ revs rev old := by
    rw [revs_append, revs_append, hb, List.append_nil]
  have ha (x : Nat) (hx : x ∈ revs rev a) : x ≤ rev i := hbe x (hrev ▸ List.mem_append_left _ hx)
  have hc (x : Nat) (hx : x ∈ revs rev (a ++ old)) : ∃ y ∈ revs rev (a ++ [q]), x ≤ y := by
    refine ⟨rev i, ?_, hbe x ?_⟩
    · rw [revs_append, revs_inventory hq]
      exact List.mem_append_right _ List.mem_cons_self
    · rw [revs_append]
      exact List.mem_append_left _ hx
  obtain ⟨hcov, hcovered2⟩ := covered_append.mp ho.covered
  obtain ⟨hcover, hcove⟩ := covered_append.mp hcov
  refine ⟨?_, ?_, ?_, ?_, ho.bulk, fun level => ?_⟩
  · refine covered_append.mpr ⟨covered_append.mpr ⟨covered_append.mpr
      ⟨(covered_append.mp hcover).1, covered_inventory hq⟩, hcove.mono ?_⟩, hcovered2.mono ?_⟩
    · simpa using hc
    · rw [revs_append, revs_append (a ++ [q]), hb, List.append_nil, List.append_nil]
      simpa using hc
  · intro r hr
    obtain rfl := Option.mem_some.mp hr
    exact ⟨rev i, hre ▸ List.mem_append_right _ List.mem_cons_self, le_rfl⟩
  · rw [hre]
    have hri := ho.rising
    rw [hrev] at hri
    refine List.pairwise_append.mpr ⟨(List.pairwise_append.mp hri).1, List.pairwise_singleton .., ?_⟩
    intro x hx y hy
    obtain rfl := List.mem_singleton.mp hy
    exact ha x hx
  · intro x hx
    refine ⟨rev i, rfl, ?_⟩
    rw [hre] at hx
    rcases List.mem_append.mp hx with hx | hx
    · exact ha x hx
    · exact (List.mem_singleton.mp hx).le
  · have hnone : atLevel level old = [] := by
      refine List.filter_eq_nil_iff.mpr fun q' hq' => ?_
      simp [hold q' hq']
    rw [← ho.replies level]
    simp only [atLevel_append, hnone, atLevel_inventory hq]

theorem take2 {q : Queued P} (ho : Ordered rev announced queued h (q :: l2)) :
    Ordered rev announced queued (h ++ [q]) l2 := by
  have hr : revs rev (h ++ [q]) = revs rev h := by
    rw [revs_append, revs_singleton_none (inventoryOf_reply (ho.bulk q List.mem_cons_self).1), List.append_nil]
  have ha : h ++ [q] ++ l2 = h ++ q :: l2 := by simp
  exact ⟨ha ▸ ho.covered, hr ▸ ho.ahead, hr ▸ ho.rising, hr ▸ ho.below,
    fun q' hq' => ho.bulk q' (List.mem_cons_of_mem _ hq'), ha ▸ ho.replies⟩

end Ordered

/-! ## Runs -/

def Queued.mark (q : Queued P) : CoreMessage P × Priority := (q.message, q.level)

/-- The lines, with what was announced before each reply. -/
structure Lines.Traces (a : Lines P) (sent l1 l2 : List (Queued P)) : Prop where
  sent : sent.map Queued.mark = a.sent
  l1 : l1.map Queued.mark = a.line1.map (·, .l1)
  l2 : l2.map Queued.mark = a.line2.map (·, .l2)

theorem Lines.Step.ordered {a b : Lines P} {reply : Option (CoreMessage P)} {offer : Option P.Inventory}
    (h : a.Step reply offer b) {announced : Option Nat} {queued sent l1 l2 : List (Queued P)}
    (ht : a.Traces sent l1 l2) (ho : Ordered rev announced queued (sent ++ l1) l2)
    (hg : ∀ i ∈ offer, ∀ r ∈ announced, r ≤ rev i) :
    ∃ sent' l1' l2', b.Traces sent' l1' l2' ∧ Ordered rev ((offer.map rev).or announced)
      (queued ++ reply.toList.map fun m => ⟨m, replyLevel m, announced⟩) (sent' ++ l1') l2' := by
  cases h with
  | keep => exact ⟨sent, l1, l2, ht, by simpa using ho⟩
  | @reply1 m hm hl =>
    refine ⟨sent, l1 ++ [⟨m, .l1, announced⟩], l2, ⟨ht.sent, ?_, ht.l2⟩, ?_⟩
    · rw [List.map_append, List.map_append, ht.l1]
      rfl
    · simpa [hl, List.append_assoc] using ho.reply1 hm
  | @reply2 m hm hl =>
    refine ⟨sent, l1, l2 ++ [⟨m, .l2, announced⟩], ⟨ht.sent, ht.l1, ?_⟩, ?_⟩
    · rw [List.map_append, List.map_append, ht.l2]
      rfl
    · simpa [hl] using ho.reply2 hm
  | @offer i n =>
    refine ⟨sent, l1 ++ [⟨.inventory i n, .l1, none⟩], l2, ⟨ht.sent, ?_, ht.l2⟩, ?_⟩
    · rw [List.map_append, List.map_append, ht.l1]
      rfl
    · have hof := Ordered.offer (sent ++ l1) [] [] (by simpa using ho)
        (q := ⟨.inventory i n, .l1, none⟩) rfl (hg i rfl) (by simp) rfl
      simpa [List.append_assoc] using hof
  | @replace i n j k pre post hli hpost =>
    have hma := ht.l1
    rw [hli, List.map_append, List.map_cons] at hma
    obtain ⟨l1a, l1b, rfl, hp, hrest⟩ := List.map_eq_append_iff.mp hma
    obtain ⟨old, l1b, rfl, hold, hpost'⟩ := List.map_eq_cons_iff.mp hrest
    have hr : revs rev l1b = [] := by
      refine List.filterMap_eq_nil_iff.mpr fun q hq => ?_
      have hmem : q.mark ∈ post.map (·, Priority.l1) := hpost' ▸ List.mem_map_of_mem hq
      obtain ⟨m, hm, hmar⟩ := List.mem_map.mp hmem
      have hme : m = q.message := congrArg Prod.fst hmar
      unfold Queued.rev?
      rw [← hme, hpost m hm]
      rfl
    have hme : old.message = .inventory j k := congrArg Prod.fst hold
    refine ⟨sent, l1a ++ ⟨.inventory i n, .l1, none⟩ :: l1b, l2, ⟨ht.sent, ?_, ht.l2⟩, ?_⟩
    · rw [List.map_append, List.map_append, List.map_cons, List.map_cons, hp, hpost']
      rfl
    · have hof := Ordered.offer (sent ++ l1a) [old] l1b (by simpa using ho)
        (q := ⟨.inventory i n, .l1, none⟩) rfl (hg i rfl) (by simp [hme, isReply]) hr
      simpa [List.append_assoc] using hof
  | @take1 m rest hli =>
    have hma := ht.l1
    rw [hli, List.map_cons] at hma
    obtain ⟨q, l1', rfl, hq, hrest⟩ := List.map_eq_cons_iff.mp hma
    refine ⟨sent ++ [q], l1', l2, ⟨?_, hrest, ht.l2⟩, by simpa using ho⟩
    rw [List.map_append, ht.sent, List.map_singleton, hq]
  | @take2 m rest hempty hli =>
    have hma := ht.l2
    rw [hli, List.map_cons] at hma
    obtain ⟨q, l2', rfl, hq, hrest⟩ := List.map_eq_cons_iff.mp hma
    obtain rfl : l1 = [] := by
      have hni := ht.l1
      rw [hempty] at hni
      exact List.map_eq_nil_iff.mp hni
    refine ⟨sent ++ [q], [], l2', ⟨?_, ht.l1, hrest⟩, ?_⟩
    · rw [List.map_append, ht.sent, List.map_singleton, hq]
    · simpa using (show Ordered rev announced queued sent (q :: l2') by simpa using ho).take2

namespace Offers

structure Inv (rev : P.Inventory → Nat) (o : Offers P) : Prop where
  holds : o.connection.Holds
  tidy : Tidy o.connection.state.lanes
  order : ∃ sent l1 l2, o.connection.lines.Traces sent l1 l2 ∧ Ordered rev o.announced o.queued (sent ++ l1) l2

theorem inv_init : Inv rev ({} : Offers P) where
  holds := by
    refine ⟨⟨fun c slot frames hs => ?_, fun frames hframes => ?_⟩, fun ticket p frames hwork => ?_⟩
    · simp at hs
    · cases hframes
    · cases hwork
  tidy := by
    refine ⟨plain_nil, fun frames reply hmem => ?_, fun hqueued => ?_, fun _ => List.not_mem_nil⟩
    · cases hmem
    · cases hqueued
  order := ⟨[], [], [], ⟨rfl, rfl, rfl⟩, trivial, by simp, by simp [revs], by simp [revs], by simp, fun _ => rfl⟩

theorem Inv.step {o o' : Offers P} {e : Event P} (h : Inv rev o) (hs : Step C rev o e o') : Inv rev o' := by
  unfold Step event at hs
  split at hs
  · next hg =>
    obtain ⟨connection, he, rfl⟩ := Option.map_eq_some_iff.mp hs
    have hmo := Connection.Step.moved h.holds he
    obtain ⟨ht, hl⟩ := hmo.lines h.tidy
    obtain ⟨sent, l1, l2, htr, ho⟩ := h.order
    refine ⟨hmo.holds h.holds, ht, hl.ordered htr ho fun i hi r hr => ?_⟩
    rw [Option.mem_def.mp hi, Option.all_some, Option.mem_def.mp hr, Option.all_some] at hg
    simpa using hg
  · cases hs

theorem split_sent {sent : List (Queued P)} {before after : List (WireFrame P × Priority)} {f : WireFrame P}
    {level : Priority} {m : CoreMessage P} (hsent : sent.map Queued.mark = sentMarks (before ++ (f, level) :: after))
    (hma : f.mark? = some m) : ∃ front q back, sent = front ++ q :: back ∧
      front.map Queued.mark = sentMarks before ∧ q.mark = (m, level) := by
  have hc : sentMarks ((f, level) :: after) = (m, level) :: sentMarks after :=
    List.filterMap_cons_some (by simp [hma])
  rw [sentMarks_append, hc] at hsent
  obtain ⟨front, rest, rfl, hfront, hrest⟩ := List.map_eq_append_iff.mp hsent
  obtain ⟨q, back, rfl, hq, -⟩ := List.map_eq_cons_iff.mp hrest
  exact ⟨front, q, back, rfl, hfront, hq⟩

theorem length_atLevel {front : List (Queued P)} {before : List (WireFrame P × Priority)} (level : Priority)
    (h : front.map Queued.mark = sentMarks before) :
    (atLevel level front).length = before.countP fun g => g.1.answers && g.2 == level := by
  have hfront : (atLevel level front).length =
      (front.map Queued.mark).countP fun mark => isReply mark.1 && mark.2 == level := by
    rw [List.countP_map, atLevel, ← List.countP_eq_length_filter]
    rfl
  rw [hfront, h, sentMarks, List.countP_filterMap]
  refine List.countP_congr fun g _ => ?_
  cases hma : g.1.mark? with
  | none =>
    have hno : g.1.answers = false := by
      by_contra hy
      obtain ⟨m, hm, -⟩ := WireFrame.answers_iff.mp (by simpa using hy)
      rw [hma] at hm
      cases hm
    simp [hno]
  | some m =>
    have he : g.1.answers = isReply m := by
      apply Bool.eq_iff_iff.mpr
      rw [WireFrame.answers_iff, hma]
      simp
    simp [he]

theorem revs_eq {sent : List (Queued P)} {frames : List (WireFrame P × Priority)}
    (h : sent.map Queued.mark = sentMarks frames) :
    revs rev sent = frames.filterMap fun g => g.1.inventory?.map rev := by
  have hsent : revs rev sent = (sent.map Queued.mark).filterMap fun mark => (inventoryOf mark.1).map rev := by
    rw [List.filterMap_map]
    rfl
  rw [hsent, h, sentMarks, List.filterMap_filterMap]
  refine List.filterMap_congr fun g _ => ?_
  rw [WireFrame.inventory?_eq]
  cases g.1.mark? <;> rfl

/-- Along any interleaving of calls and taken frames in which the inventories given do not go back in
revision: the last frame of a reply completes the reply that was queued at its level in the same
place, and an inventory at least as new as the one announced last before that reply was queued is
complete by then. Inventories are complete in the order of their revisions. -/
theorem reply_follows_inventory {events : List (Event P)} {o : Offers P} (hrun : Run (Step C rev) {} events o) :
    (∀ before f level after, o.connection.sent = before ++ (f, level) :: after → f.answers = true →
      ∃ q : Queued P, (atLevel level o.queued)[before.countP fun g => g.1.answers && g.2 == level]? = some q ∧
        f.completes = some q.message ∧
        ∀ r ∈ q.announced, ∃ g ∈ before, ∃ i, g.1.inventory? = some i ∧ r ≤ rev i) ∧
      (o.connection.sent.filterMap fun g => g.1.inventory?.map rev).Pairwise (· ≤ ·) := by
  have hin : Inv rev o := hrun.invariant inv_init fun h hst => h.step hst
  obtain ⟨sent, l1, l2, ht, ho⟩ := hin.order
  refine ⟨?_, ?_⟩
  · intro before f level after hs ha
    obtain ⟨m, hma, hre⟩ := WireFrame.answers_iff.mp ha
    have hsent := ht.sent
    unfold Connection.lines at hsent
    dsimp only at hsent
    rw [hs] at hsent
    obtain ⟨front, q, back, rfl, hfront, hq⟩ := split_sent hsent hma
    obtain ⟨rfl, rfl⟩ : q.message = m ∧ q.level = level := by simpa [Queued.mark] using hq
    refine ⟨q, ?_, WireFrame.mark?_completes hma, fun r hr => ?_⟩
    · have hlev : atLevel q.level [q] = [q] := by simp [atLevel, hre]
      rw [← ho.replies, show front ++ q :: back ++ l1 ++ l2 = front ++ ([q] ++ (back ++ l1 ++ l2)) by simp,
        atLevel_append, atLevel_append, hlev, ← length_atLevel q.level hfront]
      simp
    · have hc := ho.covered
      rw [show front ++ q :: back ++ l1 ++ l2 = front ++ ([q] ++ (back ++ l1 ++ l2)) by simp,
        covered_append, covered_append, covered_singleton] at hc
      obtain ⟨x, hx, hl⟩ := hc.2.1 hre r hr
      rw [List.nil_append, revs_eq hfront] at hx
      obtain ⟨g, hg, hrev⟩ := List.mem_filterMap.mp hx
      obtain ⟨i, hi, rfl⟩ := Option.map_eq_some_iff.mp hrev
      exact ⟨g, hg, i, hi, hl⟩
  · rw [← revs_eq ht.sent]
    have hri := ho.rising
    rw [revs_append] at hri
    exact (List.pairwise_append.mp hri).1

def replaced : List (Event plain) :=
  [.begin 1, .begin 2, .inventory () 0, .reply 1 (.ok (.page ())), .reply 2 (.ok (.small ())), .inventory () 1,
    .take .l2, .take .l2, .take .l2]

theorem reply_follows_inventory_page : ∃ (o : Offers plain) (before : List (WireFrame plain × Priority)) (f : _),
    Run (Step plainCard fun _ => 1) {} replaced o ∧ o.connection.sent = before ++ [(f, .l2)] ∧ f.answers = true ∧
      ∃ g ∈ before, ∃ i, g.1.inventory? = some i ∧ 1 ≤ (fun _ => 1 : Unit → Nat) i := by
  have hr : ∃ (o : Offers plain) (g₁ g₂ f : WireFrame plain) (q : Queued plain),
      replaced.foldlM (event plainCard fun _ => 1) {} = some o ∧
        o.connection.sent = [(g₁, .l1), (g₂, .l1)] ++ [(f, .l2)] ∧ f.answers = true ∧
        (atLevel .l2 o.queued)[0]? = some q ∧ q.announced = some 1 ∧
        [(g₁, Priority.l1), (g₂, .l1)].countP (fun g => g.1.answers && g.2 == .l2) = 0 :=
    ⟨_, _, _, _, _, rfl, rfl, rfl, rfl, rfl, rfl⟩
  obtain ⟨o, g₁, g₂, f, q, hf, hsent, han, hq, ha, hc⟩ := hr
  have hru : Run (Step plainCard fun _ => 1) {} replaced o := Run.of_foldlM hf
  obtain ⟨q', hq', -, hfo⟩ := (reply_follows_inventory hru).1 _ f .l2 [] hsent han
  rw [hc, hq] at hq'
  cases hq'
  exact ⟨o, _, f, hru, hsent, han, hfo 1 ha⟩

end Offers
end SpaceTerm.Outbox
