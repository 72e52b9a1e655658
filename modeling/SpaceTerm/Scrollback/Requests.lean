import SpaceTerm.Scrollback.Stranded

/-! # Requests are well formed

Every cut `request` makes of the wanted range, around cached rows, around what was asked for and into
pages, gives `Pieces`: ranges that are not empty, lie within what was cut and share no position. So the
pages do, and a page misses what the cuts left out. The bounds of the cache are an invariant of its
calls (`Traced.Bounded`). Only the sum that ends a page can pass the last `u64`: a history that ends less
than a page below it gets pages outside of it (`pages_past_history`). -/

namespace SpaceTerm.Scrollback
open Lib
variable {Row : Type}

/-! ## Pieces of a range -/

namespace Range
variable {a b d : Range}

/-- No position is in both. -/
def Apart (a b : Range) : Prop := ∀ p ∈ a, p ∉ b

/-- A part of `b` that is not empty. -/
structure Within (a b : Range) : Prop where
  nonempty : a.start < a.stop
  start : b.start ≤ a.start
  stop : a.stop ≤ b.stop

theorem Apart.symm (h : a.Apart b) : b.Apart a := fun p hb ha => h p ha hb

theorem apart_of_le (h : a.stop ≤ b.start) : a.Apart b := by
  intro p ha hb
  rw [mem_iff] at ha hb
  omega

theorem Within.mem (h : a.Within b) {p : Nat} (hp : p ∈ a) : p ∈ b :=
  ⟨h.start.trans hp.1, hp.2.trans_le h.stop⟩

theorem Within.trans (h : a.Within b) (h' : b.Within d) : a.Within d :=
  ⟨h.nonempty, h'.start.trans h.start, h.stop.trans h'.stop⟩

theorem Within.apart (h : a.Within b) (h' : b.Apart d) : a.Apart d := fun p hp => h' p (h.mem hp)

end Range

open Range (Apart Within)

structure Pieces (pieces : List Range) (run : Range) : Prop where
  apart : pieces.Pairwise Apart
  within : ∀ piece ∈ pieces, piece.Within run

namespace Pieces
variable {pieces : List Range} {run : Range}

theorem nil : Pieces [] run := ⟨.nil, by simp⟩

theorem single (h : run.start < run.stop) : Pieces [run] run :=
  ⟨List.pairwise_singleton _ _, by simpa using ⟨h, le_rfl, le_rfl⟩⟩

theorem cons {piece rest : Range} (h : Pieces pieces rest) (hp : piece.Within run)
    (hs : run.start ≤ rest.start) (hst : rest.stop ≤ run.stop) (ha : piece.Apart rest) :
    Pieces (piece :: pieces) run := by
  refine ⟨List.pairwise_cons.mpr ⟨fun other ho => ?_, h.apart⟩, List.forall_mem_cons.mpr ⟨hp, ?_⟩⟩
  · exact ((h.within other ho).apart ha.symm).symm
  · intro other ho
    have hi := h.within other ho
    exact ⟨hi.nonempty, hs.trans hi.start, hi.stop.trans hst⟩

theorem flatMap {cut : Range → List Range} (h : pieces.Pairwise Apart)
    (hc : ∀ piece ∈ pieces, Pieces (cut piece) piece) : (pieces.flatMap cut).Pairwise Apart := by
  refine List.pairwise_flatMap.mpr ⟨fun piece hp => (hc piece hp).apart, ?_⟩
  refine h.imp_of_mem fun {a b} ha hb hab x hx y hy => ?_
  have hx := (hc a ha).within x hx
  have hy := (hc b hb).within y hy
  exact (hy.apart (hx.apart hab).symm).symm

end Pieces

/-! ## The cuts -/

theorem Range.without_pieces {part sent : Range} (hpa : part.start < part.stop) (hsent : sent.start ≤ sent.stop) :
    Pieces (part.without sent) part ∧ ∀ piece ∈ part.without sent, piece.Apart sent := by
  unfold Range.without
  split
  next hout =>
    refine ⟨.single hpa, List.forall_mem_singleton.mpr fun p hp hs => ?_⟩
    rw [Range.mem_iff] at hp hs
    omega
  next hi =>
    -- The pieces before and after; either may be empty and is then dropped.
    have hw : ∀ piece ∈ [(⟨part.start, sent.start⟩ : Range), ⟨sent.stop, part.stop⟩].filter
        (fun piece => piece.start < piece.stop), piece.Within part ∧ piece.Apart sent := by
      intro piece hp
      obtain ⟨hp, hne⟩ := List.mem_filter.mp hp
      have hne : piece.start < piece.stop := by simpa using hne
      simp only [List.mem_cons, List.not_mem_nil, or_false] at hp
      rcases hp with rfl | rfl
      · exact ⟨⟨hne, le_rfl, by change sent.start ≤ part.stop; omega⟩, Range.apart_of_le le_rfl⟩
      · exact ⟨⟨hne, by change part.start ≤ sent.stop; omega, le_rfl⟩, (Range.apart_of_le le_rfl).symm⟩
    refine ⟨⟨List.Pairwise.filter _ ?_, fun piece hp => (hw piece hp).1⟩, fun piece hp => (hw piece hp).2⟩
    exact List.pairwise_pair.mpr (Range.apart_of_le hsent)

theorem foldl_without {asked : List Range} (hask : ∀ sent ∈ asked, sent.start ≤ sent.stop)
    {parts : List Range} (hap : parts.Pairwise Apart) (hpar : ∀ part ∈ parts, part.start < part.stop) :
    let left := asked.foldl (fun parts sent => parts.flatMap (·.without sent)) parts
    left.Pairwise Apart ∧ ∀ piece ∈ left, (∃ part ∈ parts, piece.Within part) ∧
      ∀ sent ∈ asked, piece.Apart sent := by
  induction asked generalizing parts with
  | nil =>
    exact ⟨hap, fun piece hp => ⟨⟨piece, hp, hpar piece hp, le_rfl, le_rfl⟩, by simp⟩⟩
  | cons sent asked ih =>
    have hc (part : Range) (hp : part ∈ parts) :=
      Range.without_pieces (hpar part hp) (hask sent List.mem_cons_self)
    have hnew (piece : Range) (hp : piece ∈ parts.flatMap (·.without sent)) :
        (∃ part ∈ parts, piece.Within part) ∧ piece.Apart sent := by
      obtain ⟨part, hpa, hp⟩ := List.mem_flatMap.mp hp
      exact ⟨⟨part, hpa, (hc part hpa).1.within piece hp⟩, (hc part hpa).2 piece hp⟩
    obtain ⟨ha, hleft⟩ := ih (fun other ho => hask other (List.mem_cons_of_mem _ ho))
      (Pieces.flatMap hap fun part hp => (hc part hp).1)
      fun piece hp => (hnew piece hp).1.choose_spec.2.nonempty
    refine ⟨ha, fun piece hp => ?_⟩
    obtain ⟨⟨part, hpa, hi⟩, hot⟩ := hleft piece hp
    obtain ⟨⟨old, hold, hold'⟩, hsent⟩ := hnew part hpa
    exact ⟨⟨old, hold, hi.trans hold'⟩, List.forall_mem_cons.mpr ⟨hi.apart hsent, hot⟩⟩

theorem gaps_pieces (stop cursor : Nat) {positions : List Nat} (hs : positions.Pairwise (· < ·))
    (hb : ∀ q ∈ positions, cursor ≤ q ∧ q < stop) :
    Pieces (gaps stop cursor positions) ⟨cursor, stop⟩ ∧
      ∀ gap ∈ gaps stop cursor positions, ∀ q ∈ positions, q ∉ gap := by
  induction positions generalizing cursor with
  | nil =>
    unfold gaps
    split
    next hlt => exact ⟨.single hlt, by simp⟩
    next => exact ⟨.nil, by simp⟩
  | cons q positions ih =>
    obtain ⟨hq, hs⟩ := List.pairwise_cons.mp hs
    obtain ⟨hc, hst⟩ := hb q List.mem_cons_self
    obtain ⟨hp, hnone⟩ := ih (q + 1) hs fun r hr =>
      ⟨hq r hr, (hb r (List.mem_cons_of_mem _ hr)).2⟩
    have hl (gap : Range) (hg : gap ∈ gaps stop (q + 1) positions) : ∀ r ∈ q :: positions, r ∉ gap := by
      refine List.forall_mem_cons.mpr ⟨fun hi => ?_, hnone gap hg⟩
      have := (hp.within gap hg).start.trans hi.1
      change q + 1 ≤ q at this
      omega
    unfold gaps
    split
    next hga =>
      refine ⟨hp.cons ⟨hga, le_rfl, hst.le⟩ ?_ le_rfl ?_, List.forall_mem_cons.mpr ⟨?_, hl⟩⟩
      · exact hc.trans (Nat.le_succ q)
      · exact Range.apart_of_le (Nat.le_succ q)
      · intro r hr hi
        have hge : q ≤ r := (List.mem_cons.mp hr).elim (fun h => h.ge) fun hr => (hq r hr).le
        exact absurd hi.2 (Nat.not_lt.mpr hge)
    next =>
      refine ⟨⟨hp.apart, fun gap hg => ?_⟩, hl⟩
      have hi := hp.within gap hg
      exact ⟨hi.nonempty, (hc.trans (Nat.le_succ q)).trans hi.start, hi.stop⟩

theorem carve_pieces (focus slots : Nat) (requested : Bool) {run : Range} (hlast : run.stop + maxPageRows ≤ 2 ^ 64) :
    Pieces (carve focus slots requested run) run ∧
      ∀ page ∈ carve focus slots requested run, page.stop - page.start ≤ maxPageRows := by
  induction slots generalizing requested run with
  | zero => exact ⟨.nil, by simp [carve]⟩
  | succ slots ih =>
    unfold carve
    split
    next hru =>
      have hs : (if requested then maxPageRows else firstPageRows) ≤ maxPageRows ∧
          0 < if requested then maxPageRows else firstPageRows := by
        cases requested <;> decide
      generalize (if requested then maxPageRows else firstPageRows) = size at hs
      by_cases hf : focus < run.stop
      · have hsum : wrap (run.start + size) = run.start + size := wrap_of_lt (by omega)
        -- From the front: the rest begins where the page ends.
        simp only [if_pos hf, if_true, hsum]
        obtain ⟨hrest, hsi⟩ := @ih true ⟨min (run.start + size) run.stop, run.stop⟩ hlast
        refine ⟨hrest.cons ⟨?_, le_rfl, min_le_right ..⟩ ?_ le_rfl (Range.apart_of_le le_rfl),
          List.forall_mem_cons.mpr ⟨?_, hsi⟩⟩
        · change run.start < min (run.start + size) run.stop
          omega
        · change run.start ≤ min (run.start + size) run.stop
          omega
        · change min (run.start + size) run.stop - run.start ≤ maxPageRows
          omega
      simp only [if_neg hf]
      have hp : Within ⟨max (run.stop - size) run.start, run.stop⟩ run := by
        refine ⟨?_, le_max_right .., le_rfl⟩
        change max (run.stop - size) run.start < run.stop
        omega
      have hr : run.stop - max (run.stop - size) run.start ≤ maxPageRows := by omega
      split
      next hw =>
        obtain ⟨hrest, hsi⟩ := @ih true ⟨run.stop, run.stop⟩ hlast
        exact ⟨hrest.cons hp hru.le le_rfl (Range.apart_of_le le_rfl), List.forall_mem_cons.mpr ⟨hr, hsi⟩⟩
      next =>
        obtain ⟨hrest, hsi⟩ := @ih true ⟨run.start, max (run.stop - size) run.start⟩
          ((Nat.add_le_add_right hp.nonempty.le _).trans hlast)
        exact ⟨hrest.cons hp le_rfl hp.nonempty.le (Range.apart_of_le le_rfl).symm,
          List.forall_mem_cons.mpr ⟨hr, hsi⟩⟩
    next => exact ⟨.nil, by simp⟩

theorem pages_length (focus slots : Nat) (requested : Bool) (runs : List Range) :
    (pages focus slots requested runs).length ≤ slots := by
  induction runs generalizing slots requested with
  | nil => exact Nat.zero_le _
  | cons run runs ih =>
    have hl := carve_length focus slots requested run
    have hrest := ih (slots - (carve focus slots requested run).length)
      (requested || !(carve focus slots requested run).isEmpty)
    simp only [pages, List.length_append]
    omega

theorem pages_pieces (focus slots : Nat) (requested : Bool) {runs : List Range} (hru : runs.Pairwise Apart)
    (hlast : ∀ run ∈ runs, run.stop + maxPageRows ≤ 2 ^ 64) :
    (pages focus slots requested runs).Pairwise Apart ∧
      ∀ page ∈ pages focus slots requested runs, (∃ run ∈ runs, page.Within run) ∧
        page.stop - page.start ≤ maxPageRows := by
  induction runs generalizing slots requested with
  | nil => exact ⟨.nil, by simp [pages]⟩
  | cons run runs ih =>
    obtain ⟨hr, hru⟩ := List.pairwise_cons.mp hru
    obtain ⟨hone, hlast⟩ := List.forall_mem_cons.mp hlast
    obtain ⟨hf, hsi⟩ := carve_pieces focus slots requested hone
    unfold pages
    obtain ⟨ha, hpa⟩ := ih (slots - (carve focus slots requested run).length)
      (requested || !(carve focus slots requested run).isEmpty) hru hlast
    refine ⟨List.pairwise_append.mpr ⟨hf.apart, ha, fun page hp other ho => ?_⟩, ?_⟩
    · obtain ⟨⟨run', hr', hi⟩, -⟩ := hpa other ho
      exact (hi.apart ((hf.within page hp).apart (hr run' hr')).symm).symm
    intro page hp
    rcases List.mem_append.mp hp with hp | hp
    · exact ⟨⟨run, List.mem_cons_self, hf.within page hp⟩, hsi page hp⟩
    · obtain ⟨⟨run', hr', hi⟩, hs⟩ := hpa page hp
      exact ⟨⟨run', List.mem_cons_of_mem _ hr', hi⟩, hs⟩

/-! ## Requests -/

namespace Cache
variable {c : Cache Row}

structure Asks (c : Cache Row) (wanted : Range) (r : PageRequest) : Prop where
  epoch : r.epoch = c.history.epoch
  rows : 1 ≤ r.rows ∧ r.rows ≤ maxPageRows
  wanted : ∀ p ∈ r.range, p ∈ wanted
  retained : ∀ p ∈ r.range, c.history.oldest ≤ p ∧ p < c.history.total
  uncached : ∀ p ∈ r.range, ¬c.Cached p
  unsent : ∀ sent ∈ c.inFlight, sent.epoch = c.history.epoch → r.range.Apart sent.range
  unsettled : ∀ range ∈ c.settled, r.range.Apart range

theorem missing_pieces (h : c.Sorted) (hse : ∀ r ∈ c.settled, r.start ≤ r.stop) (wanted : Range) :
    (c.missing wanted).Pairwise Apart ∧ ∀ run ∈ c.missing wanted, run.Within (c.retained wanted) ∧
      (∀ p ∈ run, ¬c.Cached p) ∧
      (∀ sent ∈ c.inFlight, sent.epoch = c.history.epoch → run.Apart sent.range) ∧
      ∀ range ∈ c.settled, run.Apart range := by
  unfold missing
  set asked := (c.inFlight.filter (·.epoch == c.history.epoch)).map PageRequest.range ++ c.settled with hd
  obtain ⟨hga, hnone⟩ := gaps_pieces (c.retained wanted).stop (c.retained wanted).start
    (h.pairwise.filter (· ∈ c.retained wanted)) fun q hq => of_decide_eq_true (List.mem_filter.mp hq).2
  have hask : ∀ sent ∈ asked, sent.start ≤ sent.stop := by
    intro sent hsent
    rcases List.mem_append.mp hsent with hsent | hsent
    · obtain ⟨r, -, rfl⟩ := List.mem_map.mp hsent
      exact Nat.le_add_right _ _
    · exact hse sent hsent
  have hc (gap : Range) (hg : gap ∈ gaps (c.retained wanted).stop (c.retained wanted).start
      ((c.rows.map Prod.fst).filter (· ∈ c.retained wanted))) :=
    foldl_without hask (List.pairwise_singleton Apart gap)
      (List.forall_mem_singleton.mpr (hga.within gap hg).nonempty)
  refine ⟨Pieces.flatMap hga.apart fun gap hg => ⟨(hc gap hg).1, fun piece hp => ?_⟩, fun run hru => ?_⟩
  · simpa using ((hc gap hg).2 piece hp).1
  obtain ⟨gap, hg, hru⟩ := List.mem_flatMap.mp hru
  obtain ⟨hi, ha⟩ := (hc gap hg).2 run hru
  have hi : run.Within gap := by simpa using hi
  have hw := hi.trans (hga.within gap hg)
  refine ⟨hw, ?_, fun sent hs he => ha _ ?_, fun range hr => ha _ ?_⟩
  · rintro p hp ⟨row, hro⟩
    refine hnone gap hg p (List.mem_filter.mpr ⟨List.mem_map.mpr ⟨_, hro, rfl⟩, ?_⟩) (hi.mem hp)
    exact decide_eq_true (hw.mem hp)
  · exact List.mem_append_left _ (List.mem_map.mpr ⟨sent, List.mem_filter.mpr ⟨hs, by simpa using he⟩, rfl⟩)
  · exact List.mem_append_right _ hr

theorem request_inFlight (h : c.inFlight.length ≤ maxPagesInFlight) (wanted : Range) (focus : Nat) :
    (c.request wanted focus).1.inFlight.length ≤ maxPagesInFlight := by
  have := pages_length focus (maxPagesInFlight - c.inFlight.length) c.requested
    ((c.missing wanted).insertionSort (fun a b => distance focus a ≤ distance focus b))
  simp only [request, List.length_append, List.length_map]
  omega

theorem request_spec (h : c.Sorted) (hset : ∀ r ∈ c.settled, r.start ≤ r.stop)
    (hlast : c.history.total + maxPageRows ≤ 2 ^ 64) (wanted : Range) (focus : Nat) :
    ((c.request wanted focus).2.map PageRequest.range).Pairwise Apart ∧
      ∀ r ∈ (c.request wanted focus).2, c.Asks wanted r := by
  obtain ⟨hap, hmissing⟩ := missing_pieces h hset wanted
  set runs := (c.missing wanted).insertionSort (fun a b => distance focus a ≤ distance focus b) with hrun
  have hpe : runs.Perm (c.missing wanted) := List.perm_insertionSort _ _
  have hend (run : Range) (hru : run ∈ runs) : run.stop + maxPageRows ≤ 2 ^ 64 := by
    obtain ⟨hne, hs, hstop⟩ := (hmissing run (hpe.mem_iff.mp hru)).1
    simp only [retained] at hs hstop
    omega
  obtain ⟨hpa, hsp⟩ := pages_pieces focus (maxPagesInFlight - c.inFlight.length) c.requested
    (hpe.symm.pairwise hap fun {_ _} h => h.symm) hend
  have hra (page : Range) (hp : page.start < page.stop) (hs : page.stop - page.start ≤ maxPageRows) :
      PageRequest.range ⟨c.history.epoch, page.start, pageRows page⟩ = page := by
    rw [pageRows_of_le hp.le hs]
    unfold PageRequest.range
    congr 1
    dsimp only
    omega
  refine ⟨?_, fun r hr => ?_⟩
  · change ((List.map _ _).map _).Pairwise _
    rw [List.map_map, List.pairwise_map]
    refine hpa.imp_of_mem fun {a b} ha hb hab => ?_
    obtain ⟨⟨run, -, hin⟩, hsa⟩ := hsp a ha
    obtain ⟨⟨run', -, hinb⟩, hsb⟩ := hsp b hb
    simpa only [Function.comp_apply, hra a hin.nonempty hsa, hra b hinb.nonempty hsb] using hab
  · obtain ⟨page, hp, rfl⟩ := List.mem_map.mp hr
    obtain ⟨⟨run, hru, hi⟩, hsi⟩ := hsp page hp
    obtain ⟨hw, hu, hsent, hse⟩ := hmissing run (hpe.mem_iff.mp hru)
    have hke := hi.trans hw
    have hbo (p : Nat) (hp : p ∈ page) : p ∈ wanted ∧ c.history.oldest ≤ p ∧ p < c.history.total := by
      have hmem := hke.mem hp
      simp only [retained, Range.mem_iff] at hmem ⊢
      omega
    refine ⟨rfl, ?_, ?_, ?_, ?_, ?_, ?_⟩
    · have := hi.nonempty
      simp only [pageRows_of_le this.le hsi]
      omega
    all_goals rw [hra page hi.nonempty hsi]
    · exact fun p hp => (hbo p hp).1
    · exact fun p hp => (hbo p hp).2
    · exact fun p hp => hu p (hi.mem hp)
    · exact fun sent hs he => hi.apart (hsent sent hs he)
    · exact fun range hr => hi.apart (hse range hr)

/-! ## What an answer leaves -/

theorem length_evictRows {focus turns : Nat} {rows : List (Nat × Row)}
    (h : rows.length ≤ maxCachedRows + turns) : (evictRows focus turns rows).length ≤ maxCachedRows := by
  induction turns generalizing rows with
  | zero => exact h
  | succ turns ih =>
    unfold evictRows
    split
    next hf =>
      cases rows with
      | nil => simp at hf
      | cons first rest =>
        rw [List.head?_cons, List.getLast?_cons]
        refine ih ?_
        simp only [List.length_cons] at h
        split
        · simpa using by omega
        · simpa using by omega
    next hf => omega

theorem mem_placed {start : Nat} {rows : List Row} {entry : Nat × Row} (h : entry ∈ placed start rows) :
    start ≤ entry.1 ∧ rows[entry.1 - start]? = some entry.2 := by
  obtain ⟨⟨row, i⟩, hr, rfl⟩ := List.mem_map.mp h
  refine ⟨Nat.le_add_right _ _, ?_⟩
  rw [Nat.add_sub_cancel_left]
  exact List.mem_zipIdx_iff_getElem?.mp hr

theorem mem_place {entries : List (Nat × Row)} {entry : Nat × Row} (h : entry ∈ (c.place entries).rows) :
    entry ∈ c.rows ∨ entry ∈ entries := by
  induction entries generalizing c with
  | nil => exact .inl h
  | cons first entries ih =>
    rcases ih (c := { c with rows := insertRow first.1 first.2 c.rows }) h with hi | hi
    · exact (mem_insertRow hi).elim (fun h => .inr (h ▸ List.mem_cons_self)) .inl
    · exact .inr (List.mem_cons_of_mem _ hi)

theorem insert_spec (hl : c.rows.length ≤ maxCachedRows) (start : Nat) (rows : List Row) (focus : Nat) :
    (c.insert start rows focus).rows.length ≤ maxCachedRows ∧ (c.insert start rows focus).inFlight = c.inFlight ∧
      ∀ entry ∈ (c.insert start rows focus).rows, entry ∈ c.rows ∨ entry ∈ placed start rows := by
  unfold Cache.insert
  split
  · exact ⟨hl, rfl, fun entry h => .inl h⟩
  · refine ⟨length_evictRows (Nat.le_add_left _ _), rfl, fun entry h => ?_⟩
    exact (mem_place ((evictRows_sublist _ _ _).subset h)).imp_right fun h => (List.mem_filter.mp h).1

/-- An answer takes its request out of flight; its rows are kept or gone, or of the answer, which is
then of the epoch of the history. -/
theorem page_rows (hle : c.rows.length ≤ maxCachedRows) (request : PageRequest)
    (answer : Option (Nat × Nat × List Row)) (focus : Nat) :
    (c.page request answer focus).rows.length ≤ maxCachedRows ∧
      (c.page request answer focus).inFlight = c.inFlight.erase request ∧
      (c.page request answer focus).history.epoch = c.history.epoch ∧
      ∀ entry ∈ (c.page request answer focus).rows, entry ∈ c.rows ∨
        ∃ start rows, answer = some (c.history.epoch, start, rows) ∧ entry ∈ placed start rows := by
  unfold Cache.page
  dsimp only
  split
  · exact ⟨hle, rfl, rfl, fun entry h => .inl h⟩
  split
  · exact ⟨hle, rfl, rfl, fun entry h => .inl h⟩
  next epoch start rows =>
    split
    · exact ⟨hle, rfl, rfl, fun entry h => .inl h⟩
    next he =>
      rw [not_not] at he
      split
      next =>
        obtain ⟨hl, hf, hr⟩ := insert_spec (c := { c with
          inFlight := c.inFlight.erase request
          settled := c.settled ++ [request.range]
          history := { c.history with oldest := min start c.history.total }
          rows := c.rows.filter fun entry => min start c.history.total ≤ entry.1 })
          ((List.length_filter_le _ _).trans hle) start rows focus
        refine ⟨hl, hf, ?_, fun entry h => ?_⟩
        · rw [insert_history]
        refine (hr entry h).imp (fun h => (List.mem_filter.mp h).1) fun h => ⟨start, rows, ?_, h⟩
        rw [he]
      next =>
        obtain ⟨hl, hf, hr⟩ := insert_spec (c := { c with
          inFlight := c.inFlight.erase request, settled := c.settled ++ [request.range] })
          hle start rows focus
        refine ⟨hl, hf, congrArg History.epoch (insert_history ..), fun entry h => ?_⟩
        refine (hr entry h).imp_right fun h => ⟨start, rows, ?_, h⟩
        rw [he]

end Cache

/-! ## Runs -/

namespace Traced
variable {s t : Traced Row} {es : List (Event Row)}

/-- An answer of `epoch` among the events gave the row for its position. -/
def Given (es : List (Event Row)) (epoch : Nat) (entry : Nat × Row) : Prop :=
  ∃ request start rows focus, Event.page request (some (epoch, start, rows)) focus ∈ es ∧
    start ≤ entry.1 ∧ rows[entry.1 - start]? = some entry.2

structure Bounded (es : List (Event Row)) (s : Traced Row) : Prop where
  inv : s.Inv
  settled : ∀ r ∈ s.cache.settled, r.start ≤ r.stop
  inFlight : s.cache.inFlight.length ≤ maxPagesInFlight
  rows : s.cache.rows.length ≤ maxCachedRows
  given : ∀ entry ∈ s.cache.rows, Given es s.cache.history.epoch entry

theorem Given.snoc {epoch : Nat} {entry : Nat × Row} (h : Given es epoch entry) (e : Event Row) :
    Given (es ++ [e]) epoch entry := by
  obtain ⟨request, start, rows, focus, hmem, hr⟩ := h
  exact ⟨request, start, rows, focus, List.mem_append_left _ hmem, hr⟩

theorem Bounded.observe (h : Bounded es s) (history : History) :
    Bounded (es ++ [.observe history]) (s.step (.observe history)) := by
  have hi := h.inv.observe history
  refine ⟨hi, ?_, ?_, ?_, ?_⟩
  all_goals simp only [step, Cache.observe]
  · intro r hr
    split at hr
    · split at hr
      · exact h.settled r hr
      · simp [Cache.clear] at hr
    · simp at hr
  · split <;> split <;> exact h.inFlight
  · refine (List.length_filter_le _ _).trans ?_
    split <;> split <;> first | exact h.rows | exact Nat.zero_le _
  intro entry hentry
  obtain ⟨hentry, -⟩ := List.mem_filter.mp hentry
  by_cases he : history.epoch = s.cache.history.epoch
  · rw [if_pos he] at hentry
    refine (he ▸ h.given entry ?_).snoc _
    split at hentry <;> exact hentry
  · -- A new epoch starts without rows.
    rw [if_neg he] at hentry
    split at hentry <;> cases hentry

theorem Bounded.page (h : Bounded es s) (request : PageRequest) (answer : Option (Nat × Nat × List Row))
    (focus : Nat) : Bounded (es ++ [.page request answer focus]) (s.step (.page request answer focus)) := by
  obtain ⟨hl, hflight, he, hro⟩ := Cache.page_rows h.rows request answer focus
  refine ⟨h.inv.page request answer focus, fun r hr => ?_, ?_, hl, fun entry hentry => ?_⟩
  · change r ∈ (s.cache.page request answer focus).settled at hr
    rw [(Cache.page_spec request answer focus).settled] at hr
    split at hr
    · rcases List.mem_append.mp hr with hr | hr
      · exact h.settled r hr
      · rw [List.mem_singleton.mp hr]
        exact Nat.le_add_right _ _
    · exact h.settled r hr
  · change (s.cache.page request answer focus).inFlight.length ≤ _
    rw [hflight]
    exact (List.length_erase_le).trans h.inFlight
  · change Given _ (s.cache.page request answer focus).history.epoch entry
    rw [he]
    rcases hro entry hentry with hold | ⟨start, rows, rfl, hp⟩
    · exact (h.given entry hold).snoc _
    · exact ⟨request, start, rows, focus, by simp, Cache.mem_placed hp⟩

theorem length_foldl_erase (requests l : List PageRequest) : (requests.foldl List.erase l).length ≤ l.length := by
  induction requests generalizing l with
  | nil => exact le_rfl
  | cons r requests ih => exact (ih _).trans List.length_erase_le

theorem Bounded.step (h : Bounded es s) {e : Event Row} (hmo : s.Moves e t) : Bounded (es ++ [e]) t := by
  have hi := h.inv.step hmo
  obtain rfl := hmo
  have hg (entry : Nat × Row) (hentry : entry ∈ s.cache.rows) := (h.given entry hentry).snoc e
  cases e with
  | observe history => exact h.observe history
  | request wanted focus =>
    exact ⟨hi, h.settled, Cache.request_inFlight h.inFlight wanted focus, h.rows, hg⟩
  | page request answer focus => exact h.page request answer focus
  | forgetInFlight => exact ⟨hi, h.settled, Nat.zero_le _, h.rows, hg⟩
  | unsent requests =>
    refine ⟨hi, h.settled, ?_, h.rows, hg⟩
    exact (length_foldl_erase requests _).trans h.inFlight

theorem bounded_of_run (hr : Run Moves {} es s) : Bounded es s := by
  induction hr with
  | refl => exact ⟨⟨⟨by simp, by simp⟩, by simp⟩, by simp, Nat.zero_le _, Nat.zero_le _, by simp⟩
  | snoc _ hmo ih => exact ih.step hmo

/-- After any calls that leave a history ending a page below the last `u64`, the pages a request returns
share no position with each other, with a cached row or with a range in flight of the history's epoch, and
lie inside the wanted range and the history; each has between one row and a page's. With any history, no
more are in flight than may be, and the cached rows lie inside the history, are no more than the cache may
hold and came with answers of the current epoch. -/
theorem requests_wellFormed (hrun : Run Moves {} es s) (wanted : Range) (focus : Nat) :
    (s.cache.history.total + maxPageRows ≤ 2 ^ 64 →
      ((s.cache.request wanted focus).2.map PageRequest.range).Pairwise Apart ∧
      ∀ r ∈ (s.cache.request wanted focus).2, s.cache.Asks wanted r) ∧
      (s.cache.request wanted focus).1.inFlight.length ≤ maxPagesInFlight ∧
      s.cache.inFlight.length ≤ maxPagesInFlight ∧
      (∀ entry ∈ s.cache.rows, s.cache.history.oldest ≤ entry.1 ∧ entry.1 < s.cache.history.total) ∧
      s.cache.rows.length ≤ maxCachedRows ∧
      ∀ entry ∈ s.cache.rows, Given es s.cache.history.epoch entry := by
  have h := bounded_of_run hrun
  refine ⟨fun hlast => Cache.request_spec h.inv.sorted h.settled hlast wanted focus,
    Cache.request_inFlight h.inFlight wanted focus, h.inFlight, fun entry hentry => ?_, h.rows, h.given⟩
  simpa [Cache.retains] using h.inv.sorted.retained entry hentry

/-- A page of a first history is answered, and what is missing is asked for in two pages. -/
theorem requests_wellFormed_first : ∃ (es : List (Event Unit)) (s : Traced Unit), Run Moves {} es s ∧
    s.cache.rows.length = 200 ∧ ((s.cache.request ⟨0, 900⟩ 0).2.map PageRequest.range) = [⟨200, 700⟩, ⟨700, 900⟩] ∧
      ((s.cache.request ⟨0, 900⟩ 0).2.map PageRequest.range).Pairwise Apart := by
  have hr : Run Moves ({} : Traced Unit) [.observe ⟨1, 0, 900⟩, .request ⟨0, 200⟩ 0,
      .page ⟨1, 0, 200⟩ (some (1, 0, List.replicate 200 ())) 0] _ := .cons rfl (.cons rfl (.single rfl))
  exact ⟨_, _, hr, by decide +kernel, by decide +kernel,
    ((requests_wellFormed hr ⟨0, 900⟩ 0).1 (by decide +kernel)).1⟩

/-- Ten rows before the last `u64` the end of the first page wraps: it asks for rows past the history, and
the next one for rows before it. A range in flight of an older epoch is asked for again. -/
theorem pages_past_history :
    (∃ (es : List (Event Unit)) (s : Traced Unit), Run Moves {} es s ∧ s.cache.history.total < 2 ^ 64 ∧
      ∃ wanted focus, ∃ r ∈ (s.cache.request wanted focus).2, ∃ q ∈ (s.cache.request wanted focus).2,
        s.cache.history.total ∈ r.range ∧ q.start < s.cache.history.oldest) ∧
    ∃ (es : List (Event Unit)) (s : Traced Unit), Run Moves {} es s ∧ s.cache.history.total + maxPageRows ≤ 2 ^ 64 ∧
      ∃ wanted focus, ∃ r ∈ (s.cache.request wanted focus).2, ∃ sent ∈ s.cache.inFlight, r.range = sent.range := by
  have hlate : Run Moves ({} : Traced Unit) [.observe ⟨1, 2 ^ 64 - 11, 2 ^ 64 - 1⟩] _ := .single rfl
  have htwo : Run Moves ({} : Traced Unit) [.observe ⟨1, 0, 9⟩, .request ⟨0, 9⟩ 0, .observe ⟨2, 0, 9⟩] _ :=
    .cons rfl (.cons rfl (.single rfl))
  refine ⟨⟨_, _, hlate, by decide, ⟨2 ^ 64 - 11, 2 ^ 64 - 1⟩, 0, by decide +kernel⟩, _, _, htwo, by decide,
    ⟨0, 9⟩, 0, by decide +kernel⟩

end Traced
end SpaceTerm.Scrollback
