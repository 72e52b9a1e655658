import SpaceTerm.Scrollback.Cache
import SpaceTerm.Lib.Run

/-! # Rows the cache asks for

`request` asks for every retained position of the wanted range that is neither cached nor in flight nor
in a range answered since the history changed, as far as its slots go (`request_covers`). An answered
position is cached, absent or was evicted since (`Traced.Inv`), so a row that was evicted is not asked
for again until the history changes. -/

namespace SpaceTerm.Scrollback
open Lib
variable {Row : Type}

/-! ## Ranges -/

variable {p : Nat}

theorem Range.mem_without {part sent : Range} (hp : p ∈ part) (hno : p ∉ sent) :
    ∃ piece ∈ part.without sent, p ∈ piece := by
  rw [Range.mem_iff] at hp hno
  unfold Range.without
  split
  next => exact ⟨part, by simp, hp⟩
  next =>
    by_cases hb : p < sent.start
    · refine ⟨⟨part.start, sent.start⟩, ?_, hp.1, hb⟩
      simp
      omega
    refine ⟨⟨sent.stop, part.stop⟩, ?_, ?_, hp.2⟩
    · simp
      omega
    · change sent.stop ≤ p
      omega

variable {run : Range}

theorem mem_subtract (asked : List Range) (hp : p ∈ run)
    (hno : ∀ sent ∈ asked, p ∉ sent) : ∃ piece ∈ subtract run asked, p ∈ piece := by
  unfold subtract
  have hpar : ∃ piece ∈ [run], p ∈ piece := ⟨run, by simp, hp⟩
  generalize [run] = parts at hpar
  induction asked generalizing parts with
  | nil => exact hpar
  | cons sent asked ih =>
    obtain ⟨part, hpa, hmem⟩ := hpar
    obtain ⟨piece, hpi, hi⟩ := Range.mem_without hmem (hno sent (by simp))
    refine ih (fun sent' hsent' => hno sent' (by simp [hsent'])) _ ⟨piece, ?_, hi⟩
    exact List.mem_flatMap.mpr ⟨part, hpa, hpi⟩

theorem mem_gaps {stop cursor : Nat} {positions : List Nat} (hs : positions.Pairwise (· < ·))
    (ha : ∀ q ∈ positions, cursor ≤ q) (hl : cursor ≤ p) (hh : p < stop)
    (hno : p ∉ positions) : ∃ gap ∈ gaps stop cursor positions, p ∈ gap := by
  induction positions generalizing cursor with
  | nil => exact ⟨⟨cursor, stop⟩, by simp [gaps]; omega, hl, hh⟩
  | cons q positions ih =>
    obtain ⟨hq, hs⟩ := List.pairwise_cons.mp hs
    rw [List.mem_cons, not_or] at hno
    unfold gaps
    by_cases hlt : p < q
    · refine ⟨⟨cursor, q⟩, ?_, hl, hlt⟩
      simp
      omega
    · have hne := hno.1
      obtain ⟨gap, hg, hi⟩ := ih hs (fun r hr => hq r hr) (by omega) hno.2
      exact ⟨gap, List.mem_append_right _ hg, hi⟩

theorem wrap_le (n : Nat) : wrap n ≤ n := Nat.mod_le ..

theorem wrap_of_lt {n : Nat} (h : n < 2 ^ 64) : wrap n = n := Nat.mod_eq_of_lt h

theorem pageRows_of_le {page : Range} (h : page.start ≤ page.stop) (hs : page.stop - page.start ≤ maxPageRows) :
    pageRows page = page.stop - page.start := by
  have hrows : wrap (page.stop + 2 ^ 64 - page.start) = page.stop - page.start := by
    rw [show page.stop + 2 ^ 64 - page.start = page.stop - page.start + 2 ^ 64 by omega, wrap, Nat.add_mod_right]
    exact wrap_of_lt (by simp only [maxPageRows] at hs; omega)
  unfold pageRows
  simp only [hrows]
  rw [if_pos (by simp only [maxPageRows] at hs; omega)]

theorem carve_covers (focus slots : Nat) (requested : Bool) (hp : p ∈ run) :
    (∃ page ∈ carve focus slots requested run, p ∈ page ∧ page.stop - page.start ≤ maxPageRows) ∨
      (carve focus slots requested run).length = slots := by
  induction slots generalizing requested run with
  | zero => exact .inr rfl
  | succ slots ih =>
    rw [Range.mem_iff] at hp
    unfold carve
    rw [if_pos (by omega)]
    dsimp only
    set page : Range := if focus < run.stop then
      ⟨run.start, min (wrap (run.start + if requested then maxPageRows else firstPageRows)) run.stop⟩
      else ⟨max (run.stop - if requested then maxPageRows else firstPageRows) run.start, run.stop⟩
      with hpa
    by_cases hi : p ∈ page
    · refine .inl ⟨page, by simp, hi, ?_⟩
      have hs : (if requested then maxPageRows else firstPageRows) ≤ maxPageRows := by
        cases requested <;> decide
      have := wrap_le (run.start + if requested then maxPageRows else firstPageRows)
      rw [hpa]
      split <;> dsimp only <;> omega
    -- The page is an end of the run, so the rest holds the position.
    have hrest : p ∈ (if page.start = run.start then { run with start := page.stop }
        else { run with stop := page.start } : Range) := by
      rw [Range.mem_iff] at hi
      have he : page.start = run.start ∨ page.stop = run.stop := by
        rw [hpa]
        split
        · exact .inl rfl
        · exact .inr rfl
      split
      · exact ⟨by change page.stop ≤ p; omega, hp.2⟩
      · exact ⟨hp.1, by change p < page.start; omega⟩
    rcases ih true hrest with ⟨other, hother, hmem⟩ | hl
    · exact .inl ⟨other, List.mem_cons_of_mem _ hother, hmem⟩
    · exact .inr (by rw [List.length_cons, hl])

theorem carve_length (focus slots : Nat) (requested : Bool) (run : Range) :
    (carve focus slots requested run).length ≤ slots := by
  induction slots generalizing requested run with
  | zero => exact le_rfl
  | succ slots ih =>
    unfold carve
    split
    · exact Nat.succ_le_succ (ih _ _)
    · exact Nat.zero_le _

theorem pages_covers (focus slots : Nat) (requested : Bool) {runs : List Range} (hr : run ∈ runs) (hp : p ∈ run) :
    (∃ page ∈ pages focus slots requested runs, p ∈ page ∧ page.stop - page.start ≤ maxPageRows) ∨
      (pages focus slots requested runs).length = slots := by
  induction runs generalizing slots requested with
  | nil => cases hr
  | cons first runs ih =>
    have hl := carve_length focus slots requested first
    unfold pages
    dsimp only
    rcases List.mem_cons.mp hr with rfl | hr
    · rcases carve_covers focus slots requested hp with
        ⟨page, hpa, hi⟩ | hf
      · exact .inl ⟨page, List.mem_append_left _ hpa, hi⟩
      have hnone (requested' : Bool) (l : List Range) : pages focus 0 requested' l = [] := by
        induction l generalizing requested' with
        | nil => rfl
        | cons r l ih => simp [pages, carve, ih]
      refine .inr ?_
      rw [hf, Nat.sub_self, hnone, List.append_nil, hf]
    · rcases ih (slots - (carve focus slots requested first).length)
        (requested || !(carve focus slots requested first).isEmpty) hr with
        ⟨page, hpa, hi⟩ | hf
      · exact .inl ⟨page, List.mem_append_right _ hpa, hi⟩
      · refine .inr ?_
        rw [List.length_append, hf]
        omega

/-! ## Requests -/

namespace Cache
variable {c : Cache Row}

def Cached (c : Cache Row) (p : Nat) : Prop := ∃ row, (p, row) ∈ c.rows

structure Sorted (c : Cache Row) : Prop where
  pairwise : (c.rows.map Prod.fst).Pairwise (· < ·)
  retained : ∀ entry ∈ c.rows, c.retains entry.1 = true

theorem request_covers (h : c.Sorted) {wanted : Range} {focus p : Nat} (hw : p ∈ wanted)
    (hre : c.retains p = true) (hc : ¬c.Cached p)
    (hflight : ∀ r ∈ c.inFlight, r.epoch = c.history.epoch → p ∉ r.range)
    (hs : ∀ r ∈ c.settled, p ∉ r)
    (hf : (c.request wanted focus).1.inFlight.length < maxPagesInFlight) :
    ∃ r ∈ (c.request wanted focus).2, r.epoch = c.history.epoch ∧ p ∈ r.range := by
  simp only [retains, Bool.and_eq_true, decide_eq_true_eq] at hre
  rw [Range.mem_iff] at hw
  obtain ⟨gap, hg, hi⟩ : ∃ gap ∈ gaps (c.retained wanted).stop (c.retained wanted).start
      ((c.rows.map Prod.fst).filter (· ∈ c.retained wanted)), p ∈ gap := by
    refine mem_gaps (h.pairwise.filter _) ?_ ?_ ?_ ?_
    · intro q hq
      exact (of_decide_eq_true (List.mem_filter.mp hq).2).1
    · simp [retained]; omega
    · simp [retained]; omega
    · intro hmem
      obtain ⟨⟨q, row⟩, hro, rfl⟩ := List.mem_map.mp (List.mem_filter.mp hmem).1
      exact hc ⟨row, hro⟩
  obtain ⟨run, hru, hp⟩ := mem_subtract ((c.inFlight.filter
      (·.epoch == c.history.epoch)).map PageRequest.range ++ c.settled) hi (by
    intro sent hsent
    rcases List.mem_append.mp hsent with hsent | hsent
    · obtain ⟨r, hr, rfl⟩ := List.mem_map.mp hsent
      obtain ⟨hr, he⟩ := List.mem_filter.mp hr
      exact hflight r hr (by simpa using he)
    · exact hs sent hsent)
  have hmissing : run ∈ (c.missing wanted).insertionSort (fun a b => distance focus a ≤ distance focus b) :=
    (List.mem_insertionSort _).mpr (List.mem_flatMap.mpr ⟨gap, hg, hru⟩)
  rcases pages_covers focus (maxPagesInFlight - c.inFlight.length) c.requested hmissing hp with
    ⟨page, hpa, hmem, hs⟩ | hfu
  · refine ⟨_, List.mem_map.mpr ⟨page, hpa, rfl⟩, rfl, ?_⟩
    rw [Range.mem_iff] at hmem ⊢
    simp only [PageRequest.range, pageRows_of_le (hmem.1.trans hmem.2.le) hs]
    omega
  · simp only [request, List.length_append, List.length_map, hfu] at hf
    omega

/-! ## The rows stay in order -/

variable {rows : List (Nat × Row)}

theorem mem_insertRow {position : Nat} {row : Row} {entry : Nat × Row}
    (h : entry ∈ insertRow position row rows) : entry = (position, row) ∨ entry ∈ rows := by
  induction rows with
  | nil => exact .inl (by simpa [insertRow] using h)
  | cons first rows ih =>
    unfold insertRow at h
    split at h
    · simpa using h
    split at h
    · rcases List.mem_cons.mp h with rfl | h
      · exact .inl rfl
      · exact .inr (List.mem_cons_of_mem _ h)
    · rcases List.mem_cons.mp h with rfl | h
      · exact .inr List.mem_cons_self
      · exact (ih h).imp_right (List.mem_cons_of_mem _)

theorem insertRow_pairwise {position : Nat} {row : Row} (h : (rows.map Prod.fst).Pairwise (· < ·)) :
    ((insertRow position row rows).map Prod.fst).Pairwise (· < ·) := by
  induction rows with
  | nil => simp [insertRow]
  | cons first rows ih =>
    obtain ⟨hf, hrest⟩ := List.pairwise_cons.mp h
    unfold insertRow
    split
    next hl =>
      refine List.pairwise_cons.mpr ⟨fun q hq => ?_, h⟩
      rcases List.mem_cons.mp hq with rfl | hq
      · exact hl
      · exact hl.trans (hf q hq)
    next hg =>
      split
      next he => exact List.pairwise_cons.mpr ⟨fun q hq => he ▸ hf q hq, hrest⟩
      next hne =>
        refine List.pairwise_cons.mpr ⟨fun q hq => ?_, ih hrest⟩
        obtain ⟨entry, hentry, rfl⟩ := List.mem_map.mp hq
        rcases mem_insertRow hentry with rfl | hentry
        · change first.1 < position
          omega
        · exact hf _ (List.mem_map_of_mem hentry)

theorem evictRows_sublist (focus turns : Nat) (rows : List (Nat × Row)) :
    List.Sublist (evictRows focus turns rows) rows := by
  induction turns generalizing rows with
  | zero => exact List.Sublist.refl _
  | succ turns ih =>
    unfold evictRows
    split
    · split
      · refine (ih _).trans ?_
        split
        · exact List.tail_sublist _
        · exact List.dropLast_sublist _
      · exact List.Sublist.refl _
    · exact List.Sublist.refl _

theorem Sorted.sublist (h : c.Sorted) (hs : List.Sublist rows c.rows) :
    ({ c with rows := rows } : Cache Row).Sorted :=
  ⟨h.pairwise.sublist (hs.map _), fun entry hentry => h.retained entry (hs.subset hentry)⟩

theorem Sorted.place (h : c.Sorted) {entries : List (Nat × Row)}
    (hke : ∀ entry ∈ entries, c.retains entry.1 = true) : (c.place entries).Sorted := by
  induction entries generalizing c with
  | nil => exact h
  | cons entry entries ih =>
    have ho : ({ c with rows := insertRow entry.1 entry.2 c.rows } : Cache Row).Sorted := by
      refine ⟨insertRow_pairwise h.pairwise, fun other hother => ?_⟩
      rcases mem_insertRow hother with rfl | hother
      · exact hke _ List.mem_cons_self
      · exact h.retained other hother
    exact ih ho fun other hother => hke other (List.mem_cons_of_mem _ hother)

theorem Sorted.insert (h : c.Sorted) (start : Nat) (rows : List Row) (focus : Nat) :
    (c.insert start rows focus).Sorted := by
  unfold Cache.insert
  split
  · exact h
  · exact (h.place fun entry hentry => (List.mem_filter.mp hentry).2).sublist (evictRows_sublist _ _ _)

theorem evict_history (focus : Nat) : (c.evict focus).history = c.history := rfl

theorem evict_inFlight (focus : Nat) : (c.evict focus).inFlight = c.inFlight := rfl

theorem evict_settled (focus : Nat) : (c.evict focus).settled = c.settled := rfl

theorem insert_history (start : Nat) (rows : List Row) (focus : Nat) :
    (c.insert start rows focus).history = c.history := by
  unfold Cache.insert
  split
  · rfl
  · rfl

theorem insert_settled (start : Nat) (rows : List Row) (focus : Nat) :
    (c.insert start rows focus).settled = c.settled := by
  unfold Cache.insert
  split
  · rfl
  · rfl

structure PageSpec (c c' : Cache Row) (request : PageRequest) : Prop where
  sorted : c.Sorted → c'.Sorted
  oldest : ∀ p, c'.retains p = true → c.retains p = true
  settled : c'.settled = if request.epoch = c.history.epoch then c.settled ++ [request.range]
    else c.settled

theorem page_spec (request : PageRequest) (answer : Option (Nat × Nat × List Row)) (focus : Nat) :
    PageSpec c (c.page request answer focus) request := by
  unfold Cache.page
  dsimp only
  split
  next he => exact ⟨fun h => ⟨h.pairwise, h.retained⟩, fun p hp => hp, by rw [if_neg he]⟩
  next he =>
    rw [not_not] at he
    split
    next => exact ⟨fun h => ⟨h.pairwise, h.retained⟩, fun p hp => hp, by rw [if_pos he]⟩
    next epoch start rows =>
      split
      next => exact ⟨fun h => ⟨h.pairwise, h.retained⟩, fun p hp => hp, by rw [if_pos he]⟩
      next =>
        split
        next hl =>
          refine ⟨fun h => Sorted.insert ⟨?_, fun entry hentry => ?_⟩ _ _ _, fun p hp => ?_, ?_⟩
          · exact h.pairwise.sublist (List.filter_sublist.map _)
          · obtain ⟨hmem, hle⟩ := List.mem_filter.mp hentry
            have := h.retained entry hmem
            simp only [retains, Bool.and_eq_true, decide_eq_true_eq] at this hle ⊢
            exact ⟨hle, this.2⟩
          · simp only [retains, insert_history, Bool.and_eq_true, decide_eq_true_eq] at hp ⊢
            omega
          · rw [insert_settled, if_pos he]
        next =>
          refine ⟨fun h => Sorted.insert ?_ _ _ _, fun p hp => ?_, ?_⟩
          · exact ⟨h.pairwise, h.retained⟩
          · simpa only [retains, insert_history] using hp
          · rw [insert_settled, if_pos he]

end Cache

/-! ## Runs -/

/-- A cache with what happened since its history last changed. -/
structure Traced (Row : Type) where
  cache : Cache Row := {}
  /-- Positions an answer covered without a row for them. -/
  absent : Nat → Prop := fun _ => False
  /-- Positions whose row the cache held or was given, and dropped while they were retained. -/
  evicted : Nat → Prop := fun _ => False

inductive Event (Row : Type)
  | observe (history : History)
  | request (wanted : Range) (focus : Nat)
  | page (request : PageRequest) (answer : Option (Nat × Nat × List Row)) (focus : Nat)
  | forgetInFlight
  | unsent (requests : List PageRequest)

def Gives (history : History) (answer : Option (Nat × Nat × List Row)) (p : Nat) : Prop :=
  ∃ start rows, answer = some (history.epoch, start, rows) ∧ start ≤ p ∧ p < start + rows.length

namespace Traced

def step (s : Traced Row) : Event Row → Traced Row
  | .observe history => { s with
      cache := s.cache.observe history
      absent := fun p => history = s.cache.history ∧ s.absent p
      evicted := fun p => history = s.cache.history ∧ s.evicted p }
  | .request wanted focus => { s with cache := (s.cache.request wanted focus).1 }
  | .page request answer focus =>
    let cache := s.cache.page request answer focus
    { cache := cache
      absent := fun p => s.absent p ∨ (request.epoch = s.cache.history.epoch ∧ p ∈ request.range ∧
        ¬Gives s.cache.history answer p)
      evicted := fun p => s.evicted p ∨ (cache.retains p = true ∧ ¬cache.Cached p ∧
        (s.cache.Cached p ∨ Gives s.cache.history answer p)) }
  | .forgetInFlight => { s with cache := s.cache.forgetInFlight }
  | .unsent requests => { s with cache := s.cache.unsent requests }

def Moves (s : Traced Row) (e : Event Row) (t : Traced Row) : Prop := t = s.step e

structure Inv (s : Traced Row) : Prop where
  sorted : s.cache.Sorted
  answered : ∀ r ∈ s.cache.settled, ∀ p ∈ r, s.cache.retains p = true → s.cache.Cached p ∨ s.absent p ∨ s.evicted p

theorem Inv.observe {s : Traced Row} (h : s.Inv) (history : History) : (s.step (.observe history)).Inv := by
  have hf (rows : List (Nat × Row)) (hr : (rows.map Prod.fst).Pairwise (· < ·)) :
      ({ s.cache with
        history := history
        rows := rows.filter fun entry => history.oldest ≤ entry.1 && entry.1 < history.total } :
          Cache Row).Sorted :=
    ⟨hr.sublist (List.filter_sublist.map _), fun entry hentry => (List.mem_filter.mp hentry).2⟩
  by_cases hs : history = s.cache.history
  · subst hs
    have hr : s.cache.observe s.cache.history = s.cache := by
      have ha : s.cache.rows.filter (fun entry => s.cache.history.oldest ≤ entry.1 &&
          entry.1 < s.cache.history.total) = s.cache.rows :=
        List.filter_eq_self.mpr fun entry hentry => h.sorted.retained entry hentry
      simp [Cache.observe, ha]
    refine ⟨by simpa only [step, hr] using h.sorted, ?_⟩
    simp only [step, hr, true_and]
    exact h.answered
  · refine ⟨?_, ?_⟩
    · simp only [step, Cache.observe, if_neg hs]
      split
      · exact ⟨(hf _ h.sorted.pairwise).pairwise, (hf _ h.sorted.pairwise).retained⟩
      · exact ⟨by simp [Cache.clear], by simp [Cache.clear]⟩
    · simp [step, Cache.observe, if_neg hs]

theorem Inv.page {s : Traced Row} (h : s.Inv) (request : PageRequest)
    (answer : Option (Nat × Nat × List Row)) (focus : Nat) :
    (s.step (.page request answer focus)).Inv := by
  have hs := Cache.page_spec (c := s.cache) request answer focus
  refine ⟨hs.sorted h.sorted, fun r hr p hp hre => ?_⟩
  have hh (hh : s.cache.Cached p ∨ Gives s.cache.history answer p) :
      (s.cache.page request answer focus).Cached p ∨ (s.step (.page request answer focus)).evicted p := by
    by_cases hc : (s.cache.page request answer focus).Cached p
    · exact .inl hc
    · exact .inr (.inr ⟨hre, hc, hh⟩)
  have hold (hr : r ∈ s.cache.settled) : (s.cache.page request answer focus).Cached p ∨
      (s.step (.page request answer focus)).absent p ∨ (s.step (.page request answer focus)).evicted p := by
    rcases h.answered r hr p hp (hs.oldest p hre) with hc | ha | hev
    · exact (hh (.inl hc)).imp_right .inr
    · exact .inr (.inl (.inl ha))
    · exact .inr (.inr (.inl hev))
  change r ∈ (s.cache.page request answer focus).settled at hr
  rw [hs.settled] at hr
  split at hr
  next he =>
    rcases List.mem_append.mp hr with hr | hr
    · exact hold hr
    rw [List.mem_singleton.mp hr] at hp
    by_cases hg : Gives s.cache.history answer p
    · exact (hh (.inr hg)).imp_right .inr
    · exact .inr (.inl (.inr ⟨he, hp, hg⟩))
  next => exact hold hr

theorem Inv.step {s t : Traced Row} (h : s.Inv) {e : Event Row} (hmo : s.Moves e t) : t.Inv := by
  obtain rfl := hmo
  cases e with
  | observe history => exact h.observe history
  | request wanted focus => exact ⟨⟨h.sorted.pairwise, h.sorted.retained⟩, h.answered⟩
  | page request answer focus => exact h.page request answer focus
  | forgetInFlight | unsent requests => exact ⟨⟨h.sorted.pairwise, h.sorted.retained⟩, h.answered⟩

/-- A wanted position of the retained history that is not cached, not in flight and not absent is asked
for while slots are free, unless its row was evicted since the history changed. -/
theorem row_requested {es : List (Event Row)} {s : Traced Row} (hrun : Run Moves {} es s)
    {wanted : Range} {focus p : Nat} (hwanted : p ∈ wanted) (hretained : s.cache.retains p = true)
    (hcached : ¬s.cache.Cached p)
    (hflight : ∀ r ∈ s.cache.inFlight, r.epoch = s.cache.history.epoch → p ∉ r.range)
    (habsent : ¬s.absent p)
    (hfree : (s.cache.request wanted focus).1.inFlight.length < maxPagesInFlight)
    (hevicted : ¬s.evicted p) :
    ∃ r ∈ (s.cache.request wanted focus).2, r.epoch = s.cache.history.epoch ∧ p ∈ r.range := by
  have hs : ({} : Traced Row).Inv := ⟨⟨by simp, by simp⟩, by simp⟩
  have hi := hrun.invariant hs fun h hmo => h.step hmo
  refine Cache.request_covers hi.sorted hwanted hretained hcached hflight ?_ hfree
  intro r hr hp
  rcases hi.answered r hr p hp hretained with h | h | h
  · exact hcached h
  · exact habsent h
  · exact hevicted h

/-- A new history is asked for. -/
theorem row_requested_first :
    ∃ r ∈ (({} : Cache Unit).observe ⟨1, 0, 10⟩ |>.request ⟨2, 8⟩ 0).2, r.epoch = 1 ∧ 3 ∈ r.range := by
  have hru : Run Traced.Moves ({} : Traced Unit) [.observe ⟨1, 0, 10⟩] _ := .single rfl
  have hw : 3 ∈ (⟨2, 8⟩ : Range) := by decide
  refine row_requested hru hw (by decide) ?_ ?_ ?_ (by decide) ?_
  · rintro ⟨row, hro⟩
    cases hro
  · intro r hr
    cases hr
  · rintro ⟨-, hno⟩
    exact hno
  · rintro ⟨-, hno⟩
    exact hno

end Traced

/-! ## A row that was evicted -/

def filled (k : Nat) : Cache Unit where
  history := ⟨1, 0, maxCachedRows + 1⟩
  rows := (List.range k).map (·, ())
  settled := (List.range k).map fun i => ⟨i, i + 1⟩
  requested := decide (0 < k)

theorem subtract_before {run : Range} {asked : List Range} (h : ∀ sent ∈ asked, sent.stop ≤ run.start) :
    subtract run asked = [run] := by
  unfold subtract
  induction asked with
  | nil => rfl
  | cons sent asked ih =>
    have ho : [run].flatMap (·.without sent) = [run] := by
      simp [Range.without, h sent List.mem_cons_self]
    rw [List.foldl_cons, ho]
    exact ih fun other hother => h other (List.mem_cons_of_mem _ hother)

variable {k : Nat}

theorem filled_missing (hk : k ≤ maxCachedRows) : (filled k).missing ⟨k, k + 1⟩ = [⟨k, k + 1⟩] := by
  have hr : (filled k).retained ⟨k, k + 1⟩ = ⟨k, k + 1⟩ := by
    simp [Cache.retained, filled]
    omega
  have hpo : ((filled k).rows.map Prod.fst).filter (· ∈ (⟨k, k + 1⟩ : Range)) = [] := by
    rw [List.filter_eq_nil_iff]
    intro p hp
    have hl : p < k := by simpa [filled] using hp
    simp [Range.mem_iff]
    omega
  unfold Cache.missing
  simp only [hr, hpo, gaps, if_pos (Nat.lt_succ_self k), List.flatMap_cons, List.flatMap_nil, List.append_nil]
  refine subtract_before fun sent hsent => ?_
  obtain ⟨i, hi, rfl⟩ : ∃ i, i < k ∧ (⟨i, i + 1⟩ : Range) = sent := by simpa [filled] using hsent
  exact hi

theorem filled_request (hk : k ≤ maxCachedRows) : (filled k).request ⟨k, k + 1⟩ k =
    ({ filled k with inFlight := [⟨1, k, 1⟩], requested := true }, [⟨1, k, 1⟩]) := by
  have hp (requested : Bool) : pages k 4 requested [⟨k, k + 1⟩] = [⟨k, k + 1⟩] := by
    simp only [maxCachedRows] at hk
    have hend {size : Nat} (hsize : size ≤ 500) : wrap (k + size) = k + size := wrap_of_lt (by omega)
    cases requested <;> simp [pages, carve, firstPageRows, maxPageRows, hend]
  unfold Cache.request
  rw [filled_missing hk]
  simp only [List.insertionSort_cons, List.insertionSort_nil, List.orderedInsert_nil]
  rw [show maxPagesInFlight - (filled k).inFlight.length = 4 from rfl, hp]
  simp [filled, @pageRows_of_le ⟨k, k + 1⟩ (Nat.le_succ k) (by simp [maxPageRows])]

theorem place_range (k : Nat) : insertRow k () ((List.range k).map (·, ())) =
    (List.range (k + 1)).map (·, ()) := by
  have ha (rows : List (Nat × Unit)) (h : ∀ entry ∈ rows, entry.1 < k) :
      insertRow k () rows = rows ++ [(k, ())] := by
    induction rows with
    | nil => rfl
    | cons entry rows ih =>
      have hl := h entry List.mem_cons_self
      unfold insertRow
      rw [if_neg (by omega), if_neg (by omega), ih fun e he => h e (List.mem_cons_of_mem _ he)]
      rfl
  rw [ha _ (by simp), List.range_succ, List.map_append]
  rfl

/-- The cache once the answer for row `k` is placed. -/
theorem filled_page (hk : k ≤ maxCachedRows) :
    ({ filled k with inFlight := [⟨1, k, 1⟩], requested := true } : Cache Unit).page ⟨1, k, 1⟩
      (some (1, k, [()])) k = (filled (k + 1)).evict k := by
  have hke (c : Cache Unit) (hc : c.history = ⟨1, 0, maxCachedRows + 1⟩) : c.kept k [()] = [(k, ())] := by
    simp [Cache.kept, Cache.placed, Cache.retains, hc]
    omega
  have hp (c : Cache Unit) (hc : c.rows = (List.range k).map (·, ())) :
      c.place [(k, ())] = { c with rows := (List.range (k + 1)).map (·, ()) } := by
    simp [Cache.place, hc, place_range]
  unfold Cache.page
  simp only [filled, ne_eq, not_true_eq_false, if_false, gt_iff_lt, lt_self_iff_false, false_and,
    List.erase_cons_head]
  unfold Cache.insert
  rw [hke _ rfl, hp _ rfl]
  simp [PageRequest.range, List.range_succ]

theorem evictRows_within {focus turns : Nat} {rows : List (Nat × Row)} (h : rows.length ≤ maxCachedRows) :
    evictRows focus turns rows = rows := by
  cases turns with
  | zero => rfl
  | succ turns =>
    unfold evictRows
    rw [if_neg (by omega)]

theorem evict_filled (hk : k < maxCachedRows) : (filled (k + 1)).evict k = filled (k + 1) := by
  unfold Cache.evict
  rw [evictRows_within]
  simp [filled]
  omega

/-- The rows of a full cache without the first. -/
def shifted (n : Nat) : List (Nat × Unit) := (List.range n).map fun i => (i + 1, ())

theorem evict_full : ((filled (maxCachedRows + 1)).evict maxCachedRows).rows = shifted maxCachedRows := by
  have hr : (filled (maxCachedRows + 1)).rows = (0, ()) :: shifted maxCachedRows := by
    simp [filled, shifted, List.range_succ_eq_map, Function.comp_def]
  have hl : (filled (maxCachedRows + 1)).rows.getLast? = some (maxCachedRows, ()) := by
    simp [filled, List.range_succ]
  have hle : (filled (maxCachedRows + 1)).rows.length = maxCachedRows + 1 := by simp [filled]
  unfold Cache.evict
  rw [hle]
  unfold evictRows
  rw [if_pos (by omega), hl]
  simp only [hr, List.head?_cons]
  rw [if_pos (by simp [absDiff]), List.tail_cons, evictRows_within (by simp [shifted])]

theorem filled_reached (hk : k ≤ maxCachedRows) : ∃ es s, Run Traced.Moves {} es s ∧
    s.cache = filled k ∧ ∀ p, ¬s.absent p := by
  induction k with
  | zero =>
    refine ⟨_, _, .single (e := .observe ⟨1, 0, maxCachedRows + 1⟩) rfl, ?_, ?_⟩
    · simp [Traced.step, Cache.observe, Cache.clear, filled]
    · rintro p ⟨-, hno⟩
      exact hno
  | succ k ih =>
    obtain ⟨es, s, hr, hc, ha⟩ := ih (by omega)
    refine ⟨_, _, (hr.snoc (e := .request ⟨k, k + 1⟩ k) rfl).snoc
      (e := .page ⟨1, k, 1⟩ (some (1, k, [()])) k) rfl, ?_, ?_⟩
    · simp only [Traced.step, hc]
      rw [filled_request (by omega), filled_page (by omega), evict_filled (by omega)]
    rintro p (hno | ⟨-, hi, hg⟩)
    · exact ha p hno
    refine hg ⟨k, [()], ?_, hi⟩
    simp only [Traced.step, hc]
    rw [filled_request (by omega)]
    rfl

theorem settled_request {c : Cache Unit} {n : Nat} {settled : List Range}
    (hh : c.history = ⟨1, 0, n + 1⟩) (hro : c.rows = shifted n) (hflight : c.inFlight = [])
    (hs : c.settled = ⟨0, 1⟩ :: settled) : (c.request ⟨0, 1⟩ 0).2 = [] := by
  have hpo : (c.rows.map Prod.fst).filter (· ∈ (⟨0, 1⟩ : Range)) = [] := by
    rw [hro, List.filter_eq_nil_iff]
    intro p hp
    obtain ⟨i, -, rfl⟩ : ∃ i, i < n ∧ i + 1 = p := by simpa [shifted] using hp
    simp [Range.mem_iff]
  have hr : c.retained ⟨0, 1⟩ = ⟨0, 1⟩ := by simp [Cache.retained, hh]
  have hnone (asked : List Range) :
      asked.foldl (fun (parts : List Range) sent => parts.flatMap (·.without sent)) [] = [] := by
    induction asked with
    | nil => rfl
    | cons sent asked ih => exact ih
  have hc : (⟨0, 1⟩ : Range).without ⟨0, 1⟩ = [] := by decide
  have hmissing : c.missing ⟨0, 1⟩ = [] := by
    simp [Cache.missing, hr, hpo, hs, hflight, gaps, subtract, hc, hnone]
  simp [Cache.request, hmissing, pages]

theorem filled_settled (n : Nat) : (filled (n + 1)).settled =
    ⟨0, 1⟩ :: (List.range n).map fun i => ⟨i + 1, i + 2⟩ := by
  simp [filled, List.range_succ_eq_map, Function.comp_def]

/-- After one row more than the cache holds, the first row is in the history, wanted, not cached, not
in flight and was never absent, and with every slot free no page is requested for it. -/
theorem evicted_row_stranded : ∃ (es : List (Event Unit)) (s : Traced Unit), Run Traced.Moves {} es s ∧
    s.cache.retains 0 = true ∧ ¬s.cache.Cached 0 ∧ s.cache.inFlight = [] ∧ ¬s.absent 0 ∧
    (s.cache.request ⟨0, 1⟩ 0).2 = [] := by
  obtain ⟨es, s, hru, hc, ha⟩ := filled_reached le_rfl
  have hp : ((s.step (.request ⟨maxCachedRows, maxCachedRows + 1⟩ maxCachedRows)).step
      (.page ⟨1, maxCachedRows, 1⟩ (some (1, maxCachedRows, [()])) maxCachedRows)).cache =
      (filled (maxCachedRows + 1)).evict maxCachedRows := by
    simp only [Traced.step, hc]
    rw [filled_request le_rfl, filled_page le_rfl]
  refine ⟨_, _, (hru.snoc (e := .request ⟨maxCachedRows, maxCachedRows + 1⟩ maxCachedRows) rfl).snoc
    (e := .page ⟨1, maxCachedRows, 1⟩ (some (1, maxCachedRows, [()])) maxCachedRows) rfl, ?_, ?_, ?_, ?_, ?_⟩
  · rw [hp]
    simp [Cache.retains, Cache.evict_history, filled]
  · rw [hp]
    rintro ⟨row, hr⟩
    rw [evict_full] at hr
    simp [shifted] at hr
  · rw [hp, Cache.evict_inFlight, filled]
  · rintro (hno | ⟨-, hi, -⟩)
    · exact ha 0 hno
    · exact absurd hi.1 (by simp [PageRequest.range, maxCachedRows])
  · rw [hp]
    refine settled_request (n := maxCachedRows) ?_ evict_full ?_
      ((Cache.evict_settled _).trans (filled_settled maxCachedRows))
    · rw [Cache.evict_history, filled]
    · rw [Cache.evict_inFlight, filled]

end SpaceTerm.Scrollback
