import SpaceTerm.Journal.Publication

/-! # What subscribers are shown

Stages are pushed in the order they were staged (`Ordered`), each only once its revision is retained.
`UpToDate` is what a push leaves behind when the stage names every subscribed device. A release can
push a stage that does not: one that was staged while a client had no connection. -/

namespace SpaceTerm.Publication
open Lib Journal Hierarchy

variable {ι : Type}

/-- `a` is not newer than `b`. -/
def Older (a b : Revision) : Prop := a.epoch < b.epoch ∨ a.epoch = b.epoch ∧ a.number ≤ b.number

theorem Older.refl (a : Revision) : Older a a := .inr ⟨rfl, le_rfl⟩

theorem Older.trans {a b c : Revision} (ha : Older a b) (hb : Older b c) : Older a c := by
  unfold Older at *
  omega

def Staged.Before (a b : Staged ι) : Prop :=
  a.index < b.index ∧ ∀ r ∈ a.revision, ∀ q ∈ b.revision, Older r q

/-! ### The loop of `release` -/

namespace Board

/-- What `release` leaves staged comes after the stage it pushes, which `written` covers. -/
theorem drain_spec (written : Revision) (l : List (Staged ι)) (newest : Option (Staged ι)) :
    (drain written l newest).1.Sublist l ∧
      ((drain written l newest).2 = newest ∨
        ∃ g r, (drain written l newest).2 = some g ∧ g.revision = some r ∧ written.covers r ∧
          (g :: (drain written l newest).1).Sublist l) := by
  induction l generalizing newest with
  | nil => exact ⟨.slnil, .inl rfl⟩
  | cons g rest ih =>
    cases hr : g.revision with
    | none =>
      simp only [drain, hr]
      exact ⟨.refl _, .inl trivial⟩
    | some r =>
      simp only [drain, hr]
      split
      · rename_i hco
        obtain ⟨hsu, hc⟩ := ih (some g)
        refine ⟨hsu.cons _, .inr ?_⟩
        rcases hc with hs | ⟨g', r', hne, hr', hco', hsu'⟩
        · exact ⟨g, r, hs, hr, hco, hsu.cons_cons _⟩
        · exact ⟨g', r', hne, hr', hco', hsu'.cons _⟩
      split
      · obtain ⟨hsu, hc⟩ := ih newest
        refine ⟨hsu.cons _, hc.imp_right ?_⟩
        rintro ⟨g', r', hne, hr', hco', hsu'⟩
        exact ⟨g', r', hne, hr', hco', hsu'.cons _⟩
      · exact ⟨.refl _, .inl rfl⟩

variable [DecidableEq ι]

/-- A release pushes nothing, or one staged inventory that `written` covers. -/
theorem release_spec (b : Board ι) (progress : Progress State) (written : Revision) :
    (∃ rest, rest.Sublist b.staged ∧ b.release progress written = { b with staged := rest }) ∨
      ∃ g r rest, g.revision = some r ∧ written.covers r ∧ (g :: rest).Sublist b.staged ∧
        b.release progress written = ({ b with staged := rest } : Board ι).push (progress.retained r) g := by
  obtain ⟨hsu, hc⟩ := drain_spec written b.staged none
  unfold release
  cases hne : (drain written b.staged none).2 with
  | none => exact .inl ⟨_, hsu, by simp only [hne]⟩
  | some g =>
    rw [hne] at hc
    rcases hc with hnone | ⟨g', r, hs, hr, hco, hsu'⟩
    · cases hnone
    · cases hs
      exact .inr ⟨g, r, _, hr, hco, hsu', by simp only [hne, hr, Option.all_some]⟩

end Board

/-! ### Staging order -/

structure Ordered (stages : Nat) (latest : Revision) (b : Board ι) : Prop where
  chain : (b.pushed ++ b.staged).Pairwise Staged.Before
  bound : ∀ g ∈ b.pushed ++ b.staged, g.index < stages ∧ ∀ r ∈ g.revision, Older r latest
  received : ∀ c ∈ b.subscribers, (c.received.map (·.stage)).Sublist b.pushed
  retained : ∀ c ∈ b.subscribers, ∀ d ∈ c.received, d.retained

namespace Ordered
variable {stages : Nat} {latest latest' : Revision} {b : Board ι}

theorem mono (h : Ordered stages latest b) (hl : Older latest latest') : Ordered stages latest' b :=
  ⟨h.chain, fun g hg => ⟨(h.bound g hg).1, fun r hr => ((h.bound g hg).2 r hr).trans hl⟩, h.received, h.retained⟩

theorem subscribe (h : Ordered stages latest b) (device connection : Id) :
    Ordered stages latest (b.subscribe device connection) := by
  refine ⟨h.chain, h.bound, fun c hc => ?_, fun c hc => ?_⟩
  · rcases List.mem_append.mp hc with hc | hc
    · exact h.received c (List.mem_of_mem_filter hc)
    · obtain rfl := List.mem_singleton.mp hc
      exact List.nil_sublist _
  rcases List.mem_append.mp hc with hc | hc
  · exact h.retained c (List.mem_of_mem_filter hc)
  · obtain rfl := List.mem_singleton.mp hc
    exact fun d hd => absurd hd List.not_mem_nil

theorem unsubscribe (h : Ordered stages latest b) (connection : Id) :
    Ordered stages latest (b.unsubscribe connection) :=
  ⟨h.chain, h.bound, fun c hc => h.received c (List.mem_of_mem_filter hc),
    fun c hc => h.retained c (List.mem_of_mem_filter hc)⟩

theorem withStaged (h : Ordered stages latest b) {rest : List (Staged ι)}
    (hs : rest.Sublist b.staged) : Ordered stages latest { b with staged := rest } := by
  have ha := hs.append_left b.pushed
  exact ⟨h.chain.sublist ha, fun g hg => h.bound g (ha.subset hg), h.received, h.retained⟩

variable [DecidableEq ι]

theorem push {g : Staged ι} (hch : (b.pushed ++ g :: b.staged).Pairwise Staged.Before)
    (hb : ∀ g' ∈ b.pushed ++ g :: b.staged, g'.index < stages ∧ ∀ r ∈ g'.revision, Older r latest)
    (hr : ∀ c ∈ b.subscribers, (c.received.map (·.stage)).Sublist b.pushed)
    (hre : ∀ c ∈ b.subscribers, ∀ d ∈ c.received, d.retained) :
    Ordered stages latest (b.push true g) := by
  have hmo : b.pushed ++ g :: b.staged = (b.pushed ++ [g]) ++ b.staged := by simp
  refine ⟨hmo ▸ hch, hmo ▸ hb, fun c' hc' => ?_, fun c' hc' => ?_⟩
  · obtain ⟨c, hc, rfl⟩ := List.mem_map.mp hc'
    unfold Board.deliver
    split
    · exact (hr c hc).trans (List.sublist_append_left _ _)
    split
    · show (List.map (·.stage) (c.received ++ [_])).Sublist (b.pushed ++ [g])
      rw [List.map_append]
      exact (hr c hc).append (.refl [g])
    · exact (hr c hc).trans (List.sublist_append_left _ _)
  obtain ⟨c, hc, rfl⟩ := List.mem_map.mp hc'
  unfold Board.deliver
  split
  · exact hre c hc
  split
  · intro d hd
    rcases List.mem_append.mp hd with hd | hd
    · exact hre c hc d hd
    · obtain rfl := List.mem_singleton.mp hd
      rfl
  · exact hre c hc

theorem release (h : Ordered stages latest b) {progress : Progress State} {written : Revision}
    (hwritten : written = ⟨progress.epoch, progress.durable⟩) :
    Ordered stages latest (b.release progress written) := by
  rcases b.release_spec progress written with ⟨rest, hs, he⟩ | ⟨g, r, rest, hr, hc, hs, he⟩
  · rw [he]
    exact h.withStaged hs
  have hre : progress.retained r = true := by
    subst hwritten
    simp only [Revision.covers, Bool.and_eq_true, beq_iff_eq, decide_eq_true_eq] at hc
    simp [Progress.retained, hc.1, hc.2]
  rw [he, hre]
  have ha := hs.append_left b.pushed
  exact push (h.chain.sublist ha) (fun g' hg' => h.bound g' (ha.subset hg')) h.received
    h.retained

theorem stage (h : Ordered stages latest b) (retained : Bool) {g : Staged ι}
    (hi : g.index = stages) (hrev : g.revision = some latest) :
    Ordered (stages + 1) latest (b.stage retained g) := by
  have hb : ∀ g' ∈ b.pushed ++ b.staged, g'.Before g := by
    intro g' hg'
    obtain ⟨hl, hold⟩ := h.bound g' hg'
    refine ⟨hi ▸ hl, fun r hr q hq => ?_⟩
    obtain rfl : latest = q := by simpa [hrev] using hq
    exact hold r hr
  have hbo : ∀ g' ∈ b.pushed ++ b.staged, g'.index < stages + 1 ∧ ∀ r ∈ g'.revision, Older r latest :=
    fun g' hg' => ⟨Nat.lt_succ_of_lt (h.bound g' hg').1, (h.bound g' hg').2⟩
  have hnew : g.index < stages + 1 ∧ ∀ r ∈ g.revision, Older r latest := by
    refine ⟨by omega, fun r hr => ?_⟩
    obtain rfl : latest = r := by simpa [hrev] using hr
    exact .refl _
  unfold Board.stage
  split
  · rename_i hre
    obtain rfl : retained = true := hre
    refine push ?_ (fun g' hg' => ?_) h.received h.retained
    · exact List.pairwise_append.mpr ⟨(List.pairwise_append.mp h.chain).1, List.pairwise_singleton ..,
        fun g' hg' g'' hg'' => List.mem_singleton.mp hg'' ▸ hb g' (List.mem_append_left _ hg')⟩
    · rcases List.mem_append.mp hg' with hg' | hg'
      · exact hbo g' (List.mem_append_left _ hg')
      · exact List.mem_singleton.mp hg' ▸ hnew
  refine ⟨?_, fun g' hg' => ?_, h.received, h.retained⟩
  · rw [← List.append_assoc]
    exact List.pairwise_append.mpr ⟨h.chain, List.pairwise_singleton ..,
      fun g' hg' g'' hg'' => List.mem_singleton.mp hg'' ▸ hb g' hg'⟩
  rw [← List.append_assoc] at hg'
  rcases List.mem_append.mp hg' with hg' | hg'
  · exact hbo g' hg'
  · exact List.mem_singleton.mp hg' ▸ hnew

end Ordered

/-! ### Every connection has the last stage -/

def Subscriber.Shows (c : Subscriber ι) (g : Staged ι) : Prop :=
  ∃ d, c.received.getLast? = some d ∧ d.stage.inventory = g.inventory ∧
    g.sequence? c.device = some d.nextSequence ∧ c.sent = some d.nextSequence

structure UpToDate (b : Board ι) : Prop where
  published : ∀ g, b.pushed.getLast? = some g → b.published = some g.inventory
  since : ∀ c ∈ b.subscribers, c.since ≤ b.pushed.length
  unsent : ∀ c ∈ b.subscribers, c.since = b.pushed.length → c.sent = none
  shows : ∀ c ∈ b.subscribers, c.since < b.pushed.length → ∃ g, b.pushed.getLast? = some g ∧ c.Shows g

namespace UpToDate
variable {b : Board ι}

theorem withStaged (h : UpToDate b) (rest : List (Staged ι)) :
    UpToDate { b with staged := rest } := { h with }

theorem subscribe (h : UpToDate b) (device connection : Id) : UpToDate (b.subscribe device connection) := by
  refine ⟨h.published, fun c hc => ?_, fun c hc hs => ?_, fun c hc hs => ?_⟩
  · rcases List.mem_append.mp hc with hc | hc
    · exact h.since c (List.mem_of_mem_filter hc)
    · obtain rfl := List.mem_singleton.mp hc
      exact le_rfl
  · rcases List.mem_append.mp hc with hc | hc
    · exact h.unsent c (List.mem_of_mem_filter hc) hs
    · obtain rfl := List.mem_singleton.mp hc
      rfl
  · rcases List.mem_append.mp hc with hc | hc
    · exact h.shows c (List.mem_of_mem_filter hc) hs
    · obtain rfl := List.mem_singleton.mp hc
      exact absurd hs (Nat.lt_irrefl _)

theorem unsubscribe (h : UpToDate b) (connection : Id) : UpToDate (b.unsubscribe connection) :=
  ⟨h.published, fun c hc => h.since c (List.mem_of_mem_filter hc),
    fun c hc => h.unsent c (List.mem_of_mem_filter hc),
    fun c hc => h.shows c (List.mem_of_mem_filter hc)⟩

variable [DecidableEq ι]

theorem shows_deliver (h : UpToDate b) (retained : Bool) {g : Staged ι} {c : Subscriber ι}
    (hc : c ∈ b.subscribers) (hna : (g.sequence? c.device).isSome) :
    (Board.deliver (decide (b.published ≠ some g.inventory)) retained g c).Shows g := by
  obtain ⟨next, hne⟩ := Option.isSome_iff_exists.mp hna
  simp only [Board.deliver, hne]
  split
  · exact ⟨_, List.getLast?_concat .., rfl, hne, rfl⟩
  rename_i hs
  simp only [Bool.or_eq_true, decide_eq_true_eq, bne_iff_ne, not_or, not_not] at hs
  obtain ⟨hp, hsent⟩ := hs
  have hsi : c.since < b.pushed.length := by
    refine lt_of_le_of_ne (h.since c hc) fun hnone => ?_
    rw [h.unsent c hc hnone] at hsent
    cases hsent
  obtain ⟨g₀, hl, d, hd, hi, -, hsent'⟩ := h.shows c hc hsi
  have hse : next = d.nextSequence := Option.mem_unique hsent hsent'
  refine ⟨d, hd, ?_, hse ▸ hne, hsent'⟩
  rw [hi]
  exact Option.some.inj ((h.published g₀ hl).symm.trans hp)

theorem push (h : UpToDate b) (retained : Bool) {g : Staged ι}
    (hna : ∀ c ∈ b.subscribers, (g.sequence? c.device).isSome) :
    UpToDate (b.push retained g) := by
  have hl : (b.push retained g).pushed.getLast? = some g := List.getLast?_concat ..
  have hs : ∀ c, (Board.deliver (decide (b.published ≠ some g.inventory)) retained g c).since = c.since := by
    intro c
    unfold Board.deliver
    split
    · rfl
    · split <;> rfl
  have hle : (b.push retained g).pushed.length = b.pushed.length + 1 := List.length_append
  refine ⟨fun g' hg' => ?_, fun c' hc' => ?_, fun c' hc' hnone => ?_, fun c' hc' _ => ?_⟩
  · obtain rfl := Option.mem_unique hl hg'
    rfl
  · obtain ⟨c, hc, rfl⟩ := List.mem_map.mp hc'
    rw [hs, hle]
    exact (h.since c hc).trans (Nat.le_succ _)
  · obtain ⟨c, hc, rfl⟩ := List.mem_map.mp hc'
    rw [hs, hle] at hnone
    exact absurd (h.since c hc) (by omega)
  · obtain ⟨c, hc, rfl⟩ := List.mem_map.mp hc'
    exact ⟨g, hl, h.shows_deliver retained hc (hna c hc)⟩

end UpToDate

/-! ### Every run of the host -/

theorem older_latest {format : Format State State} {s s' : Server State State}
    {e : Journal.Event State} (h : Server.Step format s e s') :
    Older s.progress.latest s'.progress.latest := by
  cases h.effect with
  | commit next => exact .inr ⟨rfl, Nat.le_succ _⟩
  | recovers hreading => exact .inl (Nat.lt_succ_self _)
  | _ => exact .refl _

namespace Site
variable {boot : Id} {s s' : Site ι} {e : Event ι}

structure Inv (boot : Id) (s : Site ι) : Prop where
  server : s.server.Inv (organizationFormat boot)
  ordered : Ordered s.stages s.server.progress.latest s.board

theorem Inv.opened (boot : Id) (record : Option State) : Inv boot (opened boot record : Site ι) :=
  ⟨.opened _ record, ⟨.nil, by simp [Site.opened], by simp [Site.opened], by simp [Site.opened]⟩⟩

theorem sequence?_devices (b : Board ι) (next : Id → Nat) {c : Subscriber ι}
    (hc : c ∈ b.subscribers) {g : Staged ι}
    (hg : g.sequences = b.devices.map fun device => (device, next device)) :
    (g.sequence? c.device).isSome := by
  have hmem : c.device ∈ b.devices := List.mem_eraseDups.mpr (List.mem_map_of_mem hc)
  rw [Staged.sequence?, Option.isSome_map, List.find?_isSome, hg]
  exact ⟨_, List.mem_map_of_mem hmem, by simp⟩

variable [DecidableEq ι]

theorem boardAfter_cases (s : Site ι) (event : Journal.Event State) :
    s.boardAfter event = s.board ∨ ∃ t revision taken, event = .written t ∧
      s.server.threads t = .reporting revision taken ∧
      s.boardAfter event = s.board.release s.server.progress taken := by
  cases event with
  | written t =>
    cases hthread : s.server.threads t with
    | reporting revision taken =>
      exact .inr ⟨t, revision, taken, rfl, hthread, by rw [boardAfter, hthread]⟩
    | _ => exact .inl (by rw [boardAfter, hthread])
  | _ => exact .inl rfl

theorem ordered_boardAfter (h : Inv boot s) (event : Journal.Event State) :
    Ordered s.stages s.server.progress.latest (s.boardAfter event) := by
  rcases s.boardAfter_cases event with he | ⟨t, revision, taken, -, hthread, he⟩
  · rw [he]
    exact h.ordered
  rw [he]
  have htaken : s.server.WriterOk (.reporting revision taken) :=
    hthread ▸ h.server.ledger.writers t
  exact h.ordered.release htaken

theorem Inv.step (h : Inv boot s) (hs : Step boot s e s') : Inv boot s' := by
  unfold Step at hs
  cases e with
  | journal e =>
    simp only [event] at hs
    split at hs
    · cases hs
    · obtain ⟨server, hse, rfl⟩ := Option.map_eq_some_iff.mp hs
      exact ⟨h.server.step hse, (ordered_boardAfter h e).mono (older_latest hse)⟩
  | subscribe device connection =>
    simp only [event] at hs
    split at hs
    · cases hs
      exact ⟨h.server, h.ordered.subscribe device connection⟩
    · cases hs
  | unsubscribe connection =>
    simp only [event] at hs
    split at hs
    · cases hs
      exact ⟨h.server, h.ordered.unsubscribe connection⟩
    · cases hs
  | publish inventory =>
    simp only [event] at hs
    split at hs
    · cases hs
      unfold publish
      split
      · exact ⟨h.server, h.ordered⟩
      · exact ⟨h.server, h.ordered.stage _ rfl rfl⟩
    · cases hs

/-- What a release pushes names the client of every subscribed connection. -/
def Covering (s : Site ι) (e : Event ι) (s' : Site ι) : Prop :=
  ∀ t g, e = .journal (.written t) → s'.board.pushed = s.board.pushed ++ [g] →
    ∀ c ∈ s.board.subscribers, (g.sequence? c.device).isSome

theorem upToDate_step (h : UpToDate s.board) (hs : Step boot s e s') (hco : Covering s e s') :
    UpToDate s'.board := by
  unfold Step at hs
  cases e with
  | journal e =>
    simp only [event] at hs
    split at hs
    · cases hs
    obtain ⟨server, -, rfl⟩ := Option.map_eq_some_iff.mp hs
    show UpToDate (s.boardAfter e)
    rcases s.boardAfter_cases e with hsa | ⟨t, revision, taken, rfl, -, hr⟩
    · rw [hsa]
      exact h
    rcases s.board.release_spec s.server.progress taken with
      ⟨rest, -, he⟩ | ⟨g, r, rest, -, -, -, he⟩
    · rw [hr, he]
      exact h.withStaged rest
    have hp : (s.boardAfter (.written t)).pushed = s.board.pushed ++ [g] := by
      rw [hr, he]
      rfl
    rw [hr, he]
    exact (h.withStaged rest).push _ (hco t g rfl hp)
  | subscribe device connection =>
    simp only [event] at hs
    split at hs
    · cases hs
      exact h.subscribe device connection
    · cases hs
  | unsubscribe connection =>
    simp only [event] at hs
    split at hs
    · cases hs
      exact h.unsubscribe connection
    · cases hs
  | publish inventory =>
    simp only [event] at hs
    split at hs
    · cases hs
      unfold publish
      split
      · exact h
      show UpToDate (s.board.stage _ _)
      unfold Board.stage
      split
      · exact (h.withStaged []).push _ fun c hc => sequence?_devices s.board _ hc rfl
      · exact h.withStaged _
    · cases hs

end Site

open Site in
/-- In every run, each inventory a connection received was staged with a revision that was retained
by then, and they follow staging order, none with an older revision of one epoch. In a run in which
every release pushes a stage that names the client of each subscribed connection, each connection
has the last inventory pushed since it subscribed, and its client's next sequence. -/
theorem subscribers_shown_retained_in_order [DecidableEq ι] (boot : Id) (record : Option State)
    (es : List (Event ι)) (s : Site ι) :
    (Run (Step boot) (opened boot record) es s → ∀ c ∈ s.board.subscribers,
      (∀ d ∈ c.received, d.retained) ∧
        c.received.Pairwise fun a b => a.stage.index < b.stage.index ∧
          ∀ r ∈ a.stage.revision, ∀ q ∈ b.stage.revision, r.epoch = q.epoch → r.number ≤ q.number) ∧
    (Run (fun s e s' => Step boot s e s' ∧ Covering s e s') (opened boot record) es s →
      ∀ c ∈ s.board.subscribers, c.since < s.board.pushed.length →
        ∃ g d, s.board.pushed.getLast? = some g ∧ c.received.getLast? = some d ∧
          d.stage.inventory = g.inventory ∧ g.sequence? c.device = some d.nextSequence) := by
  constructor
  · intro hru c hc
    have h : Inv boot s := hru.invariant (.opened boot record) Inv.step
    refine ⟨h.ordered.retained c hc, ?_⟩
    have hp := (List.pairwise_append.mp h.ordered.chain).1.sublist (h.ordered.received c hc)
    rw [List.pairwise_map] at hp
    refine hp.imp fun hb => ⟨hb.1, fun r hr q hq he => ?_⟩
    rcases hb.2 r hr q hq with hlt | ⟨-, hl⟩
    · omega
    · exact hl
  · intro hru c hc hsi
    have h : UpToDate s.board := by
      refine hru.invariant (P := fun s => UpToDate s.board) ?_ fun h hs => upToDate_step h hs.1 hs.2
      exact ⟨by simp [opened], by simp [opened], by simp [opened], by simp [opened]⟩
    obtain ⟨g, hg, d, hd, hi, hse, -⟩ := h.shows c hc hsi
    exact ⟨g, d, hg, hd, hi, hse⟩

/-! ### Runs on fixed inventories -/

/-- Thread 0 writes what it took and calls `written`. -/
def writing : List (Event Nat) :=
  [.journal (.write 0 .ok), .journal (.finish 0), .journal (.written 0)]

/-- Connection 11 of client 1 and connection 21 of client 2 have inventory 0. -/
def bothSubscribed : List (Event Nat) :=
  [.subscribe 2 21, .publish 0, .subscribe 1 11, .publish 0]

/-- Inventory 1 is staged with revision 1 and released. -/
def oneReleased : List (Event Nat) :=
  bothSubscribed ++ [.journal (.commit .empty), .publish 1, .journal (.call 0 ⟨0, 1⟩),
    .journal (.pass 0)] ++ writing

/-- An event after which the last stage names the client of each connection. -/
def covered (s : Site Nat) (e : Event Nat) : Option (Site Nat) :=
  (s.event 1 e).filter fun s' => s'.board.pushed.getLast?.all fun g =>
    s.board.subscribers.all fun c => (g.sequence? c.device).isSome

open Site in
theorem covering_of_covered {s s' : Site Nat} {e : Event Nat} (h : covered s e = some s') :
    Step 1 s e s' ∧ Covering s e s' := by
  obtain ⟨he, ha⟩ := Option.filter_eq_some_iff.mp h
  refine ⟨he, fun t g _ hp c hc => ?_⟩
  rw [hp, List.getLast?_concat, Option.all_some] at ha
  exact List.all_eq_true.mp ha c hc

open Site in
/-- After the release of inventory 1, connection 11 has it. -/
theorem subscribers_shown_released : ∃ (s : Site Nat) (c : Subscriber Nat) (d : Delivery Nat),
    Run (fun s e s' => Step 1 s e s' ∧ Covering s e s') (opened 1 none) oneReleased s ∧
      c ∈ s.board.subscribers ∧ c.connection = 11 ∧ c.received.getLast? = some d ∧
      d.stage.inventory = 1 := by
  have hso : (oneReleased.foldlM covered (opened 1 none)).isSome := by decide +kernel
  set s := Option.get _ hso with hs
  have hr : Run (fun s e s' => Step 1 s e s' ∧ Covering s e s') (opened 1 none) oneReleased s :=
    (Run.of_foldlM (Option.some_get hso).symm).mono covering_of_covered
  have hl : s.board.subscribers.getLast?.map (fun c => (c.connection, c.since)) = some (11, 1) :=
    rfl
  have hle : s.board.pushed.length = 3 := rfl
  have hp : s.board.pushed.getLast?.map (·.inventory) = some 1 := rfl
  obtain ⟨c, hc, hsa⟩ := Option.map_eq_some_iff.mp hl
  obtain ⟨hco, hsi⟩ := Prod.mk.inj hsa
  obtain ⟨g, d, hg, hd, hi, -⟩ :=
    (subscribers_shown_retained_in_order 1 none oneReleased s).2 hr c (List.mem_of_getLast? hc)
      (by rw [hsi, hle]; decide)
  rw [hg] at hp
  exact ⟨s, c, d, hr, List.mem_of_getLast? hc, hco, hd, hi.trans (Option.some.inj hp)⟩

/-! A connection that a release passes over: client 1 reconnects while the write of revision 1 is in
progress. The stage of revision 1 names it, that of revision 2 does not. -/

/-- Client 1 is without a connection while inventory 2 is staged, and subscribes connection 12. Both
revisions are written before its first stage. -/
def passedOver : List (Event Nat) :=
  bothSubscribed ++ [.journal (.commit .empty), .publish 1, .journal (.call 0 ⟨0, 1⟩),
    .journal (.pass 0), .unsubscribe 11, .journal (.commit .empty), .publish 2, .subscribe 1 12] ++
  writing ++ [.journal (.report 0), .journal (.pass 0), .journal (.call 0 ⟨0, 2⟩), .journal (.pass 0)] ++ writing

open Site in
/-- After the release of inventory 2, connection 12 has inventory 1. Its own stage, which names client
1, is pushed too and leaves it there. -/
theorem released_inventory_not_shown :
    ∃ (s s' : Site Nat) (c : Subscriber Nat) (g g' : Staged Nat) (d : Delivery Nat),
      Run (Step 1) (opened 1 none) passedOver s ∧ s.board.pushed.getLast? = some g ∧
      Step 1 s (.publish 2) s' ∧ s'.board.pushed.getLast? = some g' ∧
      c ∈ s.board.subscribers ∧ c ∈ s'.board.subscribers ∧ c.received.getLast? = some d ∧
      d.stage.inventory ≠ g.inventory ∧ d.stage.inventory ≠ g'.inventory ∧
      (g'.sequence? c.device).isSome ∧ s'.board.staged = [] := by
  have hso : (passedOver.foldlM (event 1) (opened 1 none)).isSome := by decide +kernel
  set s := Option.get _ hso with hs
  have hr : Run (Step 1) (opened 1 none) passedOver s := .of_foldlM (Option.some_get hso).symm
  set d : Delivery Nat := ⟨⟨2, some ⟨0, 1⟩, 1, [(2, 1), (1, 1)]⟩, 1, true⟩
  set c : Subscriber Nat := ⟨12, 1, some 1, [d], 2⟩
  have hp : s.board.pushed.getLast? = some ⟨3, some ⟨0, 2⟩, 2, [(2, 1)]⟩ := rfl
  have hp' : (s.publish 2).board.pushed.getLast? = some ⟨4, some ⟨0, 2⟩, 2, [(2, 1), (1, 1)]⟩ := rfl
  have hl : s.board.subscribers.getLast? = some c := rfl
  have hl' : (s.publish 2).board.subscribers.getLast? = some c := rfl
  exact ⟨s, s.publish 2, c, _, _, d, hr, hp, rfl, hp', List.mem_of_getLast? hl,
    List.mem_of_getLast? hl', rfl, by decide, by decide, rfl, rfl⟩

end SpaceTerm.Publication
