import SpaceTerm.Migration.Records
import SpaceTerm.Lib.Run
import Mathlib

/-! # The notice of a reset

A reset moves the files first, then names their kinds in the notice, then marks the root. A call that
stops after it moved a rebuildable file and before it wrote the notice leaves nothing that names the
file's kind: the next call sees a root without it. -/

namespace SpaceTerm.Migration
open Lib

/-- Steps that move no file and write neither an archive nor the notice. -/
def Act.Plain {Path Bytes : Type} : Act Path Bytes → Prop
  | .store (.archive _ _) => False
  | .save .. => False
  | .note _ => False
  | _ => True

namespace Home
variable {Path Name Bytes Value : Type} [LinearOrder Path]
  {r : Registry Path Name Bytes Value} {h : Home Path Bytes} {acts : List (Act Path Bytes)}

/-! ## What single steps change -/

theorem apply_plain {act : Act Path Bytes} (hp : act.Plain) :
    (act.apply h).store.reset = h.store.reset ∧ (act.apply h).archives = h.archives ∧
      (act.apply h).notice = h.notice := by
  cases act with
  | store op =>
    cases op with
    | write area | remove area | mark area | unmark area => cases area <;> exact ⟨rfl, rfl, rfl⟩
    | archive => exact hp.elim
  | save | note => exact hp.elim
  | pend | unpend => exact ⟨rfl, rfl, rfl⟩

theorem exec_reset (acts : List (Act Path Bytes)) :
    ∃ new, (h.exec acts).store.reset = h.store.reset ++ new ∧
      ∀ g p b, (g, p, b) ∈ new → Act.store (.archive g p) ∈ acts := by
  induction acts generalizing h with
  | nil => exact ⟨[], (List.append_nil _).symm, nofun⟩
  | cons act acts ih =>
    obtain ⟨new, hnew, hna⟩ := ih (h := act.apply h)
    have hl : ∀ g p b, (g, p, b) ∈ new → Act.store (.archive g p) ∈ act :: acts :=
      fun g p b hmem => List.mem_cons_of_mem _ (hna g p b hmem)
    have hs : (act.apply h).store.reset = h.store.reset →
        ∃ new, (h.exec (act :: acts)).store.reset = h.store.reset ++ new ∧
          ∀ g p b, (g, p, b) ∈ new → Act.store (.archive g p) ∈ act :: acts :=
      fun hr => ⟨new, by rw [exec_cons, hnew, hr], hl⟩
    cases act with
    | store op =>
      cases op with
      | archive g p =>
        cases hget : h.store.root.files.get p with
        | none => exact hs (by simp [Act.apply, Op.apply, hget])
        | some b =>
          refine ⟨(g, p, b) :: new, ?_, fun g' p' b' hmem => ?_⟩
          · rw [exec_cons, hnew]
            simp [Act.apply, Op.apply, hget]
          rcases List.mem_cons.mp hmem with hmem | hmem
          · cases hmem
            exact List.mem_cons_self ..
          · exact hl g' p' b' hmem
      | write area | remove area | mark area | unmark area =>
        refine hs (apply_plain ?_).1
        trivial
    | save | note | pend | unpend => exact hs rfl

theorem exec_notice (acts : List (Act Path Bytes)) :
    h.pendingNotice ⊆ (h.exec acts).pendingNotice ∧
      ∀ kinds, Act.note kinds ∈ acts → kinds ⊆ (h.exec acts).pendingNotice := by
  induction acts generalizing h with
  | nil => exact ⟨Finset.Subset.refl _, nofun⟩
  | cons act acts ih =>
    obtain ⟨hg, hno⟩ := ih (h := act.apply h)
    have ho : h.pendingNotice ⊆ (act.apply h).pendingNotice := by
      cases act with
      | note kinds => exact Finset.subset_union_left
      | store | save | pend | unpend => exact Finset.Subset.refl _
    refine ⟨ho.trans hg, fun kinds hmem => ?_⟩
    rcases List.mem_cons.mp hmem with rfl | hmem
    · have hwritten : kinds ⊆ (Act.apply h (.note kinds)).pendingNotice := Finset.subset_union_right
      exact hwritten.trans hg
    · exact hno kinds hmem

/-! ## What is moved is archived -/

/-- Every file that was moved is in an archive of its generation. -/
def Archived (h : Home Path Bytes) : Prop :=
  ∀ g p b, (g, p, b) ∈ h.store.reset → ∃ i, i < 16 ∧ h.archives.get (g, i, p) = some b

/-- However far the steps are taken, what is moved is archived. -/
def Keeps (h : Home Path Bytes) (acts : List (Act Path Bytes)) : Prop :=
  ∀ n, h.Archived → (h.exec (acts.take n)).Archived

variable {acts' : List (Act Path Bytes)}

theorem Keeps.append (hke : Keeps h acts) (hke' : Keeps (h.exec acts) acts') : Keeps h (acts ++ acts') := by
  intro n har
  rw [List.take_append, exec_append]
  rcases Nat.le_total n acts.length with hn | hn
  · have hz : n - acts.length = 0 := by omega
    rw [hz]
    exact hke n har
  · have ha := hke n har
    rw [List.take_of_length_le hn] at ha ⊢
    exact hke' _ ha

theorem keeps_plain (hp : ∀ act ∈ acts, act.Plain) : Keeps h acts := by
  intro n har
  have hs : (h.exec (acts.take n)).store.reset = h.store.reset ∧ (h.exec (acts.take n)).archives = h.archives := by
    induction acts generalizing h n with
    | nil => rw [List.take_nil]; exact ⟨rfl, rfl⟩
    | cons act acts ih =>
      cases n with
      | zero => exact ⟨rfl, rfl⟩
      | succ n =>
        obtain ⟨hr, harc, -⟩ := apply_plain (h := h) (hp act (List.mem_cons_self ..))
        have har' : (act.apply h).Archived := by
          intro g p b hmem
          rw [hr] at hmem
          rw [harc]
          exact har g p b hmem
        obtain ⟨hr', harc'⟩ := ih (h := act.apply h)
          (fun act ha => hp act (List.mem_cons_of_mem _ ha)) n har'
        rw [List.take_succ_cons, exec_cons]
        exact ⟨hr'.trans hr, harc'.trans harc⟩
  intro g p b hmem
  rw [hs.1] at hmem
  rw [hs.2]
  exact har g p b hmem

theorem keeps_note (kinds : Finset DataKind) : Keeps h [.note kinds] := by
  intro n ha
  rcases Nat.eq_zero_or_pos n with rfl | hn
  · exact ha
  · rw [List.take_of_length_le hn]
    exact ha

section SetAside
variable [DecidableEq Bytes]

omit [LinearOrder Path] in
theorem attempt_free {g i : Nat} {p : Path} {b : Bytes} (ha : h.attempt g p b = some i) :
    i < 16 ∧ ∀ b', h.archives.get (g, i, p) = some b' → b' = b := by
  unfold attempt at ha
  refine ⟨List.mem_range.mp (List.mem_of_find?_eq_some ha), fun b' hb' => ?_⟩
  have hf := List.find?_some ha
  rw [hb'] at hf
  exact eq_of_beq hf

theorem keeps_archive {g i : Nat} {p : Path} {b : Bytes} (hget : h.store.root.files.get p = some b)
    (hat : h.attempt g p b = some i) :
    Keeps h [.save g i p b, .store (.archive g p)] := by
  obtain ⟨hi, hf⟩ := attempt_free hat
  intro n ha
  have hs : ∀ g' p' b', (∃ j, j < 16 ∧ h.archives.get (g', j, p') = some b') →
      ∃ j, j < 16 ∧ (h.archives.insert (g, i, p) b).get (g', j, p') = some b' := by
    rintro g' p' b' ⟨j, hj, hb'⟩
    refine ⟨j, hj, ?_⟩
    rw [FMap.get_insert]
    split
    case isTrue hke =>
      rw [hke] at hb'
      rw [hf b' hb']
    case isFalse => exact hb'
  match n with
  | 0 => exact ha
  | 1 => exact fun g' p' b' hmem => hs g' p' b' (ha g' p' b' hmem)
  | n + 2 =>
    intro g' p' b' hmem
    have hmem : (g', p', b') ∈ h.store.reset ++ [(g, p, b)] := by
      simpa [Act.apply, Op.apply, hget] using hmem
    rw [List.take_of_length_le (by simp)]
    show ∃ j, j < 16 ∧ (h.archives.insert (g, i, p) b).get (g', j, p') = some b'
    rcases List.mem_append.mp hmem with hmem | hmem
    · exact hs g' p' b' (ha g' p' b' hmem)
    · cases List.mem_singleton.mp hmem
      exact ⟨i, hi, by rw [FMap.get_insert, if_pos rfl]⟩

theorem setAside_keeps (g : Nat) (ps : List Path) : Keeps h (setAside g h ps).1 := by
  induction ps generalizing h with
  | nil => exact keeps_plain nofun
  | cons p ps ih =>
    unfold setAside
    split
    · exact ih
    case h_2 b hget =>
      split
      · exact keeps_plain nofun
      case h_2 i hat => exact (keeps_archive hget hat).append ih

theorem setAside_acts (g : Nat) (ps : List Path) :
    ∀ act ∈ (setAside g h ps).1, (∃ i p b, act = .save g i p b) ∨ ∃ p ∈ ps, act = .store (.archive g p) := by
  induction ps generalizing h with
  | nil => exact nofun
  | cons p ps ih =>
    have hl : ∀ h : Home Path Bytes, ∀ act ∈ (setAside g h ps).1,
        (∃ i p b, act = .save g i p b) ∨ ∃ q ∈ p :: ps, act = .store (.archive g q) := by
      intro h act ha
      rcases ih (h := h) act ha with hs | ⟨q, hq, ha⟩
      · exact .inl hs
      · exact .inr ⟨q, List.mem_cons_of_mem _ hq, ha⟩
    unfold setAside
    split
    · exact hl h
    split
    · exact nofun
    intro act ha
    rcases List.mem_append.mp ha with ha | ha
    · rcases List.mem_cons.mp ha with rfl | ha
      · exact .inl ⟨_, _, _, rfl⟩
      · cases List.mem_singleton.mp ha
        exact .inr ⟨p, List.mem_cons_self .., rfl⟩
    · exact hl _ act ha

end SetAside

/-! ## What the notice of a call names -/

/-- The notice that the steps write names the kind of every rebuildable file they move. -/
def Named (r : Registry Path Name Bytes Value) [DecidableEq Name] (acts : List (Act Path Bytes)) : Prop :=
  ∀ g p k, Act.store (.archive g p) ∈ acts → r.kind p = some k → k.automatic = true →
    ∀ kinds, Act.note kinds ∈ acts → k ∈ kinds

variable [DecidableEq Name]

/-- The calls: what they move is archived and named, and a refusal moves nothing. -/
structure Sound {α : Type} (r : Registry Path Name Bytes Value) (h : Home Path Bytes)
    (course : Course Path Bytes α) : Prop where
  keeps : Keeps h course.1
  named : Named r course.1
  refused : ∀ refusal, course.2 = .error (.refused refusal) → ∀ act ∈ course.1, act.Plain

variable {α : Type}

theorem sound_plain {result : Except Failure α} (hp : ∀ act ∈ acts, act.Plain) : Sound r h (acts, result) :=
  ⟨keeps_plain hp, fun _ _ _ hmem => (hp _ hmem).elim, fun _ _ => hp⟩

omit [LinearOrder Path] in
theorem Named.append_plain (hna : Named r acts) (hp : ∀ act ∈ acts', act.Plain) : Named r (acts ++ acts') := by
  intro g p k hmem hki ha kinds hno
  rcases List.mem_append.mp hmem with hmem | hmem
  · rcases List.mem_append.mp hno with hno | hno
    · exact hna g p k hmem hki ha kinds hno
    · exact (hp _ hno).elim
  · exact (hp _ hmem).elim

omit [LinearOrder Path] in
theorem Named.plain_append (hna : Named r acts) (hp : ∀ act ∈ acts', act.Plain) : Named r (acts' ++ acts) := by
  intro g p k hmem hki ha kinds hno
  rcases List.mem_append.mp hmem with hmem | hmem
  · exact (hp _ hmem).elim
  rcases List.mem_append.mp hno with hno | hno
  · exact (hp _ hno).elim
  · exact hna g p k hmem hki ha kinds hno

theorem Sound.prepend {course : Course Path Bytes α} (hp : ∀ act ∈ acts, act.Plain)
    (hs : Sound r (h.exec acts) course) : Sound r h (acts ++ course.1, course.2) := by
  refine ⟨(keeps_plain hp).append hs.keeps, hs.named.plain_append hp, ?_⟩
  intro refusal hr act ha
  rcases List.mem_append.mp ha with ha | ha
  · exact hp act ha
  · exact hs.refused refusal hr act ha

theorem Sound.snoc {course : Course Path Bytes α} (hs : Sound r h course) (hp : ∀ act ∈ acts', act.Plain) :
    Sound r h (course.1 ++ acts', course.2) := by
  refine ⟨hs.keeps.append (keeps_plain hp), hs.named.append_plain hp, ?_⟩
  intro refusal hr act ha
  rcases List.mem_append.mp ha with ha | ha
  · exact hs.refused refusal hr act ha
  · exact hp act ha

omit [LinearOrder Path] [DecidableEq Name] in
theorem plain_store {ops : List (Op Path Bytes)} (hop : ∀ g p, Op.archive g p ∉ ops) :
    ∀ act ∈ ops.map Act.store, act.Plain := by
  intro act ha
  obtain ⟨op, ho, rfl⟩ := List.mem_map.mp ha
  cases op with
  | archive g p => exact (hop g p ho).elim
  | write | remove | mark | unmark => trivial

variable [DecidableEq Bytes]

theorem reset_sound (g : Nat) (value : α) {kinds : Finset DataKind}
    (hkin : ∀ k, k ∈ h.kinds r → k.automatic = true → k ∈ kinds)
    {rest : List (Act Path Bytes)} (hrest : ∀ act ∈ rest, act.Plain) :
    Sound r h (match setAside g h (r.members h.store.root.files) with
      | (acts, true) => (acts ++ addNotice kinds ++ rest, Except.ok value)
      | (acts, false) => (acts, .error .unavailable)) := by
  have hke := setAside_keeps (h := h) g (r.members h.store.root.files)
  have hac := setAside_acts (h := h) g (r.members h.store.root.files)
  generalize setAside g h (r.members h.store.root.files) = out at hke hac
  obtain ⟨acts, ok⟩ := out
  cases ok with
  | false =>
    refine ⟨hke, fun g' p k _ _ _ kinds hno => ?_, nofun⟩
    rcases hac _ hno with ⟨_, _, _, hs⟩ | ⟨_, _, hst⟩
    · cases hs
    · cases hst
  | true =>
    have hnot : Keeps (h.exec acts) (addNotice kinds) := by
      unfold addNotice
      split
      · exact keeps_plain nofun
      · exact keeps_note kinds
    have hna : Named r (acts ++ addNotice kinds) := by
      intro g' p k hmem hki hau kinds' hno
      -- the file is a member of the root, and the notice is the one of its kinds
      have hme : p ∈ r.members h.store.root.files := by
        rcases List.mem_append.mp hmem with hmem | hmem
        · rcases hac _ hmem with ⟨_, _, _, hs⟩ | ⟨q, hq, hst⟩
          · cases hs
          · cases hst
            exact hq
        unfold addNotice at hmem
        split at hmem
        · cases hmem
        · cases List.mem_singleton.mp hmem
      have hkin' : kinds' = kinds := by
        rcases List.mem_append.mp hno with hno | hno
        · rcases hac _ hno with ⟨_, _, _, hs⟩ | ⟨_, _, hst⟩
          · cases hs
          · cases hst
        unfold addNotice at hno
        split at hno
        · cases hno
        · cases List.mem_singleton.mp hno
          rfl
      rw [hkin']
      refine hkin k ?_ hau
      unfold Home.kinds
      rw [List.mem_toFinset]
      exact List.mem_filterMap.mpr ⟨p, hme, hki⟩
    exact ⟨(hke.append hnot).append (keeps_plain hrest), hna.append_plain hrest, nofun⟩

omit [LinearOrder Path] [DecidableEq Name] [DecidableEq Bytes] in
theorem plain_mark (g : Nat) : ∀ act ∈ [Act.store (.mark .root g : Op Path Bytes)], act.Plain := by
  intro act ha
  cases List.mem_singleton.mp ha
  trivial

theorem resetRebuildable_sound (g : Nat) (reason : ResetReason) : Sound r h (h.resetRebuildable r g reason) := by
  unfold resetRebuildable
  dsimp only
  split
  · exact reset_sound g Outcome.reset (fun k hk _ => hk) (plain_mark _)
  · exact sound_plain fun act ha => by cases ha

theorem resetAll_sound : Sound r h (h.resetAll r) := by
  unfold resetAll
  refine reset_sound _ _ (fun k hk hau => Finset.mem_filter.mpr ⟨hk, hau⟩) fun act ha => ?_
  rcases List.mem_cons.mp ha with rfl | ha
  · trivial
  · cases List.mem_singleton.mp ha
    trivial

theorem rewrite_sound (g : Nat) : Sound r h (h.rewrite r g) := by
  unfold rewrite
  dsimp only
  split
  · exact resetRebuildable_sound ..
  split
  · exact resetRebuildable_sound ..
  refine sound_plain (plain_store fun g' p hmem => ?_)
  rcases List.mem_append.mp hmem with hmem | hmem
  · rcases List.mem_append.mp hmem with hmem | hmem
    · obtain ⟨q, -, hq⟩ := List.mem_filterMap.mp hmem
      obtain ⟨v, -, hv⟩ := Option.map_eq_some_iff.mp hq
      cases hv
    · obtain ⟨q, -, hq⟩ := List.mem_map.mp hmem
      cases hq
  · cases List.mem_singleton.mp hmem

omit [DecidableEq Bytes] in
theorem settleBackup_plain (s : Store Path Bytes) (g : Nat) :
    ∀ act ∈ (r.settleBackup s g).map Act.store, act.Plain := by
  refine plain_store fun g' p hmem => ?_
  rw [Registry.settleBackup_eq] at hmem
  rcases List.mem_append.mp hmem with hmem | hmem
  · unfold Registry.restoreOps at hmem
    rcases List.mem_append.mp hmem with hmem | hmem
    · obtain ⟨q, -, hq⟩ := List.mem_filterMap.mp hmem
      obtain ⟨v, -, hv⟩ := Option.map_eq_some_iff.mp hq
      cases hv
    · obtain ⟨q, -, hq⟩ := List.mem_map.mp hmem
      cases hq
  · simp at hmem

omit [DecidableEq Bytes] in
theorem takeBackup_plain (s : Store Path Bytes) (g : Nat) :
    ∀ act ∈ (r.takeBackup s g).map Act.store, act.Plain := by
  refine plain_store fun g' p hmem => ?_
  obtain ⟨ops, ho, hb, -⟩ := Registry.takeBackup_eq (r := r) (s := s) g
  rw [ho] at hmem
  rcases List.mem_append.mp hmem with hmem | hmem
  · cases hb _ hmem
  · cases List.mem_singleton.mp hmem

theorem bringSettled_sound (returned : Bool) (g label : Nat) : Sound r h (bringSettled r returned h g label) := by
  have hni : ∀ result : Except Failure Outcome, Sound r h ([], result) :=
    fun _ => sound_plain nofun
  unfold bringSettled
  split
  · split
    · split
      · exact hni _
      · exact resetRebuildable_sound ..
    · exact hni _
  split
  · split
    · exact sound_plain (settleBackup_plain h.store _)
    · exact hni _
  · split
    · exact resetRebuildable_sound ..
    · exact (rewrite_sound g).prepend (takeBackup_plain h.store g)

theorem bringAt_sound (returned : Bool) (g label : Nat) : Sound r h (bringAt r returned h g label) := by
  unfold bringAt
  split
  · exact (bringSettled_sound returned g label).prepend (settleBackup_plain h.store g)
  · exact bringSettled_sound returned g label

theorem bring_sound (returned : Bool) : Sound r h (bring r returned h) := by
  unfold bring
  split
  · exact bringAt_sound ..
  unfold bringUnmarked
  split
  · exact sound_plain (plain_mark _)
  split
  · refine (bringAt_sound returned 1 0).snoc ?_
    split
    · exact plain_mark _
    · exact fun act ha => by cases ha
  split
  · dsimp only
    split
    · exact (bringAt_sound returned r.current 0).snoc (plain_mark _)
    · exact bringAt_sound returned r.current 0
  · exact resetRebuildable_sound ..

theorem runRecorded_sound (returned : Bool) : Sound r h (runRecorded r returned h) := by
  have ho : ∀ act : Act Path Bytes, act.Plain → ∀ act' ∈ [act], act'.Plain := by
    intro act ha act' hmem
    cases List.mem_singleton.mp hmem
    exact ha
  unfold runRecorded
  dsimp only
  split
  · exact (bring_sound returned).snoc (ho _ trivial)
  · exact (bring_sound returned).snoc (ho _ trivial)
  · exact bring_sound returned

theorem resetConfirmed_sound : Sound r h (resetConfirmed r h) := by
  have hb := bring_sound (r := r) (h := h) false
  unfold resetConfirmed
  generalize bring r false h = course at hb
  obtain ⟨acts, result⟩ := course
  match result with
  | .error (.refused (.reset reason kinds)) =>
    exact resetAll_sound.prepend (hb.refused _ rfl)
  | .error (.refused .newer) => exact ⟨hb.keeps, hb.named, fun _ _ => hb.refused _ rfl⟩
  | .error .unavailable | .ok outcome => exact ⟨hb.keeps, hb.named, nofun⟩

end Home

/-! ## Runs of calls -/

/-- What happens to a root: calls, each taken up to some step, acknowledgements of the notice, and
changes of the root's own files between calls. -/
inductive HomeEvent (Path Bytes : Type)
  | run (returned : Bool) (taken : Nat)
  | runRecorded (returned : Bool) (taken : Nat)
  | resetConfirmed (taken : Nat)
  | acknowledge
  | replace (root : Dir Path Bytes)

/-- A root with what was moved before the last acknowledgement, and whether a call since then
stopped between moving a rebuildable file and writing the notice. -/
structure Watched (Path Bytes : Type) where
  home : Home Path Bytes
  acknowledged : Nat
  cut : Bool

namespace Watched
variable {Path Name Bytes Value : Type} [LinearOrder Path] [DecidableEq Name] [DecidableEq Bytes]
  (r : Registry Path Name Bytes Value)

/-- The steps move a rebuildable file and write no notice. -/
def cutShort (acts : List (Act Path Bytes)) : Bool :=
  (acts.any fun act =>
    match act with
    | .store (.archive _ p) => (r.kind p).any DataKind.automatic
    | _ => false) &&
  !acts.any fun act =>
    match act with
    | .note _ => true
    | _ => false

/-- The steps of a call that were taken. -/
def take (w : Watched Path Bytes) (acts : List (Act Path Bytes)) : Watched Path Bytes :=
  { w with home := w.home.exec acts, cut := w.cut || cutShort r acts }

def step (w : Watched Path Bytes) : HomeEvent Path Bytes → Watched Path Bytes
  | .run returned taken => w.take r ((Home.bring r returned w.home).1.take taken)
  | .runRecorded returned taken => w.take r ((Home.runRecorded r returned w.home).1.take taken)
  | .resetConfirmed taken => w.take r ((Home.resetConfirmed r w.home).1.take taken)
  | .acknowledge => ⟨w.home.acknowledgeNotice, w.home.store.reset.length, false⟩
  | .replace root => { w with home.store.root := root }

def moved (w : Watched Path Bytes) : List (Nat × Path × Bytes) := w.home.store.reset.drop w.acknowledged

structure Inv (w : Watched Path Bytes) : Prop where
  archived : w.home.Archived
  acknowledged : w.acknowledged ≤ w.home.store.reset.length
  listed : w.cut = false → ∀ g p b, (g, p, b) ∈ w.moved → ∀ k, r.kind p = some k →
    k.automatic = true → k ∈ w.home.pendingNotice

variable {r}

omit [LinearOrder Path] [DecidableEq Bytes] in
theorem note_of_not_cut {acts : List (Act Path Bytes)} (hc : cutShort r acts = false) {g : Nat}
    {p : Path} {k : DataKind} (hmem : Act.store (.archive g p) ∈ acts) (hki : r.kind p = some k)
    (hau : k.automatic = true) : ∃ kinds, Act.note kinds ∈ acts := by
  unfold cutShort at hc
  rw [Bool.and_eq_false_iff] at hc
  rcases hc with hc | hc
  · have hno := (List.any_eq_false.mp hc) _ hmem
    simp [hki, hau] at hno
  rw [Bool.not_eq_false'] at hc
  obtain ⟨act, ha, hnot⟩ := List.any_eq_true.mp hc
  cases act with
  | note kinds => exact ⟨kinds, ha⟩
  | store | save | pend | unpend => cases hnot

omit [DecidableEq Bytes] in
theorem Inv.take {α : Type} {w : Watched Path Bytes} {course : Course Path Bytes α} (hi : Inv r w)
    (hs : Home.Sound r w.home course) (n : Nat) : Inv r (w.take r (course.1.take n)) := by
  obtain ⟨new, hnew, hmo⟩ := Home.exec_reset (h := w.home) (course.1.take n)
  obtain ⟨hg, hnot⟩ := Home.exec_notice (h := w.home) (course.1.take n)
  refine ⟨hs.keeps n hi.archived, ?_, fun hc g p b hmem k hki hau => ?_⟩
  · show w.acknowledged ≤ (w.home.exec (course.1.take n)).store.reset.length
    rw [hnew, List.length_append]
    exact Nat.le_add_right_of_le hi.acknowledged
  obtain ⟨hc, hc'⟩ := Bool.or_eq_false_iff.mp hc
  have hmem : (g, p, b) ∈ w.moved ++ new := by
    have hd : (w.take r (course.1.take n)).moved = w.moved ++ new := by
      show (w.home.exec (course.1.take n)).store.reset.drop w.acknowledged = _
      rw [hnew, List.drop_append_of_le_length hi.acknowledged]
      rfl
    rwa [hd] at hmem
  rcases List.mem_append.mp hmem with hmem | hmem
  · exact hg (hi.listed hc g p b hmem k hki hau)
  -- moved by this call, whose notice was written too
  have ha := hmo g p b hmem
  obtain ⟨kinds, hno⟩ := note_of_not_cut hc' ha hki hau
  exact hnot kinds hno (hs.named g p k (List.mem_of_mem_take ha) hki hau kinds
    (List.mem_of_mem_take hno))

theorem Inv.step {w : Watched Path Bytes} (hi : Inv r w) (e : HomeEvent Path Bytes) : Inv r (w.step r e) := by
  cases e with
  | run returned taken => exact hi.take (Home.bring_sound returned) taken
  | runRecorded returned taken => exact hi.take (Home.runRecorded_sound returned) taken
  | resetConfirmed taken => exact hi.take Home.resetConfirmed_sound taken
  | acknowledge =>
    refine ⟨hi.archived, Nat.le_refl _, fun _ g p b hmem => ?_⟩
    have hni : w.home.store.reset.drop w.home.store.reset.length = [] := List.drop_length
    rw [show (w.step r .acknowledge).moved = [] from hni] at hmem
    cases hmem
  | replace root => exact ⟨hi.archived, hi.acknowledged, hi.listed⟩

/-- In every run of calls, each stopped at any step, every file moved since the last acknowledgement
is in an archive of its generation; and unless a call since then stopped between moving a rebuildable
file and writing the notice, the pending notice names every rebuildable kind of which a file was
moved. -/
theorem notice_names_moved {home : Home Path Bytes} (hstart : home.store.reset = [])
    {es : List (HomeEvent Path Bytes)} {w : Watched Path Bytes}
    (hrun : Run (fun w e w' => w' = step r w e) ⟨home, 0, false⟩ es w) :
    (∀ g p b, (g, p, b) ∈ w.moved → ∃ i, i < 16 ∧ w.home.archives.get (g, i, p) = some b) ∧
    (w.cut = false → ∀ g p b, (g, p, b) ∈ w.moved → ∀ k, r.kind p = some k → k.automatic = true →
      k ∈ w.home.pendingNotice) := by
  have hi : Inv r (⟨home, 0, false⟩ : Watched Path Bytes) := by
    refine ⟨fun g p b hmem => ?_, Nat.zero_le _, fun _ g p b hmem => ?_⟩
    · rw [hstart] at hmem
      cases hmem
    · have hmem : (g, p, b) ∈ home.store.reset := hmem
      rw [hstart] at hmem
      cases hmem
  have hin : Inv r w := hrun.invariant hi fun {s e t} hs hst => by
    rw [hst]
    exact hs.step e
  exact ⟨fun g p b hmem => hin.archived g p b (List.mem_of_mem_drop hmem), hin.listed⟩

/-- Two rebuildable files of a generation that this build no longer migrates. -/
def outdated : Registry Nat Nat Nat Nat where
  admission := .generationOne
  oldest := 2
  current := 2
  steps := []
  files := [⟨1, .view, fun _ => true, fun _ v => v⟩, ⟨2, .workspaceOrder, fun _ => true, fun _ v => v⟩]
  nameOf := id
  parse := some
  print := id
  oldest_pos := Nat.two_pos
  oldest_le := Nat.one_lt_two
  steps_length := Registry.countedBefore.steps_length

def outdatedHome : Home Nat Nat where
  store := ⟨⟨(FMap.empty.insert 1 5).insert 2 6, some 1⟩, ⟨FMap.empty, none⟩, []⟩
  archives := FMap.empty
  notice := none
  pending := none

/-- A reset that completes names both kinds. -/
theorem notice_names_moved_both :
    (outdatedHome.exec (Home.bring outdated false outdatedHome).1).store.reset = [(1, 1, 5), (1, 2, 6)] ∧
    DataKind.view ∈ (outdatedHome.exec (Home.bring outdated false outdatedHome).1).pendingNotice := by
  have ha : (Home.bring outdated false outdatedHome).1.take 9 = (Home.bring outdated false outdatedHome).1 := by
    decide +kernel
  have hr : Run (fun w e w' => w' = step outdated w e) ⟨outdatedHome, 0, false⟩ [.run false 9]
      (step outdated ⟨outdatedHome, 0, false⟩ (.run false 9)) := .single rfl
  have hl := (notice_names_moved rfl hr).2 (by decide +kernel) 1 1 5 (by decide +kernel) .view
    (by decide +kernel) rfl
  refine ⟨by decide +kernel, ?_⟩
  rw [← ha]
  exact hl

/-- The first call stops after it moved the Workspace views; the second completes the reset and its
notice names the Workspace order alone. -/
theorem moved_kind_unnamed : ∃ w : Watched Nat Nat,
    Run (fun w e w' => w' = step outdated w e) ⟨outdatedHome, 0, false⟩ [.run false 2, .run false 9] w ∧
    w.home.store.root.marker = some 2 ∧ (1, 1, 5) ∈ w.moved ∧ outdated.kind 1 = some .view ∧
    w.home.pendingNotice = {.workspaceOrder} :=
  ⟨_, .cons rfl (.single rfl), by decide +kernel, by decide +kernel, by decide +kernel, by decide +kernel⟩

end Watched

end SpaceTerm.Migration
