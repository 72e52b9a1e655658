import SpaceTerm.Echo.Predictor

/-! # What predictive echo shows

A prediction is shown once a frame echoed a prediction of its own epoch. A key that begins a new epoch
does not hide the predictions of earlier epochs that are still outstanding. -/

namespace SpaceTerm.Echo
open Lib

structure Confirmation where
  epoch : Nat
  screen : Screen
  prediction : Prediction
  deriving DecidableEq

def Echoed (echoes : List Confirmation) (epoch : Nat) : Prop :=
  ∃ e ∈ echoes, e.epoch = epoch ∧ e.prediction.epoch = epoch ∧
    (e.screen.cell e.prediction.row e.prediction.column).any (isText · e.prediction.text) = true

theorem Echoed.mono {echoes more : List Confirmation} {epoch : Nat} (h : Echoed echoes epoch) :
    Echoed (echoes ++ more) epoch := by
  obtain ⟨e, he, hep⟩ := h
  exact ⟨e, List.mem_append_left _ he, hep⟩

structure Inv (echoes : List Confirmation) (p : Predictor) : Prop where
  shown : ∀ q ∈ p.predictions, q.shown = true → Echoed echoes q.epoch
  confirmed : p.confirmed = true → Echoed echoes p.epoch
  serials : p.predictions.Pairwise (·.serial ≤ ·.serial)
  sent : ∀ q ∈ p.predictions, q.serial ≤ p.sent
  columns : ∀ q ∈ p.predictions, q.column + 1 < q.width
  bound : p.predictions.length ≤ maxPredictions
  resets : ∀ q ∈ p.predictions, q.resets = p.resets

namespace Inv
variable {echoes : List Confirmation} {p p' : Predictor}

theorem congr (h : Inv echoes p) (hp : p'.predictions = p.predictions)
    (hc : p'.confirmed = p.confirmed) (he : p'.epoch = p.epoch) (hsent : p.sent ≤ p'.sent)
    (hr : p'.resets = p.resets) : Inv echoes p' := by
  refine ⟨?_, ?_, ?_, ?_, ?_, ?_, ?_⟩
  · rw [hp]; exact h.shown
  · rw [hc, he]; exact h.confirmed
  · rw [hp]; exact h.serials
  · rw [hp]; exact fun q hq => (h.sent q hq).trans hsent
  · rw [hp]; exact h.columns
  · rw [hp]; exact h.bound
  · rw [hp, hr]; exact h.resets

theorem suspend (h : Inv echoes p) (serial : Nat) : Inv echoes (p.suspend serial) :=
  { h with confirmed := nofun }

theorem empty (hp : p.predictions = []) (hc : p.confirmed = false) : Inv echoes p := by
  refine ⟨?_, ?_, ?_, ?_, ?_, ?_, ?_⟩ <;> simp [hp, hc]

theorem reset : Inv echoes p.reset := empty rfl rfl

theorem suffix (h : Inv echoes p) {rest : List Prediction} (hrest : rest <:+ p.predictions) :
    Inv echoes { p with predictions := rest } :=
  ⟨fun q hq => h.shown q (hrest.subset hq), h.confirmed, h.serials.sublist hrest.sublist,
    fun q hq => h.sent q (hrest.subset hq), fun q hq => h.columns q (hrest.subset hq),
    hrest.length_le.trans h.bound, fun q hq => h.resets q (hrest.subset hq)⟩

theorem more (h : Inv echoes p) (more : List Confirmation) : Inv (echoes ++ more) p :=
  ⟨fun q hq hs => (h.shown q hq hs).mono, fun hc => (h.confirmed hc).mono, h.serials, h.sent, h.columns,
    h.bound, h.resets⟩

theorem confirm (h : Inv echoes p) (he : Echoed echoes p.epoch) : Inv echoes p.confirm := by
  have hmem {q : Prediction} (hq : q ∈ p.confirm.predictions) : ∃ r ∈ p.predictions,
      q = { r with shown := r.shown || r.epoch == p.epoch } := by
    obtain ⟨r, hr, rfl⟩ := List.mem_map.mp hq
    exact ⟨r, hr, rfl⟩
  refine ⟨fun q hq hs => ?_, fun _ => he, ?_, fun q hq => ?_, fun q hq => ?_, ?_, fun q hq => ?_⟩
  · obtain ⟨r, hr, rfl⟩ := hmem hq
    rcases (Bool.or_eq_true _ _).mp hs with hs | hep
    · exact h.shown r hr hs
    · exact eq_of_beq hep ▸ he
  · exact List.pairwise_map.mpr h.serials
  · obtain ⟨r, hr, rfl⟩ := hmem hq
    exact h.sent r hr
  · obtain ⟨r, hr, rfl⟩ := hmem hq
    exact h.columns r hr
  · exact (List.length_map _).trans_le h.bound
  · obtain ⟨r, hr, rfl⟩ := hmem hq
    exact h.resets r hr

end Inv

namespace Predictor
variable {echoes : List Confirmation} {p : Predictor}

def echo (p : Predictor) (screen : Screen) (input now : Nat) : Option Confirmation :=
  (p.frame screen input now).2.map fun q => ⟨(p.frame screen input now).1.epoch, screen, q⟩

theorem cell_lt {screen : Screen} {row column : Nat} {text : String}
    (h : screen.cell row column = some text) : column < ((screen.rows[row]?).getD []).length := by
  unfold Screen.cell at h
  obtain ⟨cell, hc, -⟩ := Option.bind_eq_some_iff.mp h
  obtain ⟨cells, hce, hget⟩ := Option.bind_eq_some_iff.mp hc
  rw [hce]
  exact (List.getElem?_eq_some_iff.mp hget).1

theorem predict_spec {serial sentAt : Nat} {text : Char} {q : Prediction}
    (h : p.predict serial text sentAt = some q) : q.serial = serial ∧ q.epoch = p.epoch ∧
      q.shown = p.confirmed ∧ q.resets = p.resets ∧ q.column + 1 < q.width ∧
      p.predictions.length < maxPredictions := by
  unfold predict at h
  obtain ⟨estimate, -, h⟩ := Option.bind_eq_some_iff.mp h
  split at h
  next => simp at h
  next ha =>
    simp only [not_or, ge_iff_le, not_le] at ha
    simp only [Option.bind_eq_bind, Option.bind_eq_some_iff, Option.pure_def, Option.some.injEq] at h
    obtain ⟨screen, -, ⟨row, column⟩, -, wide, hw, original, -, left, -, rfl⟩ := h
    exact ⟨rfl, rfl, rfl, rfl, cell_lt hw, ha.2.2.2⟩

theorem judge_spec {epoch covered now : Nat} {screen : Screen} {predictions rest : List Prediction}
    {credit : Option Prediction} (h : judge epoch covered screen now predictions none = .kept rest credit) :
    rest <:+ predictions ∧ ∀ q, credit = some q → q.epoch = epoch ∧
      (screen.cell q.row q.column).any (isText · q.text) = true := by
  have hc (predictions : List Prediction) (start : Option Prediction)
      (hs : ∀ q, start = some q → q.epoch = epoch ∧ (screen.cell q.row q.column).any (isText · q.text) = true)
      (h : judge epoch covered screen now predictions start = .kept rest credit) :
      rest <:+ predictions ∧ ∀ q, credit = some q → q.epoch = epoch ∧
        (screen.cell q.row q.column).any (isText · q.text) = true := by
    induction predictions generalizing start with
    | nil =>
      cases h
      exact ⟨List.suffix_rfl, hs⟩
    | cons q qs ih =>
      unfold judge at h
      split at h
      next =>
        cases h
        exact ⟨List.suffix_rfl, hs⟩
      next =>
        split at h
        next he =>
          obtain ⟨hsu, hd⟩ := ih _ (by
            intro r hr
            split at hr
            next hep =>
              cases hr
              exact ⟨hep.1, he⟩
            next => cases hr) h
          exact ⟨hsu.trans (List.suffix_cons _ _), hd⟩
        next =>
          split at h
          next =>
            cases h
            exact ⟨List.suffix_rfl, hs⟩
          next => cases h
  exact hc predictions none nofun h

end Predictor

namespace Inv
variable {echoes : List Confirmation} {p : Predictor}

theorem type (h : Inv echoes p) {serial : Option Nat} (hserial : ∀ n ∈ serial, p.sent = n) (sentAt : Nat)
    (typed : Typed) : Inv echoes (p.type serial sentAt typed) := by
  unfold Predictor.type
  cases serial with
  | none => exact reset
  | some serial =>
    dsimp only
    obtain rfl : p.sent = serial := hserial serial rfl
    set timed := (if p.timed.getLast?.all (·.1 != p.sent) then { p with timed :=
      (if p.timed.length = maxTimed then p.timed.tail else p.timed) ++ [(p.sent, sentAt)] } else p) with ht
    have hsa : timed.predictions = p.predictions ∧ timed.confirmed = p.confirmed ∧
        timed.epoch = p.epoch ∧ timed.sent = p.sent ∧ timed.resets = p.resets := by
      rw [ht]
      split <;> exact ⟨rfl, rfl, rfl, rfl, rfl⟩
    have ht : Inv echoes timed := h.congr hsa.1 hsa.2.1 hsa.2.2.1 hsa.2.2.2.1.ge hsa.2.2.2.2
    cases typed with
    | other => exact ht.suspend _
    | printable text =>
      dsimp only
      split
      next q hq =>
        obtain ⟨hserial, he, hsh, hre, hc, hro⟩ := Predictor.predict_spec hq
        have ha {P : Prediction → Prop} (hold : ∀ r ∈ timed.predictions, P r) (hnew : P q) :
            ∀ r ∈ timed.predictions ++ [q], P r := by
          intro r hr
          rcases List.mem_append.mp hr with hr | hr
          · exact hold r hr
          · rwa [List.mem_singleton.mp hr]
        refine ⟨ha ht.shown fun hs => ?_, ht.confirmed, ?_, ha ht.sent ?_, ha ht.columns hc, ?_, ha ht.resets hre⟩
        · rw [he]
          exact ht.confirmed (hsh ▸ hs)
        · refine List.pairwise_append.mpr ⟨ht.serials, List.pairwise_singleton _ _, fun r hr r' hr' => ?_⟩
          rw [List.mem_singleton.mp hr', hserial]
          exact hsa.2.2.2.1 ▸ ht.sent r hr
        · rw [hserial]
          exact hsa.2.2.2.1.ge
        · rw [List.length_append]
          exact hro
      next => exact ht.suspend _

theorem type_sent (p : Predictor) (serial : Option Nat) (sentAt : Nat) (typed : Typed) :
    (p.type serial sentAt typed).sent = p.sent := by
  unfold Predictor.type
  cases serial with
  | none => rfl
  | some serial =>
    dsimp only
    cases typed with
    | other =>
      dsimp only [Predictor.suspend]
      split <;> rfl
    | printable text =>
      dsimp only
      split
      · dsimp only
        split <;> rfl
      · dsimp only [Predictor.suspend]
        split <;> rfl

theorem send (h : Inv echoes p) {request : Request} {serial : Option Nat}
    (hserial : ∀ n ∈ serial, p.sent ≤ n) (sentAt : Nat) : Inv echoes (p.send request serial sentAt) := by
  unfold Predictor.send
  have hst : Inv echoes { p with sent := max p.sent (serial.getD 0) } :=
    h.congr rfl rfl rfl (le_max_left _ _) rfl
  have hsent : ∀ n ∈ serial, ({ p with sent := max p.sent (serial.getD 0) } : Predictor).sent = n := by
    intro n hn
    have hs : serial = some n := hn
    simp [hs, hserial n hn]
  generalize ({ p with sent := max p.sent (serial.getD 0) } : Predictor) = start at hst hsent
  induction request.typed generalizing start with
  | nil => exact hst
  | cons typed rest ih =>
    refine ih _ (hst.type hsent sentAt typed) fun n hn => ?_
    rw [type_sent]
    exact hsent n hn

theorem measure (h : Inv echoes p) (input now : Nat) : Inv echoes (p.measure input now) := by
  unfold Predictor.measure
  split
  · exact h
  dsimp only
  split
  · exact reset
  · exact h.congr rfl rfl rfl le_rfl rfl

theorem cover (h : Inv echoes p) (screen : Screen) (input : Nat) : Inv echoes (p.cover screen input) := by
  unfold Predictor.cover
  split
  · exact reset
  · exact h.congr rfl rfl rfl le_rfl rfl

theorem endWait (h : Inv echoes p) : Inv echoes p.endWait := by
  unfold Predictor.endWait
  split
  · exact h.congr rfl rfl rfl le_rfl rfl
  · exact h

theorem receive (h : Inv echoes p) (screen : Screen) (input now : Nat) : Inv echoes (p.receive screen input now) :=
  ((h.measure input now).cover screen input).endWait

theorem frame (h : Inv echoes p) (screen : Screen) (input now : Nat) :
    Inv (echoes ++ (p.echo screen input now).toList) (p.frame screen input now).1 := by
  unfold Predictor.echo Predictor.frame
  dsimp only
  have hr := h.receive screen input now
  generalize p.receive screen input now = r at hr
  split
  next => exact reset
  next rest credit hju =>
    obtain ⟨hrest, hcr⟩ := Predictor.judge_spec hju
    have hke := hr.suffix hrest
    cases credit with
    | none => exact hke.more _
    | some q =>
      obtain ⟨he, hc⟩ := hcr q rfl
      dsimp only
      split
      · refine (hke.more _).confirm ⟨⟨r.epoch, screen, q⟩, ?_, rfl, he, hc⟩
        simp [Predictor.confirm]
      · exact hke.more _

theorem setLine (h : Inv echoes p) (line : LineState) : Inv echoes (p.setLine line) := by
  unfold Predictor.setLine
  dsimp only
  split
  · exact reset
  · exact h.congr rfl rfl rfl le_rfl rfl

theorem expire (h : Inv echoes p) (now : Nat) : Inv echoes (p.expire now) := by
  unfold Predictor.expire
  split
  · exact reset
  · exact h

theorem discarded (h : Inv echoes p) (serial : Nat) : Inv echoes (p.discarded serial) := by
  unfold Predictor.discarded
  split
  · exact reset
  · exact h

end Inv

/-! ## Runs -/

inductive Event
  | send (request : Request) (serial : Option Nat) (sentAt : Nat)
  | line (line : LineState)
  | frame (screen : Screen) (input now : Nat)
  | expire (now : Nat)
  | discarded (serial : Nat)
  | reset

structure Traced where
  predictor : Predictor := {}
  echoes : List Confirmation := []
  deriving DecidableEq

namespace Traced

def step (s : Traced) : Event → Option Traced
  | .send request serial sentAt =>
    if serial.all (s.predictor.sent ≤ ·) then
      some { s with predictor := s.predictor.send request serial sentAt }
    else none
  | .line line => some { s with predictor := s.predictor.setLine line }
  | .frame screen input now => some
    { predictor := (s.predictor.frame screen input now).1
      echoes := s.echoes ++ (s.predictor.echo screen input now).toList }
  | .expire now => some { s with predictor := s.predictor.expire now }
  | .discarded serial => some { s with predictor := s.predictor.discarded serial }
  | .reset => some { s with predictor := s.predictor.reset }

def Moves (s : Traced) (e : Event) (t : Traced) : Prop := s.step e = some t

theorem inv_step {s t : Traced} {e : Event} (h : Inv s.echoes s.predictor) (hs : s.Moves e t) :
    Inv t.echoes t.predictor := by
  cases e with
  | send request serial sentAt =>
    simp only [Moves, step] at hs
    split at hs
    next hserial =>
      cases hs
      refine h.send (fun n hn => ?_) sentAt
      obtain rfl : serial = some n := hn
      exact of_decide_eq_true hserial
    next => cases hs
  | line line =>
    cases hs
    exact h.setLine line
  | frame screen input now =>
    cases hs
    exact h.frame screen input now
  | expire now =>
    cases hs
    exact h.expire now
  | discarded serial =>
    cases hs
    exact h.discarded serial
  | reset =>
    cases hs
    exact .reset

theorem inv_run {s : Traced} {es : List Event} (hr : Run Moves {} es s) : Inv s.echoes s.predictor :=
  hr.invariant (P := fun s => Inv s.echoes s.predictor) (.empty rfl rfl) inv_step

end Traced

theorem Predictor.discarded_lt {p : Predictor} {serial : Nat} {q : Prediction}
    (hq : q ∈ (p.discarded serial).predictions) : q.serial < serial := by
  unfold Predictor.discarded at hq
  split at hq
  next => exact absurd hq (by simp [Predictor.reset, Predictor.suspend])
  next hnone =>
    by_contra hl
    exact hnone (List.any_eq_true.mpr ⟨q, hq, decide_eq_true (not_lt.mp hl)⟩)

theorem Predictor.overlay_spec {p : Predictor} {cells : List (Nat × Nat × Char)} {cursor : Nat × Nat}
    (h : p.overlay = some (cells, cursor)) {cell : Nat × Nat × Char} (hc : cell ∈ cells) :
    ∃ q ∈ p.predictions, q.shown = true ∧ cell = (q.row, q.column, q.text) := by
  unfold Predictor.overlay at h
  split at h
  next => cases h
  next =>
    obtain ⟨last, -, hl⟩ := Option.map_eq_some_iff.mp h
    obtain rfl := congrArg Prod.fst hl
    obtain ⟨q, hq, rfl⟩ := List.mem_map.mp hc
    obtain ⟨hq, hs⟩ := List.mem_filter.mp hq
    exact ⟨q, hq, hs, rfl⟩

namespace Traced

/-- Over every run a character is in the overlay only if a frame echoed a prediction of the epoch it
was typed in, while that epoch was current. The predictions are in the order of their serials, left of
the last column of the row they were placed on, and no more than the bound; none was made before the
last reset, and a discard leaves only those with a smaller serial. -/
theorem shown_echoed {s : Traced} {es : List Event} (hrun : Run Moves {} es s) :
    (∀ cells cursor, s.predictor.overlay = some (cells, cursor) → ∀ cell ∈ cells,
      ∃ q ∈ s.predictor.predictions, cell = (q.row, q.column, q.text) ∧ Echoed s.echoes q.epoch) ∧
    s.predictor.predictions.Pairwise (·.serial ≤ ·.serial) ∧
    (∀ q ∈ s.predictor.predictions, q.column + 1 < q.width) ∧
    s.predictor.predictions.length ≤ maxPredictions ∧
    (∀ q ∈ s.predictor.predictions, q.resets = s.predictor.resets) ∧
    ∀ serial, ∀ q ∈ (s.predictor.discarded serial).predictions, q.serial < serial := by
  have h := inv_run hrun
  refine ⟨fun cells cursor ho cell hc => ?_, h.serials, h.columns, h.bound, h.resets,
    fun serial q hq => Predictor.discarded_lt hq⟩
  obtain ⟨q, hq, hs, rfl⟩ := Predictor.overlay_spec ho hc
  exact ⟨q, hq, rfl, h.shown q hq hs⟩

/-! A line `$ ` at a shell prompt, where `a`, `b` and `c` are typed and then Enter. -/

def promptLine : LineState := ⟨1, ⟨false, false, true, true⟩⟩

def promptRow (typed : String) : Screen where
  rows := [(("$ " ++ typed).toList.map fun c => ⟨c.toString, false⟩) ++ List.replicate (6 - typed.length) ⟨"", false⟩]
  cursorPosition := some (0, 2 + typed.length)

def press (text : String) : Request := .key ⟨some text, 0, 0⟩

/-- The first key measures the round trip, the echo of the second confirms the epoch, and the third
shows at once. -/
def typedShown : List Event :=
  [.line promptLine, .frame (promptRow "") 0 0, .send (press "a") (some 1) 0,
    .frame (promptRow "a") 1 50, .send (press "b") (some 2) 100, .frame (promptRow "ab") 2 150,
    .send (press "c") (some 3) 200]

theorem shown_echoed_third : ∃ s, Run Moves {} typedShown s ∧ s.predictor.overlay = some ([(0, 4, 'c')], (0, 5)) ∧
    ∃ q ∈ s.predictor.predictions, (0, 4, 'c') = (q.row, q.column, q.text) ∧ Echoed s.echoes q.epoch := by
  obtain ⟨s, hs, ho⟩ : ∃ s, typedShown.foldlM step {} = some s ∧
      s.predictor.overlay = some ([(0, 4, 'c')], (0, 5)) :=
    ⟨_, rfl, by decide +kernel⟩
  have hr := Run.of_foldlM hs
  exact ⟨s, hr, ho, (shown_echoed hr).1 _ _ ho _ (List.mem_singleton.mpr rfl)⟩

/-- Enter begins an epoch that no frame confirmed, and the key before it stays in the overlay. -/
theorem enter_keeps_shown : ∃ s t, Run Moves {} typedShown s ∧
    s.Moves (.send (press "\n") (some 4) 250) t ∧ s.predictor.epoch < t.predictor.epoch ∧
    t.echoes.all (·.epoch < t.predictor.epoch) = true ∧
    t.predictor.overlay = some ([(0, 4, 'c')], (0, 5)) := by
  obtain ⟨s, t, hs, ht, hrest⟩ : ∃ s t, typedShown.foldlM step {} = some s ∧
      s.step (.send (press "\n") (some 4) 250) = some t ∧ s.predictor.epoch < t.predictor.epoch ∧
      t.echoes.all (·.epoch < t.predictor.epoch) = true ∧
      t.predictor.overlay = some ([(0, 4, 'c')], (0, 5)) :=
    ⟨_, _, rfl, rfl, by decide +kernel⟩
  exact ⟨s, t, Run.of_foldlM hs, ht, hrest⟩

end Traced
end SpaceTerm.Echo
