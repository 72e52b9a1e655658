import SpaceTerm.Osc52.Filter

/-! # The order of a filtered stream

`parse` cuts a stream into the text that is passed on and the clipboard sequences, in stream order.
Feeds in any chunking give exactly this, as long as no effect is pushed while bytes of its own feed
still wait in `terminal` (`Clean`). They wait when the `ESC` of the sequence cut off another escape
sequence: that branch of the loop does not flush. -/

namespace SpaceTerm.Osc52
variable {Context : Type}

/-! ## What a stream holds -/

inductive Segment
  | text (bytes : Bytes)
  | sequence (raw : Bytes) (effect : Effect)

def Segment.bytes : Segment → Bytes
  | .text bytes => bytes
  | .sequence raw _ => raw

def verdict (raw : Bytes) : Effect :=
  if raw.length > maxEncodedBytes + 17 then .rejected .oversized
  else if raw.getLast? = some CAN ∨ raw.getLast? = some SUB then .rejected .malformed
  else match parseOsc52 raw with
    | .ok operation => .operation operation
    | .error rejection => .rejected rejection

def Segment.Ok : Segment → Prop
  | .text bytes => bytes ≠ []
  | .sequence raw effect => introducer <+: raw ∧ effect = verdict raw

inductive Item (Context : Type)
  | byte (byte : UInt8) (context : Context)
  | effect (effect : Effect) (context : Context)

def Effect.items (context : Context) : Effect → List (Item Context)
  | .terminal bytes => bytes.map (.byte · context)
  | e => [.effect e context]

def items (effects : List (Effect × Context)) : List (Item Context) :=
  effects.flatMap fun e => e.1.items e.2

def Segment.items (context : Context) : Segment → List (Item Context)
  | .text bytes => bytes.map (.byte · context)
  | .sequence _ effect => [.effect effect context]

/-- The stream so far: its segments, and the bytes of a sequence that is still open. -/
structure Parse (Context : Type) where
  filter : Filter Context
  segments : List Segment := []
  raw : Bytes := []

namespace Parse

def act (p : Parse Context) (byte : UInt8) : Action → Parse Context
  | .none | .flush => { p with raw := p.raw ++ [byte] }
  | .text bytes => { p with
      segments := p.segments ++ [.text bytes]
      raw := (p.raw ++ [byte]).drop bytes.length }
  | .effect effect => { p with
      segments := p.segments ++ [.sequence (p.raw ++ [byte]) effect]
      raw := [] }

def step (context : Context) (p : Parse Context) (byte : UInt8) : Parse Context :=
  let (filter, action) := p.filter.byte byte context
  { p.act byte action with filter := filter }

def items (context : Context) (p : Parse Context) : List (Item Context) :=
  p.segments.flatMap (Segment.items context)

end Parse

/-- The segments of a stream that begins in `Ground`. -/
def parse (initial context : Context) (stream : Bytes) : Parse Context :=
  stream.foldl (Parse.step context) { filter := { context := initial } }

def whole (initial context : Context) (stream : Bytes) : Feed Context :=
  stream.foldl (Feed.step context) { filter := { context := initial } }

/-- Whenever a sequence of the stream ends, no byte waits to be flushed. -/
def Clean (initial context : Context) (stream : Bytes) : Prop :=
  ∀ before byte rest effect, stream = before ++ byte :: rest →
    ((whole initial context before).filter.byte byte context).2 = .effect effect →
      (whole initial context before).terminal = []

/-- A `Terminal` piece before others. -/
def join (bytes : Bytes) (context : Context) : List (Effect × Context) → List (Effect × Context)
  | (.terminal more, _) :: rest => (.terminal (bytes ++ more), context) :: rest
  | rest => (.terminal bytes, context) :: rest

/-- Adjacent `Terminal` pieces as one. -/
def merge : List (Effect × Context) → List (Effect × Context)
  | [] => []
  | (.terminal bytes, context) :: effects => join bytes context (merge effects)
  | e :: effects => e :: merge effects

/-! ## Parsing keeps every byte -/

namespace Parse

def Open (context : Context) (f : Filter Context) (raw : Bytes) : Prop :=
  match f.state with
  | .ground | .otherString _ _ => f.candidate = [] ∧ raw = []
  | .prefixed => f.candidate = raw ∧ raw ≠ [] ∧ raw <+: introducer ∧ f.context = context
  | .osc52 _ => f.candidate = raw ∧ introducer <+: raw ∧ raw.length ≤ maxEncodedBytes + 16 ∧ f.context = context
  | .discardOversized _ => f.candidate = [] ∧ introducer <+: raw ∧
      maxEncodedBytes + 16 < raw.length ∧ f.context = context

variable {byte : UInt8}

variable {context : Context}

theorem open_afterCandidate {f : Filter Context} {candidate : Bytes}
    (hs : f.state = afterCandidate candidate byte) (hc : f.candidate = []) :
    Open context f [] := by
  unfold Open
  rw [hs]
  unfold afterCandidate
  split_ifs <;> exact ⟨hc, rfl⟩

variable {raw : Bytes}

theorem verdict_cancelled (hl : raw.length ≤ maxEncodedBytes + 16)
    (hb : byte = CAN ∨ byte = SUB) : verdict (raw ++ [byte]) = .rejected .malformed := by
  have hs : ¬(raw ++ [byte]).length > maxEncodedBytes + 17 := by simp; omega
  rw [verdict, if_neg hs, if_pos (by simpa using hb)]

theorem verdict_oversized (hl : maxEncodedBytes + 16 < raw.length) :
    verdict (raw ++ [byte]) = .rejected .oversized := by
  have hlo : (raw ++ [byte]).length > maxEncodedBytes + 17 := by simp; omega
  rw [verdict, if_pos hlo]

theorem verdict_complete (hl : raw.length ≤ maxEncodedBytes + 16) (hb : ¬(byte = CAN ∨ byte = SUB)) :
    verdict (raw ++ [byte]) = match parseOsc52 (raw ++ [byte]) with
      | .ok operation => .operation operation
      | .error rejection => .rejected rejection := by
  have hs : ¬(raw ++ [byte]).length > maxEncodedBytes + 17 := by simp; omega
  rw [verdict, if_neg hs, if_neg (by simpa using hb)]

/-- What one byte leads to: the text it releases is the front of what is open, and an effect is that
of the whole open sequence. -/
def Spec (context : Context) (f : Filter Context) (raw : Bytes) : Filter Context × Action → Prop
  | (f', .none) | (f', .flush) => Open context f' raw
  | (f', .text bytes) => bytes ≠ [] ∧ bytes <+: raw ∧ Open context f' (raw.drop bytes.length)
  | (f', .effect effect) => f.context = context ∧ introducer <+: raw ∧ effect = verdict raw ∧ Open context f' []

theorem byte_spec {f : Filter Context} (h : Open context f raw)
    (byte : UInt8) : Spec context f (raw ++ [byte]) (f.byte byte context) := by
  unfold Filter.byte
  cases hs : f.state with
  | ground =>
    obtain ⟨hca, rfl⟩ : f.candidate = [] ∧ raw = [] := by simpa [Open, hs] using h
    dsimp only
    split
    next hes =>
      subst hes
      exact ⟨by simp [hca], by simp, ⟨introducer.tail, rfl⟩, rfl⟩
    next => exact ⟨by simp, List.prefix_rfl, by simp [Open, hs, hca]⟩
  | prefixed =>
    obtain ⟨rfl, hne, hp, hco⟩ : f.candidate = raw ∧ raw ≠ [] ∧ raw <+: introducer ∧
      f.context = context := by simpa [Open, hs] using h
    dsimp only
    split
    next hlo =>
      unfold Spec Open
      dsimp only
      split_ifs with hl
      · have he := hlo.eq_of_length hl
        exact ⟨rfl, by rw [he], by simp [hl, introducer], hco⟩
      · exact ⟨rfl, by simp, hlo, hco⟩
    next =>
      split
      next hcu =>
        obtain ⟨-, rfl⟩ := hcu
        refine ⟨by simpa using hne, by simp, ?_⟩
        simp only [List.dropLast_concat, List.drop_left]
        exact ⟨rfl, by simp, ⟨introducer.tail, rfl⟩, rfl⟩
      next =>
        refine ⟨by simp, List.prefix_rfl, ?_⟩
        rw [List.drop_length]
        exact open_afterCandidate rfl rfl
  | otherString bell escapePending =>
    obtain ⟨hca, rfl⟩ : f.candidate = [] ∧ raw = [] := by simpa [Open, hs] using h
    refine ⟨by simp, List.prefix_rfl, ?_⟩
    unfold Open
    dsimp only
    split_ifs <;> exact ⟨hca, rfl⟩
  | osc52 escapePending =>
    obtain ⟨rfl, hi, hl, hco⟩ : f.candidate = raw ∧ introducer <+: raw ∧
      raw.length ≤ maxEncodedBytes + 16 ∧ f.context = context := by simpa [Open, hs] using h
    have hlo : introducer <+: f.candidate ++ [byte] := hi.trans (List.prefix_append _ _)
    dsimp only
    split
    next hc =>
      exact ⟨hco, hlo, (verdict_cancelled hl hc).symm, rfl, rfl⟩
    next hc =>
      split
      next => exact ⟨hco, hlo, (verdict_complete hl hc).symm, rfl, rfl⟩
      next =>
        split
        next ho => exact ⟨rfl, hlo, ho, hco⟩
        next ho => exact ⟨rfl, hlo, Nat.not_lt.mp ho, hco⟩
  | discardOversized escapePending =>
    obtain ⟨hca, hi, hl, hco⟩ : f.candidate = [] ∧ introducer <+: raw ∧
      maxEncodedBytes + 16 < raw.length ∧ f.context = context := by simpa [Open, hs] using h
    have hlo : introducer <+: raw ++ [byte] := hi.trans (List.prefix_append _ _)
    dsimp only
    split
    next => exact ⟨hco, hlo, (verdict_oversized hl).symm, hca, rfl⟩
    next => exact ⟨hca, hlo, by rw [List.length_append]; omega, hco⟩

structure Ok (context : Context) (stream : Bytes) (p : Parse Context) : Prop where
  bytes : p.segments.flatMap Segment.bytes ++ p.raw = stream
  segments : ∀ s ∈ p.segments, s.Ok
  opened : Open context p.filter p.raw

theorem Ok.step {stream : Bytes} {p : Parse Context} (h : p.Ok context stream)
    (byte : UInt8) : (p.step context byte).Ok context (stream ++ [byte]) := by
  have hsp := byte_spec h.opened byte
  unfold Parse.step
  rw [← h.bytes]
  rcases hb : p.filter.byte byte context with ⟨filter, action⟩
  rw [hb] at hsp
  cases action with
  | none | flush => exact ⟨by simp [act], h.segments, hsp⟩
  | text bytes =>
    obtain ⟨hne, ⟨rest, hrest⟩, ho⟩ := hsp
    refine ⟨?_, ?_, ho⟩
    · simp [act, ← hrest, Segment.bytes]
    intro s hs
    rcases List.mem_append.mp hs with hs | hs
    · exact h.segments s hs
    · rw [List.mem_singleton.mp hs]
      exact hne
  | effect effect =>
    obtain ⟨-, hi, hv, ho⟩ := hsp
    refine ⟨by simp [act, Segment.bytes], ?_, ho⟩
    intro s hs
    rcases List.mem_append.mp hs with hs | hs
    · exact h.segments s hs
    · rw [List.mem_singleton.mp hs]
      exact ⟨hi, hv⟩

end Parse

variable {initial context : Context}

theorem parse_snoc (initial context : Context) (stream : Bytes) (byte : UInt8) :
    parse initial context (stream ++ [byte]) = (parse initial context stream).step context byte := by
  simp [parse]

theorem whole_snoc (initial context : Context) (stream : Bytes) (byte : UInt8) :
    whole initial context (stream ++ [byte]) = (whole initial context stream).step context byte := by
  simp [whole]

theorem parse_ok (initial context : Context) (stream : Bytes) : (parse initial context stream).Ok context stream := by
  induction stream using List.reverseRecOn with
  | nil => exact ⟨rfl, by simp [parse], rfl, rfl⟩
  | append_singleton stream byte ih =>
    rw [parse_snoc]
    exact ih.step byte

/-! ## Feeds follow the parse -/

@[simp] theorem items_append (a b : List (Effect × Context)) : items (a ++ b) = items a ++ items b :=
  List.flatMap_append

theorem verdict_items (raw : Bytes) (c : Context) : (verdict raw).items c = [.effect (verdict raw) c] := by
  unfold verdict
  split_ifs
  · rfl
  · rfl
  · cases parseOsc52 raw <;> rfl

/-- What a feed gives so far, with the bytes that wait. -/
def Feed.items (context : Context) (feed : Feed Context) : List (Item Context) :=
  Osc52.items feed.effects ++ feed.terminal.map (.byte · context)

theorem Feed.items_flush (feed : Feed Context) (context : Context) :
    (feed.flush context).items context = feed.items context := by
  unfold Feed.flush
  split
  · rfl
  · simp [Feed.items, Osc52.items, Effect.items]

theorem Feed.flush_terminal (feed : Feed Context) : (feed.flush context).terminal = [] := by
  unfold Feed.flush
  split
  next h => exact h
  next => rfl

@[simp] theorem Feed.flush_filter (feed : Feed Context) : (feed.flush context).filter = feed.filter := by
  unfold Feed.flush
  split <;> rfl

theorem whole_filter (stream : Bytes) :
    (whole initial context stream).filter = (parse initial context stream).filter := by
  induction stream using List.reverseRecOn with
  | nil => rfl
  | append_singleton stream byte ih =>
    rw [whole_snoc, parse_snoc]
    simp [Feed.step, Parse.step, ih]

/-- A feed that is at the place `stream`, `before` it having been given by earlier feeds. -/
structure Follows (initial context : Context) (stream : Bytes) (before : List (Item Context))
    (feed : Feed Context) : Prop where
  filter : feed.filter = (parse initial context stream).filter
  items : before ++ feed.items context = (parse initial context stream).items context
  waiting : feed.terminal <:+ (whole initial context stream).terminal

theorem Clean.of_append {stream rest : Bytes} (h : Clean initial context (stream ++ rest)) :
    Clean initial context stream := by
  intro before byte more effect he
  exact h before byte (more ++ rest) effect (by rw [he]; simp)

variable {feed : Feed Context}

variable {stream : Bytes} {byte : UInt8}

theorem Follows.step {before : List (Item Context)} (h : Follows initial context stream before feed)
    (hc : Clean initial context (stream ++ [byte])) :
    Follows initial context (stream ++ [byte]) before (feed.step context byte) := by
  have hs := Parse.byte_spec (parse_ok initial context stream).opened byte
  have hempty := hc stream byte []
  have hi := h.items
  have hw := h.waiting
  rw [whole_filter] at hempty
  rw [← h.filter] at hs hempty
  refine ⟨?_, ?_, ?_⟩
  · simp [parse_snoc, Feed.step, Parse.step, h.filter]
  · rw [parse_snoc]
    unfold Feed.step Parse.step
    rw [← h.filter]
    rcases hb : feed.filter.byte byte context with ⟨filter, action⟩
    rw [hb] at hs hempty
    cases action with
    | none => exact hi
    | flush =>
      have hf := feed.items_flush context
      exact (congrArg (before ++ ·) hf).trans hi
    | text bytes =>
      simp only [Feed.act, Parse.act, Parse.items, Feed.items, List.flatMap_append, List.map_append] at hi ⊢
      simp [← hi, Segment.items]
    | effect effect =>
      obtain ⟨hco, -, rfl, -⟩ := hs
      have hnone : feed.terminal = [] := by
        have := hempty (verdict _) rfl rfl
        rw [this] at hw
        exact List.suffix_nil.mp hw
      simp only [Feed.act, Parse.act, Parse.items, Feed.items, hnone, List.flatMap_append, items_append,
        List.map_nil, List.append_nil] at hi ⊢
      simp [← hi, Segment.items, Osc52.items, verdict_items, hco]
  · rw [whole_snoc]
    unfold Feed.step
    rw [whole_filter, ← h.filter]
    rcases hb : feed.filter.byte byte context with ⟨filter, action⟩
    cases action with
    | none => exact hw
    | flush => simp [Feed.act, Feed.flush_terminal]
    | text bytes =>
      obtain ⟨front, hfront⟩ := hw
      exact ⟨front, by simp [Feed.act, ← hfront]⟩
    | effect effect => exact hw

theorem Follows.chunk {stream chunk : Bytes} {before : List (Item Context)}
    (h : Follows initial context stream before feed)
    (hc : Clean initial context (stream ++ chunk)) :
    Follows initial context (stream ++ chunk) before (chunk.foldl (Feed.step context) feed) := by
  induction chunk generalizing stream feed with
  | nil => simpa using h
  | cons byte chunk ih =>
    have hc' : Clean initial context (stream ++ [byte] ++ chunk) := by simpa using hc
    simpa using ih (h.step hc'.of_append) hc'

theorem Follows.start (initial context : Context) (stream : Bytes) : Follows initial context stream
    ((parse initial context stream).items context)
    { filter := (parse initial context stream).filter } :=
  ⟨rfl, by simp [Feed.items, Osc52.items], List.nil_suffix⟩

theorem feedAll_items (initial context : Context) (stream : Bytes) (chunks : List Bytes)
    (hcl : Clean initial context (stream ++ chunks.flatten)) :
    (parse initial context stream).items context ++
        items (feedAll (parse initial context stream).filter context chunks) =
      (parse initial context (stream ++ chunks.flatten)).items context := by
  induction chunks generalizing stream with
  | nil => simp [feedAll, items]
  | cons chunk chunks ih =>
    have hcl' : Clean initial context (stream ++ chunk ++ chunks.flatten) := by simpa using hcl
    have hc := (Follows.start initial context stream).chunk
      hcl'.of_append
    have hrest := ih _ hcl'
    simp only [feedAll, feedWithContext, Feed.flush_filter, hc.filter, items_append,
      List.flatten_cons, ← List.append_assoc]
    rw [← hrest, ← hc.items, ← Feed.items_flush, Feed.items, Feed.flush_terminal]
    simp

/-! ## Late bytes -/

def weighItem (weight : Nat × Nat) : Item Context → Nat × Nat
  | .byte _ _ => (weight.1 + 1, weight.2)
  | .effect _ _ => (weight.1, weight.2 + weight.1)

/-- The number of bytes, and over all effects the number of bytes before each. -/
def weigh (l : List (Item Context)) : Nat × Nat := l.foldl weighItem (0, 0)

theorem weigh_snoc (l : List (Item Context)) (item : Item Context) :
    weigh (l ++ [item]) = weighItem (weigh l) item := by
  simp [weigh]

theorem weigh_bytes (l : List (Item Context)) (bytes : Bytes) (c : Context) :
    weigh (l ++ bytes.map (.byte · c)) = ((weigh l).1 + bytes.length, (weigh l).2) := by
  induction bytes using List.reverseRecOn with
  | nil => simp
  | append_singleton bytes byte ih =>
    rw [List.map_append, ← List.append_assoc, List.map_singleton, weigh_snoc, ih]
    simp [weighItem, Nat.add_assoc]

theorem Clean.snoc (byte : UInt8) (h : Clean initial context stream)
    (hl : ∀ effect, ((whole initial context stream).filter.byte byte context).2 = .effect effect →
      (whole initial context stream).terminal = []) : Clean initial context (stream ++ [byte]) := by
  intro before b rest effect he
  rcases rest.eq_nil_or_concat with rfl | ⟨more, last, rfl⟩
  · obtain ⟨rfl, hb⟩ := List.append_inj' he rfl
    obtain rfl : byte = b := by simpa using hb
    exact hl effect
  · have hs : stream ++ [byte] = (before ++ b :: more) ++ [last] := by simp [he]
    obtain ⟨rfl, -⟩ := List.append_inj' hs rfl
    exact h before b more effect rfl

/-- The bytes that effects overtook, never made up for. -/
structure Lags (initial context : Context) (stream : Bytes) : Prop where
  bytes : (weigh (items (whole initial context stream).effects)).1 +
      (whole initial context stream).terminal.length =
    (weigh ((parse initial context stream).items context)).1
  behind : (weigh (items (whole initial context stream).effects)).2 ≤
    (weigh ((parse initial context stream).items context)).2
  clean : (weigh (items (whole initial context stream).effects)).2 =
    (weigh ((parse initial context stream).items context)).2 → Clean initial context stream

theorem Lags.snoc (h : Lags initial context stream) : Lags initial context (stream ++ [byte]) := by
  obtain ⟨hbyt, hb, hcl⟩ := h
  have hsp := Parse.byte_spec (parse_ok initial context stream).opened byte
  have hs := fun hc => Clean.snoc byte (hcl hc)
  rw [← whole_filter] at hsp
  have hw := whole_snoc initial context stream byte
  have hp := parse_snoc initial context stream byte
  unfold Feed.step at hw
  unfold Parse.step at hp
  rw [← whole_filter] at hp
  rcases hby : (whole initial context stream).filter.byte byte context with ⟨filter, action⟩
  rw [hby] at hsp hs hw hp
  cases action with
  | none => exact ⟨by rw [hw, hp]; exact hbyt, by rw [hw, hp]; exact hb,
      by rw [hw, hp]; exact fun he => hs he (by simp)⟩
  | flush =>
    have hf : weigh (items ((whole initial context stream).flush context).effects) =
        ((weigh (items (whole initial context stream).effects)).1 + (whole initial context stream).terminal.length,
          (weigh (items (whole initial context stream).effects)).2) := by
      rw [← weigh_bytes _ _ context]
      have := (whole initial context stream).items_flush context
      simpa [Feed.items, Feed.flush_terminal] using congrArg weigh this
    refine ⟨?_, ?_, ?_⟩ <;> rw [hw, hp] <;>
      simp only [Feed.act, Parse.act, hf, Feed.flush_terminal]
    · exact hbyt
    · exact hb
    · exact fun he => hs he (by simp)
  | text bytes =>
    have ht : weigh (({ (parse initial context stream).act byte (.text bytes) with
        filter := filter } : Parse Context).items context) =
        ((weigh ((parse initial context stream).items context)).1 + bytes.length,
          (weigh ((parse initial context stream).items context)).2) := by
      rw [← weigh_bytes _ _ context]
      simp [Parse.act, Parse.items, Segment.items]
    refine ⟨?_, ?_, ?_⟩ <;> rw [hw, hp, ht] <;> simp only [Feed.act, List.length_append]
    · omega
    · exact hb
    · exact fun he => hs he (by simp)
  | effect effect =>
    obtain ⟨-, -, hv, -⟩ := hsp
    have hpa : weigh (({ (parse initial context stream).act byte (.effect effect) with
        filter := filter } : Parse Context).items context) =
        weighItem (weigh ((parse initial context stream).items context)) (.effect effect context) := by
      rw [← weigh_snoc]
      simp [Parse.act, Parse.items, Segment.items]
    have hpu (c : Context) : weigh (items ((whole initial context stream).effects ++ [(effect, c)])) =
        weighItem (weigh (items (whole initial context stream).effects)) (.effect effect c) := by
      rw [← weigh_snoc, items_append]
      simp [items, hv, verdict_items]
    refine ⟨?_, ?_, ?_⟩ <;> rw [hw, hp, hpa] <;> simp only [Feed.act, hpu, weighItem]
    · exact hbyt
    · omega
    · intro he
      refine hs (by omega) fun _ _ => ?_
      exact List.eq_nil_of_length_eq_zero (by omega)

theorem lags (stream : Bytes) : Lags initial context stream := by
  induction stream using List.reverseRecOn with
  | nil =>
    refine ⟨rfl, le_rfl, fun _ before byte rest effect he => ?_⟩
    simp at he
  | append_singleton stream byte ih => exact ih.snoc

/-! ## Merged pieces -/

/-- The pieces of an output. -/
def group : List (Item Context) → List (Effect × Context)
  | [] => []
  | .byte byte context :: rest => join [byte] context (group rest)
  | .effect effect context :: rest => (effect, context) :: group rest

/-- A list of effects as feeds push them: no `Terminal` piece is empty. -/
def Pieces (effects : List (Effect × Context)) : Prop := ∀ e ∈ effects, e.1 ≠ .terminal []

theorem join_join (a b : Bytes) (c c' : Context) (pieces : List (Effect × Context)) :
    join a c (join b c' pieces) = join (a ++ b) c pieces := by
  rcases pieces with _ | ⟨⟨_ | _ | _, _⟩, rest⟩ <;> simp [join]

theorem group_bytes (bytes : Bytes) (c : Context) (rest : List (Item Context)) (h : bytes ≠ []) :
    group (bytes.map (.byte · c) ++ rest) = join bytes c (group rest) := by
  induction bytes with
  | nil => exact absurd rfl h
  | cons byte bytes ih =>
    rw [List.map_cons, List.cons_append, group]
    by_cases hb : bytes = []
    · subst hb
      rfl
    · rw [ih hb, join_join]
      rfl

theorem merge_eq_group {effects : List (Effect × Context)} (h : Pieces effects) :
    merge effects = group (items effects) := by
  induction effects with
  | nil => rfl
  | cons e effects ih =>
    have hrest := ih fun e' he' => h e' (List.mem_cons_of_mem _ he')
    obtain ⟨effect, c⟩ := e
    have hi : items ((effect, c) :: effects) = effect.items c ++ items effects := by simp [items]
    rw [hi]
    cases effect with
    | terminal bytes =>
      have hne : bytes ≠ [] := by
        rintro rfl
        exact h _ List.mem_cons_self rfl
      rw [Effect.items, group_bytes bytes c _ hne, ← hrest, merge]
    | operation operation | rejected rejection => simp [Effect.items, group, merge, hrest]

theorem Filter.byte_effect {f : Filter Context} {effect : Effect}
    (h : (f.byte byte context).2 = .effect effect) (bytes : Bytes) : effect ≠ .terminal bytes := by
  unfold Filter.byte at h
  cases hs : f.state <;> simp only [hs] at h
  case osc52 =>
    split at h
    · cases h
      simp
    split at h
    · cases h
      split <;> simp
    · split at h <;> cases h
  case discardOversized =>
    split at h <;> cases h
    simp
  case otherString => cases h
  case ground => split at h <;> cases h
  case prefixed =>
    split at h
    · cases h
    · split at h <;> cases h

theorem Pieces.snoc {effects : List (Effect × Context)} {e : Effect × Context} (h : Pieces effects)
    (he : e.1 ≠ .terminal []) : Pieces (effects ++ [e]) := by
  intro e' he'
  rcases List.mem_append.mp he' with he' | he'
  · exact h e' he'
  · rwa [List.mem_singleton.mp he']

theorem Pieces.flush (h : Pieces feed.effects) : Pieces (feed.flush context).effects := by
  unfold Feed.flush
  split
  next => exact h
  next hne => exact h.snoc (by simpa using hne)

theorem Pieces.feeds (chunk : Bytes) (h : Pieces feed.effects) :
    Pieces (chunk.foldl (Feed.step context) feed).effects := by
  induction chunk generalizing feed with
  | nil => exact h
  | cons byte chunk ih =>
    refine ih ?_
    unfold Feed.step
    rcases hb : feed.filter.byte byte context with ⟨filter, action⟩
    cases action with
    | none => exact h
    | flush => exact h.flush
    | text bytes => exact h
    | effect effect => exact h.snoc (Filter.byte_effect (congrArg Prod.snd hb) [])

theorem feedAll_pieces (filter : Filter Context) (chunks : List Bytes) :
    Pieces (feedAll filter context chunks) := by
  induction chunks generalizing filter with
  | nil => exact fun e he => absurd he (by simp [feedAll])
  | cons chunk chunks ih =>
    have hf : Pieces ([] : List (Effect × Context)) := fun e he => absurd he (by simp)
    intro e he
    rcases List.mem_append.mp he with he | he
    · exact (Pieces.flush (Pieces.feeds chunk hf)) e he
    · exact ih _ e he

/-! ## Every chunking -/

/-- The output of the feeds `chunks` of a new filter is that of the unsplit stream after merging, and
it is the stream's text and the effects of its sequences, in stream order. -/
def Ordered (initial context : Context) (stream : Bytes) (chunks : List Bytes) : Prop :=
  merge (feedAll { context := initial } context chunks) = merge (feedAll { context := initial } context [stream]) ∧
    items (feedAll { context := initial } context chunks) = (parse initial context stream).items context

/-- Text and sequences make up every stream, and all its chunkings are filtered in order exactly when
no sequence ends while bytes of its feed wait to be flushed. -/
theorem filtered_in_order (initial context : Context) (stream : Bytes) :
    (parse initial context stream).Ok context stream ∧
    ((∀ chunks : List Bytes, chunks.flatten = stream → Ordered initial context stream chunks) ↔
      Clean initial context stream) := by
  refine ⟨parse_ok initial context stream, fun h => ?_, fun hcl => ?_⟩
  · obtain ⟨-, hi⟩ := h [stream] (by simp)
    have hu : items (feedAll { context := initial } context [stream]) =
        (whole initial context stream).items context := by
      have := (whole initial context stream).items_flush context
      rw [Feed.items, Feed.flush_terminal] at this
      simpa [feedAll, feedWithContext, whole] using this
    refine (lags stream).clean ?_
    rw [← hi, hu, Feed.items, weigh_bytes]
  have hi (chunks : List Bytes) (hc : chunks.flatten = stream) :
      items (feedAll { context := initial } context chunks) = (parse initial context stream).items context := by
    have ha := feedAll_items initial context [] chunks
      (by simpa [hc] using hcl)
    simpa [parse, Parse.items, hc] using ha
  intro chunks hc
  refine ⟨?_, hi chunks hc⟩
  rw [merge_eq_group (feedAll_pieces _ _), merge_eq_group (feedAll_pieces _ _), hi chunks hc,
    hi [stream] (by simp)]

/-- `ESC ESC ] 5 2 ; c ; ? BEL`: the first `ESC` comes after the read of the clipboard. -/
def cutOff : Bytes := ESC :: introducer ++ [0x63, 0x3b, 0x3f, BEL]

/-- In one feed the operation overtakes the `ESC` before it; in two feeds it does not. -/
theorem cut_off_escape_overtaken :
    feedAll { context := () } () [cutOff] = [(.operation (.read .standard .bell), ()), (.terminal [ESC], ())] ∧
    feedAll { context := () } () [[ESC, ESC], cutOff.drop 2] =
      [(.terminal [ESC], ()), (.operation (.read .standard .bell), ())] ∧
    ¬∀ chunks : List Bytes, chunks.flatten = cutOff → Ordered () () cutOff chunks := by
  refine ⟨by decide +kernel, by decide +kernel, fun h => ?_⟩
  have hme := (h [[ESC, ESC], cutOff.drop 2] rfl).1
  revert hme
  decide +kernel

end SpaceTerm.Osc52
