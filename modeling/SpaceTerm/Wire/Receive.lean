import SpaceTerm.Wire.Frame

/-! # Reading a stream in chunks

However a stream is cut into chunks, reading it gives the same messages and stops at the same error: what
`parsePrefix` says of some bytes it still says when more follow, unless it waits (`parsePrefix_append`).
`Reads` says what is read off a stream in one piece; reading chunks is that (`receiveWith_reads`). -/

namespace SpaceTerm.Wire

variable {P : Payloads} {C : Postcard P}

/-- A frame that `parsePrefix` accepts. -/
def RawFrame.Ok (f : RawFrame) : Prop :=
  ∃ kind, Kind.fromByte f.kind = some kind ∧ f.body.length ≤ kind.maxFrameBody

theorem Kind.maxFrameBody_le (kind : Kind) : kind.maxFrameBody ≤ Wire.maxFrameBody := by
  cases kind <;> decide

theorem fromBeBytes_toBeBytes {n : Nat} (h : n < 2 ^ 32) :
    fromBeBytes (.ofNat (n / 2 ^ 24)) (.ofNat (n / 2 ^ 16)) (.ofNat (n / 2 ^ 8)) (.ofNat n) = n := by
  simp only [fromBeBytes, UInt8.toNat_ofNat']
  omega

/-- A frame is read back, whatever follows it. -/
theorem parsePrefix_whole {f : RawFrame} (hf : f.Ok) (rest : Bytes) :
    parsePrefix (f.bytes ++ rest) = .ok (some (f, f.bytes.length)) := by
  obtain ⟨kind, hki, hl⟩ := hf
  have hb : f.body.length + 1 < 2 ^ 32 := by
    have := hl.trans kind.maxFrameBody_le
    have : Wire.maxFrameBody < 2 ^ 31 := by decide
    omega
  simp only [RawFrame.bytes, toBeBytes, List.cons_append, List.nil_append, parsePrefix, fromBeBytes_toBeBytes hb, hki,
    Nat.add_sub_cancel, Nat.succ_ne_zero, if_false, gt_iff_lt, if_neg (not_lt.mpr hl)]
  rw [if_neg (by simp), List.take_left, Nat.add_comm 4]
  rfl

/-- More bytes change nothing unless `parsePrefix` waits. -/
theorem parsePrefix_append {bytes : Bytes} (h : parsePrefix bytes ≠ .ok none) (more : Bytes) :
    parsePrefix (bytes ++ more) = parsePrefix bytes := by
  match bytes with
  | [] | [_] | [_, _] | [_, _, _] | [_, _, _, _] => cases h rfl
  | a :: b :: c :: d :: kindByte :: rest =>
    simp only [parsePrefix, List.cons_append] at h ⊢
    split
    · rfl
    next hzero =>
    cases hkind : Kind.fromByte kindByte with
    | none => rfl
    | some kind =>
      simp only [if_neg hzero, hkind] at h ⊢
      split
      · rfl
      next hbig =>
      rw [if_neg hbig] at h
      have hlen : ¬rest.length < fromBeBytes a b c d - 1 := fun hlen => h (if_pos hlen)
      rw [if_neg hlen, if_neg (by rw [List.length_append]; omega), List.take_append_of_le_length (by omega)]

/-- What `parsePrefix` waits for fits a frame, whatever the length in its header. -/
theorem parsePrefix_wait {bytes : Bytes} (h : parsePrefix bytes = .ok none) :
    bytes.length < headerBytes + Wire.maxFrameBody := by
  match bytes with
  | [] | [_] | [_, _] | [_, _, _] | [_, _, _, _] => simp [headerBytes, Wire.maxFrameBody, maxFrameBytes]
  | a :: b :: c :: d :: kindByte :: rest =>
    simp only [parsePrefix] at h
    split at h
    · cases h
    split at h
    · cases h
    next kind _ =>
    have hkind := kind.maxFrameBody_le
    repeat' split at h
    all_goals cases h
    simp only [List.length_cons, headerBytes]
    omega

/-! ### One chunk after the other -/

namespace FrameReader

/-- The bytes not yet returned as frames. -/
def rest (r : FrameReader) : Bytes := r.buffer.drop r.read

theorem rest_feed (r : FrameReader) (bytes : Bytes) : (r.feed bytes).rest = r.rest ++ bytes := by
  unfold feed rest
  split
  · rfl
  · have : r.read = 0 := by omega
    simp [this]

theorem length_buffer_feed (r : FrameReader) (bytes : Bytes) :
    (r.feed bytes).buffer.length = r.rest.length + bytes.length := by
  unfold feed rest
  split
  · simp
  · have : r.read = 0 := by omega
    simp [this]

theorem nextFrame_some {r next : FrameReader} {frame : RawFrame} (h : r.nextFrame = .ok (some frame, next)) :
    ∃ used, parsePrefix r.rest = .ok (some (frame, used)) ∧ next.rest = r.rest.drop used ∧
      next.buffer = r.buffer := by
  unfold nextFrame at h
  split at h
  · cases h
  · cases h
  next used hp =>
  cases h
  exact ⟨used, hp, (List.drop_drop ..).symm, rfl⟩

end FrameReader

section

variable {M : Type} (join : Assembler → RawFrame → Except DecodeError (Option M × Assembler))

/-- Reads frames until one is not whole: the messages, and the state or the first error. -/
def drainWith (r : FrameReader) (a : Assembler) : List M × Except DecodeError (FrameReader × Assembler) :=
  match _h : r.nextFrame with
  | .error e => ([], .error e)
  | .ok (none, _) => ([], .ok (r, a))
  | .ok (some frame, next) =>
    match join a frame with
    | .error e => ([], .error e)
    | .ok (message, a) => (message.toList ++ (drainWith next a).1, (drainWith next a).2)
termination_by r.buffer.length - r.read
decreasing_by all_goals exact FrameReader.nextFrame_read _h

def receiveWith (r : FrameReader) (a : Assembler) :
    List Bytes → List M × Except DecodeError (FrameReader × Assembler)
  | [] => ([], .ok (r, a))
  | chunk :: chunks =>
    match drainWith join (r.feed chunk) a with
    | (messages, .error e) => (messages, .error e)
    | (messages, .ok (r, a)) => (messages ++ (receiveWith r a chunks).1, (receiveWith r a chunks).2)

/-- What is read off a stream: messages, and then an error or the bytes of a frame that is not whole. -/
inductive Reads : Bytes → Assembler → List M → Except DecodeError (Bytes × Assembler) → Prop
  | waits {bytes a} (h : parsePrefix bytes = .ok none) : Reads bytes a [] (.ok (bytes, a))
  | refused {bytes a e} (h : parsePrefix bytes = .error e) : Reads bytes a [] (.error e)
  | failed {bytes a e frame used} (h : parsePrefix bytes = .ok (some (frame, used))) (hj : join a frame = .error e) :
    Reads bytes a [] (.error e)
  | joined {bytes a frame used message a' messages out} (h : parsePrefix bytes = .ok (some (frame, used)))
    (hj : join a frame = .ok (message, a')) (hrest : Reads (bytes.drop used) a' messages out) :
    Reads bytes a (message.toList ++ messages) out

variable {join}

namespace Reads

variable {bytes rest more : Bytes} {a a' : Assembler} {ms ns : List M} {out out' : Except DecodeError (Bytes × Assembler)}

theorem waiting (h : Reads join bytes a ms (.ok (rest, a'))) : parsePrefix rest = .ok none := by
  generalize ho : Except.ok (rest, a') = out at h
  induction h with
  | waits h =>
    cases ho
    exact h
  | refused | failed => cases ho
  | joined _ _ _ ih => exact ih ho

theorem deterministic (h : Reads join bytes a ms out) (h' : Reads join bytes a ns out') : ms = ns ∧ out = out' := by
  induction h generalizing ns out' with
  | waits h | refused h => cases h' <;> simp_all
  | failed h hj => cases h' <;> simp_all
  | joined h hj _ ih =>
    cases h' with
    | waits h' | refused h' => simp_all
    | failed h' hj' => simp_all
    | joined h' hj' hrest =>
      rw [h] at h'
      cases h'
      rw [hj] at hj'
      cases hj'
      obtain ⟨rfl, rfl⟩ := ih hrest
      exact ⟨rfl, rfl⟩

/-- What follows an error is not read; what follows bytes that wait is read with them. -/
def Resumes (join : Assembler → RawFrame → Except DecodeError (Option M × Assembler)) (more : Bytes) (ns : List M)
    (out' : Except DecodeError (Bytes × Assembler)) : Except DecodeError (Bytes × Assembler) → Prop
  | .error e => ns = [] ∧ out' = .error e
  | .ok (rest, a) => Reads join (rest ++ more) a ns out'

theorem append (h : Reads join bytes a ms out) (hmore : Resumes join more ns out' out) :
    Reads join (bytes ++ more) a (ms ++ ns) out' := by
  have hsame {bytes : Bytes} {x : Except DecodeError (Option (RawFrame × Nat))} (h : parsePrefix bytes = x)
      (hx : x ≠ .ok none) : parsePrefix (bytes ++ more) = x := by
    rw [parsePrefix_append (h ▸ hx), h]
  induction h with
  | waits => exact hmore
  | refused h =>
    obtain ⟨rfl, rfl⟩ := hmore
    exact .refused (hsame h nofun)
  | failed h hj =>
    obtain ⟨rfl, rfl⟩ := hmore
    exact .failed (hsame h nofun) hj
  | joined h hj _ ih =>
    rw [List.append_assoc]
    refine .joined (hsame h nofun) hj ?_
    rw [List.drop_append_of_le_length (parsePrefix_used h).2]
    exact ih hmore

end Reads

variable (join) in
theorem drainWith_reads (r : FrameReader) (a : Assembler) :
    Reads join r.rest a (drainWith join r a).1 ((drainWith join r a).2.map fun s => (s.1.rest, s.2)) := by
  fun_induction drainWith join r a with
  | case1 r a e h =>
    unfold FrameReader.nextFrame at h
    split at h
    · next hp =>
      cases h
      exact .refused hp
    all_goals cases h
  | case2 r a _ h =>
    unfold FrameReader.nextFrame at h
    split at h
    · cases h
    · next hp => exact .waits hp
    · cases h
  | case3 r a frame next h e hj =>
    obtain ⟨used, hp, -⟩ := FrameReader.nextFrame_some h
    exact .failed hp hj
  | case4 r a frame next h message a' hj ih =>
    obtain ⟨used, hp, hrest, -⟩ := FrameReader.nextFrame_some h
    exact .joined hp hj (hrest ▸ ih)

variable (join) in
theorem receiveWith_reads {r : FrameReader} (a : Assembler) {chunks : List Bytes}
    (h : chunks = [] → parsePrefix r.rest = .ok none) :
    Reads join (r.rest ++ chunks.flatten) a (receiveWith join r a chunks).1
      ((receiveWith join r a chunks).2.map fun s => (s.1.rest, s.2)) := by
  induction chunks generalizing r a with
  | nil =>
    rw [List.flatten_nil, List.append_nil]
    exact .waits (h rfl)
  | cons chunk chunks ih =>
    have hd := drainWith_reads join (r.feed chunk) a
    rw [FrameReader.rest_feed] at hd
    rw [List.flatten_cons, ← List.append_assoc, receiveWith]
    split
    · next he =>
      rw [he] at hd
      have hstop : Reads join (r.rest ++ chunk ++ chunks.flatten) a (_ ++ []) (.error _) := hd.append ⟨rfl, rfl⟩
      rwa [List.append_nil] at hstop
    · next he =>
      rw [he] at hd
      exact hd.append (ih _ fun _ => hd.waiting)

end

/-! ### The server's side -/

/-- What `Assembler::client` uses of the messages that a client sends. -/
structure ClientCodec (M : Type) where
  takeFromBytes : Kind → Bytes → Option (M × Bytes)
  validate : M → Bool

/-- Server side: the next message of the client, once its last frame arrives. -/
def Assembler.client {M : Type} (C : ClientCodec M) (a : Assembler) (frame : RawFrame) :
    Except DecodeError (Option M × Assembler) := do
  let (joined, next) ← a.join frame true
  match joined with
  | none => return (none, next)
  | some (kind, body) =>
    match C.takeFromBytes kind body with
    | some (message, []) => if C.validate message then return (some message, next) else throw .outOfBounds
    | _ => throw .malformed

/-- One message of a kind is in progress at most: its bytes are held to the limit of a message, its first
frame to that of a frame. -/
structure Assembler.Bounded (a : Assembler) : Prop where
  kinds : (a.partials.map (·.1)).Nodup
  bodies : ∀ p ∈ a.partials, p.1.fromClient = true ∧ (p.2.length ≤ p.1.maxMessage ∨ p.2.length ≤ p.1.maxFrameBody)

theorem swapRemove_perm {α : Type} {xs : List α} {i : Nat} (h : i < xs.length) :
    (swapRemove xs i).Perm (xs.eraseIdx i) := by
  rcases List.eq_nil_or_concat xs with rfl | ⟨ys, last, rfl⟩
  · cases h
  rw [List.concat_eq_append] at h ⊢
  rw [swapRemove, List.getLast?_concat]
  rcases lt_or_eq_of_le (Nat.lt_succ_iff.mp (by simpa using h)) with hi | rfl
  · simp only [List.set_append_left _ _ hi, List.dropLast_concat, List.eraseIdx_append_of_lt_length hi]
    exact (List.set_perm_cons_eraseIdx hi last).trans (List.perm_append_singleton ..).symm
  · rw [List.eraseIdx_append_of_length_le le_rfl]
    simp

variable {M : Type} {D : ClientCodec M} {a a' : Assembler} {frame : RawFrame}

theorem Assembler.Bounded.join {out : Option (Kind × Bytes)} (h : a.Bounded)
    (hj : a.join frame true = .ok (out, a')) : a'.Bounded := by
  unfold Assembler.join at hj
  split at hj
  · cases hj
  next kind hk =>
  split at hj
  · cases hj
  next hdir =>
  have hclient : kind.fromClient = true := by simpa using hdir
  split at hj
  · cases hj
  next hframe =>
  split at hj
  · next index hidx =>
    obtain ⟨hi, hkind, -⟩ := List.findIdx?_eq_some_iff_getElem.mp hidx
    dsimp only at hj
    split at hj
    · cases hj
    next hmessage =>
    split at hj
    · cases hj
      refine ⟨?_, fun p hp => ?_⟩
      · have hi' : index < (a.partials.map (·.1)).length := by rwa [List.length_map]
        have hset := List.set_getElem_self hi'
        rw [List.getElem_map, eq_of_beq hkind] at hset
        rw [List.map_set, hset]
        exact h.kinds
      · rcases List.mem_or_eq_of_mem_set hp with hp | rfl
        · exact h.bodies p hp
        · exact ⟨hclient, .inl (not_lt.mp hmessage)⟩
    · unfold finish at hj
      split at hj
      · cases hj
      cases hj
      have hperm := swapRemove_perm hi
      exact ⟨(hperm.map _).nodup_iff.mpr (h.kinds.sublist (List.eraseIdx_sublist ..|>.map _)),
        fun p hp => h.bodies p ((List.eraseIdx_sublist ..).subset (hperm.subset hp))⟩
  next hnew =>
  split at hj
  · cases hj
    refine ⟨?_, fun p hp => ?_⟩
    · rw [List.map_append, List.nodup_append]
      refine ⟨h.kinds, List.nodup_singleton _, fun k hk' k' hk'' => ?_⟩
      obtain ⟨p, hp, rfl⟩ := List.mem_map.mp hk'
      have := List.findIdx?_eq_none_iff.mp hnew p hp
      simp_all
    · rcases List.mem_append.mp hp with hp | hp
      · exact h.bodies p hp
      · obtain rfl := List.mem_singleton.mp hp
        exact ⟨hclient, .inr (not_lt.mp hframe)⟩
  · unfold finish at hj
    split at hj
    · cases hj
    cases hj
    exact h

theorem Assembler.Bounded.client {out : Option M} (h : a.Bounded) (hc : a.client D frame = .ok (out, a')) : a'.Bounded := by
  unfold Assembler.client at hc
  cases hj : a.join frame true with
  | error e =>
    rw [hj] at hc
    cases hc
  | ok joined =>
    obtain ⟨joined, next⟩ := joined
    have hnext := h.join hj
    simp only [hj, bind, Except.bind] at hc
    repeat' split at hc
    all_goals cases hc
    all_goals exact hnext

/-- What is held after a chunk. -/
theorem drainWith_bounded {r r' : FrameReader} (h : a.Bounded)
    (hd : (drainWith (Assembler.client D) r a).2 = .ok (r', a')) : a'.Bounded ∧ r'.buffer = r.buffer := by
  fun_induction drainWith (Assembler.client D) r a with
  | case1 | case3 => cases hd
  | case2 r a =>
    cases hd
    exact ⟨h, rfl⟩
  | case4 r a frame next hn message a₁ hj ih =>
    obtain ⟨-, -, -, hb⟩ := FrameReader.nextFrame_some hn
    obtain ⟨ha, hb'⟩ := ih (h.client hj) hd
    exact ⟨ha, hb'.trans hb⟩

theorem receiveWith_bounded {r r' : FrameReader} {chunks : List Bytes} (h : a.Bounded) (hw : parsePrefix r.rest = .ok none)
    (hr : (receiveWith (Assembler.client D) r a chunks).2 = .ok (r', a')) :
    a'.Bounded ∧ r'.rest.length < headerBytes + Wire.maxFrameBody ∧
      ∀ chunk ∈ chunks.getLast?, r'.buffer.length < headerBytes + Wire.maxFrameBody + chunk.length := by
  induction chunks generalizing r a with
  | nil =>
    cases hr
    exact ⟨h, parsePrefix_wait hw, nofun⟩
  | cons chunk chunks ih =>
    rw [receiveWith] at hr
    split at hr
    · cases hr
    next messages r₁ a₁ he =>
    obtain ⟨ha, hb⟩ := drainWith_bounded h (by rw [he])
    have hreads := drainWith_reads (Assembler.client D) (r.feed chunk) a
    rw [he] at hreads
    obtain ⟨ha', hrest, hlast⟩ := ih ha hreads.waiting hr
    refine ⟨ha', hrest, fun last hl => ?_⟩
    cases chunks with
    | nil =>
      obtain rfl : chunk = last := by simpa using hl
      cases hr
      have := parsePrefix_wait hw
      rw [hb, FrameReader.length_buffer_feed]
      omega
    | cons next rest => exact hlast last hl

/-- A stream of a client is read the same however it is cut, and what is held of it meanwhile is bounded by
the limits of frames and messages. -/
theorem client_reading {M : Type} (C : ClientCodec M) (chunks chunks' : List Bytes) (h : chunks.flatten = chunks'.flatten) :
    (receiveWith (Assembler.client C) {} {} chunks).1 = (receiveWith (Assembler.client C) {} {} chunks').1 ∧
    ((receiveWith (Assembler.client C) {} {} chunks).2.map fun s => (s.1.rest, s.2)) =
      ((receiveWith (Assembler.client C) {} {} chunks').2.map fun s => (s.1.rest, s.2)) ∧
    ∀ r a, (receiveWith (Assembler.client C) {} {} chunks).2 = .ok (r, a) →
      a.Bounded ∧ r.rest.length < headerBytes + maxFrameBody ∧
      ∀ chunk ∈ chunks.getLast?, r.buffer.length < headerBytes + maxFrameBody + chunk.length := by
  have hread (chunks : List Bytes) :=
    @receiveWith_reads M (Assembler.client C) {} {} chunks fun _ => rfl
  obtain ⟨hms, hout⟩ := (hread chunks).deterministic (h ▸ hread chunks')
  exact ⟨hms, hout, fun r a hr => receiveWith_bounded (a := {}) ⟨List.nodup_nil, fun _ hp => by cases hp⟩ rfl hr⟩

/-- Any bytes of a kind, as their number. -/
def counting : ClientCodec Nat := ⟨fun _ body => some (body.length, []), fun _ => true⟩

theorem client_reading_cut : [[0, 0, 0, 2, 8, 7]].flatten = [[0, 0], [0, 2, 8], [7]].flatten ∧
    (receiveWith (Assembler.client counting) {} {} [[0, 0, 0, 2, 8, 7]]).1 =
      (receiveWith (Assembler.client counting) {} {} [[0, 0], [0, 2, 8], [7]]).1 :=
  ⟨rfl, (client_reading counting [[0, 0, 0, 2, 8, 7]] [[0, 0], [0, 2, 8], [7]] rfl).1⟩

end SpaceTerm.Wire
