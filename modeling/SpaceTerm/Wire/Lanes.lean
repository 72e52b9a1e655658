import SpaceTerm.Wire.Receive

/-! # Messages of several kinds at once -/

namespace SpaceTerm.Wire

variable {P : Payloads} {C : Postcard P} {kind : Kind} {held : Option Bytes} {m : CoreMessage P}
  {ms : List (CoreMessage P)} {a : Assembler} {f : RawFrame} {fs : List RawFrame}

/-- The kind byte of a frame. -/
def Kind.mark (kind : Kind) (goes : Bool) : UInt8 := if goes then kind.byte ||| more else kind.byte

theorem Kind.mark_spec (kind : Kind) (goes : Bool) :
    fromByte (kind.mark goes) = some kind ∧ (kind.mark goes &&& more != 0) = goes := by
  cases goes <;> cases kind <;> decide

/-- What is left to read of a kind, after the bytes held of its next message. -/
inductive Lane (C : Postcard P) (kind : Kind) : Option Bytes → List (CoreMessage P) → List RawFrame → Prop
  | done : Lane C kind none [] []
  /-- A frame, and the message it completes if it is the last. -/
  | part {held ms fs part} (out : Option (CoreMessage P)) (hb : part.length ≤ kind.maxFrameBody)
    (hm : (held.getD [] ++ part).length ≤ kind.maxMessage) (hd : kind.fromClient = false)
    (hout : ∀ m ∈ out, C.toExtend m = some (held.getD [] ++ part) ∧ m.kind = kind ∧ m.validate = true)
    (h : Lane C kind (if out.isNone then some (held.getD [] ++ part) else none) ms fs) :
    Lane C kind held (out.toList ++ ms) (⟨kind.mark out.isNone, part⟩ :: fs)

/-! ### Sending -/

theorem CoreMessage.kind_fromClient (m : CoreMessage P) : m.kind.fromClient = false := by
  cases m with
  | reply id result =>
    unfold CoreMessage.kind
    dsimp only
    split <;> rfl
  | _ => rfl

theorem chunks_spec {n : Nat} (hn : 0 < n) (bytes : Bytes) :
    (chunks n bytes).flatten = bytes ∧ ∀ part ∈ chunks n bytes, part.length ≤ n := by
  fun_induction chunks n bytes with
  | case1 bytes h => simp [h.resolve_right hn.ne']
  | case2 bytes h ih =>
    refine ⟨by rw [List.flatten_cons, ih.1, List.take_append_drop], List.forall_mem_cons.mpr ⟨?_, ih.2⟩⟩
    exact List.length_take_le ..

theorem Lane.parts {body part : Bytes} {parts : List Bytes} (h : Lane C m.kind none ms fs) (hv : m.validate = true)
    (hbody : C.toExtend m = some body) (hm : body.length ≤ m.kind.maxMessage)
    (he : held.getD [] ++ (part :: parts).flatten = body) (hb : ∀ p ∈ part :: parts, p.length ≤ m.kind.maxFrameBody) :
    Lane C m.kind held (m :: ms) (frameParts m.kind (part :: parts) ++ fs) := by
  induction parts generalizing part held with
  | nil =>
    rw [List.flatten_singleton] at he
    subst he
    exact .part (some m) (hb part List.mem_cons_self) hm m.kind_fromClient (by simpa using ⟨hbody, hv⟩) h
  | cons next parts ih =>
    obtain ⟨hpart, hb⟩ := List.forall_mem_cons.mp hb
    rw [List.flatten_cons, ← List.append_assoc] at he
    refine .part none hpart ?_ m.kind_fromClient nofun (ih he hb)
    rw [← he, List.length_append] at hm
    omega

theorem Lane.encode {frames : List RawFrame} (he : encodeCore C m = .ok frames) (hv : m.validate = true)
    (h : Lane C m.kind none ms fs) : Lane C m.kind none (m :: ms) (frames ++ fs) := by
  unfold encodeCore at he
  split at he
  · cases he
  next body hbody =>
  split at he
  · cases he
  next hm =>
  split at he
  · next hb =>
    cases he
    exact .part (some m) hb (not_lt.mp hm) m.kind_fromClient (by simpa using ⟨hbody, hv⟩) h
  next hlong =>
  cases he
  obtain ⟨hflat, hb⟩ := chunks_spec (n := m.kind.maxFrameBody) (by cases m.kind <;> decide) body
  generalize chunks m.kind.maxFrameBody body = parts at hflat hb
  cases parts with
  | nil => exact absurd (hflat ▸ Nat.zero_le _) hlong
  | cons part parts => exact h.parts hv hbody (not_lt.mp hm) hflat hb

/-! ### Joining one frame -/

/-- The bytes held of a kind's message. -/
def Assembler.Holds (a : Assembler) (kind : Kind) (held : Option Bytes) : Prop :=
  (a.partials.filter (·.1 == kind)).Perm (held.toList.map (kind, ·))

theorem Assembler.holds_of_perm (held next : Option Bytes) {a' : Assembler} {rest}
    (ha : a.partials.Perm (held.toList.map (kind, ·) ++ rest)) (hrest : rest.filter (·.1 == kind) = [])
    (ha' : a'.partials.Perm (next.toList.map (kind, ·) ++ rest)) :
    a'.Holds kind next ∧ ∀ k h, k ≠ kind → a.Holds k h → a'.Holds k h := by
  refine ⟨(ha'.filter _).trans ?_, fun k h hne hh => (ha'.filter _).trans (.trans ?_ ((ha.filter _).symm.trans hh))⟩
  · cases next <;> simp [hrest]
  · cases next <;> cases held <;> simp [hne.symm]

/-- Joining a frame changes what is held of its own kind only. -/
theorem Assembler.join_part (hh : a.Holds kind held) (hk : Kind.fromByte f.kind = some kind)
    (hd : kind.fromClient = false) (hb : f.body.length ≤ kind.maxFrameBody)
    (hm : (held.getD [] ++ f.body).length ≤ kind.maxMessage) :
    ∃ a', a.join f false = .ok (if f.continued then none else some (kind, held.getD [] ++ f.body), a') ∧
      a'.Holds kind (if f.continued then some (held.getD [] ++ f.body) else none) ∧
      ∀ k h, k ≠ kind → a.Holds k h → a'.Holds k h := by
  unfold join
  simp only [hk, hd, bne_self_eq_false, Bool.false_eq_true, if_false, if_neg (not_lt.mpr hb)]
  cases hi : a.partials.findIdx? (·.1 == kind) with
  | some index =>
    obtain ⟨hlt, hkind, -⟩ := List.findIdx?_eq_some_iff_getElem.mp hi
    have hperm := List.getElem_cons_eraseIdx_perm hlt
    have hone := (hperm.filter (Prod.fst · == kind)).trans hh
    rw [List.filter_cons, if_pos hkind] at hone
    cases held with
    | none => cases List.perm_nil.mp hone
    | some b =>
      obtain ⟨hat, hrest⟩ := List.cons.inj (List.perm_singleton.mp hone)
      rw [hat] at hperm
      simp only [List.getElem?_eq_getElem hlt, hat, Option.elim_some, Option.getD_some, finish] at hm ⊢
      simp only [if_neg (not_lt.mpr hm)]
      split
      · exact ⟨_, rfl, holds_of_perm (some b) _ hperm.symm hrest (List.set_perm_cons_eraseIdx hlt _)⟩
      · exact ⟨_, rfl, holds_of_perm (some b) _ hperm.symm hrest (swapRemove_perm hlt)⟩
  | none =>
    have hnew : a.partials.filter (·.1 == kind) = [] :=
      List.filter_eq_nil_iff.mpr fun p hp => by simpa using List.findIdx?_eq_none_iff.mp hi p hp
    rw [Holds, hnew] at hh
    cases held with
    | some b => cases List.nil_perm.mp hh
    | none =>
      simp only [Option.getD_none, List.nil_append, finish] at hm ⊢
      simp only [if_neg (not_lt.mpr hm)]
      split
      · exact ⟨_, rfl, holds_of_perm none _ (.refl _) hnew (List.perm_append_singleton ..)⟩
      · exact ⟨_, rfl, holds_of_perm none _ (.refl _) hnew (.refl _)⟩

/-- The next frame of a kind changes nothing of another kind. -/
theorem Lane.step (hC : C.Inverts) (hh : a.Holds kind held) (h : Lane C kind held ms (f :: fs)) :
    f.Ok ∧ ∃ out a' held' ms', a.core C f = .ok (out, a') ∧ ms = out.toList ++ ms' ∧ (∀ m ∈ out, m.kind = kind) ∧
      Lane C kind held' ms' fs ∧ a'.Holds kind held' ∧ ∀ k h, k ≠ kind → a.Holds k h → a'.Holds k h := by
  cases h with
  | @part _ ms _ part out hb hm hd hout hrest =>
    obtain ⟨hk, hc⟩ := kind.mark_spec out.isNone
    obtain ⟨a', hj, hholds⟩ := Assembler.join_part (f := ⟨kind.mark out.isNone, part⟩) hh hk hd hb hm
    simp only [RawFrame.continued, hc] at hj hholds
    refine ⟨⟨kind, hk, hb⟩, out, a', _, ms, ?_, rfl, fun m hm => (hout m hm).2.1, hrest, hholds⟩
    rw [Assembler.core, hj]
    cases out with
    | none => rfl
    | some m =>
      obtain ⟨hbody, rfl, hv⟩ := hout m rfl
      change (Assembler.decode C m.kind _ >>= _) = _
      rw [Assembler.decode, hC m _ hbody]
      change (if m.validate then _ else _) = _
      rw [if_pos hv]
      rfl

/-! ### Receiving -/

theorem reads_lanes (hC : C.Inverts) {sent : Kind → List (CoreMessage P)} (hknown : ∀ f ∈ fs, Kind.fromByte f.kind ≠ none)
    (h : ∀ kind, ∃ held, a.Holds kind held ∧ Lane C kind held (sent kind) (fs.filter (Kind.fromByte ·.kind == some kind))) :
    ∃ ms, Reads (Assembler.core C) (fs.flatMap RawFrame.bytes) a ms (.ok ([], {})) ∧
      ∀ kind, ms.filter (·.kind == kind) = sent kind := by
  induction fs generalizing a sent with
  | nil =>
    have hdone (kind : Kind) : a.Holds kind none ∧ sent kind = [] := by
      obtain ⟨held, hh, hl⟩ := h kind
      generalize sent kind = ms at hl ⊢
      cases hl
      exact ⟨hh, rfl⟩
    obtain ⟨_ | ⟨p, _⟩⟩ := a
    · exact ⟨[], .waits rfl, fun kind => (hdone kind).2.symm⟩
    · have := (hdone p.1).1
      simp [Assembler.Holds] at this
  | cons f fs ih =>
    obtain ⟨kind, hkind⟩ := Option.ne_none_iff_exists'.mp (hknown f List.mem_cons_self)
    obtain ⟨held, hh, hlane⟩ := h kind
    rw [List.filter_cons_of_pos (by simp [hkind])] at hlane
    obtain ⟨hok, out, a', held', ms', hcore, hms, hout, hnext, hholds, hothers⟩ := hlane.step hC hh
    obtain ⟨ms, hreads, hsent⟩ := @ih a' (Function.update sent kind ms')
      (fun g hg => hknown g (List.mem_cons_of_mem _ hg)) fun k => by
        by_cases hk : k = kind
        · subst hk
          exact ⟨held', hholds, by simpa using hnext⟩
        · obtain ⟨held, hh, hl⟩ := h k
          rw [List.filter_cons_of_neg (by simpa [hkind] using Ne.symm hk)] at hl
          exact ⟨held, hothers k held hk hh, by simpa [hk] using hl⟩
    refine ⟨out.toList ++ ms, .joined (parsePrefix_whole hok _) hcore ?_, fun k => ?_⟩
    · rwa [List.flatMap_cons, List.drop_left]
    · rw [List.filter_append, hsent]
      by_cases hk : k = kind
      · subst hk
        simpa [hms] using hout
      · simpa [hk] using fun m hm he => hk (he.symm.trans (hout m hm))

/-- Every kind's frames, as `frames` encodes its messages, come mixed and cut in any way: the client reads each
message once, those of a kind in the order they were sent, and holds nothing after the last. -/
theorem receive_sent (hC : C.Inverts) (frames : CoreMessage P → List RawFrame) {sent : Kind → List (CoreMessage P)}
    (fs : List RawFrame) {chunks : List Bytes}
    (hsent : ∀ kind, ∀ m ∈ sent kind, m.kind = kind ∧ m.validate = true ∧ encodeCore C m = .ok (frames m))
    (hknown : ∀ f ∈ fs, Kind.fromByte f.kind ≠ none)
    (hframes : ∀ kind, fs.filter (Kind.fromByte ·.kind == some kind) = (sent kind).flatMap frames)
    (hbytes : chunks.flatten = fs.flatMap RawFrame.bytes) :
    ∃ ms r, receiveWith (Assembler.core C) {} {} chunks = (ms, .ok (r, {})) ∧ r.rest = [] ∧
      ∀ kind, ms.filter (·.kind == kind) = sent kind := by
  have hlane (kind : Kind) : Lane C kind none (sent kind) ((sent kind).flatMap frames) := by
    have hsent := hsent kind
    generalize sent kind = ms at hsent ⊢
    induction ms with
    | nil => exact .done
    | cons m ms ih =>
      obtain ⟨⟨rfl, hv, he⟩, hrest⟩ := List.forall_mem_cons.mp hsent
      exact (ih hrest).encode he hv
  obtain ⟨ms, hreads, hread⟩ := reads_lanes (a := {}) hC hknown fun kind => ⟨none, .refl _, hframes kind ▸ hlane kind⟩
  have hgot := @receiveWith_reads _ (Assembler.core C) {} {} chunks fun _ => rfl
  rw [FrameReader.rest, List.drop_nil, List.nil_append, hbytes] at hgot
  obtain ⟨rfl, hout⟩ := hreads.deterministic hgot
  generalize receiveWith (Assembler.core C) {} {} chunks = got at hout hread ⊢
  obtain ⟨ms, e | ⟨r, a⟩⟩ := got
  · cases hout
  · obtain ⟨hrest, rfl⟩ := Prod.mk.inj (Except.ok.inj hout)
    exact ⟨ms, r, rfl, hrest.symm, hread⟩

/-- Payloads without content. -/
def bare : Payloads :=
  ⟨Unit, fun _ => true, Unit, Unit, Unit, fun _ => true, Unit, fun _ => true, fun _ => true, Unit, (), Unit,
    fun _ => true, Unit, Unit, Unit, fun _ => 0, Unit⟩

/-- What postcard does with pings and pongs: a nonce below 128 is one byte of its varint. Longer nonces and
the other messages are left out. -/
def pings : Postcard bare where
  toExtend
    | .ping n | .pong n => if n < 128 then some [.ofNat n] else none
    | _ => none
  takeFromBytes
    | .corePing, b :: rest => if b < 128 then some (.ping b.toNat, rest) else none
    | .corePong, b :: rest => if b < 128 then some (.pong b.toNat, rest) else none
    | _, _ => none

theorem pings_inverts : pings.Inverts := by
  have hbyte {n : Nat} (h : n < 128) : (UInt8.ofNat n).toNat = n ∧ UInt8.ofNat n < 128 := by
    have hn : (UInt8.ofNat n).toNat = n := by simp; omega
    exact ⟨hn, UInt8.lt_iff_toNat_lt.mpr (by rw [hn]; exact h)⟩
  intro m b h
  cases m <;> simp only [pings, reduceCtorEq, Option.ite_none_right_eq_some, Option.some.injEq] at h
  all_goals
    obtain ⟨hn, rfl⟩ := h
    simp [pings, CoreMessage.kind, hbyte hn]

/-- Two pongs with a ping between them, cut inside the headers. -/
theorem receive_sent_pings : ∃ ms r, receiveWith (Assembler.core pings) {} {}
    [[0, 0], [0, 2, 0x47, 1, 0, 0], [0, 2, 0x46, 7, 0, 0, 0], [2, 0x47, 2]] = (ms, .ok (r, {})) ∧ r.rest = [] ∧
      ∀ kind, ms.filter (·.kind == kind) =
        if kind = .corePing then [.ping 7] else if kind = .corePong then [.pong 1, .pong 2] else [] := by
  refine receive_sent pings_inverts (fun m => [⟨m.kind.byte, (pings.toExtend m).getD []⟩])
    [⟨0x47, [1]⟩, ⟨0x46, [7]⟩, ⟨0x47, [2]⟩] (fun kind => ?_) (by decide) (fun kind => ?_) rfl
  · cases kind <;> simp <;> decide
  · cases kind <;> rfl

end SpaceTerm.Wire
