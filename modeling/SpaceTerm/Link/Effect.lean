import SpaceTerm.Link.Model

/-! # What a call does to the link

Every call of a client thread and of the I/O thread is a sequence of a few effects on the link's
state. The invariants of `Numbering` are proved once for each effect. -/

namespace SpaceTerm.Link
open Lib Wire
variable {X : Contents} {E : Encoding X} {s t u : State X}

/-- A message that numbers nothing. -/
structure Plain (m : ClientMessage X) : Prop where
  introduces : m.introduces? = none
  requestId : m.requestId? = none
  serialOn : ∀ c, m.serialOn? c = none

structure Inputs (channel last : Nat) (ms : List (ClientMessage X)) : Prop where
  introduces : ms.filterMap (·.introduces?) = []
  requestIds : ms.filterMap (·.requestId?) = []
  serials : ms.filterMap (·.serialOn? channel) = List.range' (last + 1) ms.length
  others : ∀ c, c ≠ channel → ms.filterMap (·.serialOn? c) = []
  channels : ∀ m ∈ ms, m.channel? = some channel
  bounded : ms ≠ [] → last + ms.length ≤ u32Max

def messages (queued : List (Queued X)) : List (ClientMessage X) := queued.map (·.message)

@[simp] theorem messages_append (q q' : List (Queued X)) :
    messages (q ++ q') = messages q ++ messages q' := List.map_append

inductive Effect (E : Encoding X) (s : State X) : State X → Prop
  /-- Fields that neither side's numbering depends on. -/
  | idle (nextId unbound : Nat) (releases : List Channel) (l0Bytes : Nat) :
    Effect E s { s with
      nextId := nextId, unbound := unbound, releases := releases, l0Bytes := l0Bytes }
  | request (id : RequestId) (operation : Operation X) (bytes : Nat) (usable : s.closed = false)
      (room : s.requests.length < maxRequestsInFlight) (fresh : id ∉ s.requests)
      (accepted : E.accepts (.request id operation) = true) (plain : operation.introduced = none) :
    Effect E s { s with
      l0 := s.l0 ++ [⟨.request id operation, bytes, false⟩], requests := id :: s.requests }
  | bind (id : RequestId) (claim : X.Claim) (bytes : Nat) (usable : s.closed = false)
      (room : s.requests.length < maxRequestsInFlight) (fresh : id ∉ s.requests)
      (accepted : E.accepts (.request id (.introduce (s.nextChannel + 1) claim)) = true) :
    Effect E s { s with
      l0 := s.l0 ++ [⟨.request id (.introduce (s.nextChannel + 1) claim), bytes, false⟩]
      requests := id :: s.requests
      nextChannel := s.nextChannel + 1
      channels := s.channels ++ [⟨s.nextChannel + 1, 0, false⟩] }
  | post (queued : Queued X) (usable : s.closed = false) (plain : Plain queued.message)
      (accepted : E.accepts queued.message = true)
      (introduced : ∀ c, queued.message.channel? = some c → 0 < c ∧ c ≤ s.nextChannel) :
    Effect E s { s with l0 := s.l0 ++ [queued] }
  | background (m : ClientMessage X) (usable : s.closed = false) (plain : Plain m)
      (accepted : E.accepts m = true)
      (introduced : ∀ c, m.channel? = some c → 0 < c ∧ c ≤ s.nextChannel) :
    Effect E s { s with l1 := s.l1 ++ [m] }
  | inputs (state : ChannelState) (queued : List (Queued X)) (usable : s.closed = false)
      (known : state ∈ s.channels) (inputs : Inputs state.channel state.serial (messages queued))
      (accepted : ∀ m ∈ messages queued, E.accepts m = true) :
    Effect E s { s with
      l0 := s.l0 ++ queued
      channels := s.channels.map fun c =>
        if c.channel = state.channel then { c with serial := state.serial + queued.length } else c }
  | touch (state : ChannelState) (known : state ∈ s.channels) :
    Effect E s { s with
      channels := s.channels.map fun c =>
        if c.channel = state.channel then { c with serial := state.serial } else c }
  | forget (channel : Channel) : Effect E s { s with channels := s.channels.filter (·.channel != channel) }
  | mark (f : ChannelState → ChannelState)
      (same : ∀ c, (f c).channel = c.channel ∧ (f c).serial = c.serial) :
    Effect E s { s with channels := s.channels.map f }
  | fail (releases : List Channel) (f : ChannelState → ChannelState)
      (same : ∀ c, (f c).channel = c.channel ∧ (f c).serial = c.serial) :
    Effect E s { s with
      closed := true, l0 := [], l1 := [], releases := releases, requests := []
      channels := s.channels.map f }

abbrev Effects (E : Encoding X) : State X → State X → Prop := Relation.ReflTransGen (Effect E)

theorem Effect.one (h : Effect E s t) : Effects E s t := .single h

theorem wrapping_injective {n i j : Nat} (hi : i ≤ maxRequestsInFlight) (hj : j ≤ maxRequestsInFlight)
    (h : (n + i + 1) % (u32Max + 1) = (n + j + 1) % (u32Max + 1)) : i = j := by
  unfold u32Max at h
  unfold maxRequestsInFlight at hi hj
  omega

theorem freeId_isSome (hr : s.requests.length < maxRequestsInFlight) : s.freeId.isSome = true := by
  unfold State.freeId
  rw [List.find?_isSome]
  by_contra hnone
  simp only [not_exists, not_and, Bool.not_eq_true, Bool.not_eq_false', List.contains_iff_mem] at hnone
  have hno : ((List.range (s.requests.length + 1)).map fun i =>
      (s.nextId + i + 1) % (u32Max + 1)).Nodup := by
    refine List.Nodup.map_on (fun i hi j hj he => ?_) List.nodup_range
    rw [List.mem_range] at hi hj
    exact wrapping_injective (by omega) (by omega) he
  have hl := (List.subperm_of_subset hno hnone).length_le
  rw [List.length_map, List.length_range] at hl
  omega

/-- A request is refused as busy exactly at the limit: below it, the search for an unused id succeeds. -/
theorem sendRequest_busy_iff (operation : Operation X) :
    (s.sendRequest E operation).1 = .error .busy ↔ maxRequestsInFlight ≤ s.requests.length := by
  unfold State.sendRequest
  split
  · next h => simpa using h
  next h =>
  obtain ⟨id, hid⟩ := Option.isSome_iff_exists.mp (freeId_isSome (not_le.mp h))
  rw [hid]
  dsimp only
  split <;> simpa using h

theorem freeId_fresh {id : RequestId} (h : s.freeId = some id) : id ∉ s.requests := by
  have := List.find?_some h
  simpa using this

theorem sendRequest_cases (operation : Operation X) :
    (∃ e nextId, s.sendRequest E operation = (.error e, { s with nextId := nextId })) ∨
    ∃ id bytes, s.requests.length < maxRequestsInFlight ∧ id ∉ s.requests ∧
      E.accepts (.request id operation) = true ∧
      s.sendRequest E operation = (.ok id, { s with
        nextId := id
        l0 := s.l0 ++ [⟨.request id operation, bytes, false⟩]
        requests := id :: s.requests }) := by
  unfold State.sendRequest
  split
  · exact .inl ⟨_, s.nextId, rfl⟩
  case isFalse hr =>
    split
    · exact .inl ⟨_, s.nextId, rfl⟩
    case h_2 id hi =>
      split
      · exact .inl ⟨_, id, rfl⟩
      case h_2 bytes hb =>
        refine .inr ⟨id, _, by omega, freeId_fresh hi, ?_, rfl⟩
        unfold Encoding.accepts
        rw [hb]
        rfl

theorem sendRequest_effects {operation : Operation X} (usable : s.closed = false)
    (plain : operation.introduced = none) : Effects E s (s.sendRequest E operation).2 := by
  rcases sendRequest_cases (E := E) (s := s) operation with ⟨e, nextId, h⟩ | ⟨id, bytes, hr, hf, ha, h⟩
  · rw [h]
    exact (Effect.idle nextId s.unbound s.releases s.l0Bytes).one
  rw [h]
  exact .tail (Effect.request id operation bytes usable hr hf ha plain).one
    (.idle id s.unbound s.releases s.l0Bytes)

theorem sendRequest_closed (operation : Operation X) :
    (s.sendRequest E operation).2.closed = s.closed ∧
      (s.sendRequest E operation).2.nextChannel = s.nextChannel := by
  rcases sendRequest_cases (E := E) (s := s) operation with ⟨e, nextId, h⟩ | ⟨id, bytes, -, -, -, h⟩
  · rw [h]
    exact ⟨rfl, rfl⟩
  · rw [h]
    exact ⟨rfl, rfl⟩

theorem sendReleasesOf_effects {releases : List Channel} (usable : s.closed = false) :
    Effects E s (s.sendReleasesOf E releases) ∧ (s.sendReleasesOf E releases).closed = false ∧
      (s.sendReleasesOf E releases).nextChannel = s.nextChannel := by
  induction releases generalizing s with
  | nil => exact ⟨(Effect.idle s.nextId s.unbound [] s.l0Bytes).one, usable, rfl⟩
  | cons channel rest ih =>
    unfold State.sendReleasesOf
    split
    · obtain ⟨hc, hne⟩ := sendRequest_closed (E := E) (s := s) (.release channel)
      obtain ⟨he, hc', hne'⟩ := @ih (s.sendRequest E (.release channel)).2
        (hc.trans usable)
      exact ⟨(sendRequest_effects usable rfl).trans he, hc', hne'.trans hne⟩
    · exact ⟨(Effect.idle s.nextId s.unbound (channel :: rest) s.l0Bytes).one, usable, rfl⟩

theorem sendReleases_effects (usable : s.closed = false) :
    Effects E s (s.sendReleases E) ∧ (s.sendReleases E).closed = false ∧
      (s.sendReleases E).nextChannel = s.nextChannel :=
  sendReleasesOf_effects usable

theorem request_effects {operation : Operation X} (plain : operation.introduced = none) :
    Effects E s (s.request E operation).2 := by
  unfold State.request
  split
  · exact .refl
  case isFalse hc =>
    obtain ⟨he, hc', -⟩ := sendReleases_effects (E := E) (s := s) (by simpa using hc)
    exact he.trans (sendRequest_effects hc' plain)

theorem bind_effects (claim : X.Claim) : Effects E s (s.bind E claim).2 := by
  unfold State.bind
  split
  · exact .refl
  case isFalse hc =>
    split
    · exact .refl
    dsimp only
    obtain ⟨he, hc', hne⟩ :=
      sendReleases_effects (E := E) (s := s) (by simpa using hc)
    rcases sendRequest_cases (E := E) (s := s.sendReleases E) (.introduce (s.nextChannel + 1) claim)
      with ⟨e, nextId, h⟩ | ⟨id, bytes, hr, hf, ha, h⟩
    · rw [h]
      exact he.tail (.idle nextId _ _ _)
    rw [h]
    rw [← hne] at ha ⊢
    exact (he.tail (.bind id claim bytes hc' hr hf ha)).tail
      (.idle id _ _ _)

/-! ### Messages of a channel -/

theorem queueAll_cases (ms : List (ClientMessage X)) (urgent : Bool) :
    (∃ e, s.queueAll E ms urgent = (.error e, s)) ∨
    (∀ m ∈ ms, E.accepts m = true) ∧
      ((urgent = false ∧ s.queueAll E ms urgent = (.ok (), { s with l1 := s.l1 ++ ms })) ∨
        ∃ queued l0Bytes, urgent = true ∧ messages queued = ms ∧ s.queueAll E ms urgent =
          (.ok (), { s with l0Bytes := l0Bytes, l0 := s.l0 ++ queued })) := by
  unfold State.queueAll
  split
  · exact .inl ⟨_, rfl⟩
  case h_2 queued hqueued =>
    have hma : ∀ {ms : List (ClientMessage X)} {queued : List (Queued X)},
        (ms.mapM fun m => (E.checked m).map fun n => (⟨m, n + headerBytes, true⟩ : Queued X)) =
          some queued → messages queued = ms ∧ ∀ m ∈ ms, E.accepts m = true := by
      intro ms
      induction ms with
      | nil =>
        intro queued h
        obtain rfl : ([] : List (Queued X)) = queued := by simpa using h
        exact ⟨rfl, nofun⟩
      | cons m ms ih =>
        intro queued h
        rw [List.mapM_cons] at h
        obtain ⟨q, hq, h⟩ := Option.bind_eq_some_iff.mp h
        obtain ⟨rest, hrest, h⟩ := Option.bind_eq_some_iff.mp h
        obtain rfl : q :: rest = queued := by simpa using h
        obtain ⟨n, hn, rfl⟩ := Option.map_eq_some_iff.mp hq
        obtain ⟨hme, ha⟩ := ih hrest
        refine ⟨by rw [← hme]; rfl, fun m' hm' => ?_⟩
        rcases List.mem_cons.mp hm' with rfl | hm'
        · unfold Encoding.accepts
          rw [hn]
          rfl
        · exact ha m' hm'
    obtain ⟨hme, ha⟩ := hma hqueued
    split
    case isTrue hu => exact .inr ⟨ha, .inl ⟨hu, rfl⟩⟩
    case isFalse hu =>
      dsimp only
      split
      · exact .inl ⟨_, rfl⟩
      · exact .inr ⟨ha, .inr ⟨queued, _, by simpa using hu, hme, rfl⟩⟩

theorem send_effects {m : ClientMessage X} {urgent : Bool} (plain : Plain m)
    (introduced : s.closed = false → ∀ c, m.channel? = some c → 0 < c ∧ c ≤ s.nextChannel) :
    Effects E s (s.send E m urgent).2 := by
  unfold State.send
  split
  · exact .refl
  case isFalse hc =>
    have usable : s.closed = false := by simpa using hc
    rcases queueAll_cases (E := E) (s := s) [m] urgent with ⟨e, h⟩ | ⟨ha, ⟨-, h⟩ | ⟨queued, l0Bytes, -, hms, h⟩⟩
    · rw [h]
    · rw [h]
      exact (Effect.background m usable plain (ha m (List.mem_singleton_self m))
        (introduced usable)).one
    rw [h]
    obtain ⟨q, rfl⟩ := List.length_eq_one_iff.mp (by simpa [messages] using congrArg List.length hms)
    obtain rfl : q.message = m := by simpa [messages] using hms
    exact .tail (Effect.post q usable plain (ha _ (List.mem_singleton_self _))
      (introduced usable)).one (.idle s.nextId s.unbound s.releases l0Bytes)

/-- A call on a channel queues nothing, or what `build` made of the channel's last serial. -/
theorem sendChannel_cases (channel : Channel) (urgent : Bool)
    (build : Nat → Except LinkError (List (ClientMessage X) × Nat)) :
    (s.sendChannel E channel urgent build).2 = s ∨
    ∃ state ms serial, s.closed = false ∧ state ∈ s.channels ∧ state.channel = channel ∧
      build state.serial = .ok (ms, serial) ∧ (∀ m ∈ ms, E.accepts m = true) ∧
      ((urgent = false ∧ (s.sendChannel E channel urgent build).2 = { s with
          l1 := s.l1 ++ ms
          channels := s.channels.map fun c =>
            if c.channel = channel then { c with serial := serial } else c }) ∨
        ∃ queued l0Bytes, urgent = true ∧ messages queued = ms ∧
          (s.sendChannel E channel urgent build).2 = { s with
            l0Bytes := l0Bytes
            l0 := s.l0 ++ queued
            channels := s.channels.map fun c =>
              if c.channel = channel then { c with serial := serial } else c }) := by
  unfold State.sendChannel
  split
  · exact .inl rfl
  case isFalse hc =>
    split
    · exact .inl rfl
    case h_2 state hf =>
      split
      · exact .inl rfl
      split
      · exact .inl rfl
      case h_2 ms serial hb =>
        have hs : state.channel = channel := by simpa using List.find?_some hf
        rcases queueAll_cases (E := E) (s := s) ms urgent with ⟨e, h⟩ | ⟨ha, h⟩
        · rw [h]
          exact .inl rfl
        refine .inr ⟨state, ms, serial, by simpa using hc, List.mem_of_find?_eq_some hf, hs, hb, ha, ?_⟩
        rcases h with ⟨hu, h⟩ | ⟨queued, l0Bytes, hu, hms, h⟩
        · rw [h]
          exact .inl ⟨hu, rfl⟩
        · rw [h]
          exact .inr ⟨queued, l0Bytes, hu, hms, rfl⟩

variable {channel : Channel}

theorem sendSimple_effects {m : ClientMessage X} {urgent : Bool} (plain : Plain m)
    (hch : m.channel? = some channel)
    (known : ∀ state ∈ s.channels, 0 < state.channel ∧ state.channel ≤ s.nextChannel) :
    Effects E s (s.sendSimple E channel m urgent).2 := by
  unfold State.sendSimple
  rcases sendChannel_cases (E := E) (s := s) channel urgent fun serial => .ok ([m], serial) with
    h | ⟨state, ms, serial, usable, hs, hch', hb, hac, h⟩
  · rw [h]
  obtain ⟨rfl, rfl⟩ : [m] = ms ∧ state.serial = serial := by simpa using hb
  have hi : ∀ c, m.channel? = some c → 0 < c ∧ c ≤ s.nextChannel := by
    intro c hc
    rw [hch] at hc
    cases hc
    exact hch' ▸ known state hs
  subst hch'
  have ha := hac m (List.mem_singleton_self m)
  rcases h with ⟨-, h⟩ | ⟨queued, l0Bytes, -, hms, h⟩
  · rw [h]
    exact .tail (Effect.background m usable plain ha hi).one (.touch state hs)
  obtain ⟨q, rfl⟩ := List.length_eq_one_iff.mp (by simpa [messages] using congrArg List.length hms)
  obtain rfl : q.message = m := by simpa [messages] using hms
  rw [h]
  exact .tail (.tail (Effect.post q usable plain ha hi).one
    (.touch state hs)) (.idle s.nextId s.unbound s.releases l0Bytes)

theorem sendChannel_inputs {build : Nat → Except LinkError (List (ClientMessage X) × Nat)}
    (hb : ∀ last ms serial, build last = .ok (ms, serial) → Inputs channel last ms ∧ serial = last + ms.length) :
    Effects E s (s.sendChannel E channel true build).2 := by
  rcases sendChannel_cases (E := E) (s := s) channel true build with
    h | ⟨state, ms, serial, usable, hs, rfl, ho, ha, ⟨hf, -⟩ | ⟨queued, l0Bytes, -, rfl, h⟩⟩
  · rw [h]
  · cases hf
  obtain ⟨hi, rfl⟩ := hb _ _ _ ho
  have hl : (messages queued).length = queued.length := List.length_map _
  rw [h, hl]
  exact .tail (Effect.inputs state queued usable hs hi ha).one
    (.idle s.nextId s.unbound s.releases l0Bytes)

theorem inputs_nil (channel last : Nat) : Inputs channel last ([] : List (ClientMessage X)) :=
  ⟨rfl, rfl, rfl, fun _ _ => rfl, nofun, fun h => absurd rfl h⟩

theorem Inputs.cons {channel last : Nat} {ms : List (ClientMessage X)} (body : InputBody X)
    (hl : last + 1 ≤ u32Max) (h : Inputs channel (last + 1) ms) :
    Inputs channel last (.input channel (last + 1) body :: ms) := by
  refine ⟨h.introduces, h.requestIds, ?_, fun c hc => ?_, fun m hm => ?_, fun _ => ?_⟩
  · have hserial : (ClientMessage.input channel (last + 1) body).serialOn? channel = some (last + 1) := if_pos rfl
    rw [List.filterMap_cons_some hserial, h.serials, List.length_cons, List.range'_succ]
  · have hserial : (ClientMessage.input channel (last + 1) body).serialOn? c = none :=
      if_neg fun h => hc h.symm
    rw [List.filterMap_cons_none hserial, h.others c hc]
  · rcases List.mem_cons.mp hm with rfl | hm
    · rfl
    · exact h.channels m hm
  · rw [List.length_cons]
    by_cases hms : ms = []
    · subst hms
      simpa using hl
    · have := h.bounded hms
      omega

theorem pasteMessages_inputs {pieces : List Text} {last serial : Nat}
    {ms : List (ClientMessage X)} (h : pasteMessages channel last pieces = .ok (ms, serial)) :
    Inputs channel last ms ∧ serial = last + ms.length := by
  induction pieces generalizing last ms serial with
  | nil =>
    obtain ⟨rfl, rfl⟩ : [] = ms ∧ last = serial := by simpa [pasteMessages] using h
    exact ⟨inputs_nil channel last, rfl⟩
  | cons piece rest ih =>
    unfold pasteMessages at h
    split at h
    · cases h
    case isFalse hl =>
      split at h
      · cases h
      case h_2 ms' last' hrest =>
        cases h
        obtain ⟨hi, rfl⟩ := ih hrest
        refine ⟨hi.cons _ (by omega), ?_⟩
        rw [List.length_cons]
        omega

theorem input_effects {events : X.Events} : Effects E s (s.input E channel events).2 := by
  refine sendChannel_inputs fun last ms serial h => ?_
  split at h
  · cases h
  case isFalse hl =>
    cases h
    exact ⟨(inputs_nil channel (last + 1)).cons _ (by omega), rfl⟩

theorem paste_effects {text : Text} : Effects E s (s.paste E channel text).2 := by
  unfold State.paste
  split
  · exact .refl
  · exact sendChannel_inputs fun last ms serial h => pasteMessages_inputs h

theorem release_effects : Effects E s (s.release E channel) := by
  unfold State.release
  split
  · exact .refl
  have hf : Effects E s { s with channels := s.channels.filter (·.channel != channel) } :=
    (Effect.forget channel).one
  dsimp only
  split
  · exact hf
  case isFalse h =>
    have usable : s.closed = false := by
      simp only [Bool.or_eq_true, not_or, Bool.not_eq_true] at h
      exact h.2
    refine (hf.tail (.idle s.nextId s.unbound (s.releases ++ [channel]) s.l0Bytes)).trans ?_
    exact (sendReleases_effects (s := { s with
      channels := s.channels.filter (·.channel != channel)
      releases := s.releases ++ [channel] }) usable).1

theorem fail_effects : Effects E s s.fail := by
  unfold State.fail
  split
  · exact .refl
  · exact (Effect.fail [] (fun c => { c with ended := true }) fun _ => ⟨rfl, rfl⟩).one

theorem sink_effects {last : Bool} : Effects E s (s.sink channel last) := by
  refine (Effect.mark _ fun c => ?_).one
  split <;> exact ⟨rfl, rfl⟩

theorem frame_effects {frame : Nat} (introduced : s.closed = false → 0 < channel ∧ channel ≤ s.nextChannel) :
    Effects E s (s.frame E channel frame) := by
  unfold State.frame
  split
  · exact .refl
  refine send_effects ⟨rfl, rfl, fun _ => rfl⟩ fun usable c hc => ?_
  cases hc
  exact introduced usable

end SpaceTerm.Link
