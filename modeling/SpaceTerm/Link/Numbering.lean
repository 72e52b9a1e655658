import SpaceTerm.Link.Effect

/-! # Both ends agree on the numbers

The messages received, on the wire and queued at L0 form one stream. Its claims introduce the channels
1, 2, 3 and so on, its inputs on a channel carry the serials 1, 2, 3 and so on, and no message of a
channel comes before the claim that introduces it. The server's counters are those of the part it
received. -/

namespace SpaceTerm.Link
open Lib Wire
variable {X : Contents} {E : Encoding X}

def introductions (ms : List (ClientMessage X)) : List Channel := ms.filterMap (·.introduces?)

def serialsOn (channel : Channel) (ms : List (ClientMessage X)) : List Nat :=
  ms.filterMap (·.serialOn? channel)

def requestIds (ms : List (ClientMessage X)) : List RequestId := ms.filterMap (·.requestId?)

@[simp] theorem introductions_append (ms ms' : List (ClientMessage X)) :
    introductions (ms ++ ms') = introductions ms ++ introductions ms' := List.filterMap_append

@[simp] theorem serialsOn_append (c : Channel) (ms ms' : List (ClientMessage X)) :
    serialsOn c (ms ++ ms') = serialsOn c ms ++ serialsOn c ms' := List.filterMap_append

@[simp] theorem requestIds_append (ms ms' : List (ClientMessage X)) :
    requestIds (ms ++ ms') = requestIds ms ++ requestIds ms' := List.filterMap_append

@[simp] theorem requestIds_request (id : RequestId) (operation : Operation X) :
    requestIds [.request id operation] = [id] := rfl

@[simp] theorem serialsOn_request (c : Channel) (id : RequestId) (operation : Operation X) :
    serialsOn c [.request id operation] = [] := rfl

theorem Plain.lists {m : ClientMessage X} (h : Plain m) :
    introductions [m] = [] ∧ requestIds [m] = [] ∧ ∀ c, serialsOn c [m] = [] :=
  ⟨List.filterMap_cons_none h.introduces, List.filterMap_cons_none h.requestId,
    fun c => List.filterMap_cons_none (h.serialOn c)⟩

def Follows (ms : List (ClientMessage X)) : Prop :=
  ∀ before m behind, ms = before ++ m :: behind → ∀ c, m.channel? = some c → c ∈ introductions before

theorem Follows.left {ms ms' : List (ClientMessage X)} (h : Follows (ms ++ ms')) : Follows ms := by
  rintro before m behind rfl c hc
  exact h before m (behind ++ ms') (by simp) c hc

theorem Follows.append {ms added : List (ClientMessage X)} (h : Follows ms)
    (ha : ∀ m ∈ added, ∀ c, m.channel? = some c → c ∈ introductions ms) :
    Follows (ms ++ added) := by
  intro before m behind he c hc
  rcases List.append_eq_append_iff.mp he with ⟨tail, rfl, ht⟩ | ⟨tail, rfl, ht⟩
  · rw [introductions_append]
    exact List.mem_append_left _ (ha m (ht ▸ by simp) c hc)
  cases tail with
  | nil =>
    rw [List.append_nil] at ha
    exact ha m (by rw [List.nil_append] at ht; rw [← ht]; simp) c hc
  | cons m' tail =>
    obtain ⟨rfl, rfl⟩ := List.cons.inj ht
    exact h before m tail rfl c hc

theorem eq_range_of_append {l l' : List Nat} {n : Nat} (h : l ++ l' = List.range' 1 n) :
    l = List.range' 1 l.length ∧ l.length ≤ n := by
  obtain ⟨k, hk, hl, -⟩ := List.range'_eq_append_iff.mp h.symm
  have hle : l.length = k := by rw [hl, List.length_range']
  exact ⟨by rw [hle]; exact hl, by omega⟩

theorem next_of_append {l l' : List Nat} {k n x : Nat} (hl : l = List.range' 1 k)
    (h : l ++ x :: l' = List.range' 1 n) : x = k + 1 ∧ k + 1 ≤ n := by
  have hs : (l ++ [x]) ++ l' = List.range' 1 n := by simpa using h
  obtain ⟨he, hle⟩ := eq_range_of_append hs
  have hlen : l.length = k := by rw [hl, List.length_range']
  rw [List.length_append, hlen, List.length_singleton] at he hle
  rw [List.range'_concat, hl] at he
  have hx := (List.append_inj' he rfl).2
  exact ⟨by simpa [Nat.add_comm] using hx, hle⟩

namespace System
variable {s t : System X}

def stream (s : System X) : List (ClientMessage X) := s.received ++ s.wire ++ messages s.link.l0

/-- The requests between the client's map and its removal of the reply. -/
def inFlight (s : System X) : List RequestId :=
  requestIds (s.wire ++ messages s.link.l0) ++ s.server.requests ++ s.replies

variable (E) in
structure Sends (s : System X) : Prop where
  accepted : ∀ m ∈ s.stream ++ s.link.l1, E.accepts m = true
  introduced : ∃ n, introductions s.stream = List.range' 1 n ∧ (s.link.closed = false → n = s.link.nextChannel)
  serials : ∀ c, ∃ k, serialsOn c s.stream = List.range' 1 k ∧ k ≤ u32Max ∧
    (s.link.closed = false → ∀ state ∈ s.link.channels, state.channel = c → state.serial = k)
  known : ∀ state ∈ s.link.channels, 0 < state.channel ∧ state.channel ≤ s.link.nextChannel
  follows : Follows s.stream
  behind : ∀ m ∈ s.link.l1, Plain m ∧ ∀ c, m.channel? = some c → 0 < c ∧ c ≤ s.link.nextChannel
  nodup : s.inFlight.Nodup
  limit : s.inFlight.length ≤ maxRequestsInFlight
  requests : s.link.closed = false → s.inFlight ⊆ s.link.requests

structure Receives (s : System X) : Prop where
  highest : ∀ c, 0 < c → c ≤ s.server.highestChannel → c ∈ introductions s.received
  introduced : s.server.closing = false → introductions s.received = List.range' 1 s.server.highestChannel
  serials : s.server.closing = false → ∀ p ∈ s.server.serials, serialsOn p.1 s.received = List.range' 1 p.2

variable (E) in
structure Inv (s : System X) : Prop where
  sends : s.Sends E
  receives : s.Receives

theorem Inv.start : Inv E ({} : System X) where
  sends :=
    { accepted := nofun
      introduced := ⟨0, rfl, fun _ => rfl⟩
      serials := fun c => ⟨0, rfl, Nat.zero_le _, nofun⟩
      known := nofun
      follows := fun before m behind h => by simp [stream, messages] at h
      behind := nofun
      nodup := List.nodup_nil
      limit := Nat.zero_le _
      requests := fun _ => List.nil_subset _ }
  receives :=
    { highest := fun c hpo hl => absurd hl (Nat.not_le.mpr hpo)
      introduced := fun _ => rfl
      serials := nofun }

/-! ## The client's calls -/

variable {c : Channel}

theorem Sends.introduced_of_le (h : s.Sends E) (usable : s.link.closed = false)
    (hp : 0 < c) (hl : c ≤ s.link.nextChannel) : c ∈ introductions s.stream := by
  obtain ⟨n, hn, hne⟩ := h.introduced
  rw [hn, hne usable, List.mem_range'_1]
  exact ⟨hp, by rw [Nat.add_comm]; exact Nat.lt_succ_of_le hl⟩

theorem Sends.room (h : s.Sends E) (usable : s.link.closed = false)
    (hr : s.link.requests.length < maxRequestsInFlight) : s.inFlight.length < maxRequestsInFlight :=
  Nat.lt_of_le_of_lt (List.subperm_of_subset h.nodup (h.requests usable)).length_le hr

variable {link : State X}

theorem stream_queue (queued : List (Queued X)) (hl0 : link.l0 = s.link.l0 ++ queued) :
    ({ s with link := link } : System X).stream = s.stream ++ messages queued := by
  unfold stream
  rw [hl0, messages_append, ← List.append_assoc]

theorem inFlight_request {id : RequestId} {operation : Operation X} {bytes : Nat}
    (hl0 : link.l0 = s.link.l0 ++ [⟨.request id operation, bytes, false⟩]) :
    List.Perm ({ s with link := link } : System X).inFlight (id :: s.inFlight) := by
  unfold inFlight
  rw [hl0, messages_append, ← List.append_assoc, requestIds_append]
  change (((requestIds (s.wire ++ messages s.link.l0) ++ [id]) ++ s.server.requests) ++ s.replies).Perm _
  rw [List.append_assoc, List.append_assoc, List.append_assoc]
  exact List.perm_middle

theorem inFlight_plain (link : State X) {queued : List (Queued X)}
    (hl0 : link.l0 = s.link.l0 ++ queued) (hp : requestIds (messages queued) = []) :
    ({ s with link := link } : System X).inFlight = s.inFlight := by
  unfold inFlight
  rw [hl0, messages_append, ← List.append_assoc, requestIds_append, hp, List.append_nil]

theorem Sends.serials_fresh (h : s.Sends E) (usable : s.link.closed = false)
    (hc : s.link.nextChannel < c) : serialsOn c s.stream = [] := by
  refine List.filterMap_eq_nil_iff.mpr fun m hm => ?_
  cases m with
  | input channel serial body =>
    refine if_neg fun he => ?_
    subst he
    obtain ⟨before, behind, he⟩ := List.append_of_mem hm
    obtain ⟨n, hn, hne⟩ := h.introduced
    have hmem : channel ∈ introductions s.stream := by
      rw [he, introductions_append]
      exact List.mem_append_left _ (h.follows before _ behind he channel rfl)
    rw [hn, hne usable, List.mem_range'_1] at hmem
    exact absurd hmem.2 (by rw [Nat.add_comm]; exact Nat.not_lt.mpr hc)
  | _ => rfl

theorem Sends.extend (h : s.Sends E) (usable : s.link.closed = false)
    {queued : List (Queued X)} {j : Nat} (hl0 : link.l0 = s.link.l0 ++ queued)
    (hl1 : link.l1 = s.link.l1) (hne : link.nextChannel = s.link.nextChannel + j)
    (ha : ∀ m ∈ messages queued, E.accepts m = true)
    (hi : introductions (messages queued) = List.range' (s.link.nextChannel + 1) j)
    (hs : ∀ c k, serialsOn c s.stream = List.range' 1 k → k ≤ u32Max →
      (∀ state ∈ s.link.channels, state.channel = c → state.serial = k) →
      ∃ d, serialsOn c (messages queued) = List.range' (k + 1) d ∧ k + d ≤ u32Max ∧
        ∀ state ∈ link.channels, state.channel = c → state.serial = k + d)
    (hkn : ∀ state ∈ link.channels, 0 < state.channel ∧ state.channel ≤ link.nextChannel)
    (hf : ∀ m ∈ messages queued, ∀ c, m.channel? = some c → 0 < c ∧ c ≤ s.link.nextChannel)
    (hno : ({ s with link := link } : System X).inFlight.Nodup)
    (hli : ({ s with link := link } : System X).inFlight.length ≤ maxRequestsInFlight)
    (hr : ({ s with link := link } : System X).inFlight ⊆ link.requests) :
    ({ s with link := link } : System X).Sends E := by
  have hstr := stream_queue (s := s) queued hl0
  obtain ⟨n, hn, hcl⟩ := h.introduced
  have hn' := hcl usable
  refine ⟨fun m hm => ?_, ⟨n + j, ?_, fun _ => by rw [hne, hn']⟩, fun c => ?_, hkn, ?_,
    fun m hm => ?_, hno, hli, fun _ => hr⟩
  · rw [hstr] at hm
    change m ∈ (s.stream ++ messages queued) ++ link.l1 at hm
    rw [hl1] at hm
    simp only [List.mem_append] at hm
    rcases hm with (hm | hm) | hm
    · exact h.accepted m (List.mem_append_left _ hm)
    · exact ha m hm
    · exact h.accepted m (List.mem_append_right _ hm)
  · rw [hstr, introductions_append, hn, hi, ← hn', Nat.add_comm n 1]
    exact List.range'_append_1
  · obtain ⟨k, hk, hle, hst⟩ := h.serials c
    obtain ⟨d, hd, hle', hst'⟩ := hs c k hk hle (hst usable)
    refine ⟨k + d, ?_, hle', fun _ => hst'⟩
    rw [hstr, serialsOn_append, hk, hd, Nat.add_comm k 1]
    exact List.range'_append_1
  · rw [hstr]
    refine h.follows.append fun m hm c hc => ?_
    obtain ⟨hpo, hle⟩ := hf m hm c hc
    exact h.introduced_of_le usable hpo hle
  · obtain ⟨hp, hch⟩ := h.behind m (hl1 ▸ hm)
    refine ⟨hp, fun c hc => ⟨(hch c hc).1, ?_⟩⟩
    rw [hne]
    exact Nat.le_add_right_of_le (hch c hc).2

theorem Sends.requested (link : State X) (h : s.Sends E) (usable : s.link.closed = false)
    {id : RequestId} {operation : Operation X} {bytes : Nat}
    (hl0 : link.l0 = s.link.l0 ++ [⟨.request id operation, bytes, false⟩])
    (hli : link.requests = id :: s.link.requests)
    (room : s.link.requests.length < maxRequestsInFlight) (fresh : id ∉ s.link.requests) :
    ({ s with link := link } : System X).inFlight.Nodup ∧
    ({ s with link := link } : System X).inFlight.length ≤ maxRequestsInFlight ∧
    ({ s with link := link } : System X).inFlight ⊆ link.requests := by
  have hp := inFlight_request (s := s) hl0
  have hs := h.requests usable
  refine ⟨hp.nodup_iff.mpr (List.nodup_cons.mpr ⟨fun hi => fresh (hs hi), h.nodup⟩), ?_, ?_⟩
  · rw [hp.length_eq]
    exact h.room usable room
  intro id' hi'
  rw [hli]
  rcases List.mem_cons.mp (hp.subset hi') with rfl | hi'
  · exact List.mem_cons_self ..
  · exact List.mem_cons_of_mem _ (hs hi')

theorem serials_kept {ms : List (ClientMessage X)} {channels : List ChannelState} {k : Nat}
    (hms : serialsOn c ms = []) (hl : k ≤ u32Max)
    (hs : ∀ state ∈ channels, state.channel = c → state.serial = k) :
    ∃ d, serialsOn c ms = List.range' (k + 1) d ∧ k + d ≤ u32Max ∧
      ∀ state ∈ channels, state.channel = c → state.serial = k + d :=
  ⟨0, hms, hl, hs⟩

theorem Sends.table (h : s.Sends E) {channels : List ChannelState}
    (hs : ∀ c k, s.link.closed = false → (∀ state ∈ s.link.channels, state.channel = c → state.serial = k) →
      ∀ state ∈ channels, state.channel = c → state.serial = k)
    (hkn : ∀ state ∈ channels, ∃ state' ∈ s.link.channels, state'.channel = state.channel) :
    ({ s with link := { s.link with channels := channels } } : System X).Sends E := by
  refine { h with serials := fun c => ?_, known := fun state hst => ?_ }
  · obtain ⟨k, hk, hl, hst⟩ := h.serials c
    exact ⟨k, hk, hl, fun usable => hs c k usable (hst usable)⟩
  · obtain ⟨state', hst', he⟩ := hkn state hst
    exact he ▸ h.known state' hst'

theorem Sends.marked (h : s.Sends E) {f : ChannelState → ChannelState}
    (same : ∀ c, (f c).channel = c.channel ∧ (f c).serial = c.serial) :
    ({ s with link := { s.link with channels := s.link.channels.map f } } : System X).Sends E := by
  refine h.table (fun c k _ hserial state hs hc => ?_) fun state hs => ?_
  · obtain ⟨state', hs', rfl⟩ := List.mem_map.mp hs
    rw [(same state').2]
    exact hserial state' hs' ((same state').1 ▸ hc)
  · obtain ⟨state', hs', rfl⟩ := List.mem_map.mp hs
    exact ⟨state', hs', (same state').1.symm⟩

theorem Sends.failed (h : s.Sends E) (releases : List Channel) {f : ChannelState → ChannelState}
    (same : ∀ c, (f c).channel = c.channel ∧ (f c).serial = c.serial) :
    ({ s with link := { s.link with
        closed := true, l0 := [], l1 := [], releases := releases, requests := []
        channels := s.link.channels.map f } } : System X).Sends E := by
  -- what was queued is lost: the stream is a part of what it was
  have hstr : s.stream = (s.received ++ s.wire) ++ messages s.link.l0 := rfl
  have hsh : ∀ link : State X, link.l0 = [] →
      ({ s with link := link } : System X).stream = s.received ++ s.wire := by
    intro link hl0
    unfold stream
    rw [hl0]
    exact List.append_nil _
  have hflight : ∀ link : State X, link.l0 = [] →
      ({ s with link := link } : System X).inFlight.Sublist s.inFlight := by
    intro link hl0
    unfold inFlight
    rw [hl0]
    refine ((List.Sublist.filterMap _ ?_).append_right _).append_right _
    exact List.Sublist.append_left (List.nil_sublist _) _
  refine ⟨fun m hm => h.accepted m ?_, ?_, fun c => ?_, (h.marked same).known, ?_,
    nofun, h.nodup.sublist (hflight _ rfl),
    (hflight _ rfl).length_le.trans h.limit, nofun⟩
  · rw [hsh _ rfl] at hm
    rw [hstr, List.append_assoc]
    exact List.mem_append_left _ (by simpa using hm)
  · obtain ⟨n, hn, -⟩ := h.introduced
    rw [hstr, introductions_append] at hn
    rw [hsh _ rfl]
    exact ⟨_, (eq_range_of_append hn).1, nofun⟩
  · obtain ⟨k, hk, hle, -⟩ := h.serials c
    rw [hstr, serialsOn_append] at hk
    rw [hsh _ rfl]
    exact ⟨_, (eq_range_of_append hk).1, (eq_range_of_append hk).2.trans hle, nofun⟩
  · rw [hsh _ rfl]
    exact Follows.left (hstr ▸ h.follows)

theorem Sends.inputs (h : s.Sends E) {state : ChannelState} {queued : List (Queued X)}
    (usable : s.link.closed = false) (known : state ∈ s.link.channels)
    (inputs : Inputs state.channel state.serial (messages queued))
    (accepted : ∀ m ∈ messages queued, E.accepts m = true) :
    ({ s with link := { s.link with
        l0 := s.link.l0 ++ queued
        channels := s.link.channels.map fun c =>
          if c.channel = state.channel then { c with serial := state.serial + queued.length } else c } } :
      System X).Sends E := by
  have hflight := inFlight_plain (s := s) { s.link with
    l0 := s.link.l0 ++ queued
    channels := s.link.channels.map fun c =>
      if c.channel = state.channel then { c with serial := state.serial + queued.length } else c }
    rfl inputs.requestIds
  refine h.extend (j := 0) usable rfl rfl rfl accepted inputs.introduces
    (fun c k _ hle hserial => ?_) (fun state' hst' => ?_) (fun m hm c hc => ?_)
    (hflight ▸ h.nodup) (hflight ▸ h.limit) (hflight ▸ h.requests usable)
  · by_cases hc : state.channel = c
    · subst hc
      have hla := hserial state known rfl
      have hlen : (messages queued).length = queued.length := List.length_map _
      refine ⟨queued.length, by rw [← hlen, ← hla]; exact inputs.serials, ?_, fun state' hst' hc' => ?_⟩
      · cases queued with
        | nil => exact hle
        | cons q queued =>
          rw [← hlen, ← hla]
          exact inputs.bounded (List.cons_ne_nil _ _)
      · obtain ⟨state'', -, rfl⟩ := List.mem_map.mp hst'
        split at hc'
        case isTrue heq => rw [if_pos heq, hla]
        case isFalse hne => exact absurd hc' hne
    · refine serials_kept (inputs.others c fun h => hc h.symm) hle fun state' hst' hc' => ?_
      obtain ⟨state'', hst'', rfl⟩ := List.mem_map.mp hst'
      split at hc'
      case isTrue heq => exact absurd (heq.symm.trans hc') hc
      case isFalse hne =>
        rw [if_neg hne]
        exact hserial state'' hst'' hc'
  · obtain ⟨state'', hst'', rfl⟩ := List.mem_map.mp hst'
    split
    · exact h.known state'' hst''
    · exact h.known state'' hst''
  · rw [inputs.channels m hm] at hc
    cases hc
    exact h.known state known

theorem Sends.effect (h : s.Sends E) (he : Effect E s.link link) :
    ({ s with link := link } : System X).Sends E := by
  cases he with
  | idle nextId unbound releases l0Bytes =>
    exact { h with }
  | request id operation bytes usable room fresh accepted plain =>
    obtain ⟨hno, hli, hr⟩ := h.requested { s.link with
      l0 := s.link.l0 ++ [⟨.request id operation, bytes, false⟩]
      requests := id :: s.link.requests } usable rfl rfl room fresh
    refine h.extend (j := 0) usable rfl rfl rfl (fun m hm => ?_) ?_
      (fun c k _ hle hst => serials_kept rfl hle hst) h.known (fun m hm c hc => ?_) hno hli
      hr
    · rw [List.mem_singleton.mp hm]
      exact accepted
    · exact List.filterMap_cons_none plain
    · rw [List.mem_singleton.mp hm] at hc
      cases hc
  | bind id claim bytes usable room fresh accepted =>
    obtain ⟨hno, hli, hr⟩ := h.requested { s.link with
      l0 := s.link.l0 ++ [⟨.request id (.introduce (s.link.nextChannel + 1) claim), bytes, false⟩]
      requests := id :: s.link.requests
      nextChannel := s.link.nextChannel + 1
      channels := s.link.channels ++ [⟨s.link.nextChannel + 1, 0, false⟩] } usable rfl rfl room fresh
    refine h.extend (j := 1) usable rfl rfl rfl (fun m hm => ?_) rfl (fun c k hk hle hst => ?_)
      (fun state hst => ?_) (fun m hm c hc => ?_) hno hli hr
    · rw [List.mem_singleton.mp hm]
      exact accepted
    · refine serials_kept rfl hle fun state hmem hc => ?_
      rcases List.mem_append.mp hmem with hmem | hmem
      · exact hst state hmem hc
      -- nothing was sent on the new channel
      rw [List.mem_singleton.mp hmem] at hc ⊢
      rw [h.serials_fresh usable (hc ▸ Nat.lt_succ_self _)] at hk
      cases k with
      | zero => rfl
      | succ k => cases hk
    · rcases List.mem_append.mp hst with hst | hst
      · exact ⟨(h.known state hst).1, Nat.le_succ_of_le (h.known state hst).2⟩
      · rw [List.mem_singleton.mp hst]
        exact ⟨Nat.succ_pos _, le_refl _⟩
    · rw [List.mem_singleton.mp hm] at hc
      cases hc
  | post queued usable plain accepted introduced =>
    obtain ⟨hin, hi, hs⟩ := plain.lists
    have hflight := inFlight_plain (s := s)
      { s.link with l0 := s.link.l0 ++ [queued] } rfl hi
    refine h.extend (j := 0) usable rfl rfl rfl (fun m hm => ?_) hin
      (fun c k _ hle hst => serials_kept (hs c) hle hst) h.known (fun m hm => ?_)
      (hflight ▸ h.nodup) (hflight ▸ h.limit) (hflight ▸ h.requests usable)
    · rw [List.mem_singleton.mp hm]
      exact accepted
    · rw [List.mem_singleton.mp hm]
      exact introduced
  | background m usable plain accepted introduced =>
    refine { h with accepted := fun m' hm' => ?_, behind := fun m' hm' => ?_ }
    · change m' ∈ s.stream ++ (s.link.l1 ++ [m]) at hm'
      rw [← List.append_assoc] at hm'
      rcases List.mem_append.mp hm' with hm' | hm'
      · exact h.accepted m' hm'
      · rw [List.mem_singleton.mp hm']
        exact accepted
    · rcases List.mem_append.mp hm' with hm' | hm'
      · exact h.behind m' hm'
      · rw [List.mem_singleton.mp hm']
        exact ⟨plain, introduced⟩
  | inputs state queued usable known inputs accepted => exact h.inputs usable known inputs accepted
  | touch state known =>
    refine h.table (fun c k usable hserial state' hst' hc => ?_) fun state' hst' => ?_
    · obtain ⟨state'', hst'', rfl⟩ := List.mem_map.mp hst'
      split at hc
      case isTrue heq =>
        rw [if_pos heq]
        exact hserial state known (heq.symm.trans hc)
      case isFalse hne =>
        rw [if_neg hne]
        exact hserial state'' hst'' hc
    · obtain ⟨state'', hst'', rfl⟩ := List.mem_map.mp hst'
      refine ⟨state'', hst'', ?_⟩
      split <;> rfl
  | forget channel =>
    refine h.table (fun c k _ hserial state hst => hserial state (List.mem_filter.mp hst).1)
      fun state hst => ⟨state, (List.mem_filter.mp hst).1, rfl⟩
  | mark f same => exact h.marked same
  | fail releases f same => exact h.failed releases same

theorem Sends.effects (h : s.Sends E) (hef : Effects E s.link link) :
    ({ s with link := link } : System X).Sends E := by
  induction hef with
  | refl => exact h
  | tail _ he ih => exact ih.effect he

end System

end SpaceTerm.Link
