import SpaceTerm.Link.Numbering

/-! # No message of the link is a violation

The server's counters are those of the part of the stream it received, so the next message always
continues them. -/

namespace SpaceTerm.Link
open Lib Wire
variable {X : Contents} {E : Encoding X}

namespace System
variable {s t : System X}

/-! ## The server -/

variable {server : Server}

theorem Sends.of_subperm (h : s.Sends E) {wire received : List (ClientMessage X)}
    {replies : List RequestId} (hst : received ++ wire = s.received ++ s.wire)
    (hflight : List.Subperm
      (requestIds (wire ++ messages s.link.l0) ++ server.requests ++ replies) s.inFlight) :
    ({ s with wire := wire, received := received, server := server, replies := replies } : System X).Sends E := by
  have hs : ({ s with wire := wire, received := received, server := server, replies := replies } :
      System X).stream = s.stream := by
    unfold stream
    rw [← hst]
  refine ⟨hs ▸ h.accepted, hs ▸ h.introduced, fun c => hs ▸ h.serials c, h.known,
    hs ▸ h.follows, h.behind, ?_, hflight.length_le.trans h.limit,
    fun usable _ hi => h.requests usable (hflight.subset hi)⟩
  obtain ⟨l, hp, hsu⟩ := hflight
  exact hp.nodup_iff.mp (h.nodup.sublist hsu)

variable {wire : List (ClientMessage X)} {m : ClientMessage X}

theorem Sends.deliver (h : s.Sends E) (hw : s.wire = m :: wire)
    (hs : server.requests = s.server.requests ∨
      ∃ id, m.requestId? = some id ∧ server.requests = id :: s.server.requests) :
    ({ s with wire := wire, received := s.received ++ [m], server := server } : System X).Sends E := by
  refine h.of_subperm (by rw [hw]; simp) ?_
  unfold inFlight
  rw [hw, List.cons_append]
  rcases hs with hs | ⟨id, hi, hs⟩
  · rw [hs]
    refine List.Sublist.subperm (((List.Sublist.filterMap _ ?_).append_right _).append_right _)
    exact List.sublist_cons_self _ _
  rw [hs]
  have hid : requestIds (m :: (wire ++ messages s.link.l0)) =
      id :: requestIds (wire ++ messages s.link.l0) := List.filterMap_cons_some hi
  rw [hid, List.append_assoc, List.append_assoc, List.cons_append, List.cons_append]
  exact List.perm_middle.subperm

variable {c : Channel}

theorem Receives.claimed (h : s.Receives) (hs : s.Sends E) (ho : s.server.closing = false)
    (hw : s.wire = m :: wire)
    (hc : m.channel? = some c) : s.server.claimed c = .ok () := by
  have hmem := hs.follows s.received m (wire ++ messages s.link.l0)
    (by unfold stream; rw [hw]; simp) c hc
  rw [h.introduced ho, List.mem_range'_1] at hmem
  refine if_neg ?_
  rintro (rfl | hg)
  · exact absurd hmem.1 (Nat.not_succ_le_zero 0)
  · exact absurd hmem.2 (by rw [Nat.add_comm]; exact Nat.not_lt.mpr hg)

theorem Receives.forgetClosed (h : s.Receives) :
    ({ s with server := s.server.forgetClosed } : System X).Receives :=
  ⟨h.highest, h.introduced, fun ho p hp => h.serials ho p (List.mem_filter.mp hp).1⟩

theorem Receives.plain (h : s.Receives) {requests : List RequestId} (hi : m.introduces? = none)
    (hserial : ∀ c, m.serialOn? c = none) :
    ({ s with wire := wire, received := s.received ++ [m], server :=
      { s.server with requests := requests } } : System X).Receives := by
  have hin : introductions (s.received ++ [m]) = introductions s.received := by
    rw [introductions_append]
    exact (congrArg _ (List.filterMap_cons_none hi)).trans (List.append_nil _)
  have hs : ∀ c, serialsOn c (s.received ++ [m]) = serialsOn c s.received := by
    intro c
    rw [serialsOn_append]
    exact (congrArg _ (List.filterMap_cons_none (hserial c))).trans (List.append_nil _)
  exact ⟨fun c hpo hl => hin ▸ h.highest c hpo hl, fun ho => hin.trans (h.introduced ho),
    fun ho p hp => (hs p.1).trans (h.serials ho p hp)⟩

variable {id : RequestId}

theorem Sends.begins (h : s.Sends E) {operation : Operation X} (hw : s.wire = .request id operation :: wire) :
    s.server.requests.length < maxRequestsInFlight ∧ id ∉ s.server.requests := by
  have hflight : s.inFlight =
      id :: (requestIds (wire ++ messages s.link.l0) ++ s.server.requests ++ s.replies) := by
    unfold inFlight
    rw [hw, List.cons_append]
    rfl
  have hl := h.limit
  have hno := h.nodup
  rw [hflight] at hl hno
  refine ⟨?_, fun hi => (List.nodup_cons.mp hno).1 ?_⟩
  · simp only [List.length_cons, List.length_append] at hl
    omega
  · exact List.mem_append_left _ (List.mem_append_right _ hi)

theorem Receives.next_channel (h : s.Receives) (hs : s.Sends E) (ho : s.server.closing = false) {claim : X.Claim}
    (hw : s.wire = .request id (.introduce c claim) :: wire) : c = s.server.highestChannel + 1 := by
  obtain ⟨n, hn, -⟩ := hs.introduced
  have hst : s.stream = s.received ++ .request id (.introduce c claim) :: (wire ++ messages s.link.l0) := by
    unfold stream
    rw [hw]
    simp
  have hc : introductions (.request id (.introduce c claim) :: (wire ++ messages s.link.l0)) =
      c :: introductions (wire ++ messages s.link.l0) := List.filterMap_cons_some rfl
  have hsp : introductions s.received ++ c :: introductions (wire ++ messages s.link.l0) = List.range' 1 n := by
    rw [← hn, hst, ← hc]
    exact (introductions_append s.received _).symm
  exact (next_of_append (h.introduced ho) hsp).1

theorem Receives.introduce (h : s.Receives) (hs : s.Sends E) (ho : s.server.closing = false) {claim : X.Claim}
    (hw : s.wire = .request id (.introduce c claim) :: wire)
    (hh : server.highestChannel = c)
    (hse : ∀ p ∈ server.serials, p ∈ s.server.serials ∨ p = (c, 0)) :
    ({ s with
      wire := wire, received := s.received ++ [.request id (.introduce c claim)], server := server } :
        System X).Receives := by
  have hc := h.next_channel hs ho hw
  have hi : introductions (s.received ++ [.request id (.introduce c claim)]) = List.range' 1 c := by
    rw [introductions_append, h.introduced ho, hc, List.range'_concat, Nat.one_mul, Nat.add_comm 1]
    rfl
  have hseri : ∀ c', serialsOn c' (s.received ++ [.request id (.introduce c claim)]) =
      serialsOn c' s.received := fun c' => by
    rw [serialsOn_append, serialsOn_request, List.append_nil]
  refine ⟨fun c' hpo hl => ?_, fun _ => hh ▸ hi, fun _ p hp => ?_⟩
  · rw [hi, List.mem_range'_1]
    exact ⟨hpo, by rw [Nat.add_comm]; exact Nat.lt_succ_of_le (hh ▸ hl)⟩
  rw [hseri]
  rcases hse p hp with hp | rfl
  · exact h.serials ho p hp
  -- no input came before the claim
  refine List.filterMap_eq_nil_iff.mpr fun m hm => ?_
  cases m with
  | input channel serial body =>
    refine if_neg fun he => ?_
    obtain ⟨before, behind, ha⟩ := List.append_of_mem hm
    have hst : s.stream = before ++ .input channel serial body :: (behind ++ (s.wire ++ messages s.link.l0)) := by
      unfold stream
      rw [ha]
      simp
    have hmem := hs.follows before _ _ hst channel rfl
    have hmem' : channel ∈ introductions s.received := by
      rw [ha, introductions_append]
      exact List.mem_append_left _ hmem
    rw [h.introduced ho, List.mem_range'_1, he, hc, Nat.add_comm] at hmem'
    exact Nat.lt_irrefl _ hmem'.2
  | _ => rfl

theorem Receives.input (h : s.Receives) (hs : s.Sends E) (ho : s.server.closing = false)
    {serial : Nat} {body : InputBody X}
    (hw : s.wire = .input c serial body :: wire) :
    ∃ server, s.server.input c serial = .ok server ∧ server.requests = s.server.requests ∧
      ({ s with wire := wire, received := s.received ++ [.input c serial body], server := server } :
        System X).Receives := by
  have hst : s.stream = s.received ++ .input c serial body :: (wire ++ messages s.link.l0) := by
    unfold stream
    rw [hw]
    simp
  have hother : ∀ c', c' ≠ c → serialsOn c' (s.received ++ [.input c serial body]) = serialsOn c' s.received := by
    intro c' hc'
    rw [serialsOn_append]
    have hnone : serialsOn c' [ClientMessage.input c serial body] = [] :=
      List.filterMap_cons_none (if_neg fun h => hc' h.symm)
    rw [hnone, List.append_nil]
  have hown : serialsOn c [ClientMessage.input c serial body] = [serial] :=
    List.filterMap_cons_some (if_pos rfl)
  have hi : introductions (s.received ++ [.input c serial body]) = introductions s.received := by
    rw [introductions_append]
    exact List.append_nil _
  unfold Server.input
  cases hf : s.server.serials.find? (·.1 == c) with
  | none =>
    refine ⟨s.server, rfl, rfl, fun c' hpo hl => hi ▸ h.highest c' hpo hl,
      fun ho => hi.trans (h.introduced ho), fun ho p hp => ?_⟩
    have hne : p.1 ≠ c := by
      have := List.find?_eq_none.mp hf p hp
      simpa using this
    rw [hother p.1 hne]
    exact h.serials ho p hp
  | some p =>
    obtain ⟨c', last⟩ := p
    have hp := List.mem_of_find?_eq_some hf
    obtain rfl : c' = c := by simpa using List.find?_some hf
    obtain ⟨k, hk, hl, -⟩ := hs.serials c'
    have hsp : serialsOn c' s.received ++ serial :: serialsOn c' (wire ++ messages s.link.l0) =
        List.range' 1 k := by
      have hco : serialsOn c' (.input c' serial body :: (wire ++ messages s.link.l0)) =
          serial :: serialsOn c' (wire ++ messages s.link.l0) := List.filterMap_cons_some (if_pos rfl)
      rw [← hk, hst, ← hco]
      exact (serialsOn_append c' s.received (_ :: _)).symm
    obtain ⟨hserial, hb⟩ := next_of_append (h.serials ho _ hp) hsp
    have hr : serialsOn c' (s.received ++ [.input c' serial body]) = List.range' 1 serial := by
      rw [serialsOn_append, hown, h.serials ho _ hp, hserial, List.range'_concat, Nat.one_mul, Nat.add_comm 1]
    dsimp only
    rw [if_neg (by omega)]
    refine ⟨_, rfl, rfl, fun c hpo hl => hi ▸ h.highest c hpo hl,
      fun ho => hi.trans (h.introduced ho), fun ho p hp => ?_⟩
    obtain ⟨q, hq, rfl⟩ := List.mem_map.mp hp
    split
    case isTrue he =>
      rw [he]
      exact hr
    case isFalse hne =>
      rw [hother q.1 hne]
      exact h.serials ho q hq

theorem Inv.deliver (h : s.Inv E) {credit : Bool}
    (hw : s.wire = m :: wire) (hcr : m.isAck = true → credit = true) :
    ∃ server, s.server.receive E credit m = .ok server ∧
      ({ s with wire := wire, received := s.received ++ [m], server := server } : System X).Inv E := by
  have ha : E.accepts m = true := h.sends.accepted m (by unfold stream; rw [hw]; simp)
  unfold Server.receive
  rw [if_neg (by simp [ha])]
  cases hclo : s.server.closing with
  | true =>
    refine ⟨s.server, rfl, h.sends.deliver hw (.inl rfl), fun c hpo hl => ?_, fun ho => ?_, fun ho => ?_⟩
    · rw [introductions_append]
      exact List.mem_append_left _ (h.receives.highest c hpo hl)
    · rw [hclo] at ho
      cases ho
    · rw [hclo] at ho
      cases ho
  | false =>
    rw [if_neg (by simp)]
    have hr := h.receives.forgetClosed
    have hs : ({ s with server := s.server.forgetClosed } : System X).Sends E :=
      h.sends.of_subperm rfl (List.Subperm.refl _)
    have hcl : ∀ c, m.channel? = some c → s.server.forgetClosed.claimed c = .ok () :=
      fun c hc => hr.claimed hs hclo hw hc
    have hpl : m.introduces? = none → (∀ c, m.serialOn? c = none) →
        ({ s with wire := wire, received := s.received ++ [m], server := s.server.forgetClosed } :
          System X).Inv E := fun hin hserial =>
      ⟨hs.deliver hw (.inl rfl), hr.plain hin hserial⟩
    cases m with
    | request id operation =>
      obtain ⟨hro, hf⟩ := hs.begins hw
      have hb : ¬ (s.server.forgetClosed.requests.length ≥ maxRequestsInFlight ∨
          s.server.forgetClosed.requests.contains id = true) := by
        rintro (hfu | hi)
        · exact absurd hro (Nat.not_lt.mpr hfu)
        · exact hf (by simpa using hi)
      change ∃ server, s.server.forgetClosed.request id operation = .ok server ∧ _
      unfold Server.request
      rw [if_neg hb]
      cases operation with
      | introduce c claim =>
        dsimp only [Operation.introduced]
        have hne : c = s.server.forgetClosed.highestChannel + 1 := hr.next_channel hs hclo hw
        rw [if_neg (Nat.not_le.mpr (hne ▸ Nat.lt_succ_self _))]
        split
        · refine ⟨_, rfl, hs.deliver hw (.inr ⟨id, rfl, rfl⟩), hr.introduce hs hclo hw ?_ ?_⟩
          · rfl
          · exact fun p hp => .inl hp
        refine ⟨_, rfl, hs.deliver hw (.inr ⟨id, rfl, rfl⟩), hr.introduce hs hclo hw ?_ ?_⟩
        · rfl
        · exact fun p hp => (List.mem_append.mp hp).imp_right List.mem_singleton.mp
      | release c => exact ⟨_, rfl, hs.deliver hw (.inr ⟨id, rfl, rfl⟩), hr.plain rfl fun _ => rfl⟩
      | other operation =>
        exact ⟨_, rfl, hs.deliver hw (.inr ⟨id, rfl, rfl⟩), hr.plain rfl fun _ => rfl⟩
    | input c serial body =>
      obtain ⟨server, hse, hreq, hre⟩ := hr.input hs hclo hw
      refine ⟨server, ?_, hs.deliver hw (.inl hreq), hre⟩
      change (s.server.forgetClosed.claimed c >>= fun _ => s.server.forgetClosed.input c serial) = _
      rw [hcl c rfl]
      exact hse
    | frameAck c frame | accessibilityAck c demandGeneration revision =>
      refine ⟨s.server.forgetClosed, ?_, hpl rfl fun _ => rfl⟩
      change (s.server.forgetClosed.claimed c >>= fun _ => _) = _
      rw [hcl c rfl, hcr rfl]
      rfl
    | view c visible maxHz | effectDone c completion =>
      refine ⟨s.server.forgetClosed, ?_, hpl rfl fun _ => rfl⟩
      change (s.server.forgetClosed.claimed c >>= fun _ => _) = _
      rw [hcl c rfl]
      rfl
    | acknowledge sequence | cancel id | ping nonce | pong nonce => exact ⟨_, rfl, hpl rfl fun _ => rfl⟩

theorem receive_credit {server server' : Server} {credit : Bool}
    (h : server.receive E credit m = .ok server') : server.receive E true m = .ok server' := by
  cases credit with
  | true => exact h
  | false =>
    unfold Server.receive at h ⊢
    split at h
    · cases h
    case isFalse ha =>
      rw [if_neg ha]
      split at h
      case isTrue hcl =>
        rw [if_pos hcl]
        exact h
      case isFalse hcl =>
        rw [if_neg hcl]
        cases m with
        | frameAck c frame =>
          change (server.forgetClosed.claimed c >>= fun _ => .error .protocolViolation) = _ at h
          cases hc : server.forgetClosed.claimed c with
          | error e | ok _ => rw [hc] at h; cases h
        | accessibilityAck c demandGeneration revision =>
          change (server.forgetClosed.claimed c >>= fun _ => .error .protocolViolation) = _ at h
          cases hc : server.forgetClosed.claimed c with
          | error e | ok _ => rw [hc] at h; cases h
        | _ => exact h

/-! ## Every step -/

theorem Inv.call (h : s.Inv E) {link : State X} {handles : List (Nat × Option Channel)}
    (he : Effects E s.link link) :
    ({ s with link := link, handles := handles } : System X).Inv E := by
  have hs := h.sends.effects he
  exact ⟨{ hs with }, h.receives.highest, h.receives.introduced, h.receives.serials⟩

theorem Inv.through (h : s.Inv E) {handle : Nat} {f : Channel → State X}
    (hs : s.through handle f = some t) (he : ∀ c, Effects E s.link (f c)) : t.Inv E := by
  unfold System.through at hs
  split at hs
  · cases hs
    exact h.call (he _)
  · cases hs

theorem Inv.write (h : s.Inv E) {link : State X} (hne : s.link.nextFrame = (some m, link)) :
    ({ s with link := link, wire := s.wire ++ [m] } : System X).Inv E := by
  unfold State.nextFrame at hne
  split at hne
  · cases hne
  case isFalse ho =>
    have usable : s.link.closed = false := by simpa using ho
    split at hne
    case h_1 _ queued l0 hl0 =>
      -- the first of L0 stays where it is in the stream
      cases hne
      have hst : s.received ++ (s.wire ++ [queued.message]) ++ messages l0 = s.stream := by
        unfold stream
        rw [hl0]
        simp [messages]
      have hflight : requestIds ((s.wire ++ [queued.message]) ++ messages l0) ++ s.server.requests ++
          s.replies = s.inFlight := by
        unfold inFlight
        rw [hl0, List.append_assoc s.wire]
        rfl
      have hs := h.sends
      have hsa : System.stream { s with
          link := { s.link with
            l0 := l0
            l0Bytes := if queued.counted then s.link.l0Bytes - queued.bytes else s.link.l0Bytes }
          wire := s.wire ++ [queued.message] } = s.stream := hst
      have hke : System.inFlight { s with
          link := { s.link with
            l0 := l0
            l0Bytes := if queued.counted then s.link.l0Bytes - queued.bytes else s.link.l0Bytes }
          wire := s.wire ++ [queued.message] } = s.inFlight := hflight
      refine ⟨⟨?_, ?_, fun c => ?_, hs.known, ?_, hs.behind, ?_, ?_, fun usable => ?_⟩,
        h.receives.highest, h.receives.introduced, h.receives.serials⟩
      · rw [hsa]
        exact hs.accepted
      · rw [hsa]
        exact hs.introduced
      · rw [hsa]
        exact hs.serials c
      · rw [hsa]
        exact hs.follows
      · rw [hke]
        exact hs.nodup
      · rw [hke]
        exact hs.limit
      · rw [hke]
        exact hs.requests usable
    case h_2 l1 hl0 hl1 =>
      -- L0 is empty, so the message of L1 comes last
      cases hne
      have hs := h.sends
      have hst : s.received ++ (s.wire ++ [m]) ++ messages s.link.l0 = s.stream ++ [m] := by
        unfold stream
        rw [hl0]
        simp [messages]
      obtain ⟨hp, hch⟩ := hs.behind m (hl1 ▸ List.mem_cons_self ..)
      obtain ⟨hin, hi, hse⟩ := hp.lists
      have hflight : requestIds ((s.wire ++ [m]) ++ messages s.link.l0) ++ s.server.requests ++
          s.replies = s.inFlight := by
        unfold inFlight
        simp only [requestIds_append, hi, List.append_nil]
      have hke : System.inFlight { s with
          link := { s.link with l1 := l1 }, wire := s.wire ++ [m] } = s.inFlight := hflight
      have hrest : ∀ m' ∈ l1, m' ∈ s.link.l1 := fun m' hm' => hl1 ▸ List.mem_cons_of_mem _ hm'
      refine ⟨⟨fun m' hm' => ?_, ?_, fun c => ?_, hs.known, ?_, fun m' hm' => hs.behind m' (hrest m' hm'),
        ?_, ?_, ?_⟩, h.receives.highest, h.receives.introduced, h.receives.serials⟩
      · change m' ∈ (s.received ++ (s.wire ++ [m]) ++ messages s.link.l0) ++ l1 at hm'
        rw [hst, List.append_assoc] at hm'
        rcases List.mem_append.mp hm' with hm' | hm'
        · exact hs.accepted m' (List.mem_append_left _ hm')
        · exact hs.accepted m' (List.mem_append_right _ (hl1 ▸ hm'))
      · obtain ⟨n, hn, hne⟩ := hs.introduced
        refine ⟨n, ?_, hne⟩
        change introductions (s.received ++ (s.wire ++ [m]) ++ messages s.link.l0) = _
        rw [hst, introductions_append, hin, List.append_nil, hn]
      · obtain ⟨k, hk, hrest⟩ := hs.serials c
        refine ⟨k, ?_, hrest⟩
        change serialsOn c (s.received ++ (s.wire ++ [m]) ++ messages s.link.l0) = _
        rw [hst, serialsOn_append, hse c, List.append_nil, hk]
      · change Follows (s.received ++ (s.wire ++ [m]) ++ messages s.link.l0)
        rw [hst]
        refine hs.follows.append fun m' hm' c hc => ?_
        rw [List.mem_singleton.mp hm'] at hc
        exact hs.introduced_of_le usable (hch c hc).1 (hch c hc).2
      · rw [hke]
        exact hs.nodup
      · rw [hke]
        exact hs.limit
      · intro usable
        rw [hke]
        exact hs.requests usable
    · cases hne

theorem Inv.answer (h : s.Inv E) (hi : id ∈ s.server.requests) :
    ({ s with
      server := { s.server with requests := s.server.requests.erase id }
      replies := s.replies ++ [id] } : System X).Inv E := by
  refine ⟨h.sends.of_subperm rfl (List.Perm.subperm ?_), h.receives.highest, h.receives.introduced,
    h.receives.serials⟩
  unfold inFlight
  rw [List.append_assoc, List.append_assoc]
  refine List.Perm.append_left _ ?_
  calc (s.server.requests.erase id ++ (s.replies ++ [id])).Perm
        ((s.server.requests.erase id ++ s.replies) ++ [id]) := by rw [List.append_assoc]
    List.Perm _ (id :: (s.server.requests.erase id ++ s.replies)) := List.perm_append_singleton _ _
    List.Perm _ (s.server.requests ++ s.replies) :=
      (List.perm_cons_erase hi).symm.append_right s.replies

theorem Inv.replied (h : s.Inv E) {id : RequestId} {replies : List RequestId}
    (usable : s.link.closed = false) (hreplies : s.replies = id :: replies) :
    id ∈ s.link.requests ∧ ({ s with
      link := { s.link with requests := s.link.requests.erase id }
      replies := replies } : System X).Inv E := by
  have hs := h.sends
  have hflight : List.Perm s.inFlight
      (id :: (requestIds (s.wire ++ messages s.link.l0) ++ s.server.requests ++ replies)) := by
    unfold inFlight
    rw [hreplies]
    exact List.perm_middle
  have hno := List.nodup_cons.mp (hflight.nodup_iff.mp hs.nodup)
  refine ⟨hs.requests usable (hflight.symm.subset (List.mem_cons_self ..)),
    ⟨{ hs with nodup := hno.2, limit := ?_, requests := ?_ },
      h.receives.highest, h.receives.introduced, h.receives.serials⟩⟩
  · have := hs.limit
    rw [hflight.length_eq] at this
    exact Nat.le_of_succ_le this
  · intro _ id' hi'
    have hne : id' ≠ id := fun he => hno.1 (he ▸ hi')
    exact (List.mem_erase_of_ne hne).mpr
      (hs.requests usable (hflight.symm.subset (List.mem_cons_of_mem _ hi')))

/-- A `Claim` or an `Observe` is sent by `bind` only. -/
def Event.Proper : Event X → Prop
  | .request operation => operation.introduced = none
  | _ => True

theorem Inv.step {e : Event X} (h : s.Inv E) (hpr : Event.Proper e) (hst : s.Step E e t) : t.Inv E := by
  have hpl : ∀ {m : ClientMessage X}, m.introduces? = none → m.requestId? = none →
      (∀ c, m.serialOn? c = none) → Plain m := fun h₁ h₂ h₃ => ⟨h₁, h₂, h₃⟩
  unfold Step after at hst
  cases e with
  | openChannel handle =>
    dsimp only at hst
    split at hst
    · cases hst
    have hl : Effects E s.link s.link.openChannel.2 := by
      unfold State.openChannel
      split
      · exact .refl
      split
      · exact .refl
      · exact (Effect.idle s.link.nextId (s.link.unbound + 1) s.link.releases s.link.l0Bytes).one
    split at hst
    case h_1 link ho =>
      cases hst
      rw [ho] at hl
      exact h.call hl
    case h_2 e link ho =>
      cases hst
      rw [ho] at hl
      exact h.call hl
  | bind handle claim =>
    dsimp only at hst
    split at hst
    · have hl := bind_effects (E := E) (s := s.link) claim
      split at hst
      case h_1 c link hb =>
        cases hst
        rw [hb] at hl
        exact h.call hl
      case h_2 e link hb =>
        cases hst
        rw [hb] at hl
        exact h.call hl
    · cases hst
  | request operation =>
    cases hst
    exact h.call (request_effects hpr)
  | input handle events => exact h.through hst fun c => input_effects
  | paste handle text => exact h.through hst fun c => paste_effects
  | acknowledgeFrame handle frame | acknowledgeAccessibility handle demandGeneration revision =>
    exact h.through hst fun c => sendSimple_effects (hpl rfl rfl fun _ => rfl) rfl h.sends.known
  | view handle visible maxHz | effectDone handle completion =>
    exact h.through hst fun c => sendSimple_effects (hpl rfl rfl fun _ => rfl) rfl h.sends.known
  | acknowledge sequence | cancel id =>
    cases hst
    exact h.call (send_effects (hpl rfl rfl fun _ => rfl) nofun)
  | drop handle =>
    dsimp only at hst
    split at hst
    · cases hst
      exact h.call release_effects
    · cases hst
      exact h.call (Effect.idle s.link.nextId (s.link.unbound - 1) s.link.releases s.link.l0Bytes).one
    · cases hst
  | detach handle =>
    dsimp only at hst
    split at hst
    · cases hst
      exact h.call (Effect.forget _).one
    · cases hst
  | ping nonce =>
    cases hst
    exact h.call (send_effects (hpl rfl rfl fun _ => rfl) nofun)
  | fail =>
    cases hst
    exact h.call fail_effects
  | write =>
    dsimp only at hst
    split at hst
    case h_1 m link hne =>
      cases hst
      exact h.write hne
    · cases hst
  | deliver credit =>
    dsimp only at hst
    split at hst
    · cases hst
    case h_2 m wire hw =>
      split at hst
      · cases hst
      case h_2 server hs =>
        cases hst
        obtain ⟨server', hs', hin⟩ := h.deliver hw fun _ => (rfl : true = true)
        rw [receive_credit hs] at hs'
        cases hs'
        exact hin
  | answer id =>
    dsimp only at hst
    split at hst
    case isTrue hi =>
      cases hst
      exact h.answer (by simpa using hi)
    · cases hst
  | refuse channel =>
    cases hst
    refine ⟨h.sends.of_subperm rfl (List.Subperm.refl _), h.receives.highest, h.receives.introduced,
      fun ho p hp => h.receives.serials ho p (List.mem_filter.mp hp).1⟩
  | close channel =>
    cases hst
    exact ⟨h.sends.of_subperm rfl (List.Subperm.refl _), h.receives.highest, h.receives.introduced,
      h.receives.serials⟩
  | goodbye =>
    cases hst
    exact ⟨h.sends.of_subperm rfl (List.Subperm.refl _), h.receives.highest, nofun,
      nofun⟩
  | reply =>
    dsimp only at hst
    split at hst
    case h_1 id replies usable hreplies =>
      cases hst
      obtain ⟨hi, hin⟩ := h.replied usable hreplies
      have hl : s.link.reply E id =
          ({ s.link with requests := s.link.requests.erase id } : State X).sendReleases E := by
        unfold State.reply
        rw [if_pos (by simpa using hi)]
      rw [hl]
      refine hin.call ?_
      exact (sendReleases_effects (s := { s.link with requests := s.link.requests.erase id })
        usable).1
    · cases hst
  | frame channel frame =>
    dsimp only at hst
    split at hst
    case isTrue hg =>
      cases hst
      refine h.call (frame_effects fun usable => ⟨hg.2.1, ?_⟩)
      -- the server knows the channel from the part of the stream it received
      obtain ⟨n, hn, hne⟩ := h.sends.introduced
      have hmem : channel ∈ introductions s.stream := by
        unfold stream
        rw [List.append_assoc, introductions_append]
        exact List.mem_append_left _ (h.receives.highest channel hg.2.1 hg.2.2)
      rw [hn, hne usable, List.mem_range'_1, Nat.add_comm] at hmem
      exact Nat.le_of_lt_succ hmem.2
    · cases hst
  | pane channel last =>
    dsimp only at hst
    split at hst
    · cases hst
    · cases hst
      exact h.call sink_effects
  | corePing nonce =>
    cases hst
    exact h.call (send_effects (hpl rfl rfl fun _ => rfl) nofun)

def written (s : System X) : List (ClientMessage X) := s.received ++ s.wire

/-- In every run in which only `bind` sends claims, the server takes every message of the link that
returns no credit it does not have; claims introduce the channels 1, 2, 3 and so on, inputs on a
channel carry the serials 1, 2, 3 and so on, the requests in flight are distinct and within their
limit, and every message is within its bounds. -/
theorem numbers_agree {es : List (Event X)} (hrun : Run (Step E) {} es s) (hproper : ∀ e ∈ es, Event.Proper e) :
    (∀ m wire credit, s.wire = m :: wire → (m.isAck = true → credit = true) →
      ∃ server, s.server.receive E credit m = .ok server) ∧
    (∃ n, introductions s.written = List.range' 1 n) ∧
    (∀ c, ∃ k, serialsOn c s.written = List.range' 1 k) ∧
    (s.inFlight.Nodup ∧ s.inFlight.length ≤ maxRequestsInFlight ∧
      (s.link.closed = false → s.inFlight ⊆ s.link.requests)) ∧
    ∀ m ∈ s.written, E.accepts m = true := by
  have hi : s.Inv E := by
    induction hrun with
    | refl => exact .start
    | snoc _ hl ih =>
      exact (ih fun e he => hproper e (List.mem_append_left _ he)).step
        (hproper _ (List.mem_append_right _ (List.mem_singleton_self _))) hl
  have hs := hi.sends
  refine ⟨fun m wire credit hw hc => ?_, ?_, fun c => ?_, ⟨hs.nodup, hs.limit, hs.requests⟩,
    fun m hm => hs.accepted m (List.mem_append_left _ (List.mem_append_left _ hm))⟩
  · obtain ⟨server, hse, -⟩ := hi.deliver hw hc
    exact ⟨server, hse⟩
  · obtain ⟨n, hn, -⟩ := hs.introduced
    exact ⟨_, (eq_range_of_append ((introductions_append s.written _).symm.trans hn)).1⟩
  · obtain ⟨k, hk, -⟩ := hs.serials c
    exact ⟨_, (eq_range_of_append ((serialsOn_append c s.written _).symm.trans hk)).1⟩

/-- Contents without data, and an encoding that takes every message. -/
def bare : Contents := ⟨Unit, Unit, Unit, Unit⟩

def bareEncoding : Encoding bare := ⟨fun _ => some 16, fun _ => true, fun _ => true, fun _ => true⟩

def talk : List (Event bare) :=
  [.openChannel 0, .bind 0 (), .input 0 (), .paste 0 ['a'], .write, .write, .deliver true, .write]

theorem numbers_agree_talk : ∃ s, Run (Step bareEncoding) {} talk s ∧
    ∃ m wire server, s.wire = m :: wire ∧ s.server.receive bareEncoding false m = .ok server := by
  obtain ⟨s, hs⟩ : ∃ s, talk.foldlM (after bareEncoding) ({} : System bare) = some s := ⟨_, rfl⟩
  have hr : Run (Step bareEncoding) {} talk s := Run.of_foldlM hs
  have ha := (numbers_agree hr (by
    intro e he
    simp only [talk, List.mem_cons, List.not_mem_nil, or_false] at he
    rcases he with rfl | rfl | rfl | rfl | rfl | rfl | rfl | rfl <;> trivial)).1
  cases hs
  obtain ⟨server, hse⟩ := ha _ _ false rfl (by decide)
  exact ⟨_, hr, _, _, server, rfl, hse⟩

/-- A claim sent as a plain request names its own channel, and the server rejects it. -/
theorem claim_by_request_rejected : ∃ s, Run (Step bareEncoding) {}
      [.request (.introduce 0 ()), .write] s ∧
    ∃ m wire, s.wire = m :: wire ∧ s.server.receive bareEncoding true m = .error .protocolViolation := by
  refine ⟨_, Run.of_foldlM rfl, _, _, rfl, rfl⟩

end System

end SpaceTerm.Link
