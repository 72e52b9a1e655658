import SpaceTerm.Outbox.Credit

/-! # The cases of one step

`Step.effect` lists what an event of a connection can do to the credits, to the screen being encoded
and to the log; it is the only place where the events themselves are unfolded for the statements
about screens. -/

namespace SpaceTerm.Outbox
open Wire

variable {P : Payloads} {C : Postcard P}

def Taken.noted : Taken P → List (Happening P)
  | .present ticket p _ => [.took ticket p]
  | _ => []

def Taken.encoding : Taken P → Option (FrameTicket × P.Presentation × Option (Frames P))
  | .present ticket p ending => some (ticket, p, ending)
  | _ => none

namespace Connection

variable {s t : Connection P} {e : Event P}

abbrev credits (s : Connection P) : Channel → Option (Credit P) := s.state.credits

inductive Effect (C : Postcard P) (s t : Connection P) (e : Event P) : Prop
  | same (h : Same s.state t.state) (log : t.log = s.log) (encoding : t.encoding = s.encoding)
      (opened : t.opened = s.opened)
  | opened {c : Channel} (new : c ∉ s.opened) (was : s.credits c = none)
      (touch : Touch s.state t.state c (some .fresh) []) (log : t.log = s.log)
      (encoding : t.encoding = s.encoding) (opened : t.opened = c :: s.opened)
  | change {c : Channel} {k : Credit P} {k' : Option (Credit P)} {happened : List (Happening P)}
      {entries : List (Entry P)} (was : s.credits c = some k) (h : Change c k k' happened entries)
      (touch : Touch s.state t.state c k' entries) (log : t.log = s.log ++ happened)
      (encoding : t.encoding = s.encoding) (opened : t.opened = s.opened)
  /-- The client released the channel, or its semantics could not be encoded. -/
  | forgot {c : Channel} (event : e = .close c ∨ ∃ encoded, e = .encodedSemantics (some encoded))
      (touch : Touch s.state t.state c none []) (log : t.log = s.log)
      (encoding : t.encoding = s.encoding) (opened : t.opened = s.opened)
  | turn {c : Channel} {k : Credit P} {k' : Option (Credit P)} {taken : Taken P}
      (idle : s.encoding = none) (was : s.credits c = some k) (h : FrameTurn c k taken k')
      (credits : t.credits = Function.update s.credits c k')
      (l1 : s.state.l1 = .frame c :: t.state.l1) (closing : t.state.closing = s.state.closing)
      (log : t.log = s.log ++ taken.noted) (encoding : t.encoding = taken.encoding)
      (opened : t.opened = s.opened)
  | finished {ticket : FrameTicket} {p : P.Presentation} {ending : Option (Frames P)}
      {happening : Happening P} (event : ∃ presented, e = .encoded presented ∧
        happening = happened ticket p (encodeFrame C ticket presented))
      (was : s.encoding = some (ticket, p, ending))
      (h : Finish s.state t.state ticket p ending happening)
      (log : t.log = s.log ++ [happening]) (encoding : t.encoding = none)
      (opened : t.opened = s.opened)

theorem note_eq (s : Connection P) (did : Bool) (happening : Happening P) :
    s.note did happening = s.log ++ if did then [happening] else [] := by
  cases did <;> simp [note]

variable {state : State P}

theorem Effect.of_same (h : Same s.state state) : Effect C s { s with state } e :=
  .same h rfl rfl rfl

theorem Effect.of_changed {c : Channel} {happened : List (Happening P)} (h : Changed s.state state c happened) :
    Effect C s { s with state, log := s.log ++ happened } e := by
  cases h with
  | same h => exact .same h (List.append_nil _) rfl rfl
  | change was h touch => exact .change was h touch rfl rfl rfl

theorem Effect.of_changed_nil {c : Channel} (h : Changed s.state state c []) : Effect C s { s with state } e := by
  simpa using Effect.of_changed (e := e) h

theorem effect_take {lowest : Priority} (hidle : s.work = none) :
    Effect C s ({ s with state := (s.state.take lowest).2, turns := s.turns ++ s.state.turnNow }.begin
      (s.state.take lowest).1) e := by
  have he : s.encoding = none := by simp [encoding, hidle]
  have h := s.state.take_cases lowest
  generalize s.state.take lowest = out at h ⊢
  obtain ⟨taken, state⟩ := out
  cases h with
  | other h hother =>
    rcases taken with _ | _ | _ | _ | _
    · exact .same h rfl rfl rfl
    · exact .same h rfl rfl rfl
    · exact absurd rfl (hother _ _ _)
    · exact .same h rfl he.symm rfl
    · exact .same h rfl rfl rfl
  | turn was h credits l1 closing =>
    have ht := h
    cases h with
    | skipped => exact .turn he was ht credits l1 closing (List.append_nil _).symm he rfl
    | took | tookLast => exact .turn he was ht credits l1 closing rfl rfl rfl

theorem Step.effect (h : Step C s e t) : Effect C s t e := by
  unfold Step event at h
  cases e with
  | openChannel c =>
    dsimp only at h
    split at h
    · cases h
    rename_i hnew
    unfold openChannel at h
    split at h
    · rename_i heq
      split at heq
      · cases heq
      split at heq
      · cases heq
      rename_i hi
      cases heq
      cases h
      refine .opened hnew ?_ (s.state.touch_setSlot c _) rfl rfl rfl
      simpa [State.credits] using hi
    · rename_i heq
      cases h
      split at heq
      · cases heq
        exact .same (.refl _) rfl rfl rfl
      split at heq
      · cases heq
        exact .same (.refl _) rfl rfl rfl
      · cases heq
  | inventory i n =>
    have hs := (untouched_inventory (C := C) s.state i n).same
    dsimp only at h
    split at h <;> rename_i heq <;> rw [heq] at hs <;> cases h <;>
      exact .same hs rfl rfl rfl
  | updateFacts facts =>
    have hs := (untouched_updateFacts (C := C) s.state facts).same
    dsimp only at h
    split at h <;> rename_i heq <;> rw [heq] at hs <;> cases h <;>
      exact .same hs rfl rfl rfl
  | take lowest =>
    dsimp only at h
    split at h
    · cases h
    rename_i hidle
    cases h
    exact effect_take (by simpa using hidle)
  | encoded presented =>
    dsimp only at h
    split at h
    · rename_i ticket p ending hwork
      cases h
      exact .finished ⟨presented, rfl, rfl⟩ (by simp [encoding, hwork])
        (finish_finishFrame s.state ticket p ending _) rfl rfl rfl
    · cases h
  | encodedSemantics encoded =>
    dsimp only at h
    split at h
    · rename_i work hwork
      split at h
      · cases h
      cases h
      have he : s.encoding = none := by simp [encoding, hwork]
      rcases finishSemantics_cases (C := C) s.state work encoded with h | ⟨hso, h⟩
      · exact .same h rfl he.symm rfl
      · obtain ⟨x, rfl⟩ := Option.isSome_iff_exists.mp hso
        exact .forgot (.inr ⟨x, rfl⟩) h rfl he.symm rfl
    · cases h
  | view c visible =>
    cases h
    rw [note_eq]
    exact .of_changed (changed_view _ _ _)
  | present c p =>
    cases h
    rw [note_eq]
    exact .of_changed (changed_present _ _ _)
  | requireKeyframe c =>
    cases h
    rw [note_eq]
    exact .of_changed (changed_requireKeyframe _ _)
  | acknowledge c n =>
    cases h
    rw [note_eq]
    exact .of_changed (changed_acknowledge _ _ _)
  | close c => cases h; exact .forgot (.inl rfl) (s.state.touch_forget c) rfl rfl rfl
  | endChannel c event => cases h; exact .of_changed_nil (changed_endChannel _ _ _)
  | begin id => cases h; exact .of_same (untouched_begin _ _).same
  | reply id result => cases h; exact .of_same (untouched_reply _ _ _).same
  | replyOrRefuse id result => cases h; exact .of_same (untouched_replyOrRefuse _ _ _).same
  | pane c event => cases h; exact .of_same (untouched_pane _ _ _).same
  | ping nonce | pong nonce => cases h; exact .of_same (State.untouched_pushL0 _ _).same
  | goodbye fatal => cases h; exact .of_same (untouched_goodbye _ _).same
  | disconnected => cases h; exact .of_same ⟨rfl, fun _ _ h => h, fun _ => rfl⟩
  | takeClosed => cases h; exact .of_same (.of_eq rfl rfl rfl)
  | startSemantics c g => cases h; exact .of_same (State.same_of_semantic (State.semantic_startSemantics _ _ _))
  | endSemantics c => cases h; exact .of_same (State.same_of_semantic (State.semantic_endSemantics _ _))
  | semantics c model => cases h; exact .of_same (State.same_of_semantic (semantic_semantics _ _ _))
  | acknowledgeSemantics c g r => cases h; exact .of_same (State.same_of_semantic (State.semantic_acknowledgeSemantics _ _ _ _))
  | written now => cases h; exact .of_same (same_written _ _)

end Connection

end SpaceTerm.Outbox
