import SpaceTerm.Edits.Model

/-! # Abandoned operations

A client abandons the operation it has pending when the host answers that it holds no outcome for it.
The host reads that off the organization alone. As long as it answers so only when no edit of that
sequence is in flight or parked, an abandoned operation is never executed. -/

namespace SpaceTerm.Edits
open Lib Hierarchy

def Request.op : Request → Op
  | .mutate op | .resolve op => op

namespace Exchange
variable {s s' s'' : Exchange} {e : Event}

/-- Every request the host has yet to settle. -/
def held (s : Exchange) : List (Id × Request) := s.wire ++ s.waiting

/-- Settling the requests `xs` parks some of them, answers some that nothing is held for them, and
executes edits among them. -/
structure Handled (s : Exchange) (xs : List (Id × Request)) (s' : Exchange) : Prop where
  wire : s'.wire = s.wire
  ops : s'.ops = s.ops
  pending : s'.pending = s.pending
  abandoned : s'.abandoned = s.abandoned
  waiting : ∀ x ∈ s'.waiting, x ∈ s.waiting ∨ x ∈ xs
  kept : s.missing ⊆ s'.missing
  missing : ∀ op ∈ s'.missing, op ∈ s.missing ∨ ∃ x ∈ xs, x.2 = .resolve op
  executed : ∃ tags, s'.executed = s.executed ++ tags ∧
    ∀ tag ∈ tags, ∃ x ∈ xs, ∃ op, x.2 = .mutate op ∧ op.tag = tag

namespace Handled

theorem nil (s : Exchange) : Handled s [] s :=
  ⟨rfl, rfl, rfl, rfl, fun _ h => .inl h, List.Subset.refl _, fun _ h => .inl h, [], by simp, by simp⟩

theorem cons {x : Id × Request} {xs : List (Id × Request)} (h₁ : Handled s [x] s')
    (h₂ : Handled s' xs s'') : Handled s (x :: xs) s'' := by
  obtain ⟨tags₁, he₁, ht₁⟩ := h₁.executed
  obtain ⟨tags₂, he₂, ht₂⟩ := h₂.executed
  refine ⟨h₂.wire.trans h₁.wire, h₂.ops.trans h₁.ops, h₂.pending.trans h₁.pending,
    h₂.abandoned.trans h₁.abandoned, fun y hy => ?_, List.Subset.trans h₁.kept h₂.kept,
    fun op ho => ?_, tags₁ ++ tags₂, by rw [he₂, he₁, List.append_assoc], fun tag htag => ?_⟩
  · rcases h₂.waiting y hy with hy | hy
    · rcases h₁.waiting y hy with hy | hy
      · exact .inl hy
      · exact .inr (by simp_all)
    · exact .inr (List.mem_cons_of_mem _ hy)
  · rcases h₂.missing op ho with ho | ⟨y, hy, hr⟩
    · rcases h₁.missing op ho with ho | ⟨y, hy, hr⟩
      · exact .inl ho
      · exact .inr ⟨x, List.mem_cons_self, List.mem_singleton.mp hy ▸ hr⟩
    · exact .inr ⟨y, List.mem_cons_of_mem _ hy, hr⟩
  · rcases List.mem_append.mp htag with htag | htag
    · obtain ⟨y, hy, ho⟩ := ht₁ tag htag
      exact ⟨x, List.mem_cons_self, List.mem_singleton.mp hy ▸ ho⟩
    · obtain ⟨y, hy, ho⟩ := ht₂ tag htag
      exact ⟨y, List.mem_cons_of_mem _ hy, ho⟩

end Handled

/-- Settling a request changes the organization and the executions alone, and executes that edit at
most. -/
theorem settle_spec (s : Exchange) (e : Surroundings) (request : Request) :
    ∃ state executed, (s.settle e request).1 = { s with state, executed } ∧
      (executed = s.executed ∨ ∃ op, request = .mutate op ∧ executed = s.executed ++ [op.tag]) := by
  unfold settle
  split
  · exact ⟨s.state, s.executed, rfl, .inl rfl⟩
  split
  · rename_i op
    unfold mutate
    split
    · split <;> exact ⟨s.state, s.executed, rfl, .inl rfl⟩
    split
    · exact ⟨s.state, s.executed, rfl, .inl rfl⟩
    split
    · exact ⟨s.state, s.executed, rfl, .inl rfl⟩
    split
    · exact ⟨s.state, s.executed, rfl, .inl rfl⟩
    split
    · exact ⟨s.state, s.executed, rfl, .inl rfl⟩
    · exact ⟨_, _, rfl, .inr ⟨op, rfl, rfl⟩⟩
  · exact ⟨s.state, s.executed, rfl, .inl rfl⟩

theorem handled_handle (s : Exchange) (e : Surroundings) (x : Id × Request) : Handled s [x] (s.handle e x) := by
  obtain ⟨state, executed, hs, he⟩ := s.settle_spec e x.2
  have ht : ∃ tags, executed = s.executed ++ tags ∧
      ∀ tag ∈ tags, ∃ y ∈ [x], ∃ op, y.2 = .mutate op ∧ op.tag = tag := by
    rcases he with rfl | ⟨op, ho, rfl⟩
    · exact ⟨[], by simp, by simp⟩
    · exact ⟨[op.tag], rfl, fun tag htag => ⟨x, List.mem_cons_self, op, ho, (List.mem_singleton.mp htag).symm⟩⟩
  unfold handle
  dsimp only
  rw [hs]
  split
  · exact ⟨rfl, rfl, rfl, rfl, fun y hy => List.mem_append.mp hy, List.Subset.refl _, fun op ho => .inl ho, ht⟩
  · rename_i op _ hr
    refine ⟨rfl, rfl, rfl, rfl, fun y hy => .inl hy, List.subset_append_left _ _, fun op' ho' => ?_, ht⟩
    rcases List.mem_append.mp ho' with ho' | ho'
    · exact .inl ho'
    · exact .inr ⟨x, List.mem_cons_self, List.mem_singleton.mp ho' ▸ hr⟩
  · exact ⟨rfl, rfl, rfl, rfl, fun y hy => .inl hy, List.Subset.refl _, fun op ho => .inl ho, ht⟩

theorem handled_foldl (e : Nat → Surroundings) (xs : List ((Id × Request) × Nat)) (s : Exchange) :
    Handled s (xs.map (·.1)) (xs.foldl (fun s x => s.handle (e x.2) x.1) s) := by
  induction xs generalizing s with
  | nil => exact .nil s
  | cons x xs ih => exact (s.handled_handle (e x.2) x.1).cons (ih _)

/-- What the host does with the requests it holds, whatever the event. -/
structure Served (s s' : Exchange) : Prop where
  ops : s'.ops = s.ops
  pending : s'.pending = s.pending
  abandoned : s'.abandoned = s.abandoned
  held : s'.held ⊆ s.held
  kept : s.missing ⊆ s'.missing
  missing : ∀ op ∈ s'.missing, op ∈ s.missing ∨ ∃ x ∈ s.held, x.2 = .resolve op
  executed : ∃ tags, s'.executed = s.executed ++ tags ∧
    ∀ tag ∈ tags, ∃ x ∈ s.held, ∃ op, x.2 = .mutate op ∧ op.tag = tag

theorem Served.of_held_subset (hop : s'.ops = s.ops) (hpending : s'.pending = s.pending)
    (ha : s'.abandoned = s.abandoned) (hh : s'.held ⊆ s.held)
    (hmissing : s'.missing = s.missing) (he : s'.executed = s.executed) : Served s s' :=
  ⟨hop, hpending, ha, hh, hmissing ▸ List.Subset.refl _, fun op ho => .inl (hmissing ▸ ho),
    [], by simp [he], by simp⟩

theorem Handled.served {wire waiting xs : List (Id × Request)}
    (h : Handled { s with wire, waiting } xs s') (hh : wire ++ waiting ⊆ s.held)
    (hxs : xs ⊆ s.held) : Served s s' := by
  obtain ⟨tags, he, ht⟩ := h.executed
  refine ⟨h.ops, h.pending, h.abandoned, fun x hx => ?_, h.kept, fun op ho => ?_, tags, he, fun tag htag => ?_⟩
  · have hw : s'.wire = wire := h.wire
    rcases List.mem_append.mp hx with hx | hx
    · exact hh (List.mem_append_left _ (hw ▸ hx))
    rcases h.waiting x hx with hx | hx
    · exact hh (List.mem_append_right _ hx)
    · exact hxs hx
  · refine (h.missing op ho).imp_right ?_
    rintro ⟨x, hx, hr⟩
    exact ⟨x, hxs hx, hr⟩
  · obtain ⟨x, hx, ho⟩ := ht tag htag
    exact ⟨x, hxs hx, ho⟩

/-- What each event does: the host serves, a client sends a request, or it settles its journal. -/
inductive Effect (s : Exchange) : Exchange → Prop
  | served {s' : Exchange} (h : Served s s') : Effect s s'
  | dispatched (connection : Id) (op : Op) (htag : op.tag = s.ops.length) :
      Effect s (({ s with
        ops := s.ops ++ [op], wire := s.wire ++ [(connection, .mutate op)] } : Exchange).setPending
          op.device (some op))
  | asked (connection : Id) {device : Id} {op : Op} (hpending : s.pending device = some op) :
      Effect s { s with wire := s.wire ++ [(connection, .resolve op)] }
  | abandons {device : Id} {op : Op} (hpending : s.pending device = some op)
      (hmissing : ∃ m ∈ s.missing, m.tag = op.tag) :
      Effect s (({ s with abandoned := s.abandoned ++ [op.tag] } : Exchange).setPending device none)
  | retires (device : Id) : Effect s (s.setPending device none)

theorem Step.effect (h : Step s e s') : Effect s s' := by
  unfold Step at h
  cases e with
  | connect connection device =>
    simp only [event] at h
    split at h
    · cases h
    · cases h
      exact .served (.of_held_subset rfl rfl rfl (List.Subset.refl _) rfl rfl)
  | close connection =>
    cases h
    refine .served (.of_held_subset rfl rfl rfl (fun x hx => ?_) rfl rfl)
    rcases List.mem_append.mp hx with hx | hx
    · exact List.mem_append_left _ (List.mem_of_mem_filter hx)
    · exact List.mem_append_right _ (List.mem_of_mem_filter hx)
  | dispatch connection sequence mutation =>
    obtain ⟨device, -, h⟩ := Option.bind_eq_some_iff.mp h
    split at h
    · cases h
    · cases h
      exact .dispatched connection _ rfl
  | ask connection =>
    obtain ⟨device, -, h⟩ := Option.bind_eq_some_iff.mp h
    obtain ⟨op, ho, h⟩ := Option.bind_eq_some_iff.mp h
    cases h
    exact .asked connection ho
  | deliver connection surroundings =>
    obtain ⟨x, hx, h⟩ := Option.bind_eq_some_iff.mp h
    cases h
    refine .served ((handled_handle _ surroundings x).served (fun y hy => ?_) fun y hy => ?_)
    · rcases List.mem_append.mp hy with hy | hy
      · exact List.mem_append_left _ (List.eraseP_subset hy)
      · exact List.mem_append_right _ hy
    · obtain rfl := List.mem_singleton.mp hy
      exact List.mem_append_left _ (List.mem_of_find?_eq_some hx)
  | answerWaiting surroundings =>
    cases h
    have hf := handled_foldl surroundings s.waiting.zipIdx { s with waiting := [] }
    rw [List.zipIdx_map_fst] at hf
    exact .served (hf.served (by simp [held]) (List.subset_append_right _ _))
  | serve op =>
    simp only [event] at h
    split at h
    · cases h
    · cases h
      exact .served (.of_held_subset rfl rfl rfl (List.Subset.refl _) rfl rfl)
  | restore state =>
    cases h
    exact .served (.of_held_subset rfl rfl rfl (List.Subset.refl _) rfl rfl)
  | abandon device =>
    obtain ⟨op, ho, h⟩ := Option.bind_eq_some_iff.mp h
    split at h
    · rename_i hmissing
      cases h
      exact .abandons ho (by simpa using hmissing)
    · cases h
  | retire device =>
    cases h
    exact .retires device

/-- `op` is the dispatch its tag says it is. -/
def Known (s : Exchange) (op : Op) : Prop := s.ops[op.tag]? = some op

theorem Known.eq {a b : Op} (ha : s.Known a) (hb : s.Known b) (htag : a.tag = b.tag) : a = b := by
  unfold Known at ha hb
  rw [htag, hb] at ha
  exact (Option.some.inj ha).symm

structure Inv (s : Exchange) : Prop where
  held : ∀ x ∈ s.held, s.Known x.2.op
  pending : ∀ device op, s.pending device = some op → s.Known op
  missing : ∀ op ∈ s.missing, s.Known op
  gone : ∀ op ∈ s.missing, ∀ x ∈ s.held, x.2 ≠ .mutate op
  abandoned : ∀ tag ∈ s.abandoned, ∃ op ∈ s.missing, op.tag = tag

/-- The host answers that it holds no outcome for an operation only when no edit of its client and
sequence is in flight or parked. -/
def Clear (s s' : Exchange) : Prop :=
  ∀ op ∈ s'.missing, op ∈ s.missing ∨ ∀ x ∈ s.held, ∀ m, x.2 = .mutate m →
    m.device = op.device → m.sequence ≠ op.sequence

namespace Inv

theorem start (state : State) : Inv (start state) :=
  ⟨by simp [Exchange.start, Exchange.held], by simp [Exchange.start], by simp [Exchange.start],
    by simp [Exchange.start], by simp [Exchange.start]⟩

theorem served (h : Inv s) (hs : Served s s') (hc : Clear s s') : Inv s' := by
  have hkn : ∀ {op}, s.Known op → s'.Known op := by
    intro op ho
    unfold Known
    rw [hs.ops]
    exact ho
  refine ⟨fun x hx => hkn (h.held x (hs.held hx)), fun device op ho => ?_, fun op ho => ?_,
    fun op ho x hx hmu => ?_, fun tag htag => ?_⟩
  · rw [hs.pending] at ho
    exact hkn (h.pending device op ho)
  · rcases hs.missing op ho with ho | ⟨x, hx, hr⟩
    · exact hkn (h.missing op ho)
    have := h.held x hx
    rw [hr] at this
    exact hkn this
  · rcases hc op ho with ho | hsi
    · exact h.gone op ho x (hs.held hx) hmu
    · exact hsi x (hs.held hx) op hmu rfl rfl
  · rw [hs.abandoned] at htag
    obtain ⟨op, ho, rfl⟩ := h.abandoned tag htag
    exact ⟨op, hs.kept ho, rfl⟩

theorem dispatched (h : Inv s) (connection : Id) {op : Op} (htag : op.tag = s.ops.length) :
    Inv (({ s with ops := s.ops ++ [op], wire := s.wire ++ [(connection, .mutate op)] }
      : Exchange).setPending op.device (some op)) := by
  set s' := ({ s with ops := s.ops ++ [op], wire := s.wire ++ [(connection, .mutate op)] }
      : Exchange).setPending op.device (some op) with hs'
  have hkn : ∀ {m}, s.Known m → s'.Known m := by
    intro m hm
    obtain ⟨hl, -⟩ := List.getElem?_eq_some_iff.mp hm
    show (s.ops ++ [op])[m.tag]? = some m
    rw [List.getElem?_append_left hl]
    exact hm
  have hnew : s'.Known op := by
    show (s.ops ++ [op])[op.tag]? = some op
    rw [htag, List.getElem?_concat_length]
  have hf : ∀ m, s.Known m → m ≠ op := by
    rintro m hm rfl
    obtain ⟨hl, -⟩ := List.getElem?_eq_some_iff.mp hm
    omega
  have hh : ∀ x ∈ s'.held, x ∈ s.held ∨ x = (connection, .mutate op) := by
    intro x hx
    have hx : x ∈ (s.wire ++ [(connection, .mutate op)]) ++ s.waiting := hx
    simp only [List.mem_append, List.mem_singleton] at hx
    simp only [Exchange.held, List.mem_append]
    tauto
  refine ⟨fun x hx => ?_, fun device m hm => ?_, fun m hm => hkn (h.missing m hm),
    fun m hm x hx hmu => ?_, h.abandoned⟩
  · rcases hh x hx with hx | rfl
    · exact hkn (h.held x hx)
    · exact hnew
  · have hm : (if device = op.device then some op else s.pending device) = some m := hm
    split at hm
    · cases hm
      exact hnew
    · exact hkn (h.pending device m hm)
  · rcases hh x hx with hx | rfl
    · exact h.gone m hm x hx hmu
    · exact hf m (h.missing m hm) (Request.mutate.inj hmu).symm

theorem asked (h : Inv s) (connection : Id) {device : Id} {op : Op} (hpending : s.pending device = some op) :
    Inv { s with wire := s.wire ++ [(connection, .resolve op)] } := by
  have hh : ∀ x ∈ ({ s with wire := s.wire ++ [(connection, .resolve op)] } : Exchange).held,
      x ∈ s.held ∨ x = (connection, .resolve op) := by
    intro x hx
    simp only [Exchange.held, List.mem_append, List.mem_singleton] at hx ⊢
    tauto
  refine ⟨fun x hx => ?_, h.pending, h.missing, fun m hm x hx => ?_, h.abandoned⟩
  · rcases hh x hx with hx | rfl
    · exact h.held x hx
    · exact h.pending device op hpending
  · rcases hh x hx with hx | rfl
    · exact h.gone m hm x hx
    · exact nofun

theorem setPending_none (h : Inv s) (device : Id) : Inv (s.setPending device none) := by
  refine ⟨h.held, fun d op ho => ?_, h.missing, h.gone, h.abandoned⟩
  have ho : (if d = device then none else s.pending d) = some op := ho
  split at ho
  · cases ho
  · exact h.pending d op ho

theorem step (h : Inv s) (hs : Effect s s') (hc : Clear s s') : Inv s' := by
  cases hs with
  | served hse => exact h.served hse hc
  | dispatched connection op htag => exact h.dispatched connection htag
  | asked connection hpending => exact h.asked connection hpending
  | @abandons device op hpending hmissing =>
    have hw : Inv { s with abandoned := s.abandoned ++ [op.tag] } := by
      refine ⟨h.held, h.pending, h.missing, h.gone, fun tag htag => ?_⟩
      rcases List.mem_append.mp htag with htag | htag
      · exact h.abandoned tag htag
      · obtain rfl := List.mem_singleton.mp htag
        exact hmissing
    exact hw.setPending_none device
  | retires device => exact h.setPending_none device

theorem executed_step (h : Inv s) (hs : Effect s s') {tag : Nat} (htag : tag ∈ s.abandoned) :
    tag ∈ s'.abandoned ∧ ∃ later, s'.executed = s.executed ++ later ∧ tag ∉ later := by
  cases hs with
  | served hse =>
    obtain ⟨tags, he, ht⟩ := hse.executed
    refine ⟨hse.abandoned ▸ htag, tags, he, fun hmem => ?_⟩
    obtain ⟨x, hx, op, hmu, ho⟩ := ht tag hmem
    obtain ⟨m, hm, rfl⟩ := h.abandoned tag htag
    have hkn := h.held x hx
    rw [hmu] at hkn
    have hsa : op = m := Known.eq hkn (h.missing m hm) ho
    exact h.gone m hm x hx (hsa ▸ hmu)
  | abandons => exact ⟨List.mem_append_left _ htag, [], by simp [setPending], by simp⟩
  | dispatched | asked | retires => exact ⟨htag, [], by simp [setPending], by simp⟩

end Inv

/-- In a run in which the host answers that it holds no outcome only while no such edit is in flight
or parked, an operation is not executed once its client abandoned it. -/
theorem abandoned_never_executed {state : State} {es fs : List Event} {s u : Exchange} {tag : Nat}
    (hrun : Run (fun s e s' => Step s e s' ∧ Clear s s') (start state) es s)
    (htag : tag ∈ s.abandoned) (hlater : Run (fun s e s' => Step s e s' ∧ Clear s s') s fs u) :
    ∃ later, u.executed = s.executed ++ later ∧ tag ∉ later := by
  have h : Inv s := hrun.invariant (.start state) fun h hs => h.step hs.1.effect hs.2
  have hu := hlater.invariant (P := fun u => Inv u ∧ tag ∈ u.abandoned ∧
    ∃ later, u.executed = s.executed ++ later ∧ tag ∉ later)
    ⟨h, htag, [], by simp, by simp⟩ ?_
  · exact hu.2.2
  rintro t e u ⟨ht, htag, later, he, hno⟩ ⟨hst, hc⟩
  obtain ⟨htag', more, he', hno'⟩ := ht.executed_step hst.effect htag
  refine ⟨ht.step hst.effect hc, htag', later ++ more, ?_, ?_⟩
  · rw [he', he, List.append_assoc]
  · rw [List.mem_append]
    exact not_or.mpr ⟨hno, hno'⟩

/-! ### Runs on fixed requests -/

/-- Surroundings in which nothing is refused. -/
def calm : Surroundings where
  blocked := none
  worktreeLock := true
  live := none
  directory := ⟨[47]⟩
  validatePin _ := true
  fresh
    | 0 => some 1
    | 1 => some 2
    | 2 => some 3
    | _ => none
  location := .pending

def createWorkspace : Mutation := .createWorkspace [] none .creator

def lostThenAbandoned : List Event :=
  [.connect 10 1, .dispatch 10 1 createWorkspace, .close 10, .connect 11 1, .ask 11, .deliver 11 calm, .abandon 1]

def otherCreates : List Event := [.connect 20 2, .dispatch 20 1 createWorkspace, .deliver 20 calm]

def cleared (s : Exchange) (e : Event) : Option Exchange :=
  (s.event e).filter fun s' => s.held.all fun x => match x.2 with
    | .mutate m => s'.missing.all fun op => !(m.device == op.device && m.sequence == op.sequence)
    | .resolve _ => true

theorem clear_of_cleared (h : cleared s e = some s') : Step s e s' ∧ Clear s s' := by
  obtain ⟨he, ha⟩ := Option.filter_eq_some_iff.mp h
  refine ⟨he, fun op ho => .inr fun x hx m hmu hd hs => ?_⟩
  have hx := List.all_eq_true.mp ha x hx
  rw [hmu] at hx
  have ho := List.all_eq_true.mp hx op ho
  simp [hd, hs] at ho

theorem abandoned_never_executed_lost : ∃ s u : Exchange,
    Run (fun s e s' => Step s e s' ∧ Clear s s') (start .empty) lostThenAbandoned s ∧
      Run (fun s e s' => Step s e s' ∧ Clear s s') s otherCreates u ∧ 0 ∈ s.abandoned ∧
      u.executed = [1] ∧ ∃ later, u.executed = s.executed ++ later ∧ 0 ∉ later := by
  have hb : ((lostThenAbandoned.foldlM cleared (start .empty)).bind fun s =>
      (otherCreates.foldlM cleared s).map fun u => (s.abandoned, u.executed)) = some ([0], [1]) := by
    decide +kernel
  obtain ⟨s, hs, hb⟩ := Option.bind_eq_some_iff.mp hb
  obtain ⟨u, hu, hsa⟩ := Option.map_eq_some_iff.mp hb
  obtain ⟨ha, he⟩ := Prod.mk.inj hsa
  have hr := (Run.of_foldlM hs).mono clear_of_cleared
  have hl := (Run.of_foldlM hu).mono clear_of_cleared
  have htag : 0 ∈ s.abandoned := by rw [ha]; exact List.mem_singleton_self 0
  exact ⟨s, u, hr, hl, htag, he, abandoned_never_executed hr htag hl⟩

/-- Client 2 has a Worktree write pending, so the edit of client 1 is parked. Asked on another
connection, the host answers that it holds no outcome, and the client abandons the edit. -/
def parkedThenAbandoned : List Event :=
  [.connect 20 2, .dispatch 20 1 (.worktree (.openTab 7 none ⟨[47]⟩ ⟨[47]⟩ .creator)),
    .deliver 20 calm, .connect 10 1, .dispatch 10 1 createWorkspace, .deliver 10 calm,
    .connect 11 1, .ask 11, .deliver 11 calm, .abandon 1]

def waitingAnswered : List Event :=
  [.serve (.finishWorktree 2 1 (.worktreeFailed .unavailable)), .answerWaiting fun _ => calm]

/-- The abandoned edit, parked on the first connection, is executed after all. -/
theorem parked_edit_executed_after_abandon : ∃ (s u : Exchange) (tag : Nat),
    Run Step (start .empty) parkedThenAbandoned s ∧ tag ∈ s.abandoned ∧
      Run Step s waitingAnswered u ∧ u.executed = s.executed ++ [tag] := by
  have hbo : ((parkedThenAbandoned.foldlM event (start .empty)).bind fun s =>
      (waitingAnswered.foldlM event s).map fun u => (s.abandoned, s.executed, u.executed)) =
        some ([1], [0], [0, 1]) := by decide +kernel
  obtain ⟨s, hs, hbo⟩ := Option.bind_eq_some_iff.mp hbo
  obtain ⟨u, hu, hsa⟩ := Option.map_eq_some_iff.mp hbo
  obtain ⟨ha, he⟩ := Prod.mk.inj hsa
  obtain ⟨hb, haf⟩ := Prod.mk.inj he
  exact ⟨s, u, 1, .of_foldlM hs, by simp [ha], .of_foldlM hu, by rw [haf, hb]; rfl⟩

end Exchange

end SpaceTerm.Edits
