import SpaceTerm.Control.Host
import Mathlib

/-! # The client's attachments

`attachments.rs`: which Workspaces a client is attached to, with a generation for each attachment,
and the releases it still has to send. Every change is saved before it counts; a save that fails
leaves the old or the new record in the file and blocks the writer, and only opening the file again
goes on from it. -/

namespace SpaceTerm.Control
open Lib

structure Choices where
  initialized : Bool := false
  nextGeneration : Nat := 0
  attached : List Attachment := []
  pending : List Attachment := []
  deriving DecidableEq

namespace Choices

/-- Every attachment and every release to send. -/
def all (c : Choices) : List Attachment := c.attached ++ c.pending

/-- `valid_choices`. -/
def valid (c : Choices) : Bool :=
  decide (c.attached.map (·.workspace)).Nodup &&
  decide (c.attached.length ≤ Hierarchy.maxWorkspaces) &&
  decide (c.pending.length ≤ Hierarchy.maxWorkspaces) &&
  (c.initialized || c == {}) &&
  decide (c.all.map (·.generation)).Nodup &&
  c.all.all fun a => a.generation != 0 && decide (a.generation ≤ c.nextGeneration)

def attach (c : Choices) (workspace : Id) : Option Choices :=
  let c := { c with initialized := true }
  if c.attached.any (·.workspace == workspace) then some c
  else if c.nextGeneration + 1 > u64Max then none
  else some { c with nextGeneration := c.nextGeneration + 1,
                     attached := c.attached ++ [⟨workspace, c.nextGeneration + 1⟩] }

/-- The change `detach` saves: a later release subsumes earlier ones of the same Workspace. -/
def detach (c : Choices) (workspace : Id) : Choices :=
  match c.attached.find? (·.workspace == workspace) with
  | none => c
  | some a => { c with attached := c.attached.eraseP (·.workspace == workspace),
                       pending := c.pending.filter (·.workspace != workspace) ++ [a] }

def released (c : Choices) (a : Attachment) : Choices :=
  { c with pending := c.pending.filter (· != a) }

def reconcile (c : Choices) (workspaces : List Id) : Choices :=
  { c with attached := c.attached.filter (workspaces.contains ·.workspace) }

end Choices

inductive StoreError
  | storageUnavailable | capacity | write | sessionUnavailable | unsafeStorage
  deriving Repr, DecidableEq

/-- How a write ends: a failed one leaves the new record or the old one. -/
inductive Written
  | ok
  | failed (new : Bool)
  deriving Repr, DecidableEq

/-- The writer and the file it saves to. The writer holds the file's lock, so the file opens again only
without it. `issued` records the attachments that came into effect. -/
structure Client where
  choices : Choices := {}
  /-- The Panes of the inventory last reconciled, each with its Workspace. -/
  catalog : List (Id × Id) := []
  blocked : Bool := false
  file : Choices := {}
  issued : List Attachment := []

namespace Client

/-- `State::save`. -/
def save (s : Client) (next : Choices) (written : Written) : Except StoreError Unit × Client :=
  if s.blocked then (.error .storageUnavailable, s)
  else if next.attached.length > Hierarchy.maxWorkspaces ∨
      next.pending.length > Hierarchy.maxWorkspaces then (.error .capacity, s)
  else if s.choices = next then (.ok (), s)
  else match written with
    | .failed new =>
      (.error .write, { s with blocked := true, file := if new then next else s.file })
    | .ok =>
      (.ok (), { s with choices := next, file := next,
                        issued := s.issued ++ next.attached.filter (· ∉ s.choices.attached) })

/-- The Workspaces of an inventory with their Panes. -/
abbrev Inventory := List (Id × List Id)

def catalogOf (inventory : Inventory) : List (Id × Id) :=
  inventory.flatMap fun w => w.2.map fun p => (p, w.1)

def reconcile (s : Client) (inventory : Inventory) (written : Written) : Except StoreError Unit × Client :=
  match s.save (s.choices.reconcile (inventory.map Prod.fst)) written with
  | (.error e, s) => (.error e, s)
  | (.ok (), s) => (.ok (), { s with catalog := catalogOf inventory })

def initializeChoices (s : Client) (inventory : Inventory) (workspace : Option Id)
    (written again : Written) : Except StoreError Unit × Client :=
  if s.choices.initialized then s.reconcile inventory again
  else
    let next : Except StoreError Choices := match workspace with
      | none => .ok { s.choices with initialized := true }
      | some w =>
        if !inventory.any (·.1 == w) then .error .sessionUnavailable
        else match s.choices.attach w with
          | none => .error .capacity
          | some next => .ok next
    match next with
    | .error e => (.error e, s)
    | .ok next => match s.save next written with
      | (.error e, s) => (.error e, s)
      | (.ok (), s) => s.reconcile inventory again

def attach (s : Client) (workspace : Id) (written : Written) : Except StoreError Bool × Client :=
  if !s.catalog.any (·.2 == workspace) then (.ok false, s)
  else match s.choices.attach workspace with
    | none => (.error .capacity, s)
    | some next => match s.save next written with
      | (.error e, s) => (.error e, s)
      | (.ok (), s) => (.ok true, s)

def detach (s : Client) (workspace : Id) (written : Written) : Except StoreError Unit × Client :=
  s.save (s.choices.detach workspace) written

def released (s : Client) (a : Attachment) (written : Written) : Except StoreError Unit × Client :=
  s.save (s.choices.released a) written

def permit (s : Client) (pane : Id) : Option Attachment :=
  match s.catalog.find? (·.1 == pane) with
  | none => none
  | some (_, workspace) =>
    match s.choices.attached.find? (·.workspace == workspace) with
    | none => none
    | some a => if s.blocked then none else some a

/-- `AttachmentPermit::active`. -/
def active (s : Client) (a : Attachment) : Bool := !s.blocked && s.choices.attached.contains a

/-- `Attachments::open`, once no writer holds the file. -/
def reopen (s : Client) : Except StoreError Unit × Client :=
  if s.file.valid then
    (.ok (), { choices := s.file, file := s.file, issued := s.issued ++ s.file.attached.filter (· ∉ s.issued) })
  else (.error .unsafeStorage, s)

inductive Event
  | initializeChoices (inventory : Inventory) (workspace : Option Id) (written again : Written)
  | reconcile (inventory : Inventory) (written : Written)
  | attach (workspace : Id) (written : Written)
  | detach (workspace : Id) (written : Written)
  | released (a : Attachment) (written : Written)
  | reopen

def event (s : Client) : Event → Client
  | .initializeChoices inventory workspace written again =>
    (s.initializeChoices inventory workspace written again).2
  | .reconcile inventory written => (s.reconcile inventory written).2
  | .attach workspace written => (s.attach workspace written).2
  | .detach workspace written => (s.detach workspace written).2
  | .released a written => (s.released a written).2
  | .reopen => s.reopen.2

def Step (s : Client) (e : Event) (t : Client) : Prop := s.event e = t

end Client

/-! ### What a change of the choices keeps -/

namespace Choices

/-- `valid_choices` without its limits on the lengths, which `save` checks. -/
structure Ok (c : Choices) : Prop where
  workspaces : (c.attached.map (·.workspace)).Nodup
  generations : (c.all.map (·.generation)).Nodup
  bounds : ∀ a ∈ c.all, a.generation ≠ 0 ∧ a.generation ≤ c.nextGeneration
  initialized : c.initialized = true ∨ c = {}

structure Small (c : Choices) : Prop where
  attached : c.attached.length ≤ Hierarchy.maxWorkspaces
  pending : c.pending.length ≤ Hierarchy.maxWorkspaces

theorem valid_iff {c : Choices} : c.valid = true ↔ c.Ok ∧ c.Small := by
  simp only [valid, Bool.and_eq_true, decide_eq_true_eq, Bool.or_eq_true, beq_iff_eq, List.all_eq_true, bne_iff_ne]
  constructor
  · rintro ⟨⟨⟨⟨⟨hw, ha⟩, hp⟩, hi⟩, hg⟩, hb⟩
    exact ⟨⟨hw, hg, hb, hi⟩, ⟨ha, hp⟩⟩
  · rintro ⟨⟨hw, hg, hb, hi⟩, ⟨ha, hp⟩⟩
    exact ⟨⟨⟨⟨⟨hw, ha⟩, hp⟩, hi⟩, hg⟩, hb⟩

structure Follows (c c' : Choices) : Prop where
  ok : c'.Ok
  next : c.nextGeneration ≤ c'.nextGeneration
  attached : ∀ a ∈ c'.attached, a ∈ c.attached ∨ c.nextGeneration < a.generation ∧ a.generation = c'.nextGeneration

variable {c c' : Choices} {w : Id}

theorem Ok.refl (h : c.Ok) : Follows c c := ⟨h, Nat.le_refl _, fun _ ha => .inl ha⟩

theorem Ok.attach (h : c.Ok) (he : c.attach w = some c') : Follows c c' := by
  unfold Choices.attach at he
  simp only at he
  split at he
  · cases he
    exact ⟨{ h with initialized := .inl rfl }, Nat.le_refl _, fun _ ha => .inl ha⟩
  rename_i hnew
  split at he
  · cases he
  cases he
  have hf : ∀ a ∈ c.all, a.generation ≠ c.nextGeneration + 1 := fun a ha he => by
    have := (h.bounds a ha).2
    omega
  have hal : ((c.attached ++ [Attachment.mk w (c.nextGeneration + 1)]) ++ c.pending).Perm
      (⟨w, c.nextGeneration + 1⟩ :: c.all) := by
    rw [List.append_assoc]
    exact List.perm_middle
  refine ⟨⟨?_, ?_, fun a ha => ?_, .inl rfl⟩, Nat.le_succ _, fun a ha => ?_⟩
  · rw [List.map_append, List.nodup_append]
    refine ⟨h.workspaces, List.nodup_singleton _, fun x hx y hy => ?_⟩
    obtain ⟨a, ha, rfl⟩ := List.mem_map.mp hx
    rw [List.mem_singleton.mp hy]
    intro he
    exact hnew (List.any_eq_true.mpr ⟨a, ha, beq_iff_eq.mpr he⟩)
  · have : ((Attachment.mk w (c.nextGeneration + 1) :: c.all).map (·.generation)).Nodup := by
      rw [List.map_cons, List.nodup_cons]
      refine ⟨fun hmem => ?_, h.generations⟩
      obtain ⟨a, ha, he⟩ := List.mem_map.mp hmem
      exact hf a ha he
    exact (hal.map _).nodup_iff.mpr this
  · rcases List.mem_cons.mp (hal.mem_iff.mp ha) with rfl | ha
    · exact ⟨Nat.succ_ne_zero _, Nat.le_refl _⟩
    · exact ⟨(h.bounds a ha).1, Nat.le_succ_of_le (h.bounds a ha).2⟩
  · rcases List.mem_append.mp ha with ha | ha
    · exact .inl ha
    · rw [List.mem_singleton.mp ha]
      exact .inr ⟨Nat.lt_succ_self _, rfl⟩

theorem Ok.sublist (h : c.Ok) {attached pending : List Attachment}
    (ha : attached.Sublist c.attached) (hp : pending.Sublist c.pending) :
    Follows c { c with attached, pending } := by
  have hal : (attached ++ pending).Sublist c.all := ha.append hp
  refine ⟨⟨h.workspaces.sublist (ha.map _), h.generations.sublist (hal.map _),
    fun a hmem => h.bounds a (hal.subset hmem), ?_⟩, Nat.le_refl _, fun a hmem => .inl (ha.subset hmem)⟩
  rcases h.initialized with hi | rfl
  · exact .inl hi
  · exact .inr (by rw [List.sublist_nil.mp ha, List.sublist_nil.mp hp])

theorem Ok.reconcile (h : c.Ok) (workspaces : List Id) : Follows c (c.reconcile workspaces) :=
  h.sublist List.filter_sublist (.refl _)

theorem Ok.released (h : c.Ok) (a : Attachment) : Follows c (c.released a) :=
  h.sublist (.refl _) List.filter_sublist

theorem Ok.begin (h : c.Ok) : Follows c { c with initialized := true } :=
  ⟨{ h with initialized := .inl rfl }, Nat.le_refl _, fun _ ha => .inl ha⟩

theorem Ok.detach (h : c.Ok) (w : Id) : Follows c (c.detach w) := by
  unfold Choices.detach
  split
  · exact h.refl
  rename_i a hf
  obtain ⟨l, r, ha, -, -, -, he⟩ := exists_split hf
  rw [he]
  have hs : (l ++ r).Sublist c.attached := by
    rw [ha]
    exact (List.Sublist.refl l).append (List.sublist_cons_self a r)
  -- the attachment moves to the releases to send
  have hp : ((l ++ r) ++ (c.pending.filter (·.workspace != w) ++ [a])).Perm
      (c.attached ++ c.pending.filter (·.workspace != w)) := by
    rw [ha]
    simp only [List.append_assoc, List.cons_append]
    refine (List.Perm.append_left l ?_)
    rw [← List.append_assoc]
    exact List.perm_append_comm
  have hs' : (c.attached ++ c.pending.filter (·.workspace != w)).Sublist c.all :=
    (List.Sublist.refl _).append List.filter_sublist
  refine ⟨⟨h.workspaces.sublist (hs.map _), ?_, fun b hb => ?_, ?_⟩, Nat.le_refl _,
    fun b hb => .inl (hs.subset hb)⟩
  · exact (hp.map _).nodup_iff.mpr (h.generations.sublist (hs'.map _))
  · exact h.bounds b (hs'.subset (hp.mem_iff.mp hb))
  · rcases h.initialized with hi | rfl
    · exact .inl hi
    · cases hf

theorem not_mem_detach (h : c.Ok) {a : Attachment} (ha : a.workspace = w) : a ∉ (c.detach w).attached := by
  unfold Choices.detach
  split
  · rename_i hnone
    intro hmem
    exact absurd (beq_iff_eq.mpr ha) (List.find?_eq_none.mp hnone a hmem)
  rename_i b hf
  obtain ⟨l, r, hat, hb, -, -, he⟩ := exists_split hf
  rw [he]
  intro hmem
  have hno := h.workspaces
  rw [hat, List.map_append, List.map_cons, List.nodup_middle] at hno
  refine (List.nodup_cons.mp hno).1 ?_
  rw [← List.map_append]
  exact List.mem_map.mpr ⟨a, hmem, ha.trans (eq_of_beq hb).symm⟩

theorem pairwise_newest {l : List Attachment} {n : Nat} (hno : (l.map (·.generation)).Nodup)
    (hal : ∀ a ∈ l, a.generation = n) : l.Pairwise (·.generation < ·.generation) := by
  refine (List.pairwise_map.mp hno).imp_of_mem fun ha hb hne => ?_
  exact absurd ((hal _ ha).trans (hal _ hb).symm) hne

end Choices

/-! ### The writer's invariant -/

namespace Client

variable {s t : Client} {e : Event}

structure Inv (s : Client) : Prop where
  ok : s.choices.Ok
  small : s.choices.Small
  /-- A blocked writer may have left its last change in the file. -/
  file : s.file = s.choices ∨ s.blocked = true ∧ Choices.Follows s.choices s.file ∧ s.file.Small
  issued : s.issued.Pairwise (·.generation < ·.generation)
  issuedBelow : ∀ a ∈ s.issued, a.generation ≤ s.choices.nextGeneration
  attachedIssued : ∀ a ∈ s.choices.attached, a ∈ s.issued

theorem Inv.start : Inv {} :=
  ⟨⟨.nil, .nil, by simp [Choices.all], .inr rfl⟩, ⟨Nat.zero_le _, Nat.zero_le _⟩, .inl rfl, .nil, by simp, by simp⟩

theorem Inv.valid (h : s.Inv) : s.file.valid = true := by
  rw [Choices.valid_iff]
  rcases h.file with he | ⟨-, hf, hs⟩
  · rw [he]
    exact ⟨h.ok, h.small⟩
  · exact ⟨hf.ok, hs⟩

variable {next : Choices}

theorem Inv.adopt (h : s.Inv) {known : List Attachment} (hfo : Choices.Follows s.choices next) (hs : next.Small)
    (hkn : ∀ a ∈ known, a ∈ s.issued) (hold : ∀ a ∈ s.choices.attached, a ∈ known)
    (ht : t.choices = next) (hf : t.file = next)
    (hi : t.issued = s.issued ++ next.attached.filter (· ∉ known)) : t.Inv := by
  have hnew : ∀ a ∈ next.attached.filter (· ∉ known),
      s.choices.nextGeneration < a.generation ∧ a.generation = next.nextGeneration := by
    intro a ha
    obtain ⟨hmem, hu⟩ := List.mem_filter.mp ha
    rcases hfo.attached a hmem with hw | hnew
    · exact absurd (hold a hw) (by simpa using hu)
    · exact hnew
  have hno : ((next.attached.filter (· ∉ known)).map (·.generation)).Nodup :=
    hfo.ok.generations.sublist
      ((List.filter_sublist.trans (List.sublist_append_left _ _)).map _)
  refine ⟨ht ▸ hfo.ok, ht ▸ hs, .inl (hf.trans ht.symm), ?_, fun a ha => ?_, fun a ha => ?_⟩
  · rw [hi, List.pairwise_append]
    refine ⟨h.issued, Choices.pairwise_newest hno fun a ha => (hnew a ha).2, fun a ha b hb => ?_⟩
    exact Nat.lt_of_le_of_lt (h.issuedBelow a ha) (hnew b hb).1
  · rw [hi] at ha
    rw [ht]
    rcases List.mem_append.mp ha with ha | ha
    · exact (h.issuedBelow a ha).trans hfo.next
    · exact Nat.le_of_eq (hnew a ha).2
  · rw [ht] at ha
    rw [hi]
    by_cases hk : a ∈ known
    · exact List.mem_append_left _ (hkn a hk)
    · exact List.mem_append_right _ (List.mem_filter.mpr ⟨ha, by simpa using hk⟩)

/-- What `save` may do. -/
inductive Saved (s : Client) (next : Choices) : Except StoreError Unit → Client → Prop
  | refused {e : StoreError} : Saved s next (.error e) s
  | same (open_ : s.blocked = false) (eq : s.choices = next) : Saved s next (.ok ()) s
  | failed (open_ : s.blocked = false) (small : next.Small) (new : Bool) :
      Saved s next (.error .write)
        { s with blocked := true, file := if new then next else s.file }
  | stored (open_ : s.blocked = false) (small : next.Small) :
      Saved s next (.ok ()) { s with
        choices := next, file := next,
        issued := s.issued ++ next.attached.filter (· ∉ s.choices.attached) }

theorem save_saved (s : Client) (next : Choices) (written : Written) :
    Saved s next (s.save next written).1 (s.save next written).2 := by
  unfold save
  split
  · exact .refused
  rename_i ho
  have ho : s.blocked = false := by simpa using ho
  split
  · exact .refused
  rename_i hs
  rw [not_or] at hs
  have hsm : next.Small := ⟨Nat.le_of_not_lt hs.1, Nat.le_of_not_lt hs.2⟩
  split
  · rename_i he
    exact .same ho he
  cases written with
  | ok => exact .stored ho hsm
  | failed new => exact .failed ho hsm new

theorem Saved.inv {result : Except StoreError Unit} (hs : Saved s next result t)
    (h : s.Inv) (hfo : Choices.Follows s.choices next) : t.Inv := by
  cases hs with
  | refused | same => exact h
  | failed _ hsm new =>
    refine { h with file := ?_ }
    cases new with
    | true => exact .inr ⟨rfl, hfo, hsm⟩
    | false => rcases h.file with hf | ⟨-, hf⟩
               · exact .inl hf
               · exact .inr ⟨rfl, hf⟩
  | stored _ hsm =>
    exact h.adopt hfo hsm h.attachedIssued (fun _ ha => ha) rfl rfl rfl

theorem Inv.reopen (h : s.Inv) : s.reopen.2.Inv := by
  unfold Client.reopen
  rw [if_pos h.valid]
  have hf : Choices.Follows s.choices s.file ∧ s.file.Small := by
    rcases h.file with he | ⟨-, hfo, hs⟩
    · rw [he]
      exact ⟨h.ok.refl, h.small⟩
    · exact ⟨hfo, hs⟩
  exact h.adopt hf.1 hf.2 (fun _ ha => ha) h.attachedIssued rfl rfl rfl

/-- What every step keeps, from what a save, a new view of the Panes and opening the file keep. -/
structure Kept (P : Client → Prop) : Prop where
  inv : ∀ {s}, P s → s.Inv
  saved : ∀ {s next result t}, P s → Choices.Follows s.choices next → Saved s next result t → P t
  view : ∀ {s} (catalog : List (Id × Id)), P s → P { s with catalog }
  reopen : ∀ {s}, P s → P s.reopen.2

namespace Kept

variable {P : Client → Prop}

theorem save (k : Kept P) (h : P s) {next : Choices} (hf : Choices.Follows s.choices next)
    (written : Written) : P (s.save next written).2 :=
  k.saved h hf (save_saved s next written)

theorem reconcile (k : Kept P) (h : P s) (inventory : Inventory) (written : Written) :
    P (s.reconcile inventory written).2 := by
  have hs := k.save h ((k.inv h).ok.reconcile (inventory.map Prod.fst)) written
  unfold Client.reconcile
  generalize s.save _ written = out at hs
  obtain ⟨result, s'⟩ := out
  cases result with
  | error e => exact hs
  | ok _ => exact k.view _ hs

theorem attach (k : Kept P) (h : P s) (w : Id) (written : Written) : P (s.attach w written).2 := by
  unfold Client.attach
  split
  · exact h
  split
  · exact h
  rename_i next hne
  have hs := k.save h ((k.inv h).ok.attach hne) written
  generalize s.save _ written = out at hs
  obtain ⟨result, s'⟩ := out
  cases result <;> exact hs

theorem initializeChoices (k : Kept P) (h : P s) (inventory : Inventory) (workspace : Option Id)
    (written again : Written) : P (s.initializeChoices inventory workspace written again).2 := by
  unfold Client.initializeChoices
  split
  · exact k.reconcile h inventory again
  have hg : ∀ next, Choices.Follows s.choices next →
      P (match s.save next written with
        | (.error e, s) => (.error e, s)
        | (.ok (), s) => s.reconcile inventory again : Except StoreError Unit × Client).2 := by
    intro next hf
    have hs := k.save h hf written
    generalize s.save next written = out at hs
    obtain ⟨result, s'⟩ := out
    cases result with
    | error e => exact hs
    | ok _ => exact k.reconcile hs inventory again
  cases workspace with
  | none => exact hg _ (k.inv h).ok.begin
  | some w =>
    simp only
    by_cases hw : (!inventory.any (·.1 == w)) = true
    · rw [if_pos hw]
      exact h
    rw [if_neg hw]
    cases ha : s.choices.attach w with
    | none => exact h
    | some next => exact hg next ((k.inv h).ok.attach ha)

theorem step (k : Kept P) (h : P s) (hs : Step s e t) : P t := by
  cases hs
  cases e with
  | initializeChoices inventory workspace written again => exact k.initializeChoices h ..
  | reconcile inventory written => exact k.reconcile h ..
  | attach w written => exact k.attach h ..
  | detach w written => exact k.save h ((k.inv h).ok.detach w) written
  | released a written => exact k.save h ((k.inv h).ok.released a) written
  | reopen => exact k.reopen h

end Kept

theorem Inv.kept : Kept Inv where
  inv h := h
  saved h hf hs := hs.inv h hf
  view _ h := { h with }
  reopen h := h.reopen

theorem Inv.run {es : List Event} (hr : Run Step {} es s) : s.Inv :=
  hr.invariant .start Inv.kept.step

/-! ### Detached for good -/

/-- The attachment `a` is over: neither the writer nor the file has it, and its generation is taken. -/
structure Gone (a : Attachment) (s : Client) : Prop where
  inv : s.Inv
  generation : a.generation ≤ s.choices.nextGeneration
  choices : a ∉ s.choices.attached
  file : a ∉ s.file.attached

variable {a : Attachment}

theorem Gone.follows (h : Gone a s) (hf : Choices.Follows s.choices next) : a ∉ next.attached := fun hmem => by
  rcases hf.attached a hmem with hw | hnew
  · exact h.choices hw
  · have := h.generation
    omega

theorem Gone.kept (a : Attachment) : Kept (Gone a) where
  inv h := h.inv
  saved h hf hs := by
    have hi := hs.inv h.inv hf
    cases hs with
    | refused | same => exact h
    | failed _ _ new =>
      refine ⟨hi, h.generation, h.choices, ?_⟩
      cases new with
      | true => exact h.follows hf
      | false => exact h.file
    | stored =>
      exact ⟨hi, h.generation.trans hf.next, h.follows hf, h.follows hf⟩
  view _ h := { h with inv := Inv.kept.view _ h.inv }
  reopen {s} h := by
    have hi := h.inv.reopen
    unfold Client.reopen at hi ⊢
    rw [if_pos h.inv.valid] at hi ⊢
    refine ⟨hi, ?_, h.file, h.file⟩
    rcases h.inv.file with he | ⟨-, hf, -⟩
    · exact he ▸ h.generation
    · exact h.generation.trans hf.next

theorem gone_of_detach (h : s.Inv) {w : Id} {written : Written}
    (ho : (s.detach w written).1 = .ok ()) (ha : a.workspace = w) (his : a ∈ s.issued) :
    Gone a (s.detach w written).2 := by
  have hs := save_saved s (s.choices.detach w) written
  have hi := hs.inv h (h.ok.detach w)
  have hg := Choices.not_mem_detach h.ok ha
  unfold Client.detach at ho ⊢
  rw [ho] at hs
  generalize (s.save (s.choices.detach w) written).2 = t at hs hi
  cases hs with
  | same hop he =>
    have hf : s.file = s.choices := by
      rcases h.file with hf | ⟨hb, -⟩
      · exact hf
      · rw [hop] at hb
        cases hb
    rw [← he] at hg
    exact ⟨hi, h.issuedBelow a his, hg, hf ▸ hg⟩
  | stored => exact ⟨hi, (h.issuedBelow a his).trans (h.ok.detach w).next, hg, hg⟩

theorem issued_kept (a : Attachment) : Kept fun s => s.Inv ∧ a ∈ s.issued where
  inv h := h.1
  saved h hf hs := by
    refine ⟨hs.inv h.1 hf, ?_⟩
    cases hs with
    | refused | same | failed => exact h.2
    | stored => exact List.mem_append_left _ h.2
  view _ h := ⟨Inv.kept.view _ h.1, h.2⟩
  reopen h := by
    refine ⟨h.1.reopen, ?_⟩
    unfold Client.reopen
    rw [if_pos h.1.valid]
    exact List.mem_append_left _ h.2

theorem permit_issued (h : s.Inv) {pane : Id} (hp : s.permit pane = some a) : a ∈ s.issued := by
  unfold permit at hp
  split at hp
  · cases hp
  split at hp
  · cases hp
  rename_i hf
  split at hp
  · cases hp
  · cases hp
    exact h.attachedIssued _ (List.mem_of_find?_eq_some hf)

theorem permit_inactive {es fs gs : List Event} {u : Client} {pane w : Id}
    {written : Written} (hr : Run Step {} es s) (hp : s.permit pane = some a)
    (hmo : Run Step s fs t) (hd : (t.detach w written).1 = .ok ()) (ha : a.workspace = w)
    (hl : Run Step (t.detach w written).2 gs u) : u.active a = false := by
  have hs := Inv.run hr
  have ht := hmo.invariant (P := fun s => s.Inv ∧ a ∈ s.issued) ⟨hs, permit_issued hs hp⟩
    (issued_kept a).step
  have hg := hl.invariant (gone_of_detach ht.1 hd ha ht.2) (Gone.kept a).step
  simp [active, hg.choices]

end Client

end SpaceTerm.Control
