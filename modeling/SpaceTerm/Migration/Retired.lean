import SpaceTerm.Migration.Credentials
import Mathlib

/-! # Replaced credential items are accounted for

Builds of one root come after each other by activations, which may return. In every run that does not
delete the retire record after a removal failed, an item that a committed migration replaced is removed
or listed, and no item is removed that the root's files refer to, or a backup that may come back. -/

namespace SpaceTerm.Migration
open Lib

def Refers {Path Bytes Item : Type} (refs : Path → Bytes → List Item) (files : FMap Path Bytes)
    (item : Item) : Prop :=
  ∃ p b, files.get p = some b ∧ item ∈ refs p b

/-- Where a run stands: whether an unmarked root is at generation 1, the running build's generation and
whether an activation returned to it, and the generation of the build an activation may return to. -/
structure Era where
  one : Bool
  current : Nat
  returned : Bool
  previous : Option Nat

namespace Keep
variable {Path Name Bytes Value Item : Type} [LinearOrder Path] [DecidableEq Name] [DecidableEq Item]

def level (one : Bool) (k : Keep Path Bytes Item) : Option Nat :=
  k.store.root.marker.or (if one then some 1 else none)

variable (refs : Path → Bytes → List Item)

/-- What must stay: what the backup's files refer to if the next run restores them, else what the root's
files refer to, and the backup's if a return may restore them. -/
def Needed (era : Era) (k : Keep Path Bytes Item) (item : Item) : Prop :=
  if k.store.backup.marker.isSome = true ∧ k.store.backup.marker = k.level era.one then
    Refers refs k.store.backup.files item
  else
    Refers refs k.store.root.files item ∨
      ∃ b, k.store.backup.marker = some b ∧ (era.previous = some b ∨ era.returned = true ∧ era.current = b) ∧
        Refers refs k.store.backup.files item

def Restoring (era : Era) (k : Keep Path Bytes Item) : Prop :=
  (k.store.backup.marker.isSome = true ∧ k.store.backup.marker = k.level era.one) ∨
    era.returned = true ∧ k.store.backup.marker = some era.current

structure Inv (era : Era) (k : Keep Path Bytes Item) : Prop where
  accounted : ∀ i ∈ k.replaced, k.present i = false ∨ ∃ items, k.listed = some items ∧ i ∈ items
  unreferred : ∀ items, k.listed = some items → ¬ k.Restoring era → ∀ i ∈ items, ¬ Refers refs k.store.root.files i
  ordered : ∀ b, k.store.backup.marker = some b → ∃ g, k.level era.one = some g ∧ b ≤ g
  between : ∀ p, era.previous = some p →
    era.returned = false ∧ (k.level era.one = some p ∨ k.level era.one = some era.current)

/-- A step leads to a state with the invariant, and does not remove what must stay. -/
def Good (era : Era) (k : Keep Path Bytes Item) (act : KeepAct Path Bytes Item) : Prop :=
  Inv refs era (act.apply k) ∧ ∀ i ok, act = .remove i ok → ¬ Needed refs era k i

abbrev Goods (era : Era) : Keep Path Bytes Item → List (KeepAct Path Bytes Item) → Prop :=
  Along KeepAct.apply (Good refs era)

variable {refs} {era : Era} {k k' : Keep Path Bytes Item}

def isRemove : KeepAct Path Bytes Item → Bool
  | .remove _ _ => true
  | _ => false

theorem good_of_inv {act : KeepAct Path Bytes Item} (h : Inv refs era (act.apply k))
    (ha : isRemove act = false) : Good refs era k act :=
  ⟨h, fun i ok he => by rw [he] at ha; cases ha⟩

/-! ## Steps that keep the invariant -/

omit [LinearOrder Path] [DecidableEq Item] in
theorem Inv.frame (hin : Inv refs era k) (hpr : k'.present = k.present)
    (hre : k'.replaced = k.replaced) (hli : k'.listed = k.listed)
    (hma : k'.store.backup.marker = k.store.backup.marker) (hl : k'.level era.one = k.level era.one)
    (hro : k.Restoring era ∨ k.listed = none ∨
      ∀ i, Refers refs k'.store.root.files i → Refers refs k.store.root.files i) :
    Inv refs era k' := by
  refine ⟨?_, fun items hit hno i hi hr => ?_, fun b hb => ?_, fun p hp => ?_⟩
  · rw [hpr, hre, hli]
    exact hin.accounted
  · rw [hli] at hit
    have hno' : ¬ k.Restoring era := by
      unfold Restoring at hno ⊢
      rwa [hma, hl] at hno
    rcases hro with hres | hnone | hro
    · exact hno' hres
    · rw [hit] at hnone
      cases hnone
    · exact hin.unreferred items hit hno' i hi (hro i hr)
  · rw [hl]
    exact hin.ordered b (hma ▸ hb)
  · rw [hl]
    exact hin.between p hp

inductive FileOp : Op Path Bytes → Prop
  | write (p : Path) (b : Bytes) : FileOp (.write .root p b)
  | remove (p : Path) : FileOp (.remove .root p)

theorem Inv.fileOp (hi : Inv refs era k) {op : Op Path Bytes} (ho : FileOp op)
    (h : k.Restoring era ∨ k.listed = none) : Inv refs era (KeepAct.apply k (.store op)) := by
  have h' := h.imp_right fun h => (.inl h : k.listed = none ∨ ∀ i, Refers refs
    (KeepAct.apply k (.store op)).store.root.files i → Refers refs k.store.root.files i)
  cases ho with
  | write p b | remove p => exact hi.frame rfl rfl rfl rfl rfl h'

theorem Inv.archive (hin : Inv refs era k) (g : Nat) (p : Path) :
    Inv refs era (KeepAct.apply k (.store (.archive g p))) := by
  show Inv refs era { k with store := Op.apply k.store (.archive g p) }
  cases hget : k.store.root.files.get p with
  | none =>
    have ha : Op.apply k.store (.archive g p) = k.store := by simp only [Op.apply, hget]
    rw [ha]
    exact hin
  | some b =>
    have ha : Op.apply k.store (.archive g p) = { k.store with
        root := { k.store.root with files := k.store.root.files.erase p }
        reset := k.store.reset ++ [(g, p, b)] } := by simp only [Op.apply, hget]
    rw [ha]
    refine hin.frame rfl rfl rfl rfl rfl (.inr (.inr ?_))
    rintro i ⟨q, c, hq, hi⟩
    have hq : (k.store.root.files.erase p).get q = some c := hq
    rw [FMap.get_erase] at hq
    split at hq
    · cases hq
    · exact ⟨q, c, hq, hi⟩

theorem Inv.mark (hin : Inv refs era k)
    (h : k.listed = none ∨ ¬ (k.store.backup.marker.isSome = true ∧ k.store.backup.marker = k.level era.one) ∨
      ∀ i, ¬ Refers refs k.store.root.files i)
    (hl : ∀ g, k.level era.one = some g → g ≤ era.current) :
    Inv refs era (KeepAct.apply k (.store (.mark .root era.current))) := by
  refine ⟨hin.accounted, fun items hit hno i hi => ?_, fun b hb => ?_, fun p hp => ?_⟩
  · rcases h with hnone | hne | hro
    · rw [show k.listed = some items from hit] at hnone
      cases hnone
    · refine hin.unreferred items hit (fun hr => ?_) i hi
      rcases hr with hs | hback
      · exact hne hs
      · exact hno (.inr hback)
    · exact hro i
  · obtain ⟨g, hg, hbg⟩ := hin.ordered b hb
    exact ⟨era.current, rfl, hbg.trans (hl g hg)⟩
  · exact ⟨(hin.between p hp).1, .inr rfl⟩

structure Clear (era : Era) (k : Keep Path Bytes Item) : Prop where
  unlisted : k.listed = none
  gone : ∀ i ∈ k.replaced, k.present i = false
  ordered : ∀ b, k.store.backup.marker = some b → ∃ g, k.level era.one = some g ∧ b ≤ g
  between : ∀ p, era.previous = some p →
    era.returned = false ∧ (k.level era.one = some p ∨ k.level era.one = some era.current)

omit [LinearOrder Path] [DecidableEq Item] in
theorem Inv.clear (hin : Inv refs era k) (h : k.listed = none) : Clear era k := by
  refine ⟨h, fun i hi => ?_, hin.ordered, hin.between⟩
  rcases hin.accounted i hi with hg | ⟨items, hit, -⟩
  · exact hg
  · rw [h] at hit
    cases hit

omit [LinearOrder Path] [DecidableEq Item] in
theorem Clear.inv (refs : Path → Bytes → List Item) (h : Clear era k) : Inv refs era k := by
  refine ⟨fun i hi => .inl (h.gone i hi), fun items hit => ?_, h.ordered, h.between⟩
  rw [h.unlisted] at hit
  cases hit

/-! ## Settling a backup -/

variable {build : Build Path Name Bytes Value Item} {w : Weather Item}

theorem restoreBackup_ops (r : Registry Path Name Bytes Value) (s : Store Path Bytes) :
    ∀ op ∈ r.restoreBackup s, FileOp op := by
  intro op ho
  rcases List.mem_append.mp ho with ho | ho
  · obtain ⟨p, -, ho⟩ := List.mem_filterMap.mp ho
    obtain ⟨b, -, rfl⟩ := Option.map_eq_some_iff.mp ho
    exact .write p b
  · obtain ⟨p, -, rfl⟩ := List.mem_map.mp ho
    exact .remove p

theorem fileOps_along (hi : Inv refs era k) (h : k.Restoring era ∨ k.listed = none)
    {ops : List (Op Path Bytes)} (hop : ∀ op ∈ ops, FileOp op) :
    ∃ k', k.exec (ops.map .store) = k' ∧ Goods refs era k (ops.map .store) ∧ Inv refs era k' ∧
      k'.listed = k.listed ∧ k'.store.backup = k.store.backup ∧
      k'.store.root.marker = k.store.root.marker := by
  induction ops generalizing k with
  | nil => exact ⟨_, rfl, trivial, hi, rfl, rfl, rfl⟩
  | cons op ops ih =>
    have ho := hop op (List.mem_cons_self ..)
    have hi' := hi.fileOp ho h
    have hs : (KeepAct.apply k (.store op)).store.backup = k.store.backup ∧
        (KeepAct.apply k (.store op)).store.root.marker = k.store.root.marker := by
      cases ho with
      | write p b | remove p => exact ⟨rfl, rfl⟩
    have h' : (KeepAct.apply k (.store op)).Restoring era ∨ (KeepAct.apply k (.store op)).listed = none := by
      refine h.imp_left fun hre => ?_
      unfold Restoring level at hre ⊢
      rw [hs.1, hs.2]
      exact hre
    obtain ⟨k', hk', ha, hend, hl, hb, hma⟩ :=
      ih hi' h' fun op ho => hop op (List.mem_cons_of_mem _ ho)
    exact ⟨k', hk', ⟨good_of_inv hi' rfl, ha⟩, hend, hl, hb.trans hs.1, hma.trans hs.2⟩

/-- Settling the backup of generation `c`: afterwards the root is at `c` with no backup and no record. -/
theorem settle_along (build : Build Path Name Bytes Value Item) (hin : Inv refs era k) {c : Nat} (hb : k.store.backup.marker = some c)
    (hc : k.level era.one = some c ∨ era.returned = true ∧ c = era.current) :
    Goods refs era k (k.settleBackup build c) ∧ ∃ k', k.exec (k.settleBackup build c) = k' ∧ Clear era k' ∧
      k'.store.backup.marker = none ∧ k'.level era.one = some c := by
  have hr : k.Restoring era := by
    rcases hc with hc | ⟨hre, rfl⟩
    · exact .inl ⟨by rw [hb]; rfl, hb.trans hc.symm⟩
    · exact .inr ⟨hre, hb⟩
  obtain ⟨k₁, hk₁, ha, hin₁, -, hba, hma⟩ :=
    fileOps_along hin (.inl hr) (restoreBackup_ops build.registry k.store)
  unfold settleBackup
  rw [exec_append, hk₁]
  have hb₁ : k₁.store.backup.marker = some c := by rw [hba, hb]
  have hl₁ : k₁.level era.one = k.level era.one := by rw [level, level, hma]
  -- the marker of the restored root
  have hin₂ : Inv refs era (KeepAct.apply k₁ (.restored c)) := by
    refine ⟨fun i hi => ?_, fun items _ hno => ?_, fun b hb => ?_, fun p hp => ?_⟩
    · exact hin₁.accounted i (List.mem_filter.mp hi).1
    · exact absurd (.inl ⟨Option.isSome_iff_exists.mpr ⟨c, hb₁⟩, hb₁⟩ :
        Restoring era (KeepAct.apply k₁ (.restored c))) hno
    · cases hb₁.symm.trans hb
      exact ⟨c, rfl, Nat.le_refl c⟩
    obtain ⟨hre, hl⟩ := hin₁.between p hp
    refine ⟨hre, ?_⟩
    rcases hc with hc | ⟨ht, -⟩
    · rw [hl₁, hc] at hl
      exact hl
    · rw [hre] at ht
      cases ht
  have hcl₃ : Clear era (KeepAct.apply (KeepAct.apply k₁ (.restored c)) .unlist) := by
    refine ⟨rfl, fun i hi => ?_, hin₂.ordered, hin₂.between⟩
    obtain ⟨hmem, hno⟩ := List.mem_filter.mp hi
    rcases hin₁.accounted i hmem with hg | ⟨items, hit, hi⟩
    · exact hg
    · simp [hit, hi] at hno
  have hcl₄ : Clear era (KeepAct.apply (KeepAct.apply (KeepAct.apply k₁ (.restored c)) .unlist)
      (.store (.unmark .backup))) :=
    ⟨rfl, hcl₃.gone, nofun, hcl₃.between⟩
  refine ⟨ha.append ?_, _, rfl, hcl₄, rfl, rfl⟩
  show Along _ _ (k.exec _) _
  rw [hk₁]
  exact ⟨good_of_inv hin₂ rfl, good_of_inv (hcl₃.inv refs) rfl, good_of_inv (hcl₄.inv refs) rfl, trivial⟩

/-! ## Resetting -/

theorem reset_along (build : Build Path Name Bytes Value Item) (hi : Inv refs era k)
    (hc : build.registry.current = era.current)
    (h : k.listed = none ∨ ¬ (k.store.backup.marker.isSome = true ∧ k.store.backup.marker = k.level era.one))
    (hl : ∀ g, k.level era.one = some g → g ≤ era.current) (generation : Nat) (reason : ResetReason) :
    Goods refs era k (k.resetRebuildable build generation reason).1 := by
  unfold resetRebuildable Registry.resetRebuildable
  dsimp only
  split
  · rw [List.map_append, List.map_map]
    have hke : Goods refs era k
        ((build.registry.members k.store.root.files).map (KeepAct.store ∘ Op.archive generation)) ∧ _ :=
      Along.of_kept
        (P := fun k' : Keep Path Bytes Item => Inv refs era k' ∧ k'.listed = k.listed ∧
          k'.store.backup = k.store.backup ∧ k'.store.root.marker = k.store.root.marker)
        ⟨hi, rfl, rfl, rfl⟩ fun act ha k' hk' => by
        obtain ⟨p, -, rfl⟩ := List.mem_map.mp ha
        obtain ⟨hi', hli, hb, hma⟩ := hk'
        have hne := hi'.archive generation p
        refine ⟨good_of_inv hne rfl, hne, hli, ?_, ?_⟩
        · simp only [Function.comp, KeepAct.apply, Op.apply]
          split
          · exact hb
          · exact hb
        simp only [Function.comp, KeepAct.apply, Op.apply]
        split
        · exact hma
        · exact hma
    obtain ⟨hal, hend, hli, hb, hma⟩ := hke
    refine hal.append ⟨good_of_inv ?_ rfl, trivial⟩
    rw [hc]
    refine hend.mark ?_ ?_
    · unfold level
      rw [hli, hb, hma]
      exact h.imp_right .inl
    · unfold level
      rw [hma]
      exact hl
  · exact trivial

/-! ## Retiring -/

variable {g : Nat}

omit [LinearOrder Path] [DecidableEq Item] in
/-- At the start of a migration no listed item must stay: the root does not refer to it, and the backup
that does is of a generation that no return goes back to. -/
theorem Inv.removable (hin : Inv refs era k) (hle : k.level era.one = some g)
    (hg : g < era.current) (hb : k.store.backup.marker ≠ some g) {items : List Item}
    (hit : k.listed = some items) {i : Item} (hi : i ∈ items) : ¬ Needed refs era k i := by
  have hne : k.store.backup.marker ≠ some era.current := fun hb => by
    obtain ⟨g', hg', hl⟩ := hin.ordered _ hb
    cases hle.symm.trans hg'
    omega
  unfold Needed
  rw [if_neg fun h => hb (h.2.trans hle)]
  rintro (hr | ⟨b, hb', hback, -⟩)
  · refine hin.unreferred items hit ?_ i hi hr
    rintro (⟨-, hs⟩ | ⟨-, hc⟩)
    · exact hb (hs.trans hle)
    · exact hne hc
  rcases hback with hp | ⟨-, rfl⟩
  · rcases (hin.between b hp).2 with h | h
    · exact hb (hb'.trans (h.symm.trans hle))
    · cases hle.symm.trans h
      omega
  · exact hne hb'

theorem Inv.removed (hi : Inv refs era k) (i : Item) (ok : Bool) :
    Inv refs era (KeepAct.apply k (.remove i ok)) := by
  cases ok with
  | false => exact hi
  | true =>
    refine ⟨fun j hj => (hi.accounted j hj).imp_left fun h => ?_, hi.unreferred, hi.ordered, hi.between⟩
    show (j != i && k.present j) = false
    rw [h, Bool.and_false]

theorem removals_along (removes : Item → Bool) {items is : List Item} (his : ∀ i ∈ is, i ∈ items)
    (hi : Inv refs era k) (hl : k.level era.one = some g) (hg : g < era.current)
    (hb : k.store.backup.marker ≠ some g) (hit : k.listed = some items) :
    ∃ k', k.exec (removals removes is).1 = k' ∧ Goods refs era k (removals removes is).1 ∧ Inv refs era k' ∧
      k'.store = k.store ∧ k'.listed = some items ∧ (∀ i, k.present i = false → k'.present i = false) ∧
      ((∀ i ∈ is, removes i = true) → (removals removes is : List (KeepAct Path Bytes Item) × Bool).2 = true ∧
        ∀ i ∈ is, k'.present i = false) := by
  induction is generalizing k with
  | nil => exact ⟨_, rfl, trivial, hi, rfl, hit, fun _ h => h, fun _ => ⟨rfl, nofun⟩⟩
  | cons i is ih =>
    have hs := hi.removable hl hg hb hit (his i (List.mem_cons_self ..))
    have hgoo : ∀ ok, Good refs era k (.remove i ok) := fun ok =>
      ⟨hi.removed i ok, fun j ok' he => by cases he; exact hs⟩
    rw [removals]
    split
    case isFalse hf =>
      exact ⟨_, rfl, ⟨hgoo false, trivial⟩, hi, rfl, hit, fun _ h => h, fun ha =>
        absurd (ha i (List.mem_cons_self ..)) hf⟩
    obtain ⟨k', hk', hal, hend, hst, hli, hke, ha⟩ := ih (k := KeepAct.apply k (.remove i true))
      (fun j hj => his j (List.mem_cons_of_mem _ hj)) (hi.removed i true) hl hb hit
    refine ⟨k', hk', ⟨hgoo true, hal⟩, hend, hst, hli, fun j hj => hke j ?_, fun hr => ?_⟩
    · show (j != i && k.present j) = false
      rw [hj, Bool.and_false]
    obtain ⟨hd, hgo⟩ := ha fun j hj => hr j (List.mem_cons_of_mem _ hj)
    refine ⟨hd, fun j hj => ?_⟩
    rcases List.mem_cons.mp hj with rfl | hj
    · refine hke j ?_
      show (j != j && k.present j) = false
      rw [bne_self_eq_false, Bool.false_and]
    · exact hgo j hj

omit [LinearOrder Path] [DecidableEq Item] in
theorem removals_done {removes : Item → Bool} {items : List Item}
    (h : (removals removes items : List (KeepAct Path Bytes Item) × Bool).2 = true) :
    ∀ i ∈ items, removes i = true := by
  induction items with
  | nil => exact nofun
  | cons i is ih =>
    rw [removals] at h
    split at h
    case isTrue hi =>
      intro j hj
      rcases List.mem_cons.mp hj with rfl | hj
      · exact hi
      · exact ih h j hj
    · cases h

/-- `retire`: with every removal done the record is gone. -/
theorem retire_along (hin : Inv refs era k) (hl : k.level era.one = some g)
    (hg : g < era.current) (hb : k.store.backup.marker ≠ some g) (removes : Item → Bool) :
    Goods refs era k (retire removes k.listed) ∧ ∃ k', k.exec (retire removes k.listed) = k' ∧
      ((∀ i ∈ k.listed.getD [], removes i = true) → Clear era k' ∧ k'.store = k.store ∧
        ∀ i ∈ k.listed.getD [], k'.present i = false) := by
  cases hli : k.listed with
  | none => exact ⟨trivial, _, rfl, fun _ => ⟨hin.clear hli, rfl, fun _ h => by cases h⟩⟩
  | some items =>
    obtain ⟨k', hk', hal, hend, hs, hit, -, ha⟩ := removals_along removes (fun i hi => hi) hin hl hg hb hli
    rw [retire]
    cases hd : (removals removes items : List (KeepAct Path Bytes Item) × Bool).2 with
    | false =>
      rw [if_neg (fun h => by cases h), List.append_nil]
      refine ⟨hal, _, rfl, fun hr => ?_⟩
      rw [(ha hr).1] at hd
      cases hd
    | true =>
      rw [if_pos rfl]
      have hgone := (ha (removals_done hd)).2
      have hc : Clear era (KeepAct.apply k' .unlist) := by
        refine ⟨rfl, fun i hi => ?_, hend.ordered, hend.between⟩
        rcases hend.accounted i hi with hgo | ⟨items', hit', hi⟩
        · exact hgo
        · cases hit.symm.trans hit'
          exact hgone i hi
      rw [exec_append, hk']
      refine ⟨hal.append ?_, _, rfl, fun _ => ⟨hc, hs, hgone⟩⟩
      show Goods refs era (k.exec _) _
      rw [hk']
      exact ⟨good_of_inv (hc.inv refs) rfl, trivial⟩

/-! ## Migrating -/

variable (refs build) in
/-- What the steps of a build owe: the files that can refer to an item have names, an item is replaced by
one that no file of the root refers to, and the migrated files do not refer to a replaced item. -/
structure Careful : Prop where
  named : ∀ p b, refs p b ≠ [] → build.registry.named p = true
  fresh : ∀ files g values, build.registry.parsed files = some values → ∀ ask ∈ build.asks g values,
    ¬ Refers refs files ask.2
  leaves : ∀ (s : Store Path Bytes) g values values', build.registry.parsed s.root.files = some values →
    build.registry.carry values g = .ok values' → ∀ ask ∈ build.asks g values,
      ¬ Refers refs (Migration.exec s (build.registry.changeOps s.root.files values')).root.files ask.1

theorem Clear.store (h : Clear era k) {op : Op Path Bytes}
    (hl : (KeepAct.apply k (.store op)).level era.one = k.level era.one)
    (hb : ∀ b, (op.apply k.store).backup.marker = some b → ∃ g, k.level era.one = some g ∧ b ≤ g) :
    Clear era (KeepAct.apply k (.store op)) := by
  refine ⟨h.unlisted, h.gone, fun b hb' => ?_, fun p hp => ?_⟩
  · rw [hl]
    exact hb b hb'
  · rw [hl]
    exact h.between p hp

variable {g : Nat}

theorem takeBackup_along (refs : Path → Bytes → List Item) (build : Build Path Name Bytes Value Item)
    (h : Clear era k) (hl : k.level era.one = some g) :
    Goods refs era k (k.takeBackup build g) ∧ ∃ k', k.exec (k.takeBackup build g) = k' ∧ Clear era k' ∧
      k'.store.root = k.store.root ∧ k'.store.backup.marker = some g ∧
      ∀ p, build.registry.named p = true → k'.store.backup.files.get p = k.store.root.files.get p := by
  obtain ⟨ops, hop, hba, -, hs⟩ := Registry.takeBackup_eq (r := build.registry) (s := k.store) g
  have hc : Clear era (KeepAct.apply k .unlist) := { h with unlisted := rfl }
  have hke : Goods refs era (KeepAct.apply k .unlist) (ops.map KeepAct.store) ∧ _ :=
    Along.of_kept (P := fun k' : Keep Path Bytes Item => Clear era k' ∧ k'.store.root = k.store.root)
      ⟨hc, rfl⟩ fun act ha k' hk' => by
      obtain ⟨op, ho, rfl⟩ := List.mem_map.mp ha
      obtain ⟨hc', hr⟩ := hk'
      have hne : Clear era (KeepAct.apply k' (.store op)) ∧
          (KeepAct.apply k' (.store op)).store.root = k.store.root := by
        cases hba op ho with
        | write p b | remove p => exact ⟨hc'.store rfl hc'.ordered, hr⟩
        | unmark => exact ⟨hc'.store rfl nofun, hr⟩
      exact ⟨good_of_inv (hne.1.inv refs) rfl, hne⟩
  obtain ⟨hal, hend, hr⟩ := hke
  have hst : (List.foldl KeepAct.apply (KeepAct.apply k .unlist) (ops.map KeepAct.store)).store =
      Migration.exec k.store ops := by
    refine (exec_store _ _).trans ?_
    rw [filterMap_store]
    rfl
  have hma : Clear era (KeepAct.apply (List.foldl KeepAct.apply (KeepAct.apply k .unlist)
      (ops.map KeepAct.store)) (.store (.mark .backup g))) := by
    refine hend.store rfl fun b hb => ?_
    cases hb
    refine ⟨g, ?_, Nat.le_refl g⟩
    unfold level
    rw [hr]
    exact hl
  unfold takeBackup
  rw [hop, List.map_append, ← List.cons_append, exec_append]
  refine ⟨Along.append ⟨good_of_inv (hc.inv refs) rfl, hal⟩ ⟨good_of_inv (hma.inv refs) rfl, trivial⟩,
    _, rfl, hma, hr, rfl, fun p hp => ?_⟩
  show (List.foldl KeepAct.apply (KeepAct.apply k .unlist) (ops.map KeepAct.store)).store.backup.files.get p = _
  rw [hst]
  exact hs p hp

theorem replace_along (refs : Path → Bytes → List Item) (h : Clear era k) (copies : Item → Bool) (asks : List (Item × Item)) :
    Goods refs era k (replaceCredentials copies asks).1 ∧
      (∃ k', k.exec (replaceCredentials copies asks).1 = k' ∧ Clear era k' ∧ k'.store = k.store) ∧
      ∀ ask ∈ (replaceCredentials copies asks : List (KeepAct Path Bytes Item) × _).2.1, ask ∈ asks := by
  induction asks generalizing k with
  | nil => exact ⟨trivial, ⟨_, rfl, h, rfl⟩, fun _ h => by cases h⟩
  | cons ask asks ih =>
    obtain ⟨from_, to_⟩ := ask
    rw [replaceCredentials]
    split
    · have hnex : Clear era (KeepAct.apply k (.copy from_ to_ true)) := by
        refine { h with gone := (fun i hi => ?_) }
        obtain ⟨hmem, hne⟩ := List.mem_filter.mp hi
        show (i == to_ || k.present i) = false
        rw [h.gone i hmem, Bool.or_false, beq_eq_false_iff_ne]
        exact bne_iff_ne.mp hne
      obtain ⟨ha, hend, hma⟩ := ih hnex
      refine ⟨⟨good_of_inv (hnex.inv refs) rfl, ha⟩, hend, fun other hother => ?_⟩
      rcases List.mem_cons.mp hother with rfl | hother
      · exact List.mem_cons_self ..
      · exact List.mem_cons_of_mem _ (hma other hother)
    · exact ⟨⟨good_of_inv (h.inv refs) rfl, trivial⟩, ⟨_, rfl, h, rfl⟩, fun _ h => by cases h⟩

/-- The copies of a migration that does not commit go: only the backup counts, and it does not refer to
them. -/
theorem abandon_along (h : Clear era k) (hl : k.level era.one = some g)
    (hb : k.store.backup.marker = some g) (removes : Item → Bool) {made : List (Item × Item)}
    (hma : ∀ ask ∈ made, ¬ Refers refs k.store.backup.files ask.2) :
    Goods refs era k (abandon removes made) ∧
      ∃ k', k.exec (abandon removes made) = k' ∧ Clear era k' ∧ k'.store = k.store := by
  induction made generalizing k with
  | nil => exact ⟨trivial, _, rfl, h, rfl⟩
  | cons ask made ih =>
    have hs : ¬ Needed refs era k ask.2 := by
      unfold Needed
      rw [if_pos ⟨by rw [hb]; rfl, hb.trans hl.symm⟩]
      exact hma ask (List.mem_cons_self ..)
    have hne : Clear era (KeepAct.apply k (.remove ask.2 (removes ask.2))) ∧
        (KeepAct.apply k (.remove ask.2 (removes ask.2))).store = k.store := by
      cases removes ask.2 with
      | false => exact ⟨h, rfl⟩
      | true =>
        refine ⟨{ h with gone := (fun i hi => ?_) }, rfl⟩
        show (i != ask.2 && k.present i) = false
        rw [h.gone i hi, Bool.and_false]
    obtain ⟨hc, hst⟩ := hne
    have hl' : (KeepAct.apply k (.remove ask.2 (removes ask.2))).level era.one = some g := by
      unfold level
      rw [hst]
      exact hl
    obtain ⟨ha, k', hk', hend, hst'⟩ := ih hc hl' (by rw [hst, hb]) fun other hother => by
      rw [hst]
      exact hma other (List.mem_cons_of_mem _ hother)
    exact ⟨⟨⟨hc.inv refs, fun i ok he => by cases he; exact hs⟩, ha⟩, k', hk', hend, hst'.trans hst⟩

theorem changeOps_fileOp (r : Registry Path Name Bytes Value) (files : FMap Path Bytes)
    (values : FMap Path Value) : ∀ op ∈ r.changeOps files values, FileOp op := by
  intro op ho
  rcases List.mem_append.mp ho with ho | ho
  · obtain ⟨p, -, ho⟩ := List.mem_filterMap.mp ho
    obtain ⟨v, -, rfl⟩ := Option.map_eq_some_iff.mp ho
    exact .write p (r.print v)
  · obtain ⟨p, -, rfl⟩ := List.mem_map.mp ho
    exact .remove p

theorem write_along (build : Build Path Name Bytes Value Item) (w : Weather Item) (h : Clear era k)
    (hcu : build.registry.current = era.current)
    (hl : k.level era.one = some g) (hg : g < era.current) (hb : k.store.backup.marker = some g)
    {values : FMap Path Value} {made : List (Item × Item)}
    (hma : ∀ ask ∈ made, ¬ Refers refs k.store.backup.files ask.2)
    (hleaves : ∀ ask ∈ made, ¬ Refers refs
      (Migration.exec k.store (build.registry.changeOps k.store.root.files values)).root.files ask.1) :
    Goods refs era k (k.write build w g values made).1 := by
  unfold write
  dsimp only
  cases w.write with
  | some n =>
    have hop : ∀ op ∈ (build.registry.changeOps k.store.root.files values).take n, FileOp op :=
      fun op ho => changeOps_fileOp _ _ _ op (List.mem_of_mem_take ho)
    obtain ⟨k', hk', ha, hend, hlis, hba, hmar⟩ :=
      fileOps_along (h.inv refs) (.inr h.unlisted) hop
    have hc := hend.clear (hlis.trans h.unlisted)
    have hc' : Clear era (KeepAct.apply k' .unlist) := { hc with unlisted := rfl }
    refine ha.append ?_
    show Goods refs era (k.exec _) _
    rw [hk']
    refine ⟨good_of_inv (hc'.inv refs) rfl, (abandon_along (g := g) hc' ?_ ?_ w.removes ?_).1⟩
    · show Keep.level era.one k' = some g
      rw [level, hmar]
      exact hl
    · show k'.store.backup.marker = some g
      rw [hba, hb]
    · show ∀ ask ∈ made, ¬ Refers refs k'.store.backup.files ask.2
      rw [hba]
      exact hma
  | none =>
    obtain ⟨k₁, hk₁, ha, hend, hlis, hba, hmar⟩ :=
      fileOps_along (h.inv refs) (.inr h.unlisted) (changeOps_fileOp build.registry k.store.root.files values)
    have hs : k₁.store = Migration.exec k.store (build.registry.changeOps k.store.root.files values) := by
      rw [← hk₁, exec_store, filterMap_store]
    have hc := hend.clear (hlis.trans h.unlisted)
    have hl₁ : k₁.level era.one = some g := by
      rw [level, hmar]
      exact hl
    have hb₁ : k₁.store.backup.marker = some g := by rw [hba, hb]
    rw [List.append_assoc]
    refine ha.append ?_
    show Along _ _ (k.exec _) _
    rw [hk₁]
    -- the marker is written with the replaced items listed, or with none replaced
    have hco : ∀ k₂ : Keep Path Bytes Item, k₂.store = k₁.store → k₂.present = k₁.present →
        k₂.replaced = k₁.replaced → (made = [] ∧ k₂.listed = none ∨ k₂.listed = some (made.map Prod.fst)) →
        Inv refs era (KeepAct.apply k₂ (.commit build.registry.current (made.map Prod.fst))) := by
      intro k₂ hs₂ hpr₂ hr₂ hlis₂
      refine ⟨fun i hi => ?_, fun items hit hno i hi => ?_, fun b hb => ?_, fun p hp => ?_⟩
      · have hi : i ∈ k₂.replaced ++ made.map Prod.fst := hi
        show k₂.present i = false ∨ ∃ items, k₂.listed = some items ∧ i ∈ items
        rcases List.mem_append.mp hi with hi | hi
        · rw [hr₂] at hi
          rw [hpr₂]
          exact .inl (hc.gone i hi)
        rcases hlis₂ with ⟨hni, -⟩ | hlis₂
        · rw [hni] at hi
          cases hi
        · exact .inr ⟨_, hlis₂, hi⟩
      · have hit : k₂.listed = some items := hit
        rcases hlis₂ with ⟨-, hnone⟩ | hlis₂
        · rw [hnone] at hit
          cases hit
        cases hlis₂.symm.trans hit
        obtain ⟨ask, hask, rfl⟩ := List.mem_map.mp hi
        show ¬ Refers refs k₂.store.root.files ask.1
        rw [hs₂, hs]
        exact hleaves ask hask
      · have hb : k₂.store.backup.marker = some b := hb
        rw [hs₂, hb₁] at hb
        cases hb
        exact ⟨build.registry.current, rfl, by omega⟩
      · exact ⟨(hc.between p hp).1, .inr (by rw [← hcu]; rfl)⟩
    split
    case isTrue hempty =>
      rw [List.isEmpty_iff] at hempty
      exact ⟨good_of_inv (hco k₁ rfl rfl rfl (.inl ⟨hempty, hc.unlisted⟩)) rfl, trivial⟩
    have hli : Inv refs era (KeepAct.apply k₁ (.list (made.map Prod.fst))) := by
      refine ⟨fun i hi => .inl (hc.gone i hi), fun items _ hno => ?_, hc.ordered, hc.between⟩
      exact absurd (.inl ⟨Option.isSome_iff_exists.mpr ⟨g, hb₁⟩, hb₁.trans hl₁.symm⟩ :
        Restoring era (KeepAct.apply k₁ (.list (made.map Prod.fst)))) hno
    exact ⟨good_of_inv hli rfl, good_of_inv (hco _ rfl rfl rfl (.inr rfl)) rfl, trivial⟩

theorem rewrite_along (hc : Careful refs build) (h : Clear era k)
    (hcu : build.registry.current = era.current) (hle : k.level era.one = some g)
    (hg : g < era.current) (hb : k.store.backup.marker = some g)
    (hba : ∀ i, Refers refs k.store.backup.files i → Refers refs k.store.root.files i) :
    Goods refs era k (k.rewrite build w g).1 := by
  have hl : ∀ {k' : Keep Path Bytes Item}, k'.store = k.store → ∀ g', k'.level era.one = some g' →
      g' ≤ era.current := by
    intro k' hs g' hg'
    rw [level, hs] at hg'
    cases hle.symm.trans hg'
    exact hg.le
  unfold rewrite
  cases hp : build.registry.parsed k.store.root.files with
  | none => exact reset_along build (h.inv refs) hcu (.inl h.unlisted) (hl rfl) _ _
  | some values =>
    obtain ⟨hal, hex, hma⟩ := replace_along refs h w.copies (build.asks g values)
    dsimp only
    generalize (replaceCredentials w.copies (build.asks g values) : List (KeepAct Path Bytes Item) × _) = made
      at hal hex hma ⊢
    obtain ⟨acts, made, copied⟩ := made
    obtain ⟨k', hk', hend, hs⟩ := hex
    dsimp only at hk' hal hma ⊢
    have hf : ∀ ask ∈ made, ¬ Refers refs k.store.backup.files ask.2 := fun ask hask hr =>
      hc.fresh _ g values hp ask (hma ask hask) (hba _ hr)
    have hle' : k'.level era.one = some g := by
      rw [level, hs]
      exact hle
    have hb' : k'.store.backup.marker = some g := by rw [hs, hb]
    have hf' : ∀ ask ∈ made, ¬ Refers refs k'.store.backup.files ask.2 := by
      rw [hs]
      exact hf
    have hfailed : ∀ reason, Goods refs era k'
        (k.failed build w g made reason).1 := by
      intro reason
      obtain ⟨ha, k₂, hk₂, hcl, hs'⟩ := abandon_along hend hle' hb' w.removes hf'
      refine ha.append ?_
      show Goods refs era (k'.exec _) _
      have he : Keep.resetRebuildable build k g reason = k₂.resetRebuildable build g reason := by
        unfold resetRebuildable
        rw [hs', hs]
      rw [hk₂, he]
      exact reset_along build (hcl.inv refs) hcu (.inl hcl.unlisted) (hl (hs'.trans hs)) g reason
    refine hal.append ?_
    show Goods refs era (k.exec acts) _
    rw [hk']
    split
    · cases hca : build.registry.carry values g with
      | error reason => exact hfailed reason
      | ok values' =>
        have hleaves : ∀ ask ∈ made, ¬ Refers refs (Migration.exec k'.store
            (build.registry.changeOps k'.store.root.files values')).root.files ask.1 := by
          rw [hs]
          exact fun ask hask => hc.leaves _ g values values' hp hca ask (hma ask hask)
        have hw := write_along build w hend hcu hle' hg hb' hf' hleaves
        have he : Keep.write build w k g values' made = k'.write build w g values' made := by
          unfold write
          rw [hs]
        dsimp only
        rw [he]
        exact hw
    · exact hfailed _

/-- A migration up to the backup, with every listed item removed; or only its removals. -/
theorem migrate_along (hc : Careful refs build) (hin : Inv refs era k)
    (hcu : build.registry.current = era.current) (hl : k.level era.one = some g)
    (hg : g < era.current) (hb : k.store.backup.marker ≠ some g) :
    Goods refs era k (retire w.removes k.listed) ∧
      ((∀ i ∈ k.listed.getD [], w.removes i = true) →
        Goods refs era k (k.migrate build w g).1) := by
  obtain ⟨hre, k₁, hk₁, ha⟩ := retire_along hin hl hg hb w.removes
  refine ⟨hre, fun hr => ?_⟩
  obtain ⟨hcl, hst, -⟩ := ha hr
  have ht : k.takeBackup build g = k₁.takeBackup build g := by
    unfold takeBackup
    rw [hst]
  have hl' : k₁.level era.one = some g := by
    rw [level, hst]
    exact hl
  obtain ⟨htaken, k₂, hk₂, hcl', hro, hb', hs⟩ := takeBackup_along refs build hcl hl'
  have htaken' : Goods refs era (k.exec (retire w.removes k.listed)) (k₁.takeBackup build g) := by rwa [hk₁]
  unfold migrate
  dsimp only
  rw [ht, exec_append, hk₁, hk₂]
  refine Along.append (Along.append hre htaken') ?_
  show Goods refs era (k.exec _) _
  rw [exec_append, hk₁, hk₂]
  refine rewrite_along hc hcl' hcu ?_ hg hb' fun i => ?_
  · rw [level, hro, hst]
    exact hl
  rintro ⟨p, b, hp, hi⟩
  have hna := hc.named p b (List.ne_nil_of_mem hi)
  rw [hs p hna] at hp
  rw [hro]
  exact ⟨p, b, hp, hi⟩

/-! ## A run -/

/-- No removal failed before the record was deleted. -/
def Heeds (acts : List (KeepAct Path Bytes Item)) : Prop :=
  ∀ pre i post, acts ≠ pre ++ .remove i false :: .unlist :: post

omit [LinearOrder Path] [DecidableEq Item] in
theorem retire_fails {removes : Item → Bool} {listed : Option (List Item)}
    (h : ¬ ∀ i ∈ listed.getD [], removes i = true) :
    ∃ pre i, (retire removes listed : List (KeepAct Path Bytes Item)) = pre ++ [.remove i false] := by
  cases listed with
  | none => exact absurd nofun h
  | some items =>
    have hf : ∀ is : List Item, (¬ ∀ i ∈ is, removes i = true) →
        ∃ pre i, (removals removes is : List (KeepAct Path Bytes Item) × Bool) = (pre ++ [.remove i false], false) := by
      intro is
      induction is with
      | nil => exact fun h => absurd nofun h
      | cons i is ih =>
        intro h
        rw [removals]
        split
        case isTrue hi =>
          obtain ⟨pre, j, he⟩ := ih fun ha => h fun j hj => by
            rcases List.mem_cons.mp hj with rfl | hj
            · exact hi
            · exact ha j hj
          exact ⟨.remove i true :: pre, j, by rw [he]; rfl⟩
        · exact ⟨[], i, rfl⟩
    obtain ⟨pre, i, he⟩ := hf items h
    refine ⟨pre, i, ?_⟩
    rw [retire, he]
    exact List.append_nil _

theorem migrate_take (hc : Careful refs build) (hin : Inv refs era k)
    (hcu : build.registry.current = era.current) (hl : k.level era.one = some g)
    (hg : g < era.current) (hb : k.store.backup.marker ≠ some g) {n : Nat}
    (hh : k.listed = none ∨ Heeds ((k.migrate build w g).1.take n)) :
    Goods refs era k ((k.migrate build w g).1.take n) := by
  obtain ⟨hre, hal⟩ := migrate_along (w := w) hc hin hcu hl hg hb
  by_cases hr : ∀ i ∈ k.listed.getD [], w.removes i = true
  · exact (hal hr).take n
  -- the run stops before it deletes the record
  obtain ⟨pre, i, hf⟩ : ∃ pre i, (retire w.removes k.listed : List (KeepAct Path Bytes Item)) = _ :=
    retire_fails hr
  rcases hh with hnone | hh
  · rw [hnone] at hr
    exact absurd nofun hr
  obtain ⟨rest, ha⟩ : ∃ rest, (k.migrate build w g).1 = retire w.removes k.listed ++ KeepAct.unlist :: rest := by
    refine ⟨(build.registry.takeBackup k.store g).map .store ++
      ((k.exec (retire w.removes k.listed ++ k.takeBackup build g)).rewrite build w g).1, ?_⟩
    unfold migrate
    dsimp only
    rw [List.append_assoc]
    rfl
  rw [ha] at hh ⊢
  rcases Nat.lt_or_ge (retire w.removes k.listed : List (KeepAct Path Bytes Item)).length n with hlt | hge
  · obtain ⟨m, hm⟩ := Nat.exists_eq_add_of_lt hlt
    refine absurd ?_ (hh pre i (rest.take m))
    rw [hm, Nat.add_assoc, List.take_length_add_append, hf, List.append_assoc]
    rfl
  · rw [List.take_append_of_le_length hge]
    exact hre.take n

variable (era build) in
structure During (returned : Bool) : Prop where
  current : build.registry.current = era.current
  returned : returned = era.returned
  one : era.one = true ↔ build.registry.admission = .generationOne

variable {returned : Bool} {n : Nat}

theorem bringSettled_take (hc : Careful refs build) (hi : Inv refs era k)
    (hd : During era build returned) {g : Nat}
    (hle : k.level era.one = some g ∨ k.level era.one = none ∧ g = era.current)
    (hb : k.store.backup.marker ≠ some g) (label : Nat)
    (hh : k.listed = none ∨ Heeds ((bringSettled build w returned k g label).1.take n)) :
    Goods refs era k ((bringSettled build w returned k g label).1.take n) := by
  have hother : ¬ (k.store.backup.marker.isSome = true ∧ k.store.backup.marker = k.level era.one) := by
    rintro ⟨hso, hs⟩
    rcases hle with hle | ⟨hle, -⟩
    · exact hb (hs.trans hle)
    · rw [hs, hle] at hso
      cases hso
  have hl : g ≤ era.current → ∀ g', k.level era.one = some g' → g' ≤ era.current := by
    intro hg g' hg'
    rcases hle with hle | ⟨hle, -⟩
    · cases hle.symm.trans hg'
      exact hg
    · rw [hle] at hg'
      cases hg'
  have hcu := hd.current
  unfold bringSettled at hh ⊢
  by_cases hs : g = build.registry.current
  · rw [if_pos hs]
    cases build.registry.admission with
    | marked artifacts currentUnmarked =>
      dsimp only
      split
      · rw [List.take_nil]
        trivial
      · exact (reset_along build hi hcu (.inr hother) (hl (by omega)) _ _).take n
    | generationOne =>
      dsimp only
      rw [List.take_nil]
      trivial
  rw [if_neg hs] at hh ⊢
  by_cases hne : build.registry.current < g
  · rw [if_pos hne]
    split
    case isTrue hback =>
      rw [Bool.and_eq_true, beq_iff_eq] at hback
      have hr : era.returned = true := hd.returned ▸ hback.1
      exact (settle_along build hi hback.2 (.inr ⟨hr, hcu⟩)).1.take n
    · rw [List.take_nil]
      trivial
  rw [if_neg hne] at hh ⊢
  split
  · exact (reset_along build hi hcu (.inr hother) (hl (by omega)) _ _).take n
  case isFalse hold =>
    rw [if_neg hold] at hh
    rcases hle with hle | ⟨-, hg⟩
    · exact migrate_take hc hi hcu hle (by omega) hb hh
    · omega

theorem bringAt_take (hc : Careful refs build) (hi : Inv refs era k) (hd : During era build returned) {g : Nat}
    (hl : k.level era.one = some g ∨ k.level era.one = none ∧ g = era.current) (label : Nat)
    (hh : Heeds ((bringAt build w returned k g label).1.take n)) :
    Goods refs era k ((bringAt build w returned k g label).1.take n) := by
  unfold bringAt at hh ⊢
  by_cases hb : k.store.backup.marker = some g
  · rw [if_pos hb]
    have hl' : k.level era.one = some g := by
      rcases hl with hl | ⟨hnone, -⟩
      · exact hl
      obtain ⟨g', hg', -⟩ := hi.ordered g hb
      rw [hnone] at hg'
      cases hg'
    obtain ⟨hs, k', hk', hcl, hb', hl''⟩ := settle_along build hi hb (.inl hl')
    refine Along.take (hs.append ?_) n
    show Goods refs era (k.exec _) _
    rw [hk']
    have hrest := bringSettled_take (w := w) hc (hcl.inv refs) hd (.inl hl'')
      (by rw [hb']; exact nofun) label
      (n := (bringSettled build w returned k' g label).1.length)
      (.inl hcl.unlisted)
    rw [List.take_length] at hrest
    exact hrest
  · rw [if_neg hb] at hh ⊢
    exact bringSettled_take hc hi hd hl hb label (.inr hh)

theorem bring_take (hc : Careful refs build) (hin : Inv refs era k) (hd : During era build returned)
    (hh : Heeds ((bring build w returned k).1.take n)) :
    Goods refs era k ((bring build w returned k).1.take n) := by
  have hcu := hd.current
  have hpo := build.registry.oldest_pos.trans build.registry.oldest_le
  unfold bring at hh ⊢
  cases hmar : k.store.root.marker with
  | some g =>
    rw [hmar] at hh
    exact bringAt_take hc hin hd (.inl (by rw [level, hmar]; rfl)) g hh
  | none =>
    rw [hmar] at hh
    dsimp only at hh ⊢
    have hle : k.level era.one = if era.one then some 1 else none := by rw [level, hmar]; rfl
    have hl : ∀ g, k.level era.one = some g → g ≤ era.current := by
      intro g hg
      rw [hle] at hg
      split at hg
      · cases hg
        omega
      · cases hg
    unfold bringUnmarked at hh ⊢
    by_cases hempty : (build.registry.members k.store.root.files).isEmpty = true
    · -- a root without files of the registry refers to nothing
      rw [if_pos hempty]
      refine Along.take ?_ n
      refine ⟨good_of_inv ?_ rfl, trivial⟩
      rw [hcu]
      refine hin.mark (.inr (.inr ?_)) hl
      rintro i ⟨p, b, hp, hi⟩
      have hna := hc.named p b (List.ne_nil_of_mem hi)
      have hmem : p ∈ build.registry.members k.store.root.files :=
        List.mem_filter.mpr ⟨(FMap.mem_sorted _ _).mpr (by rw [hp]; rfl), hna⟩
      rw [List.isEmpty_iff.mp hempty] at hmem
      cases hmem
    rw [if_neg hempty] at hh ⊢
    cases hadm : build.registry.admission with
    | generationOne =>
      rw [hadm] at hh
      have ho : k.level era.one = some 1 := by
        rw [hle, if_pos (hd.one.mpr hadm)]
      dsimp only at hh ⊢
      by_cases hf : build.registry.current = 1
      · -- the root is current: its backup is settled, and it gets its marker
        rw [if_pos hf] at hh ⊢
        have hse : ∀ k' : Keep Path Bytes Item, (bringSettled build w returned k' 1 0).1 = [] := by
          intro k'
          unfold bringSettled
          rw [if_pos hf.symm, hadm]
        have hma : ∀ k' : Keep Path Bytes Item, Inv refs era k' → k'.level era.one = some 1 →
            k'.store.backup.marker ≠ some 1 → Goods refs era k'
              [.store (.mark .root build.registry.current)] := by
          intro k' hin' hle' hb'
          refine ⟨good_of_inv ?_ rfl, trivial⟩
          rw [hcu]
          refine hin'.mark (.inr (.inl fun h => hb' (h.2.trans hle'))) fun g hg => ?_
          cases hle'.symm.trans hg
          omega
        refine Along.take ?_ n
        unfold bringAt
        split
        case isTrue hb =>
          obtain ⟨hs, k', hk', hcl, hb', hle'⟩ := settle_along build hin hb (.inl ho)
          dsimp only
          rw [hse, List.append_nil]
          have hne : k'.store.backup.marker ≠ some 1 := by
            rw [hb']
            exact fun h => by cases h
          refine hs.append ?_
          show Goods refs era (k.exec _) _
          rw [hk']
          exact hma k' (hcl.inv refs) hle' hne
        case isFalse hb =>
          rw [hse]
          exact hma k hin ho hb
      · rw [if_neg hf, List.append_nil] at hh ⊢
        exact bringAt_take hc hin hd (.inl ho) 0 hh
    | marked artifacts currentUnmarked =>
      rw [hadm] at hh
      have hnone : k.level era.one = none := by
        rw [hle, if_neg]
        intro ho
        rw [hd.one.mp ho] at hadm
        cases hadm
      have hb : k.store.backup.marker = none := by
        cases hb : k.store.backup.marker with
        | none => rfl
        | some b =>
          obtain ⟨g, hg, -⟩ := hin.ordered b hb
          rw [hnone] at hg
          cases hg
      have hother : ¬ (k.store.backup.marker.isSome = true ∧ k.store.backup.marker = k.level era.one) := by
        rw [hb]
        exact fun h => (by cases h.1)
      dsimp only at hh ⊢
      split
      · have hse : bringAt build w returned k build.registry.current 0 =
            if build.registry.validateCurrent k.store.root.files then ([], .ok .current)
            else k.resetRebuildable build 0 .invalid := by
          unfold bringAt bringSettled
          rw [if_neg (by rw [hb]; exact fun h => by cases h), if_pos rfl, hadm]
        rw [hse]
        by_cases ha : build.registry.validateCurrent k.store.root.files = true
        · -- the root gets its marker
          rw [if_pos ha]
          refine Along.take ?_ n
          refine ⟨good_of_inv ?_ rfl, trivial⟩
          rw [hcu]
          exact hin.mark (.inr (.inl hother)) hl
        rw [if_neg ha]
        have hr := reset_along build hin hcu (.inr hother) hl 0 .invalid
        -- a reset does not return the root as current
        unfold resetRebuildable Registry.resetRebuildable at hr ⊢
        dsimp only at hr ⊢
        split at hr
        case isTrue hki =>
          rw [if_pos hki]
          exact hr.take n
        case isFalse hki =>
          rw [if_neg hki]
          exact hr.take n
      · exact (reset_along build hin hcu (.inr hother) hl _ _).take n

end Keep

end SpaceTerm.Migration
