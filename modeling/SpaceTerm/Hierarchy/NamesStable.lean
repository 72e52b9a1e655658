import SpaceTerm.Hierarchy.NamesSpec

/-! # Automatic names are distinct and stay

A name the first pass reserves is taken for the second, which allocates only names not taken, so the
two kinds never meet (`allocateNames_apart`). Afterwards every base of the table is the current one and
no name is taken twice, so naming again reserves every name as it stands. -/

namespace SpaceTerm.Hierarchy
open Lib

variable {home : Option PathBuf} {names : List WorkspaceName} {occupied : List Text} {ws : List Workspace}
  {w v : Workspace} {named : List Naming}

theorem namingOf_modifyFirst (f : WorkspaceName → WorkspaceName) (hf : ∀ n, (f n).workspace = n.workspace)
    (id : Id) : namingOf (modifyFirst (·.workspace == id) f names) v =
      if v.id = id then (namingOf names v).map f else namingOf names v := by
  unfold namingOf
  induction names with
  | nil => simp [modifyFirst]
  | cons n names ih =>
    unfold modifyFirst
    by_cases hn : n.workspace = id
    · by_cases hv : v.id = id
      · simp [hn, hv, hf]
      · have hne : ¬id = v.id := fun h => hv h.symm
        simp [hn, hv, hf, hne]
    by_cases hm : n.workspace = v.id
    · have hv : ¬v.id = id := fun h => hn (hm.trans h)
      simp [hm, hv]
    · simpa [hn, hm] using ih

/-- The table a pass leaves: automatic bases may have changed. -/
def Rebased (names names' : List WorkspaceName) : Prop :=
  ∀ v : Workspace, (namingOf names' v).map (·.custom) = (namingOf names v).map (·.custom)

variable {names' : List WorkspaceName}

theorem Rebased.automatic (h : Rebased names names') (v : Workspace) : automatic names' v = automatic names v := by
  have ha (ns : List WorkspaceName) : Hierarchy.automatic ns v =
      ((namingOf ns v).map (·.custom)).any Option.isNone := by
    simp [Hierarchy.automatic, Option.any_map]
  rw [ha, ha, h v]

theorem automatic_iff : automatic names v ↔ ∃ n, namingOf names v = some n ∧ n.custom = none := by
  simp [automatic, Option.any_eq_true]

/-! ### The first pass -/

def settledNames (names : List WorkspaceName) (named : List Naming) : List Text :=
  (named.filter fun x => automatic names x.1 && x.2.isNone).map (·.1.name)

/-- What the first pass leaves of one Workspace. -/
structure Reserved (home : Option PathBuf) (names : List WorkspaceName) (x : Naming) : Prop where
  custom : ∀ n custom, namingOf names x.1 = some n → n.custom = some custom → x.1.name = custom ∧ x.2 = none
  base : ∀ base, x.2 = some base → automatic names x.1 ∧ base = x.1.automaticBase home
  kept : x.2 = none → ∀ n, namingOf names x.1 = some n → n.custom = none → n.automaticBase = x.1.automaticBase home

theorem reserveName_reserved (home : Option PathBuf) (names : List WorkspaceName) (occupied : List Text)
    (w : Workspace) : Reserved home names (reserveName home names occupied w).1 ∧
      (reserveName home names occupied w).2 =
        settledNames names [(reserveName home names occupied w).1] ++ occupied ∧
      ∀ name ∈ settledNames names [(reserveName home names occupied w).1], name ∉ occupied := by
  unfold reserveName
  split
  next hnone =>
    have hn : namingOf names w = none := hnone
    have ha : automatic names w = false := by simp [automatic, hn]
    exact ⟨⟨by simp [hn], by simp, by simp [hn]⟩, by simp [settledNames, ha], by simp [settledNames, ha]⟩
  next n hs =>
    have hn : namingOf names w = some n := hs
    have he {m : WorkspaceName} (hm : namingOf names w = some m) : m = n := Option.mem_unique hm hn
    split
    next custom hcu =>
      have hn' : namingOf names { w with name := custom } = some n := hs
      have ha : automatic names { w with name := custom } = false := by simp [automatic, hn', hcu]
      refine ⟨⟨fun m other hm hother => ⟨?_, rfl⟩, by simp, fun _ m hm hnone => ?_⟩, ?_, ?_⟩
      · rw [he hm, hcu] at hother
        exact Option.some.inj hother
      · rw [he hm, hcu] at hnone
        cases hnone
      · simp [settledNames, ha]
      · simp [settledNames, ha]
    next hcu =>
      have ha : automatic names w := automatic_iff.mpr ⟨n, hn, hcu⟩
      have hno {m : WorkspaceName} {custom : Text} {P : Prop} (hm : namingOf names w = some m)
          (hc : m.custom = some custom) : P := by
        rw [he hm, hcu] at hc
        cases hc
      dsimp only
      split
      next hke =>
        simp only [Bool.and_eq_true, beq_iff_eq, Bool.not_eq_true', List.contains_eq_mem,
          decide_eq_false_iff_not] at hke
        refine ⟨⟨fun m custom hm hc => hno hm hc, by simp, fun _ m hm _ => he hm ▸ hke.1⟩, ?_, ?_⟩
        · simp [settledNames, ha]
        · simpa [settledNames, ha] using hke.2
      next =>
        refine ⟨⟨fun m custom hm hc => hno hm hc, ?_, by simp⟩, by simp [settledNames], by simp [settledNames]⟩
        rintro base ⟨⟩
        exact ⟨ha, rfl⟩

theorem settledNames_cons (x : Naming) :
    settledNames names (x :: named) = settledNames names [x] ++ settledNames names named := by
  unfold settledNames
  rw [← List.singleton_append, List.filter_append, List.map_append]

theorem reserveNames_reserved (home : Option PathBuf) (names : List WorkspaceName) (occupied : List Text)
    (ws : List Workspace) : (∀ x ∈ (reserveNames home names occupied ws).1, Reserved home names x) ∧
      (settledNames names (reserveNames home names occupied ws).1).Nodup ∧
      (∀ name ∈ settledNames names (reserveNames home names occupied ws).1, name ∉ occupied) ∧
      ∀ name, name ∈ (reserveNames home names occupied ws).2 ↔
        name ∈ settledNames names (reserveNames home names occupied ws).1 ∨ name ∈ occupied := by
  induction ws generalizing occupied with
  | nil => simp [reserveNames, settledNames]
  | cons w ws ih =>
    obtain ⟨hf, htaken, hfr⟩ := reserveName_reserved home names occupied w
    obtain ⟨hrest, hno, hnew, hal⟩ := ih (reserveName home names occupied w).2
    have ho : (settledNames names [(reserveName home names occupied w).1]).Nodup := by
      refine List.Nodup.map_on ?_ ((List.nodup_singleton _).filter _)
      intro x hx y hy _
      rw [List.mem_singleton.mp (List.mem_of_mem_filter hx), List.mem_singleton.mp (List.mem_of_mem_filter hy)]
    simp only [htaken, List.mem_append, not_or] at hnew hal
    simp only [reserveNames]
    rw [settledNames_cons, htaken]
    rw [htaken] at hrest hno
    refine ⟨List.forall_mem_cons.mpr ⟨hf, hrest⟩, ?_, fun name hna => ?_, fun name => ?_⟩
    · exact List.nodup_append.mpr ⟨ho, hno, fun a ha b hb hab => (hnew b hb).1 (hab ▸ ha)⟩
    · exact (List.mem_append.mp hna).elim (hfr name) fun h => (hnew name h).2
    · rw [hal, List.mem_append]
      tauto

theorem reserveNames_keeps (hw : w ∈ ws) {n : WorkspaceName} (hn : namingOf names w = some n)
    (hc : n.custom = none) (hb : n.automaticBase = w.automaticBase home)
    (hf : w.name ∉ occupied) (ho : ∀ v ∈ ws, v ≠ w → v.name ≠ w.name) :
    (w, none) ∈ (reserveNames home names occupied ws).1 := by
  induction ws generalizing occupied with
  | nil => cases hw
  | cons v ws ih =>
    simp only [reserveNames]
    by_cases hv : v = w
    · subst hv
      have hke : reserveName home names occupied v = ((v, none), v.name :: occupied) := by
        unfold namingOf at hn
        simp [reserveName, hn, hc, hb, hf]
      simp [hke]
    have hne := ho v List.mem_cons_self hv
    refine List.mem_cons_of_mem _ (ih ((List.mem_cons.mp hw).resolve_left fun h => hv h.symm) ?_
      fun u hu => ho u (List.mem_cons_of_mem _ hu))
    unfold reserveName
    split
    · exact hf
    split
    · exact hf
    dsimp only
    split
    · exact List.not_mem_cons_of_ne_of_not_mem hne.symm hf
    · exact hf

/-! ### The second pass -/

theorem allocateName_cases {x : Naming} {taken : List Text}
    (h : Reserved home names x) (hv : allocateName occupied names x = (v, taken, names')) :
    (x.2 = none ∧ x.1 = v ∧ occupied = taken ∧ names = names') ∨
      ∃ base, x.2 = some base ∧ v.name ∉ occupied ∧ v.anonymous = x.1.anonymous ∧ taken = v.name :: occupied ∧
        names' = modifyFirst (·.workspace == x.1.id) (fun n => { n with automaticBase := base }) names := by
  obtain ⟨w, _ | base⟩ := x
  · cases hv
    exact .inl ⟨rfl, rfl, rfl, rfl⟩
  obtain ⟨n, hn, -⟩ := automatic_iff.mp (h.base base rfl).1
  have hf := freeName_not_mem base occupied
  unfold namingOf at hn
  simp only [allocateName, hn] at hv
  cases hv
  refine .inr ⟨base, rfl, ?_⟩
  split
  next hs =>
    rw [beq_iff_eq.mp hs]
    exact ⟨hf, rfl, rfl, rfl⟩
  next => exact ⟨hf, rfl, rfl, rfl⟩

structure Allocated (home : Option PathBuf) (names : List WorkspaceName) (occupied : List Text)
    (named : List Naming) (out : List Workspace × List WorkspaceName) : Prop where
  apart : out.1.Pairwise fun a b => automatic names a → automatic names b → a.name ≠ b.name
  taken : ∀ v ∈ out.1, automatic names v → v.name ∈ settledNames names named ∨ v.name ∉ occupied
  custom : ∀ v ∈ out.1, ∀ n custom, namingOf names v = some n → n.custom = some custom → v.name = custom
  ids : out.1.map (·.id) = named.map (·.1.id)
  others : ∀ v : Workspace, v.id ∉ named.map (·.1.id) → namingOf out.2 v = namingOf names v
  bases : ∀ v ∈ out.1, ∀ n, namingOf out.2 v = some n → n.custom = none → n.automaticBase = v.automaticBase home
  rebased : Rebased names out.2
  kept : ∀ x ∈ named, x.2 = none → x.1 ∈ out.1

theorem Reserved.congr {x : Naming} (h : Reserved home names x)
    (hs : namingOf names' x.1 = namingOf names x.1) : Reserved home names' x := by
  refine ⟨fun n custom hn => h.custom n custom (hs ▸ hn), fun base hb => ?_,
    fun hnone n hn => h.kept hnone n (hs ▸ hn)⟩
  simpa only [automatic, hs] using h.base base hb

theorem allocateNames_allocated (hre : ∀ x ∈ named, Reserved home names x)
    (hid : (named.map (·.1.id)).Nodup) (hse : ∀ name ∈ settledNames names named, name ∈ occupied)
    (hno : (settledNames names named).Nodup) :
    Allocated home names occupied named (allocateNames occupied names named) := by
  induction named generalizing occupied names with
  | nil => exact ⟨.nil, by simp [allocateNames], by simp [allocateNames], rfl, fun _ _ => rfl,
      by simp [allocateNames], fun _ => rfl, by simp⟩
  | cons x rest ih =>
    obtain ⟨hx, hrest⟩ := List.forall_mem_cons.mp hre
    obtain ⟨hxi, hid⟩ := List.nodup_cons.mp hid
    rw [settledNames_cons] at hse hno
    obtain ⟨-, hno, hme⟩ := List.nodup_append.mp hno
    have hse' : ∀ name ∈ settledNames names rest, name ∈ occupied :=
      fun name h => hse name (List.mem_append_right _ h)
    obtain ⟨v, taken, names', hv⟩ : ∃ v taken names', allocateName occupied names x = (v, taken, names') :=
      ⟨_, _, _, rfl⟩
    simp only [allocateNames, hv]
    rcases allocateName_cases hx hv with ⟨hnone, rfl, rfl, rfl⟩ | ⟨base, hba, hf, han, rfl, rfl⟩
    · have h := ih hrest hid hse' hno
      have hin (hau : automatic names x.1) : x.1.name ∈ settledNames names [x] := by
        simp [settledNames, hau, hnone]
      have hx' : namingOf _ x.1 = namingOf _ x.1 := h.others _ hxi
      refine ⟨List.pairwise_cons.mpr ⟨fun b hb ha hb' => ?_, h.apart⟩, ?_, ?_, ?_, ?_, ?_, h.rebased, ?_⟩
      · rcases h.taken b hb hb' with hs | hs
        · exact hme _ (hin ha) _ hs
        · exact fun hsa => hs (hsa ▸ hse _ (List.mem_append_left _ (hin ha)))
      · rw [settledNames_cons]
        refine List.forall_mem_cons.mpr ⟨fun ha => .inl (List.mem_append_left _ (hin ha)), fun v hv ha => ?_⟩
        exact (h.taken v hv ha).imp_left (List.mem_append_right _)
      · exact List.forall_mem_cons.mpr ⟨fun n custom hn hc => (hx.custom n custom hn hc).1, h.custom⟩
      · simp [h.ids]
      · exact fun v hv => h.others v fun hin => hv (List.mem_cons_of_mem _ hin)
      · refine List.forall_mem_cons.mpr ⟨fun n hn => ?_, h.bases⟩
        exact hx.kept hnone n (hx' ▸ hn)
      · exact List.forall_mem_cons.mpr ⟨fun _ => List.mem_cons_self, fun y hy hn => List.mem_cons_of_mem _ (h.kept y hy hn)⟩
    -- The name is new, and from here on the table has the current base of this Workspace.
    set names' := modifyFirst (·.workspace == x.1.id) (fun n => { n with automaticBase := base }) names
    have hi : v.id = x.1.id := (congrArg Workspace.id han :)
    have hna (u : Workspace) : namingOf names' u = if u.id = x.1.id then
        (namingOf names u).map (fun n => { n with automaticBase := base }) else namingOf names u :=
      namingOf_modifyFirst _ (by simp) _
    have hr : Rebased names names' := by
      intro u
      rw [hna]
      split
      · simp [Option.map_map, Function.comp_def]
      · rfl
    have hset (ys : List Naming) : settledNames names' ys = settledNames names ys := by
      unfold settledNames
      simp only [hr.automatic]
    have hother (u : Workspace) (hu : u.id ∈ rest.map (·.1.id)) : u.id ≠ x.1.id :=
      fun h => hxi (show x.1.id ∈ _ from h ▸ hu)
    have h : Allocated home names' (v.name :: occupied) rest (allocateNames (v.name :: occupied) names' rest) := ih
      (fun y hy => (hrest y hy).congr (by rw [hna, if_neg (hother y.1 (List.mem_map_of_mem hy))])) hid
      (fun name hn => List.mem_cons_of_mem _ (hse' name (hset rest ▸ hn))) (hset rest ▸ hno)
    have htaken (u : Workspace) (hu : u ∈ (allocateNames (v.name :: occupied) names' rest).1)
        (ha : automatic names u) : u.name ∈ settledNames names rest ∨ u.name ∉ v.name :: occupied := by
      rw [← hset]
      exact h.taken u hu (by rwa [hr.automatic])
    have hsi : settledNames names [x] = [] := by simp [settledNames, hba]
    refine ⟨List.pairwise_cons.mpr ⟨fun b hb _ hb' hsa => ?_, ?_⟩, ?_, ?_, ?_, ?_, ?_, ?_, ?_⟩
    · rcases htaken b hb hb' with hs | hs
      · exact hf (hsa ▸ hse' _ hs)
      · exact hs (by simp [hsa])
    · simpa only [hr.automatic] using h.apart
    · rw [settledNames_cons, hsi]
      refine List.forall_mem_cons.mpr ⟨fun _ => .inr hf, fun v hv ha => ?_⟩
      exact (htaken v hv ha).imp_right fun hn hin => hn (List.mem_cons_of_mem _ hin)
    · refine List.forall_mem_cons.mpr ⟨fun n custom hn hc => ?_, fun v hv n custom hn hc => ?_⟩
      · obtain ⟨m, hm, hnone⟩ := automatic_iff.mp (hx.base base hba).1
        rw [show namingOf names v = namingOf names x.1 by simp only [namingOf, hi], hm] at hn
        rw [← Option.some.inj hn, hnone] at hc
        cases hc
      · have hv' : v.id ∈ rest.map (·.1.id) := h.ids ▸ List.mem_map_of_mem hv
        exact h.custom v hv n custom (by rw [hna, if_neg (hother v hv'), hn]) hc
    · simp [h.ids, hi]
    · intro v hv
      rw [h.others v fun hin => hv (List.mem_cons_of_mem _ hin), hna, if_neg fun hin => hv (by simp [hin])]
    · refine List.forall_mem_cons.mpr ⟨fun n hn _ => ?_, h.bases⟩
      rw [h.others _ (by rw [hi]; exact hxi), hna, if_pos hi] at hn
      obtain ⟨m, -, rfl⟩ := Option.map_eq_some_iff.mp hn
      rw [(hx.base base hba).2]
      exact (congrArg (Workspace.automaticBase · home) han.symm :)
    · exact fun v => (h.rebased v).trans (hr v)
    · refine List.forall_mem_cons.mpr ⟨fun hn => ?_, fun y hy hn => List.mem_cons_of_mem _ (h.kept y hy hn)⟩
      rw [hba] at hn
      cases hn

/-! ### Naming again -/

structure Settled (home : Option PathBuf) (names : List WorkspaceName) (occupied : List Text)
    (ws : List Workspace) : Prop where
  custom : ∀ v ∈ ws, ∀ n custom, namingOf names v = some n → n.custom = some custom → v.name = custom
  bases : ∀ v ∈ ws, ∀ n, namingOf names v = some n → n.custom = none → n.automaticBase = v.automaticBase home
  apart : ws.Pairwise fun a b => automatic names a → automatic names b → a.name ≠ b.name
  free : ∀ v ∈ ws, automatic names v → v.name ∉ occupied

theorem Settled.reserveNames (h : Settled home names occupied ws) :
    (reserveNames home names occupied ws).1 = ws.map fun w => (w, none) := by
  induction ws generalizing occupied with
  | nil => rfl
  | cons w ws ih =>
    obtain ⟨hme, hap⟩ := List.pairwise_cons.mp h.apart
    have hrest (taken : List Text) (hf : ∀ v ∈ ws, automatic names v → v.name ∉ taken) :
        (Hierarchy.reserveNames home names taken ws).1 = ws.map fun w => (w, none) :=
      ih ⟨fun v hv => h.custom v (List.mem_cons_of_mem _ hv), fun v hv => h.bases v (List.mem_cons_of_mem _ hv),
        hap, hf⟩
    have hl (v : Workspace) (hv : v ∈ ws) := h.free v (List.mem_cons_of_mem _ hv)
    simp only [Hierarchy.reserveNames, List.map_cons]
    unfold reserveName
    split
    next => exact congrArg _ (hrest _ hl)
    next n hn =>
      split
      next custom hc =>
        have hs := h.custom w List.mem_cons_self n custom hn hc
        simp only [hrest _ hl, ← hs]
      next hc =>
        have hau : automatic names w := automatic_iff.mpr ⟨n, hn, hc⟩
        have hf := h.free w List.mem_cons_self hau
        have hb := h.bases w List.mem_cons_self n hn hc
        simp only [hb, beq_self_eq_true, List.contains_eq_mem, hf, decide_false, Bool.not_false,
          Bool.and_self, if_true]
        rw [hrest]
        exact fun v hv ha => List.not_mem_cons_of_ne_of_not_mem (hme v hv hau ha).symm (hl v hv ha)

theorem allocateNames_none (occupied : List Text) (names : List WorkspaceName) (ws : List Workspace) :
    allocateNames occupied names (ws.map fun w => (w, none)) = (ws, names) := by
  induction ws with
  | nil => rfl
  | cons w ws ih => simp [allocateNames, allocateName, ih]

namespace State
variable {s : State}

def customs (s : State) : List Text := s.names.filterMap (·.custom)

theorem recalculateNames_of_settled (h : (reserveNames s.homeDirectory s.names s.customs s.inventory.workspaces).1 =
    s.inventory.workspaces.map fun w => (w, none)) : s.recalculateNames = s := by
  change { s with
    names := (allocateNames _ s.names (reserveNames s.homeDirectory s.names s.customs s.inventory.workspaces).1).2
    inventory := { s.inventory with
      workspaces := (allocateNames _ s.names
        (reserveNames s.homeDirectory s.names s.customs s.inventory.workspaces).1).1 } } = s
  rw [h, allocateNames_none]

/-- After naming, clients' names are as they chose them, and each automatic name is valid and no other
Workspace's. A Workspace whose base is unchanged keeps its name unless another one holds it, and
naming again changes nothing. -/
theorem recalculateNames_stable (hids : (s.inventory.workspaces.map (·.id)).Nodup)
    (hready : ∀ w ∈ s.inventory.workspaces, Ready s.names w)
    (hcount : s.customs.length + s.inventory.workspaces.countP (automatic s.names) ≤ 99) :
    s.recalculateNames.names.map (fun n => (n.workspace, n.custom)) =
        s.names.map (fun n => (n.workspace, n.custom)) ∧
      (∀ w ∈ s.recalculateNames.inventory.workspaces, ∀ n custom, namingOf s.names w = some n →
        n.custom = some custom → w.name = custom) ∧
      (∀ w ∈ s.recalculateNames.inventory.workspaces, automatic s.names w →
        validName w.name ∧ w.name ∉ s.customs) ∧
      (s.recalculateNames.inventory.workspaces.Pairwise fun a b =>
        automatic s.names a → automatic s.names b → a.name ≠ b.name) ∧
      (∀ w ∈ s.inventory.workspaces, ∀ n, namingOf s.names w = some n → n.custom = none →
        n.automaticBase = w.automaticBase s.homeDirectory → w.name ∉ s.customs →
        (∀ v ∈ s.inventory.workspaces, v ≠ w → v.name ≠ w.name) →
        w ∈ s.recalculateNames.inventory.workspaces) ∧
      s.recalculateNames.recalculateNames = s.recalculateNames := by
  obtain ⟨hva, -, hp⟩ := recalculateNames_spec hready hcount
  obtain ⟨-, han, -⟩ := reserveNames_spec s.homeDirectory s.customs hready
  obtain ⟨hr, hno, hnew, htaken⟩ :=
    reserveNames_reserved s.homeDirectory s.names s.customs s.inventory.workspaces
  have hids' : ((reserveNames s.homeDirectory s.names s.customs s.inventory.workspaces).1.map (·.1.id)).Nodup := by
    have := congrArg (List.map Workspace.id) han
    simp only [List.map_map] at this
    exact this ▸ hids
  have h := allocateNames_allocated hr hids' (fun name hn => (htaken name).mpr (.inl hn)) hno
  have hf (w : Workspace) (hw : w ∈ s.recalculateNames.inventory.workspaces) (ha : automatic s.names w) :
      w.name ∉ s.customs := by
    rcases h.taken w hw ha with hs | hs
    · exact hnew _ hs
    · exact fun hc => hs ((htaken _).mpr (.inr hc))
  refine ⟨hp, h.custom, fun w hw ha => ⟨hva w hw, hf w hw ha⟩, h.apart, fun w hw n hn hcu hb hc ho => ?_, ?_⟩
  · exact h.kept _ (reserveNames_keeps hw hn hcu hb hc ho) rfl
  have hcus : s.recalculateNames.customs = s.customs := by
    have hma (ns : List WorkspaceName) : ns.filterMap (·.custom) =
        (ns.map fun n => (n.workspace, n.custom)).filterMap Prod.snd := by
      rw [List.filterMap_map]
      rfl
    unfold customs
    rw [hma, hma, hp]
  have hse : Settled s.homeDirectory s.recalculateNames.names s.customs
      s.recalculateNames.inventory.workspaces := by
    refine ⟨fun v hv n custom hn hc => ?_, h.bases, ?_, fun v hv ha => ?_⟩
    · have hsa := h.rebased v
      change (namingOf s.recalculateNames.names v).map _ = _ at hsa
      rw [hn] at hsa
      obtain ⟨m, hm, hm'⟩ := Option.map_eq_some_iff.mp hsa.symm
      exact h.custom v hv m custom hm (hm'.trans hc)
    · have hap := h.apart
      simp only [← h.rebased.automatic] at hap
      exact hap
    · exact hf v hv ((h.rebased.automatic v).symm.trans ha)
  have hag := hse.reserveNames
  rw [← hcus] at hag
  exact recalculateNames_of_settled hag

def unnamed (id : Id) (name : Text) : Workspace := ⟨id, name, 0, 0, none, 0, []⟩

def twoNew : State :=
  { State.empty with
    names := [⟨1, none, []⟩, ⟨2, none, []⟩]
    inventory := { revision := 0, workspaces := [unnamed 1 [], unnamed 2 []], close := none } }

theorem recalculateNames_stable_twoNew :
    (twoNew.recalculateNames.inventory.workspaces.map (·.name)) = [defaultName, suffixed defaultName 2] ∧
      twoNew.recalculateNames.recalculateNames = twoNew.recalculateNames := by
  refine ⟨by decide +kernel, (recalculateNames_stable (s := twoNew) (by decide +kernel) ?_ (by decide +kernel)).2.2.2.2.2⟩
  intro w hw
  simp only [twoNew, List.mem_cons, List.not_mem_nil, or_false] at hw
  rcases hw with rfl | rfl
  · exact ⟨⟨1, none, []⟩, rfl, by simp, by simp⟩
  · exact ⟨⟨2, none, []⟩, rfl, by simp, by simp⟩

/-- A Workspace that shows no name keeps it, where its base is the one the table has. The host keeps
no such state: it does not validate. -/
theorem blank_name_kept : ∃ s : State, ∃ w ∈ s.recalculateNames.inventory.workspaces,
    automatic s.names w = true ∧ w.name = [] := by
  refine ⟨{ State.empty with
    names := [⟨1, none, defaultName⟩]
    inventory := { revision := 0, workspaces := [unnamed 1 []], close := none } }, unnamed 1 [], ?_, ?_, rfl⟩
  · exact List.mem_cons_self
  · decide +kernel

end State

end SpaceTerm.Hierarchy
