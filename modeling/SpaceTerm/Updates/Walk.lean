import SpaceTerm.Updates.Install

/-! # Stepping stones

`feed::walk`: the release an updater installs next. From the newest release it follows the Update Floors
down, to the first release whose floor the running version meets. -/

namespace SpaceTerm.Updates

section Walk
variable {R C E : Type} [LinearOrder R]

/-- A feed as `feed::read` returns it. -/
structure Feed (R : Type) [LinearOrder R] where
  version : R
  floor : R
  valid : floor ≤ version

def Feed.candidate (C : Type) (feed : Feed R) : Candidate R C where
  version := .release feed.version
  floor := some feed.floor
  valid := feed.valid

structure Next (R : Type) [LinearOrder R] where
  feed : Feed R
  steppingStone : Bool

/-- The loop of `walk`, with the versions whose releases it read. -/
def walkFrom [WellFoundedLT R] (running : Version R C) (read : R → Except E (Feed R)) (feed : Feed R)
    (stepped : Bool) : List R × Except E (Option (Next R)) :=
  if floorAdmits feed.floor running then ([], .ok (some ⟨feed, stepped⟩))
  else if h : feed.floor = feed.version then ([], .ok none)
  else match read feed.floor with
    | .error e => ([feed.floor], .error e)
    | .ok older =>
      if hv : older.version = feed.floor then
        let rest := walkFrom running read older true
        (feed.floor :: rest.1, rest.2)
      else ([feed.floor], .ok none)
termination_by wellFounded_lt.wrap feed.version
decreasing_by exact hv ▸ lt_of_le_of_ne feed.valid h

/-- `walk`, where `newest` is what `read(None)` returns. -/
def walk [WellFoundedLT R] (running : Version R C) (newest : Except E (Feed R)) (read : R → Except E (Feed R)) :
    List R × Except E (Option (Next R)) :=
  match newest with
  | .error e => ([], .error e)
  | .ok feed =>
    let rest := walkFrom running read feed false
    (feed.version :: rest.1, rest.2)

theorem above_of_not_floorAdmits {floor : R} {running : Version R C} (h : ¬ floorAdmits floor running = true) :
    (Version.release floor).above running = true := by
  cases running with
  | release r => simpa [floorAdmits, Version.above, Version.release?] using h
  | development => simp [floorAdmits, Version.release?] at h

variable [WellFoundedLT R] {running : Version R C} {read : R → Except E (Feed R)}

theorem walkFrom_older (feed : Feed R) (stepped : Bool) :
    (feed.version :: (walkFrom running read feed stepped).1).Pairwise (· > ·) := by
  fun_induction walkFrom running read feed stepped with
  | case1 | case2 => exact List.pairwise_singleton ..
  | case3 feed stepped _ hne | case5 feed stepped _ hne =>
    simpa using lt_of_le_of_ne feed.valid hne
  | case4 feed stepped _ hne older _ hv rest ih =>
    have hlt : feed.floor < feed.version := lt_of_le_of_ne feed.valid hne
    rw [hv] at ih
    refine List.pairwise_cons.mpr ⟨fun v hm => ?_, ih⟩
    rcases List.mem_cons.mp hm with rfl | hm
    · exact hlt
    · exact (List.rel_of_pairwise_cons ih hm).trans hlt

theorem walkFrom_next {feed : Feed R} {stepped : Bool} {next : Next R}
    (hs : stepped = true → (Version.release feed.version).above running = true)
    (h : (walkFrom running read feed stepped).2 = .ok (some next)) :
    floorAdmits next.feed.floor running = true ∧
      (next.steppingStone = true → (Version.release next.feed.version).above running = true) := by
  fun_induction walkFrom running read feed stepped with
  | case1 feed stepped ha =>
    cases h
    exact ⟨ha, hs⟩
  | case2 | case3 | case5 => cases h
  | case4 feed stepped ha _ older _ hv rest ih => exact ih (fun _ => hv ▸ above_of_not_floorAdmits ha) h

/-! ## Restarts -/

/-- The release of `version` among `feeds`. -/
def published (feeds : List (Feed R)) (version : R) : Except Unit (Feed R) :=
  match feeds.find? (·.version = version) with
  | some feed => .ok feed
  | none => .error ()

/-- The version that runs after a walk from `newest`, the install of what it returned and a restart. -/
def restart [DecidableEq C] (feeds : List (Feed R)) (newest : Feed R) (running : Version R C) : Version R C :=
  match (walk running (.ok newest) (published feeds)).2 with
  | .ok (some next) => match admitCandidate (next.feed.candidate C) running none none with
    | .ok _ => .release next.feed.version
    | .error _ => running
  | _ => running

/-- Every release with a floor above `running` has a strictly older release as its floor. -/
def Stones (feeds : List (Feed R)) (running : R) : Prop :=
  ∀ feed ∈ feeds, running < feed.floor → feed.floor < feed.version ∧ ∃ stone ∈ feeds, stone.version = feed.floor

/-- Restarts from `running` run newer and newer releases, up to the newest. -/
def Reaches [DecidableEq C] (feeds : List (Feed R)) (newest : Feed R) (running : Version R C) : Prop :=
  ∃ n, (restart feeds newest)^[n] running = .release newest.version ∧
    ∀ k < n, ((restart feeds newest)^[k + 1] running).above ((restart feeds newest)^[k] running) = true

variable {feeds : List (Feed R)} {newest : Feed R} {r : R}

omit [WellFoundedLT R] in
theorem published_eq {version : R} (h : ∃ stone ∈ feeds, stone.version = version) :
    ∃ stone ∈ feeds, published feeds version = .ok stone ∧ stone.version = version := by
  unfold published
  cases hf : feeds.find? (·.version = version) with
  | none =>
    obtain ⟨stone, hm, hv⟩ := h
    simpa [hv] using List.find?_eq_none.mp hf stone hm
  | some stone => exact ⟨stone, List.mem_of_find?_eq_some hf, rfl, by simpa using List.find?_some hf⟩

theorem walkFrom_published (hst : Stones feeds r) {feed : Feed R} (hf : feed ∈ feeds) (hr : r < feed.version)
    (stepped : Bool) : ∃ next,
      (walkFrom (C := C) (.release r) (published feeds) feed stepped).2 = .ok (some next) ∧
        next.feed ∈ feeds ∧ next.feed.floor ≤ r ∧ r < next.feed.version := by
  have hbelow : ∀ feed : Feed R, ¬ floorAdmits feed.floor (.release r : Version R C) = true → r < feed.floor := by
    intro feed ha
    simpa [floorAdmits, Version.release?] using ha
  -- a walk never ends without a release: each floor it reads is published
  fun_induction walkFrom (C := C) (.release r) (published feeds) feed stepped with
  | case1 feed stepped ha => exact ⟨_, rfl, hf, by simpa [floorAdmits, Version.release?] using ha, hr⟩
  | case2 feed stepped ha he => exact absurd he (hst feed hf (hbelow feed ha)).1.ne
  | case3 feed stepped ha _ e hread =>
    obtain ⟨stone, -, hs, -⟩ := published_eq (hst feed hf (hbelow feed ha)).2
    cases hread.symm.trans hs
  | case4 feed stepped ha _ older hread hv rest ih =>
    obtain ⟨stone, hm, hs, -⟩ := published_eq (hst feed hf (hbelow feed ha)).2
    cases hread.symm.trans hs
    exact ih hm (hv ▸ hbelow feed ha)
  | case5 feed stepped ha _ older hread hv =>
    obtain ⟨stone, -, hs, hsv⟩ := published_eq (hst feed hf (hbelow feed ha)).2
    cases hread.symm.trans hs
    exact absurd hsv hv

/-- One restart runs a newer release. -/
theorem restart_newer [DecidableEq C] (hst : Stones feeds r) (hn : newest ∈ feeds) (hr : r < newest.version) :
    ∃ feed ∈ feeds, r < feed.version ∧ restart feeds newest (.release r : Version R C) = .release feed.version := by
  obtain ⟨next, hw, hm, hfl, hlt⟩ := walkFrom_published (C := C) hst hn hr false
  refine ⟨next.feed, hm, hlt, ?_⟩
  have ha : admitCandidate (next.feed.candidate C) (.release r) none none = .ok () := by
    simp [admitCandidate, Feed.candidate, Version.release?, Version.above, floorAdmits, hlt.ne, hlt.le, hfl]
  simp only [restart, walk, hw, ha]

theorem restarts_reach [DecidableEq C] (hst : Stones feeds r) (hn : newest ∈ feeds)
    (hmax : ∀ feed ∈ feeds, feed.version ≤ newest.version) (hr : r ≤ newest.version) :
    Reaches feeds newest (.release r : Version R C) := by
  have hwf : {v | v ∈ r :: feeds.map Feed.version}.WellFoundedOn (· > ·) := (List.finite_toSet _).wellFoundedOn
  -- upward in the finite set of the versions that can run
  refine hwf.induction (P := fun r => Stones feeds r → r ≤ newest.version → Reaches feeds newest (.release r))
    (List.mem_cons_self ..) ?_ hst hr
  intro r _ ih hst hr
  rcases hr.eq_or_lt with rfl | hlt
  · exact ⟨0, rfl, nofun⟩
  obtain ⟨feed, hm, hnewer, he⟩ := restart_newer (C := C) hst hn hlt
  have hst' : Stones feeds feed.version := fun f hf hlow => hst f hf (hnewer.trans hlow)
  obtain ⟨n, hend, hinc⟩ := ih feed.version (List.mem_cons_of_mem _ (List.mem_map_of_mem hm)) hnewer hst' (hmax feed hm)
  refine ⟨n + 1, by rw [Function.iterate_succ_apply, he, hend], fun k hk => ?_⟩
  cases k with
  | zero => simpa [he, Version.above, Version.release?] using hnewer
  | succ k => simpa only [Function.iterate_succ_apply, he] using hinc k (by omega)

/-- A walk asks for strictly older releases and returns one that `running` may install. Where floors are
published, restarts into what walks return reach the newest release. -/
theorem walk_reaches_newest [DecidableEq C] (running : Version R C) :
    (∀ (newest : Except E (Feed R)) (read : R → Except E (Feed R)), (walk running newest read).1.Pairwise (· > ·) ∧
      ∀ next, (walk running newest read).2 = .ok (some next) → floorAdmits next.feed.floor running = true ∧
        (next.steppingStone = true → (Version.release next.feed.version).above running = true)) ∧
    ∀ (feeds : List (Feed R)) (newest : Feed R) (r : R), running = .release r → Stones feeds r →
      newest ∈ feeds → (∀ feed ∈ feeds, feed.version ≤ newest.version) → r < newest.version →
      Reaches feeds newest running := by
  refine ⟨fun newest read => ?_, ?_⟩
  · cases newest with
    | error e => exact ⟨.nil, nofun⟩
    | ok feed => exact ⟨walkFrom_older feed false, fun next (h : (walkFrom ..).2 = _) => walkFrom_next (by simp) h⟩
  · rintro feeds newest r rfl hst hn hmax hr
    exact restarts_reach hst hn hmax hr.le

theorem walk_reaches_three :
    Reaches [⟨1, 0, by decide⟩, ⟨3, 1, by decide⟩] ⟨3, 1, by decide⟩ (.release 0 : Version Nat Unit) :=
  (walk_reaches_newest (E := Unit) _).2 _ _ 0 rfl (by simp [Stones]) (by simp) (by simp) (by decide)

end Walk
end SpaceTerm.Updates
