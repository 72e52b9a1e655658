import SpaceTerm.Direct.Agents
import SpaceTerm.Lib.Holds
import SpaceTerm.Lib.Run

/-! # Concurrent admissions under one pairing

`serve` in `host.rs`: an admission waits until nobody holds its identity, reserves the idle names when
it would evict one, asks the pane service which of them hold nothing, and then commits and registers
in one hold of the direct-network lock. Each of these is a step of its own here, and any number of
admissions take steps in any order. `retiring` counts the holds: those of reservations, and that of an
evicted identity until its control grants are released. A service lane (`serve_lane`) registers the
same identities with none of these steps. -/

namespace SpaceTerm.Direct
open Lib

/-- A Client Identity under the pairing: its own, or that of one of its agents. -/
abbrev Client := Option Name

structure Entry where
  connection : Nat
  client : Client
  lane : Bool := false
  deriving DecidableEq

/-- Where an admission stands. `r` is its reservation, which drops with a step of its own. -/
inductive Phase
  | waiting
  | reserved (r : Option (List Client))
  | settled (r : Option (List Client)) (settled : List Client)
  | restarting (r : Option (List Client))
  | failing (r : Option (List Client))
  | committed (r : Option (List Client)) (evicted : Option Client) (registered : Bool)
  | releasing (evicted : Option Client) (registered : Bool)
  | released (evicted : Client) (registered : Bool)
  | serving

namespace Phase

/-- The identities an admission holds in `retiring`. -/
def held : Phase → List Client
  | waiting | serving => []
  | reserved r | settled r _ | restarting r | failing r => r.getD []
  | committed r evicted _ => r.getD [] ++ evicted.toList
  | releasing evicted _ => evicted.toList
  | released evicted _ => [evicted]

end Phase

structure Admission where
  connection : Nat
  /-- The agent it admits; the pairing's own client has none. -/
  agent : Option Name
  phase : Phase := .waiting

def Admission.client (a : Admission) : Client := a.agent

def Admission.entry (a : Admission) : Entry := { connection := a.connection, client := a.client }

/-- The state behind the direct-network lock and the pane service's. -/
structure Shared where
  agents : List Name
  connections : List Entry := []
  retiring : Client → Option Nat := fun _ => none
  /-- `PaneService::holds`: the identity keeps an edit outcome or a run receipt. -/
  holds : Client → Bool := fun _ => false
  /-- The identity has control grants. -/
  controls : Client → Bool := fun _ => false

namespace Shared

def serves (s : Shared) (client : Client) : Bool :=
  s.connections.any (·.client == client)

/-- The client has a work connection. -/
def works (s : Shared) (client : Client) : Bool :=
  s.connections.any fun e => e.client == client && !e.lane

def reserveEvictable (s : Shared) (agent : Name) : Option (List Client) × Shared :=
  if evicts s.agents agent then
    let idle := (s.agents.map some).filter (!s.serves ·)
    (some idle, { s with retiring := hold s.retiring idle })
  else (none, s)

/-- `admit_agent`. A save that fails ends every connection and returns before the evicted identity is
held, while `agents` is what the record says when it is loaded again. -/
def admitAgent (s : Shared) (agent : Name) (settled : List Client) (save : Saved) :
    Option (Option Client) × Shared :=
  match admitName s.agents agent fun n => settled.contains (some n) && !s.serves (some n) with
  | none => (none, s)
  | some (agents, evicted) =>
    -- the latest name is admitted again without a save
    match if s.agents.getLast? = some agent then .done else save with
    | .done =>
      (some (evicted.map some), { s with agents, retiring := hold s.retiring (evicted.map some).toList })
    | .failedNew => (none, { s with agents, connections := [] })
    | .failedOld => (none, { s with connections := [] })

/-- `register`. `current` is whether the pairing still holds its authority. -/
def register (s : Shared) (e : Entry) (current : Bool) : Bool × Shared :=
  if current && decide (s.connections.length < MAX_PAIRED_CONNECTIONS) then
    (true, { s with connections := s.connections ++ [e] })
  else (false, s)

def commit (s : Shared) (a : Admission) (r : Option (List Client)) (settled : List Client)
    (authorized current : Bool) (save : Saved) : Shared × Phase :=
  if (s.retiring a.client).isSome then (s, .restarting r)
  else
    match a.agent with
    | none =>
      let (registered, s) := s.register a.entry current
      (s, .committed r none registered)
    | some agent =>
      if !authorized then (s, .failing r)
      else if r.isNone && evicts s.agents agent then (s, .restarting r)
      else
        match s.admitAgent agent settled save with
        | (none, s) => (s, .failing r)
        | (some evicted, s) =>
          let (registered, s) := s.register a.entry current
          (s, .committed r evicted registered)

end Shared

/-- What one admission does next. -/
inductive Act
  /-- The wait ends: the identity is free and the idle names are reserved. -/
  | reserve
  /-- The wait is given up: the deadline passed, the host stops or the pairing is refused. -/
  | giveUp
  /-- The pane service reports. -/
  | report
  | commit (authorized current : Bool) (save : Saved)
  /-- The reservation drops. -/
  | drop
  | releaseControl
  /-- The hold of the evicted identity drops. -/
  | finish
  | disconnect
  deriving DecidableEq

namespace Shared

def act (s : Shared) (a : Admission) : Act → Option (Shared × Option Phase)
  | .reserve =>
    match a.phase with
    | .waiting =>
      if (s.retiring a.client).isSome then none
      else
        match a.agent with
        | none => some (s, some (.reserved none))
        | some agent =>
          let (r, s) := s.reserveEvictable agent
          some (s, some (.reserved r))
    | _ => none
  | .giveUp =>
    match a.phase with
    | .waiting => some (s, none)
    | _ => none
  | .report =>
    match a.phase with
    | .reserved r => some (s, some (.settled r ((r.getD []).filter (!s.holds ·))))
    | _ => none
  | .commit authorized current save =>
    match a.phase with
    | .settled r settled =>
      let (s, p) := s.commit a r settled authorized current save
      some (s, some p)
    | _ => none
  | .drop =>
    match a.phase with
    | .restarting r => some ({ s with retiring := release s.retiring (r.getD []) }, some .waiting)
    | .failing r => some ({ s with retiring := release s.retiring (r.getD []) }, none)
    | .committed r evicted registered =>
      some ({ s with retiring := release s.retiring (r.getD []) }, some (.releasing evicted registered))
    | _ => none
  | .releaseControl =>
    match a.phase with
    | .releasing (some evicted) registered =>
      some ({ s with controls := Function.update s.controls evicted false }, some (.released evicted registered))
    | .releasing none registered => some (s, if registered then some .serving else none)
    | _ => none
  | .finish =>
    match a.phase with
    | .released evicted registered =>
      some ({ s with retiring := release s.retiring [evicted] },
        if registered then some .serving else none)
    | _ => none
  | .disconnect =>
    match a.phase with
    | .serving =>
      some ({ s with connections := s.connections.filter (·.connection != a.connection) }, none)
    | _ => none

end Shared

structure Admissions where
  shared : Shared
  running : List Admission := []

namespace Admissions

inductive Event
  | arrive (connection : Nat) (agent : Option Name)
  | act (i : Nat) (a : Act)
  /-- `serve_lane` registers its caller, and unregisters it in the end. -/
  | lane (connection : Nat) (client : Client) (current : Bool)
  | laneEnds (connection : Nat)
  /-- A served client's request is retained, or acknowledged, or takes control of a Pane. -/
  | retain (client : Client)
  | acknowledge (client : Client)
  | control (client : Client)
  deriving DecidableEq

def event (s : Admissions) : Event → Option Admissions
  | .arrive connection agent => some { s with running := { connection, agent } :: s.running }
  | .act i x =>
    match s.running[i]? with
    | none => none
    | some a =>
      match s.shared.act a x with
      | none => none
      | some (shared, p) =>
        some {
          shared
          running := match p with
            | some phase => s.running.set i { a with phase }
            | none => s.running.eraseIdx i }
  | .lane connection client current =>
    some { s with shared := (s.shared.register { connection, client, lane := true } current).2 }
  | .laneEnds connection =>
    some { s with shared := { s.shared with
      connections := s.shared.connections.filter fun e => !(e.lane && e.connection == connection) } }
  | .retain client =>
    if s.shared.works client then
      some { s with shared := { s.shared with holds := Function.update s.shared.holds client true } }
    else none
  | .acknowledge client =>
    some { s with shared := { s.shared with holds := Function.update s.shared.holds client false } }
  | .control client =>
    if s.shared.works client then
      some { s with
        shared := { s.shared with controls := Function.update s.shared.controls client true } }
    else none

def Step (s : Admissions) (e : Event) (t : Admissions) : Prop := s.event e = some t

/-- No save fails after it took effect, and a lane is opened only by an identity that is listed and
that nobody holds. -/
def Orderly (s : Admissions) : Event → Prop
  | .act _ (.commit _ _ save) => save ≠ .failedNew
  | .lane _ client _ => s.shared.retiring client = none ∧ ∀ n, client = some n → n ∈ s.shared.agents
  | _ => True

/-- Every hold that has not ended. -/
def outstanding (s : Admissions) : List Client := s.running.flatMap (·.phase.held)

end Admissions

/-- What the record and the pane service kept from before: listed names, and outcomes of listed
names only. -/
structure Kept where
  agents : List Name
  holds : Client → Bool
  nodup : agents.Nodup
  bounded : agents.length ≤ MAX_AGENTS
  listed : ∀ n, holds (some n) = true → n ∈ agents

def Kept.start (k : Kept) : Admissions := { shared := { agents := k.agents, holds := k.holds } }

/-! ## The invariant -/

/-- The shared state agrees with the holds listed in `held`. -/
structure Shared.Sound (s : Shared) (held : List Client) : Prop where
  counts : Counts s.retiring held
  free : ∀ e ∈ s.connections, s.retiring e.client = none
  nodup : s.agents.Nodup
  bounded : s.agents.length ≤ MAX_AGENTS
  connected : ∀ e ∈ s.connections, ∀ n, e.client = some n → n ∈ s.agents
  retained : ∀ n, s.holds (some n) = true → n ∈ s.agents

/-- A report still holds: what it called settled is reserved and keeps nothing. -/
def Phase.Reported (holds : Client → Bool) : Phase → Prop
  | .settled r xs => ∀ x ∈ xs, x ∈ r.getD [] ∧ holds x = false
  | _ => True

namespace Shared.Sound
variable {s s' : Shared} {held rest : List Client} {a : Admission} {r : Option (List Client)}
  {settled : List Client}

theorem not_serves (h : s.Sound held) {x : Client} (hx : x ∈ held) : s.serves x = false := by
  rw [Bool.eq_false_iff]
  intro hs
  obtain ⟨e, he, hc⟩ := List.any_eq_true.mp hs
  have hnone := h.free e he
  rw [beq_iff_eq.mp hc, h.counts.none_iff] at hnone
  exact hnone hx

theorem serves_of_works {client : Client} (h : s.works client = true) : s.serves client = true := by
  obtain ⟨e, he, hc⟩ := List.any_eq_true.mp h
  exact List.any_eq_true.mpr ⟨e, he, (Bool.and_eq_true_iff.mp hc).1⟩

theorem perm (h : s.Sound held) {held' : List Client} (hp : held.Perm held') : s.Sound held' :=
  { h with counts := h.counts.perm hp }

theorem hold (h : s.Sound held) {xs : List Client} (hidle : ∀ x ∈ xs, s.serves x = false) :
    Sound { s with retiring := Lib.hold s.retiring xs } (xs ++ held) := by
  refine { h with counts := h.counts.hold xs, free := fun e he => ?_ }
  rw [(h.counts.hold xs).none_iff, List.mem_append, not_or]
  refine ⟨fun hi => ?_, h.counts.none_iff.mp (h.free e he)⟩
  have hs : s.serves e.client = true := List.any_eq_true.mpr ⟨e, he, by simp⟩
  rw [hidle _ hi] at hs
  cases hs

theorem release {xs : List Client} (h : s.Sound (xs ++ rest)) :
    Sound { s with retiring := Lib.release s.retiring xs } rest := by
  refine { h with counts := h.counts.release, free := fun e he => ?_ }
  rw [h.counts.release.none_iff]
  exact fun hi => h.counts.none_iff.mp (h.free e he) (List.mem_append_right _ hi)

theorem reserveEvictable (h : s.Sound rest) (agent : Name) :
    (s.reserveEvictable agent).2.Sound ((s.reserveEvictable agent).1.getD [] ++ rest) ∧
      (s.reserveEvictable agent).2.holds = s.holds := by
  unfold Shared.reserveEvictable
  split
  · refine ⟨h.hold fun x hx => ?_, rfl⟩
    simpa using (List.mem_filter.mp hx).2
  · exact ⟨h, rfl⟩

theorem register (h : s.Sound held) (x : Entry) (current : Bool)
    (hf : s.retiring x.client = none) (hl : ∀ n, x.client = some n → n ∈ s.agents) :
    (s.register x current).2.Sound held := by
  unfold Shared.register
  split
  · refine { h with free := fun e he => ?_, connected := fun e he n hn => ?_ }
    · rcases List.mem_append.mp he with he | he
      · exact h.free e he
      · cases List.mem_singleton.mp he
        exact hf
    rcases List.mem_append.mp he with he | he
    · exact h.connected e he n hn
    · cases List.mem_singleton.mp he
      exact hl n hn
  · exact h

theorem register_holds (x : Entry) (current : Bool) : (s.register x current).2.holds = s.holds := by
  unfold Shared.register
  split <;> rfl

theorem disconnected (h : s.Sound held) (q : Entry → Bool) :
    Sound { s with connections := s.connections.filter q } held :=
  { h with
    free := fun e he => h.free e (List.mem_filter.mp he).1
    connected := fun e he => h.connected e (List.mem_filter.mp he).1 }

theorem admitAgent_failed {agent : Name} {save : Saved} (h : s.Sound held) (hs : save ≠ .failedNew)
    (hadm : s.admitAgent agent settled save = (none, s')) :
    s'.Sound held ∧ s'.holds = s.holds := by
  unfold Shared.admitAgent at hadm
  split at hadm
  · cases hadm
    exact ⟨h, rfl⟩
  split at hadm
  · cases hadm
  · rename_i hf
    split at hf
    · cases hf
    · exact absurd hf hs
  · cases hadm
    exact ⟨{ h with free := nofun, connected := nofun }, rfl⟩

theorem admitAgent {agent : Name} {evicted : Option Client} {save : Saved}
    (h : s.Sound (r.getD [] ++ rest)) (hse : (Phase.settled r settled).Reported s.holds)
    (hadm : s.admitAgent agent settled save = (some evicted, s')) :
    s'.Sound (evicted.toList ++ (r.getD [] ++ rest)) ∧ s'.holds = s.holds ∧ agent ∈ s'.agents ∧
      evicted ≠ some (some agent) := by
  unfold Shared.admitAgent at hadm
  split at hadm
  · cases hadm
  rename_i agents gone hna
  split at hadm
  case h_2 | h_3 => cases hadm
  cases hadm
  have ha := admitName_admits h.nodup h.bounded hna
  have hg : ∀ x, gone = some x → s.serves (some x) = false ∧ s.holds (some x) = false := by
    intro x hx
    have hev := (ha.gone x hx).1
    simp only [Bool.and_eq_true, Bool.not_eq_true', List.contains_iff_mem] at hev
    exact ⟨hev.2, (hse _ hev.1).2⟩
  have hidle : ∀ x ∈ (gone.map some).toList, s.serves x = false := by
    intro x hx
    obtain ⟨n, hn, rfl⟩ := Option.map_eq_some_iff.mp (Option.mem_toList.mp hx)
    exact (hg n hn).1
  refine ⟨{ (h.hold hidle) with
      nodup := ha.nodup
      bounded := ha.bounded
      connected := fun e he n hn => ha.kept n (h.connected e he n hn) fun hev => ?_
      retained := fun n hn => ha.kept n (h.retained n hn) fun hev => ?_ }, rfl,
    ha.admitted, fun hev => ?_⟩
  · have hs : s.serves (some n) = true := List.any_eq_true.mpr ⟨e, he, by simp [hn]⟩
    rw [(hg n hev).1] at hs
    cases hs
  · rw [show s.holds (some n) = false from (hg n hev).2] at hn
    cases hn
  · obtain ⟨n, hn, heq⟩ := Option.map_eq_some_iff.mp hev
    cases heq
    exact (ha.gone _ hn).2.2.1 rfl

theorem commit (h : s.Sound (r.getD [] ++ rest))
    (hs : (Phase.settled r settled).Reported s.holds) (authorized current : Bool) {save : Saved}
    (hsave : save ≠ .failedNew) :
    (s.commit a r settled authorized current save).1.Sound
        ((s.commit a r settled authorized current save).2.held ++ rest) ∧
      (s.commit a r settled authorized current save).1.holds = s.holds ∧
      ((s.commit a r settled authorized current save).2).Reported s.holds := by
  unfold Shared.commit
  split
  · exact ⟨h, rfl, trivial⟩
  rename_i hf
  have hf : s.retiring a.client = none := by simpa using hf
  split
  · rename_i hag
    refine ⟨?_, register_holds a.entry current, trivial⟩
    have hr := h.register a.entry current hf fun n hn => by
      rw [Admission.entry, Admission.client, hag] at hn
      cases hn
    simpa [Phase.held] using hr
  rename_i agent hag
  split
  · exact ⟨h, rfl, trivial⟩
  split
  · exact ⟨h, rfl, trivial⟩
  split
  · rename_i s' ha
    obtain ⟨hso, hh⟩ := h.admitAgent_failed hsave ha
    exact ⟨hso, hh, trivial⟩
  rename_i evicted s' ha
  obtain ⟨hso, hh, hi, hne⟩ := h.admitAgent hs ha
  refine ⟨?_, (register_holds a.entry current).trans hh, trivial⟩
  have hf' : s'.retiring a.client = none := by
    rw [hso.counts.none_iff, List.mem_append, not_or]
    refine ⟨fun hc => hne ?_, h.counts.none_iff.mp hf⟩
    rw [Option.mem_toList] at hc
    rw [hc, Admission.client, hag]
  have hr := hso.register a.entry current hf' fun n hn => by
    rw [Admission.entry, Admission.client, hag] at hn
    cases hn
    exact hi
  refine hr.perm ?_
  simp only [Phase.held, ← List.append_assoc]
  exact List.Perm.append_right _ List.perm_append_comm

theorem act {x : Act} {p : Option Phase} (h : s.Sound (a.phase.held ++ rest))
    (hrepo : a.phase.Reported s.holds) (ha : s.act a x = some (s', p))
    (hsave : ∀ authorized current save, x = .commit authorized current save → save ≠ .failedNew) :
    s'.Sound ((p.map Phase.held).getD [] ++ rest) ∧ s'.holds = s.holds ∧ ∀ q, p = some q → q.Reported s.holds := by
  cases x with
  | reserve =>
    simp only [Shared.act] at ha
    split at ha
    · rename_i hp
      rw [hp] at h
      split at ha
      · cases ha
      split at ha
      · cases ha
        exact ⟨h, rfl, fun q hq => by cases hq; trivial⟩
      rename_i agent _
      cases ha
      obtain ⟨hs, hh⟩ := reserveEvictable h agent
      exact ⟨hs, hh, fun q hq => by cases hq; trivial⟩
    · cases ha
  | giveUp =>
    simp only [Shared.act] at ha
    split at ha
    · rename_i hp
      rw [hp] at h
      cases ha
      exact ⟨h, rfl, nofun⟩
    · cases ha
  | report =>
    simp only [Shared.act] at ha
    split at ha
    · rename_i r hp
      rw [hp] at h
      cases ha
      refine ⟨h, rfl, fun q hq => ?_⟩
      cases hq
      intro y hy
      obtain ⟨hi, hh⟩ := List.mem_filter.mp hy
      exact ⟨hi, by simpa using hh⟩
    · cases ha
  | commit authorized current save =>
    simp only [Shared.act] at ha
    split at ha
    · rename_i r settled hp
      rw [hp] at h hrepo
      cases ha
      obtain ⟨hs, hh, hre⟩ := commit (a := a) h hrepo authorized current (hsave authorized current save rfl)
      exact ⟨hs, hh, fun q hq => by cases hq; exact hre⟩
    · cases ha
  | drop =>
    simp only [Shared.act] at ha
    split at ha
    · rename_i r hp
      rw [hp] at h
      cases ha
      exact ⟨h.release, rfl, fun q hq => by cases hq; trivial⟩
    · rename_i r hp
      rw [hp] at h
      cases ha
      exact ⟨h.release, rfl, nofun⟩
    · rename_i r evicted registered hp
      rw [hp] at h
      cases ha
      refine ⟨?_, rfl, fun q hq => by cases hq; trivial⟩
      simp only [Phase.held, List.append_assoc] at h
      exact h.release
    · cases ha
  | releaseControl =>
    simp only [Shared.act] at ha
    split at ha
    · rename_i evicted registered hp
      rw [hp] at h
      cases ha
      exact ⟨{ h with }, rfl, fun q hq => by cases hq; trivial⟩
    · rename_i registered hp
      rw [hp] at h
      cases ha
      cases registered
      · exact ⟨h, rfl, nofun⟩
      · exact ⟨h, rfl, fun q hq => by cases hq; trivial⟩
    · cases ha
  | finish =>
    simp only [Shared.act] at ha
    split at ha
    · rename_i evicted registered hp
      rw [hp] at h
      have hr := h.release
      cases ha
      cases registered
      · exact ⟨hr, rfl, nofun⟩
      · exact ⟨hr, rfl, fun q hq => by cases hq; trivial⟩
    · cases ha
  | disconnect =>
    simp only [Shared.act] at ha
    split at ha
    · rename_i hp
      rw [hp] at h
      cases ha
      exact ⟨h.disconnected _, rfl, nofun⟩
    · cases ha

end Shared.Sound

namespace Admissions
variable {s t : Admissions} {e : Event}

structure Inv (s : Admissions) : Prop where
  sound : s.shared.Sound s.outstanding
  reported : ∀ a ∈ s.running, a.phase.Reported s.shared.holds

theorem Inv.start (k : Kept) : k.start.Inv where
  sound := ⟨Counts.nil, nofun, k.nodup, k.bounded, nofun, k.listed⟩
  reported := nofun

theorem mem_outstanding {a : Admission} {x : Client} (ha : a ∈ s.running) (hx : x ∈ a.phase.held) :
    x ∈ s.outstanding :=
  List.mem_flatMap.mpr ⟨a, ha, hx⟩

theorem Phase.Reported.update {holds : Client → Bool} {p : Phase} {client : Client} {b : Bool}
    (h : p.Reported holds) (hne : b = true → client ∉ p.held) :
    p.Reported (Function.update holds client b) := by
  cases p with
  | settled r settled =>
    intro x hx
    obtain ⟨hi, hh⟩ := h x hx
    refine ⟨hi, ?_⟩
    by_cases hxc : x = client
    · subst hxc
      rw [Function.update_self]
      cases b with
      | false => rfl
      | true => exact absurd hi (hne rfl)
    · rwa [Function.update_of_ne hxc]
  | _ => trivial

theorem Inv.step (h : s.Inv) (ho : s.Orderly e) (hst : s.Step e t) : t.Inv := by
  cases e with
  | arrive connection agent =>
    cases hst
    refine ⟨h.sound, fun a ha => ?_⟩
    rcases List.mem_cons.mp ha with rfl | ha
    · trivial
    · exact h.reported a ha
  | act i x =>
    simp only [Step, event] at hst
    split at hst
    · cases hst
    rename_i a ha
    split at hst
    · cases hst
    rename_i shared p hac
    cases hst
    -- the acting admission is taken out of the list
    obtain ⟨l₁, l₂, hl, rfl⟩ : ∃ l₁ l₂, s.running = l₁ ++ a :: l₂ ∧ l₁.length = i := by
      obtain ⟨hi, rfl⟩ := List.getElem?_eq_some_iff.mp ha
      exact ⟨s.running.take i, s.running.drop (i + 1), by rw [List.getElem_cons_drop hi, List.take_append_drop],
        List.length_take_of_le (Nat.le_of_lt hi)⟩
    have hout : s.outstanding.Perm
        (a.phase.held ++ (l₁.flatMap (·.phase.held) ++ l₂.flatMap (·.phase.held))) := by
      simp only [outstanding, hl, List.flatMap_append, List.flatMap_cons, ← List.append_assoc]
      exact List.Perm.append_right _ List.perm_append_comm
    obtain ⟨hso, hh, hr⟩ := (h.sound.perm hout).act (h.reported a (by simp [hl])) hac
      fun _ _ _ hx => by subst hx; exact ho
    have ho : ∀ b, b ∈ l₁ ∨ b ∈ l₂ → b.phase.Reported s.shared.holds := by
      intro b hb
      refine h.reported b ?_
      rw [hl, List.mem_append, List.mem_cons]
      tauto
    cases p with
    | some q =>
      have hse : s.running.set l₁.length { a with phase := q } = l₁ ++ { a with phase := q } :: l₂ := by
        rw [hl]
        simp
      refine ⟨hso.perm ?_, fun b hb => ?_⟩
      · simp only [outstanding, hse, List.flatMap_append, List.flatMap_cons,
          Option.map_some, Option.getD_some, ← List.append_assoc]
        exact List.Perm.append_right _ List.perm_append_comm
      · simp only [hse, List.mem_append, List.mem_cons, hh] at hb ⊢
        rcases hb with hb | rfl | hb
        · exact ho b (.inl hb)
        · exact hr q rfl
        · exact ho b (.inr hb)
    | none =>
      have her : s.running.eraseIdx l₁.length = l₁ ++ l₂ := by
        rw [hl, List.eraseIdx_append_of_length_le (Nat.le_refl _)]
        simp
      refine ⟨hso.perm ?_, fun b hb => ?_⟩
      · simp only [outstanding, her, List.flatMap_append, Option.map_none, Option.getD_none, List.nil_append]
        exact List.Perm.refl _
      · simp only [her, List.mem_append, hh] at hb ⊢
        exact ho b hb
  | lane connection client current =>
    cases hst
    refine ⟨h.sound.register _ current ho.1 ho.2, fun a ha => ?_⟩
    rw [Shared.Sound.register_holds]
    exact h.reported a ha
  | laneEnds connection =>
    cases hst
    exact ⟨h.sound.disconnected _, h.reported⟩
  | retain client =>
    simp only [Step, event] at hst
    split at hst
    · rename_i hs
      have hs := Shared.Sound.serves_of_works hs
      cases hst
      refine ⟨{ h.sound with retained := fun n hn => ?_ }, fun a ha => ?_⟩
      · change Function.update s.shared.holds client true (some n) = true at hn
        by_cases hnc : some n = client
        · obtain ⟨e, he, hc⟩ := List.any_eq_true.mp hs
          exact h.sound.connected e he n ((beq_iff_eq.mp hc).trans hnc.symm)
        · rw [Function.update_of_ne hnc] at hn
          exact h.sound.retained n hn
      · refine Phase.Reported.update (h.reported a ha) fun _ hin => ?_
        rw [h.sound.not_serves (mem_outstanding ha hin)] at hs
        cases hs
    · cases hst
  | acknowledge client =>
    cases hst
    refine ⟨{ h.sound with retained := fun n hn => ?_ }, fun a ha => ?_⟩
    · change Function.update s.shared.holds client false (some n) = true at hn
      by_cases hnc : some n = client
      · rw [hnc, Function.update_self] at hn
        cases hn
      · rw [Function.update_of_ne hnc] at hn
        exact h.sound.retained n hn
    · exact Phase.Reported.update (h.reported a ha) nofun
  | control client =>
    simp only [Step, event] at hst
    split at hst
    · cases hst
      exact ⟨{ h.sound with }, h.reported⟩
    · cases hst

end Admissions

end SpaceTerm.Direct
