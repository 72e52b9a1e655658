import SpaceTerm.Hierarchy.Inventory

/-! # Automatic Workspace names

`State::recalculate_names`. A first pass gives every custom name back to its Workspace and lets a
Workspace whose automatic base is unchanged keep its name; a second pass allocates the first free
name to each Workspace that is left. -/

namespace SpaceTerm.Hierarchy
open Lib

/-- `u64 += 1` in a build without overflow checks. -/
def wrappingSucc (n : Nat) : Nat := (n + 1) % 2 ^ 64

/-- `format!("{base} ({ordinal})")`. -/
def suffixed (base : Text) (ordinal : Nat) : Text :=
  base ++ [' ', '('] ++ Nat.toDigits 10 ordinal ++ [')']

/-- The loop that tries `name`, then `base (ordinal)` and up, until a name is free. The fuel is the
number of names it may find occupied. -/
def freeName (base : Text) (occupied : List Text) : Nat → Nat → Text → Text
  | 0, _, name => name
  | fuel + 1, ordinal, name =>
    if occupied.contains name then freeName base occupied fuel (ordinal + 1) (suffixed base ordinal)
    else name

def defaultName : Text := ['D', 'e', 'f', 'a', 'u', 'l', 't']

namespace Workspace

def root (w : Workspace) : Option Pane := do
  let t ← w.tabs.find? (·.id == w.rootTab)
  t.panes.find? (·.id == t.rootPane)

def automaticBase (w : Workspace) (home : Option PathBuf) : Text :=
  let base := match w.pinnedDirectory <|> w.root.map (·.presentedDirectory) with
    | some directory =>
      if some directory == home then defaultName
      else (directory.fileName.map Text.lossy).getD ['/']
    | none => defaultName
  -- Leave room for the largest collision suffix within the protocol name bound.
  let base := Text.popTo 251 (base.filter fun c => !Text.isControl c)
  if (Text.trim base).isEmpty then ['/'] else base

end Workspace

/-- A Workspace after the first pass, with the base of the name it still needs. -/
abbrev Naming := Workspace × Option Text

/-- The first pass over one Workspace, under the names `occupied` so far. -/
def reserveName (home : Option PathBuf) (names : List WorkspaceName) (occupied : List Text)
    (w : Workspace) : Naming × List Text :=
  match names.find? (·.workspace == w.id) with
  | none => ((w, none), occupied)
  | some naming =>
    match naming.custom with
    | some custom => (({ w with name := custom }, none), occupied)
    | none =>
      let base := w.automaticBase home
      -- Reserve unchanged identities before allocating names for moving Workspaces.
      if naming.automaticBase == base && !occupied.contains w.name then
        ((w, none), w.name :: occupied)
      else ((w, some base), occupied)

def reserveNames (home : Option PathBuf) (names : List WorkspaceName) :
    List Text → List Workspace → List Naming × List Text
  | occupied, [] => ([], occupied)
  | occupied, w :: ws =>
    let (named, occupied) := reserveName home names occupied w
    let (rest, occupied) := reserveNames home names occupied ws
    (named :: rest, occupied)

/-- The second pass over one Workspace. -/
def allocateName (occupied : List Text) (names : List WorkspaceName) :
    Naming → Workspace × List Text × List WorkspaceName
  | (w, none) => (w, occupied, names)
  | (w, some base) =>
    match names.find? (·.workspace == w.id) with
    | none => (w, occupied, names)
    | some _ =>
      let name := freeName base occupied occupied.length 2 base
      (if w.name == name then w else { w with name, nameVersion := wrappingSucc w.nameVersion }, name :: occupied,
        modifyFirst (·.workspace == w.id) (fun n => { n with automaticBase := base }) names)

def allocateNames : List Text → List WorkspaceName → List Naming → List Workspace × List WorkspaceName
  | _, names, [] => ([], names)
  | occupied, names, named :: rest =>
    let (w, occupied, names) := allocateName occupied names named
    let (ws, names) := allocateNames occupied names rest
    (w :: ws, names)

namespace State

def recalculateNames (s : State) : State :=
  let occupied := s.names.filterMap (·.custom)
  let (named, occupied) := reserveNames s.homeDirectory s.names occupied s.inventory.workspaces
  let (workspaces, names) := allocateNames occupied s.names named
  { s with names, inventory := { s.inventory with workspaces } }

end State

end SpaceTerm.Hierarchy
