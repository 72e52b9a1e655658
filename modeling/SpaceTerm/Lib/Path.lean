import Mathlib.Data.List.Basic
import SpaceTerm.Lib.Text

/-! # Unix paths

A path is its bytes. Two paths are equal when their components are, so `/a//b/.` equals `/a/b`: the
boolean equality below is not equality of the bytes, and a structure that holds a path compares
through it. -/

namespace Lib

structure PathBuf where
  bytes : List UInt8
  deriving Repr

inductive PathComponent
  | rootDir
  | curDir
  | parentDir
  | normal (name : List UInt8)
  deriving Repr, DecidableEq

namespace PathBuf

def ofText (t : Text) : PathBuf := ⟨t.map fun c => UInt8.ofNat c.toNat⟩

private def component : List UInt8 → Option PathComponent
  | [] => none
  | [46] => none
  | [46, 46] => some .parentDir
  | name => some (.normal name)

/-- Whether the path starts at the root. -/
def isAbsolute (p : PathBuf) : Bool := p.bytes.head? == some 47

/-- The components: repeated separators and `.` are skipped, save a leading `.` of a relative path. -/
def components (p : PathBuf) : List PathComponent :=
  let parts := p.bytes.splitOn 47
  let body := parts.filterMap component
  if p.isAbsolute then .rootDir :: body
  else if parts.head? == some [46] then .curDir :: body
  else body

instance : BEq PathBuf := ⟨fun a b => a.components == b.components⟩

instance : ReflBEq PathBuf := ⟨fun {a} => by show (a.components == a.components) = true; simp⟩

def fileName (p : PathBuf) : Option (List UInt8) :=
  match p.components.getLast? with
  | some (.normal name) => some name
  | _ => none

example : (⟨[47, 97, 47, 47, 98, 47, 46]⟩ : PathBuf) == ⟨[47, 97, 47, 98]⟩ := by decide

end PathBuf

end Lib
