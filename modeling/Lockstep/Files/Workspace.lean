import Lockstep.Files.Path

/-!
# Workspaces

A workspace tells what stands at a path: a file with its bytes, a directory, or nothing.
`Workspace.ofFiles` is the workspace of a working directory with the given files; the
directories are those on the way to a file, and nothing is known of what lies outside.
-/

namespace Lockstep

/-- What stands at a path. -/
inductive Node
  | file (bytes : List UInt8)
  | directory
  deriving DecidableEq, Repr

/-- What stands at which path. -/
structure Workspace where
  node? : Path → Option Node

namespace Workspace

/-- Whether anything stands at a path. -/
def holds (w : Workspace) (p : Path) : Bool := (w.node? p).isSome

/-- What the names lead to from the working directory; a directory when some file is below. -/
def stands (files : List (List Text × List UInt8)) (place : List Text) : Option Node :=
  match files.find? fun f => f.1 == place with
  | some f => some (.file f.2)
  | none =>
    if place.isEmpty || files.any fun f => place.isPrefixOf f.1 then some .directory else none

/-- Follow names from a place, or from so many directories above the working one. -/
def follow (files : List (List Text × List UInt8)) :
    (above : Nat) → (place : List Text) → List Text → Option Node
  | 0, place, [] => stands files place
  | _ + 1, _, [] => some .directory
  | above, place, name :: names =>
    if name == ['.', '.'] then
      if place.isEmpty then follow files (above + 1) [] names
      else follow files above place.dropLast names
    else if above != 0 then none
    else
      match stands files (place ++ [name]) with
      | some .directory => follow files 0 (place ++ [name]) names
      | some (.file bytes) => if names.isEmpty then some (.file bytes) else none
      | none => none

/-- The workspace of a working directory with the given files, named by their paths in it. -/
def ofFiles (files : List (Text × List UInt8)) : Workspace where
  node? p :=
    let files := files.map fun f => ((Path.ofText f.1).names, f.2)
    if p.isAnchored then
      if p.names.all (· == ['.', '.']) then some .directory else none
    else follow files 0 [] p.names

/-- The workspace of which only these places are known. -/
def ofPlaces (places : List (Path × Option Node)) : Workspace where
  node? p := (places.find? fun q => q.1 == p).bind (·.2)

/-- The files with another one, or with other bytes in one of them. -/
def write (files : List (Text × List UInt8)) (name : Text) (bytes : List UInt8) :
    List (Text × List UInt8) :=
  (name, bytes) :: files.filter fun f => f.1 != name

/-- The files without one of them. -/
def unlink (files : List (Text × List UInt8)) (name : Text) : List (Text × List UInt8) :=
  files.filter fun f => f.1 != name

end Workspace

end Lockstep
