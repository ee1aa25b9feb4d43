import Lockstep.Text.Blank

/-!
# Paths

A path is an anchor and the names that lead on from it.  Reading a path drops empty names and
names `.`; a name `..` stays.  Exactly two slashes in front are an anchor of their own.

`Path.join` puts a path behind another one; an anchored path stands for itself.
-/

namespace Lockstep

/-- Where a path starts. -/
inductive Anchor
  /-- At the working directory. -/
  | here
  /-- At the root. -/
  | root
  /-- At the root, written with two slashes. -/
  | doubleRoot
  deriving DecidableEq, Repr

/-- How an anchor is written. -/
def Anchor.text : Anchor → Text
  | .here => []
  | .root => ['/']
  | .doubleRoot => ['/', '/']

/-- An anchor and the names that lead on from it. -/
structure Path where
  anchor : Anchor
  names : List Text
  deriving DecidableEq, Repr

namespace Path

/-- The anchor of a written path. -/
def anchorOf : Text → Anchor
  | '/' :: '/' :: '/' :: _ => .root
  | '/' :: '/' :: _ => .doubleRoot
  | '/' :: _ => .root
  | _ => .here

/-- Whether a name between slashes leads anywhere. -/
def isStep (name : Text) : Bool := !name.isEmpty && name != ['.']

/-- Read a written path. -/
def ofText (s : Text) : Path :=
  ⟨anchorOf s, (Text.splitOn (· == '/') s).filter isStep⟩

/-- The written path; the working directory itself is a dot. -/
def text (p : Path) : Text :=
  if p.anchor == .here && p.names.isEmpty then ['.']
  else p.anchor.text ++ Text.joinWith ['/'] p.names

/-- Whether a path starts at the root. -/
def isAnchored (p : Path) : Bool := p.anchor != .here

/-- A path seen from another one. -/
def join (base p : Path) : Path :=
  if p.isAnchored then p else { base with names := base.names ++ p.names }

/-- The path without its last name. -/
def parent (p : Path) : Path := { p with names := p.names.dropLast }

end Path

end Lockstep
