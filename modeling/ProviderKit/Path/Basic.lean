import ProviderKit.Text.Basic

/-!
# Paths

A path is a sequence of names with a number of slashes in front. Repeated slashes, `.` names and a
slash at the end say nothing and are dropped when a text is read as a path; `..` stays, since what
it means depends on the links of a disk. Everything here is lexical.
-/

namespace ProviderKit

/-- How a path begins: it is relative, or starts with one slash, or with exactly two. -/
inductive Path.Root where
  | relative
  | single
  | double
deriving DecidableEq, Inhabited

/-- A path: its beginning and its names. -/
structure Path where
  root : Path.Root
  names : List Text
deriving DecidableEq, Inhabited

namespace Path

/-- The slashes of a beginning. -/
def Root.text : Root → Text
  | relative => ""
  | single => "/"
  | double => "//"

/-- The beginning that a text has: three or more slashes count as one. -/
def rootOf : Text → Root
  | .char '/' :: .char '/' :: .char '/' :: _ => .single
  | .char '/' :: .char '/' :: _ => .double
  | .char '/' :: _ => .single
  | _ => .relative

/-- The names between the slashes of a text, without the ones that say nothing. -/
def namesOf (t : Text) : List Text :=
  (Text.split (.char '/') t).filter fun name => !name.isEmpty && name != Text.ofString "."

/-- The path that a text denotes. -/
def ofText (t : Text) : Path := ⟨rootOf t, namesOf t⟩

/-- The path starts at the root of the disk. -/
def isAbsolute (p : Path) : Bool := p.root != .relative

/-- The text of a path; the empty relative path is `.`. -/
def text (p : Path) : Text :=
  match p.root, p.names with
  | .relative, [] => "."
  | root, names => root.text ++ Text.join "/" names

/-- The second path as seen from the first: an absolute one stands for itself. -/
def join (base path : Path) : Path :=
  if path.isAbsolute then path else ⟨base.root, base.names ++ path.names⟩

/-- The path with one name more. -/
def child (base : Path) (name : Text) : Path := ⟨base.root, base.names ++ [name]⟩

/-- The path without its last name; a path without names is its own parent. -/
def parent (p : Path) : Path := ⟨p.root, p.names.dropLast⟩

/-- The last name, empty if there is none. -/
def name (p : Path) : Text := p.names.getLast?.getD []

/-- The last name from its last dot on; a dot that is its first or last character starts no
extension. -/
def extension (p : Path) : Text :=
  let tail := (p.name.reverse.takeWhile (· != .char '.')).reverse
  if tail.isEmpty || tail.length + 1 ≥ p.name.length then [] else .char '.' :: tail

/-- The names from the root on, with each `..` taking away the name before it. -/
def collapse (names : List Text) : List Text :=
  names.foldl (fun done name =>
    if name = Text.ofString ".." then done.dropLast else done ++ [name]) []

/-- The names that lead from a directory to a path below it, or to the directory itself. -/
def below? (p base : Path) : Option (List Text) :=
  if p.root = base.root && base.names.isPrefixOf p.names then
    some (p.names.drop base.names.length)
  else none

/-- The form in which a path is shown to someone who stands in `base`: relative if it lies at or
below `base`, else in full. -/
def shownFrom (p base : Path) : Text :=
  match p.below? base with
  | some names => (⟨.relative, names⟩ : Path).text
  | none => p.text

end Path

end ProviderKit
