import ProviderKit.Shell.Pattern
import ProviderKit.Shell.State

/-!
# Fields

The parts of a word become a sequence of characters with places where the word may be cut. Cutting
it gives fields, and a field with wild characters stands for the names that match it, if there are
any.
-/

namespace ProviderKit.Shell

/-- A piece of an expanded word. -/
inductive Piece where
  | mark (m : Mark)
  /-- There is a field here, even an empty one. -/
  | anchor
  /-- A field that has begun ends here. -/
  | border
  /-- White space at which a value is cut; cuts that meet count as one. -/
  | gap
  /-- Another separator; a field ends here, even an empty one. -/
  | finish

namespace Piece

/-- A text in quotes. -/
def quoted (t : Text) : List Piece := .anchor :: t.map fun c => .mark (c, true)

/-- A text as it stands. -/
def plain (t : Text) : List Piece := t.map fun c => .mark (c, false)

/-- A value that is cut at the given separators. -/
def cutAt (separators : Text) (t : Text) : List Piece :=
  t.map fun c =>
    if separators.contains c then
      if c = .char ' ' || c = .char '\t' || c = .char '\n' then .gap else .finish
    else .mark (c, false)

/-- The pieces with a border between neighbours. -/
def separated : List (List Piece) → List Piece
  | [] => []
  | [pieces] => pieces
  | pieces :: rest => pieces ++ .border :: separated rest

/-- The fields of a sequence of pieces; the current one is given in reverse. If white space has just
`ended` a field, a separator after it belongs to that end. -/
def fieldsFrom : Bool → Option Marked → List Piece → List Marked
  | _, field, [] => (field.map (·.reverse)).toList
  | _, field, .mark m :: rest => fieldsFrom false (some (m :: field.getD [])) rest
  | _, field, .anchor :: rest => fieldsFrom false (some (field.getD [])) rest
  | _, field, .border :: rest => (field.map (·.reverse)).toList ++ fieldsFrom false none rest
  | _, some field, .gap :: rest => field.reverse :: fieldsFrom true none rest
  | ended, none, .gap :: rest => fieldsFrom ended none rest
  | true, none, .finish :: rest => fieldsFrom false none rest
  | _, field, .finish :: rest => (field.getD []).reverse :: fieldsFrom false none rest

/-- The fields of a sequence of pieces. -/
def fields (pieces : List Piece) : List Marked := fieldsFrom false none pieces

/-- All the characters of a sequence of pieces, as one field. -/
def marked (pieces : List Piece) : Marked :=
  pieces.filterMap fun
    | .mark m => some m
    | .border | .gap | .finish => some (.char ' ', true)
    | .anchor => none

end Piece

/-- The characters up to the next slash, and those after it if there is one. -/
def cutSlash : Marked → Marked × Option Marked
  | [] => ([], none)
  | m :: rest =>
    if m.1 = .char '/' then ([], some rest)
    else
      let (before, after) := cutSlash rest
      (m :: before, after)

/-- The names in a directory that match a pattern. Names that start with a dot are matched only by a
pattern that does. -/
def matchingNames (disk : Disk) (directory : Path) (pattern : Marked) : List Text :=
  match disk.list directory with
  | .error _ => []
  | .ok (_, names) => names.filter fun name =>
    pattern.matches name &&
      (name.head? != some (.char '.') || pattern.head?.map (·.1) = some (.char '.'))

/-- The texts of the paths that match a pattern, seen from a directory; `done` is what is matched
already. -/
def matchingPaths (disk : Disk) : Nat → Path → Text → Marked → List Text
  | 0, _, _, _ => []
  | fuel + 1, directory, done, pattern =>
    let (first, rest?) := cutSlash pattern
    let here (name : Text) : List Text :=
      match rest? with
      | none => [done ++ name]
      | some rest =>
        if name.isEmpty then
          let directory := if done.isEmpty then ⟨.single, []⟩ else directory
          matchingPaths disk fuel directory (done ++ "/") rest
        else matchingPaths disk fuel (directory.child name) (done ++ name ++ "/") rest
    if first.any Marked.isWild then (matchingNames disk directory first).flatMap here
    else match rest? with
      | none =>
        match disk.find false (directory.join (.ofText first.text)) with
        | .ok _ => [done ++ first.text]
        | .error _ => if first.isEmpty then [done] else []
      | some _ => here first.text

/-- The texts that a field stands for. -/
def fieldTexts (disk : Disk) (directory : Path) (field : Marked) : List Text :=
  if field.any Marked.isWild then
    match matchingPaths disk (field.length + 1) directory [] field with
    | [] => [field.text]
    | texts => texts
  else [field.text]

end ProviderKit.Shell
