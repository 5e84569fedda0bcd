import ProviderKit.Disk.Basic
import ProviderKit.Disk.Fault
import ProviderKit.Text.Lossless

/-!
# From paths to places

A path is followed name by name from the root. `..` leads to the directory above, and a symbolic
link is replaced by its target; the link at the very end only if the request asks for it. The walk
ends at the place of an entry, or at a free place in a directory. At most forty links are followed
on the way.
-/

namespace ProviderKit.Disk

/-- The most bytes that a name may have. -/
def nameLimit : Nat := 255

/-- The bytes that a path's text must stay below. -/
def pathLimit : Nat := 4096

/-- The most links that one walk follows. -/
def linkLimit : Nat := 40

/-- The names that a link's target adds to a walk; a slash at its end asks for a directory. -/
def targetNames (target : Text) : List Text :=
  let names := Path.namesOf target
  if target.getLast? = some (.char '/') && !names.isEmpty then names ++ [Text.ofString "."]
  else names

/-- Where a link's target starts: at the root, or in the directory that holds the link. -/
def targetStart (here : Place) (target : Text) : Place :=
  if (Path.ofText target).isAbsolute then [] else here

/-- Follows names from a place. `expand` continues the walk behind a link. -/
def followNames (disk : Disk) (through : Bool) (expand : Place → List Text → Except Reason Place) :
    Place → List Text → Except Reason Place
  | here, [] => .ok here
  | here, name :: rest =>
    match disk.get? here with
    | none => .error .missing
    | some (.file ..) | some (.link _) => .error .notDirectory
    | some .directory =>
      if name = Text.ofString "." then followNames disk through expand here rest
      else if name = Text.ofString ".." then followNames disk through expand here.dropLast rest
      else if Utf8.losslessSize name > nameLimit then .error .nameTooLong
      else match disk.get? (here ++ [name]) with
        | none => if rest.isEmpty then .ok (here ++ [name]) else .error .missing
        | some (.link target) =>
          if rest.isEmpty && !through then .ok (here ++ [name])
          else expand (targetStart here target) (targetNames target ++ rest)
        | some _ => followNames disk through expand (here ++ [name]) rest

/-- Follows names from a place through at most the given number of links. -/
def walk (disk : Disk) (through : Bool) : Nat → Place → List Text → Except Reason Place
  | 0 => followNames disk through fun _ _ => .error .tooManyLinks
  | links + 1 => followNames disk through (walk disk through links)

/-- The place that a path leads to. A relative path is taken from the root. -/
def locate (disk : Disk) (through : Bool) (path : Path) : Except Fault Place :=
  if !isEncodable path.text then .error .unencodable
  else if hasNull path.text then .error .nullCharacter
  else if Utf8.losslessSize path.text ≥ pathLimit then .error (.refused .nameTooLong path)
  else match walk disk through linkLimit [] (path.names.map Utf8.canonical) with
    | .ok place => .ok place
    | .error reason => .error (.refused reason path)

/-- The place and the entry that a path leads to. -/
def find (disk : Disk) (through : Bool) (path : Path) : Except Fault (Place × Entry) := do
  let place ← disk.locate through path
  match disk.get? place with
  | some entry => pure (place, entry)
  | none => .error (.refused .missing path)

/-- Whether what a path leads to has a property; nothing there has none. A path whose walk is
refused for another reason is a fault. -/
def test (disk : Disk) (path : Path) (property : Entry → Bool) : Except Fault Bool :=
  match disk.find true path with
  | .ok (_, entry) => .ok (property entry)
  | .error fault => if fault.isAbsence then .ok false else .error fault

/-- The path leads to something. -/
def exists? (disk : Disk) (path : Path) : Except Fault Bool := disk.test path fun _ => true

/-- The path leads to a file. -/
def isFile? (disk : Disk) (path : Path) : Except Fault Bool := disk.test path Entry.isFile

/-- The path leads to a directory. -/
def isDirectory? (disk : Disk) (path : Path) : Except Fault Bool :=
  disk.test path Entry.isDirectory

/-- The content of the file that a path leads to. -/
def read (disk : Disk) (path : Path) : Except Fault Content := do
  match ← disk.find true path with
  | (_, .file _ content) => pure content
  | (_, .directory) => .error (.refused .isDirectory path)
  | (_, .link _) => .error (.refused .tooManyLinks path)

end ProviderKit.Disk
