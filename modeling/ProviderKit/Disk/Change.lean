import ProviderKit.Disk.Walk
import ProviderKit.Interpreter

/-!
# Requests that change a disk

A request that is refused leaves the disk as it was. The requests made of several steps,
`makeDirectories` and `removeTree`, give back the disk as far as they came together with their
outcome.
-/

namespace ProviderKit.Disk

variable [Interpreter]

/-- A new directory at a free place. -/
def makeDirectory (disk : Disk) (path : Path) : Except Fault Disk := do
  let place ← disk.locate false path
  match disk.get? place with
  | some _ => .error (.refused .exists path)
  | none => pure (disk.put place .directory)

/-- The outcome of a directory request at a path that is taken: fine if a directory may be there
and is. -/
def settleTaken (disk : Disk) (mayExist : Bool) (path : Path) (fault : Fault) : Except Fault Unit :=
  if !mayExist then .error fault
  else match disk.isDirectory? path with
    | .ok true => .ok ()
    | .ok false => .error fault
    | .error other => .error other

/-- A directory at a path with at most as many missing directories above it as the levels given. -/
def makeDirectoriesWith (levels : Nat) (disk : Disk) (mayExist : Bool) (path : Path) :
    Except Fault Unit × Disk :=
  match disk.makeDirectory path with
  | .ok disk => (.ok (), disk)
  | .error fault =>
    if fault = .refused .missing path then
      match levels with
      | 0 => (.error .tooDeep, disk)
      | levels + 1 =>
        match makeDirectoriesWith levels disk true path.parent with
        | (.error fault, disk) => (.error fault, disk)
        | (.ok (), disk) =>
          match disk.makeDirectory path with
          | .ok disk => (.ok (), disk)
          | .error fault =>
            if fault.isPathText || fault = .refused .missing path then (.error fault, disk)
            else (settleTaken disk mayExist path fault, disk)
    else if fault.isPathText then (.error fault, disk)
    else (settleTaken disk mayExist path fault, disk)

/-- A directory at a path, with the missing directories above it. -/
def makeDirectories (disk : Disk) (mayExist : Bool) (path : Path) : Except Fault Unit × Disk :=
  makeDirectoriesWith Interpreter.making disk mayExist path

/-- The path leads, through at most the given number of links, to a link whose target ends with a
slash. -/
def leadsToSlash (disk : Disk) : Nat → Path → Bool
  | 0, _ => false
  | links + 1, path =>
    match disk.find false path with
    | .ok (place, .link target) =>
      let next := (⟨.single, place.dropLast⟩ : Path).join (.ofText target)
      if target.getLast? = some (.char '/') then
        match disk.locate false next with
        | .ok _ => true
        | .error _ => false
      else disk.leadsToSlash links next
    | _ => false

/-- A file at a path, made or overwritten. A link is followed, and a file that is overwritten keeps
its permissions and the places that share it. A slash at the end of a link's target asks for a
directory. -/
def write (disk : Disk) (path : Path) (content : Content) : Except Fault Disk := do
  if disk.leadsToSlash linkLimit path then throw (.refused .isDirectory path)
  let place ← disk.locate true path
  match disk.get? place with
  | some .directory => .error (.refused .isDirectory path)
  | some (.file mode _) => pure (disk.rewrite place (.file mode content))
  | some (.link _) => .error (.refused .tooManyLinks path)
  | none => pure (disk.put place (.file .usual content))

/-- The content of the first path, written at the second. -/
def copy (disk : Disk) (source target : Path) : Except Fault Disk := do
  if let (.ok (p, _), .ok (q, _)) := (disk.find true source, disk.find true target) then
    if p = q || (disk.sharers p).contains q then throw .sameFile
  let content ← disk.read source
  disk.write target content

/-- The last name of a path is one or two dots. -/
def endsInDots (path : Path) : Bool :=
  path.names.getLast? = some (Text.ofString ".") || path.names.getLast? = some (Text.ofString "..")

/-- A file is moved over a file, over a link, or to a free place, without following a link at the
end of either path. A directory that is named by dots is in use. Where both places share a file
nothing changes. -/
def moveFile (disk : Disk) (source target : Path) : Except Fault Disk := do
  let (origin, _) ← disk.find false source
  let place ← disk.locate false target
  if target.names.isEmpty || endsInDots target then throw (.refused .busy source)
  match disk.get? place with
  | some .directory => .error (.refused .isDirectory source)
  | _ =>
    if (disk.sharers origin).contains place then pure disk
    else pure ((disk.erase place).move origin place)

/-- A file or a link is removed. -/
def unlink (disk : Disk) (path : Path) : Except Fault Disk := do
  let (place, entry) ← disk.find false path
  match entry with
  | .directory => .error (.refused .isDirectory path)
  | _ => pure (disk.erase place)

/-- A link with the given target at a free place. -/
def makeLink (disk : Disk) (target : Text) (path : Path) : Except Fault Disk := do
  if !isEncodable target then throw .unencodable
  if hasNull target then throw .nullCharacter
  if target.isEmpty then throw (.refused .missing path)
  if Utf8.losslessSize target ≥ pathLimit then throw (.refused .nameTooLong path)
  let place ← disk.locate false path
  match disk.get? place with
  | some _ => .error (.refused .exists path)
  | none => pure (disk.put place (.link (Utf8.canonical target)))

/-- A second name for the entry that a path leads to, at a free place. A link is not followed, and
a directory has only one name. -/
def makeSecondName (disk : Disk) (source path : Path) : Except Fault Disk := do
  let (origin, entry) ← disk.find false source
  let place ← disk.locate false path
  match disk.get? place, entry with
  | some _, _ => .error (.refused .exists source)
  | none, .directory => .error (.refused .notPermitted source)
  | none, .link _ => pure (disk.put place entry)
  | none, .file .. => pure (disk.share origin place entry)

/-- An empty directory is removed. -/
def removeDirectory (disk : Disk) (path : Path) : Except Fault Disk := do
  let (place, entry) ← disk.find false path
  if !entry.isDirectory then throw (.refused .notDirectory path)
  if path.names.getLast? = some (Text.ofString "..") then throw (.refused .notEmpty path)
  if !(disk.names place).isEmpty then throw (.refused .notEmpty path)
  pure (disk.erase place)

/-- The first entry below a place that is more levels below it than given, if there is one. -/
def deeper? (disk : Disk) (levels : Nat) (place : Place) : Option Place :=
  ((disk.below place).find? fun (names, _) => levels < names.length).map fun (names, _) =>
    place ++ names

/-- A directory is removed with everything below it. Links below it are removed and not followed.
The directory itself goes last, under the path that was given. An entry that is too many levels
below the directory ends the work, after what comes before it has been removed. -/
def removeTree (disk : Disk) (path : Path) : Except Fault Unit × Disk :=
  match disk.find false path with
  | .error fault => (.error fault, disk)
  | .ok (_, .file ..) => (.error (.refused .notDirectory path), disk)
  | .ok (_, .link _) =>
    match disk.find true path with
    | .error fault => (.error fault, disk)
    | .ok _ => (.error .linkInsteadOfTree, disk)
  | .ok (place, .directory) =>
    match disk.deeper? Interpreter.removing place with
    | some entry => (.error .tooDeep, disk.eraseUpTo place entry)
    | none =>
      let emptied := disk.eraseBelow place
      match emptied.removeDirectory path with
      | .ok disk => (.ok (), disk)
      | .error fault => (.error fault, emptied)

/-- The names directly in the directory that a path leads to. -/
def list (disk : Disk) (path : Path) : Except Fault (Place × List Text) := do
  let (place, entry) ← disk.find true path
  if entry.isDirectory then pure (place, disk.names place)
  else .error (.refused .notDirectory path)

end ProviderKit.Disk
