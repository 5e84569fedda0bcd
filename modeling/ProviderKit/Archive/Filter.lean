import ProviderKit.Archive.Fault
import ProviderKit.Disk.Real
import ProviderKit.Failure

/-!
# Which members may be unpacked

Before a member is unpacked its name and, for a link, its target are checked against the directory
that it goes into, as the disk is at that moment. Slashes in front of a name are dropped. The real
path of the name must lie in the directory, and so must the real path of a link's target, which
must not be absolute. Targets are kept as they are written.
-/

namespace ProviderKit.Archive

variable [Interpreter]

/-- The names in a member's name; `.` and `..` are kept. -/
def memberNames (name : Text) : List Text :=
  (Text.split (.char '/') name).filter fun name => !name.isEmpty

/-- The path of a member's name below a directory. -/
def pathBelow (directory : Path) (name : Text) : Path :=
  ⟨directory.root, directory.names ++ memberNames name⟩

/-- A member's name without slashes in front. -/
def storedName (member : Member) : Text := member.name.dropWhile (· = .char '/')

/-- The text up to the last slash, without slashes at its end unless there is nothing else. -/
def directoryText (name : Text) : Text :=
  let upTo := (name.reverse.dropWhile (· != .char '/')).reverse
  let stem := (upTo.reverse.dropWhile (· = .char '/')).reverse
  if stem.isEmpty then upTo else stem

/-- The real path of names below a directory lies in the directory, whose real path is given. -/
def liesIn (disk : Disk) (real : Path) (names : List Text) : Except Failure Bool := do
  let target ← orFail (disk.realPath ⟨real.root, real.names ++ names⟩)
  pure (real.names.isPrefixOf target.names)

/-- Checks the target of a link that is taken from the names given below a directory. -/
def checkTarget (disk : Disk) (real : Path) (base : List Text) (target : Text) :
    Except Failure Unit := do
  if (Path.ofText target).isAbsolute then throw (.archive .absoluteLink)
  if !(← liesIn disk real (base ++ Disk.writtenNames target)) then throw (.archive .linkOutside)

/-- Checks a member against a directory on a disk, and gives it in the form in which it is
unpacked. -/
def accept (disk : Disk) (directory : Path) (member : Member) : Except Failure Member := do
  let real ← orFail (disk.realPath directory)
  let name := storedName member
  if !(← liesIn disk real (Disk.writtenNames name)) then throw (.archive .outside)
  match member with
  | .directory _ => pure (.directory name)
  | .file _ mode content => pure (.file name mode.unpacked content)
  | .pipe _ | .device _ | .unknown .. => throw (.archive .special)
  | .link _ target =>
    checkTarget disk real (Disk.writtenNames (directoryText name)) target
    pure (.link name target)
  | .sameFile _ target =>
    checkTarget disk real [] target
    pure (.sameFile name target)

end ProviderKit.Archive
