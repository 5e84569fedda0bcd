import ProviderKit.Archive.Header
import ProviderKit.Run.Basic

/-!
# Packing an archive

An archive holds every entry below a directory once, under the names that lead to it from there. A
directory comes right before what it holds, entries side by side come in code point order, a link is
kept as a link, and a file that has several names is kept under the first of them. Packing ends at
the first entry whose path is too long to ask for it, or that is too many levels below the
directory.
-/

namespace ProviderKit.Archive

/-- The member for an entry at the given names. -/
def memberOf (names : Place) : Entry → Member
  | .directory => .directory (Text.join "/" names)
  | .file mode content => .file (Text.join "/" names) mode content
  | .link target => .link (Text.join "/" names) target

/-- The first of the places before one that share its file. -/
def firstName (disk : Disk) (before : List Place) (place : Place) : Option Place :=
  before.find? fun other => (disk.sharers place).contains other

/-- The members for entries below a place, where `before` are the places of those before them. An
entry that shares its file with one before it becomes a second name for the first of them. -/
def membersFrom (disk : Disk) (place : Place) (before : List Place) :
    List (Place × Entry) → List Member
  | [] => []
  | (names, entry) :: rest =>
    let member := match firstName disk before (place ++ names) with
      | some first => .sameFile (Text.join "/" names) (Text.join "/" (first.drop place.length))
      | none => memberOf names entry
    member :: membersFrom disk place (before ++ [place ++ names]) rest

/-- The members for everything below a place. -/
def membersOf (disk : Disk) (place : Place) : List Member :=
  membersFrom disk place [] (disk.below place)

/-- The path of an entry at the given names below a directory. -/
def entryPath (source : Path) (names : Place) : Path := ⟨source.root, source.names ++ names⟩

/-- The path of an entry is short enough to ask for it. -/
def reaches (source : Path) (names : Place) : Bool :=
  Utf8.losslessSize (entryPath source names).text < Disk.pathLimit

/-- The entry at the given names below a directory can be packed. -/
def isPacked [Interpreter] (source : Path) (names : Place) : Bool :=
  names.length ≤ Interpreter.packing && reaches source names

/-- Why the entry at the given names below a directory cannot be packed. -/
def obstacle [Interpreter] (source : Path) (names : Place) : Disk.Fault :=
  if Interpreter.packing < names.length then .tooDeep
  else .refused .nameTooLong (entryPath source names)

/-- Why the first entry below a place that cannot be packed cannot be, if there is one. -/
def obstacle? [Interpreter] (disk : Disk) (source : Path) (place : Place) : Option Disk.Fault :=
  ((disk.below place).find? fun (names, _) => !isPacked source names).map fun (names, _) =>
    obstacle source names

/-- The members for what comes below a place before the first entry that cannot be packed. -/
def membersWithin [Interpreter] (disk : Disk) (source : Path) (place : Place) : List Member :=
  membersFrom disk place [] ((disk.below place).takeWhile fun (names, _) => isPacked source names)

/-- A name or a target as it reads back: a short one in ASCII ends at its first null character. -/
def storedText (t : Text) : Text :=
  if t.length ≤ 100 && t.all (fun c => c.toNat < 0x80) then t.takeWhile (· != .char '\x00') else t

/-- The name of a file as it reads back: one that does not fit its field loses the slashes at its
end. -/
def storedFileName (t : Text) : Text :=
  if t.length ≤ 100 && t.all (fun c => c.toNat < 0x80) then storedText t
  else Header.withoutEndSlashes t

/-- A member as it reads back from an archive. -/
def stored : Member → Member
  | .directory name => .directory (Header.withoutEndSlashes (storedText name))
  | .file name mode content => .file (storedFileName name) mode content
  | .link name target => .link (storedFileName name) (storedText target)
  | .sameFile name target => .sameFile (storedFileName name) (storedText target)
  | .pipe name => .pipe (storedFileName name)
  | .device name => .device (storedFileName name)
  | .unknown name content => .unknown (storedFileName name) content

/-- Packs a directory into an archive, with the missing directories above it. The archive is opened,
and empty, before the directory is listed, and keeps what was packed when an entry cannot be. -/
def pack [Interpreter] (source archive : Path) : Run Unit := do
  Run.requests fun disk => disk.makeDirectories true archive.parent
  Run.request fun disk => disk.write archive (.bytes [])
  let (place, _) ← Run.look fun disk => orFail (disk.list source)
  let obstacle ← Run.look fun disk => .ok (obstacle? disk source place)
  Run.request fun disk =>
    disk.write archive (.archive ((membersWithin disk source place).map stored))
  match obstacle with
  | none => pure ()
  | some fault => Run.fail (.disk fault)

end ProviderKit.Archive
