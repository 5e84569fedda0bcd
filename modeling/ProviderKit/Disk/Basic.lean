import ProviderKit.Path.Basic

/-!
# Disks

A disk holds entries at places. A place is the list of names that leads from the root down to an
entry, and an entry is a directory, a file or a symbolic link. The root is always a directory.

A disk is seen through `Disk.get?`; `put`, `erase` and `eraseTree` change one place or one subtree
and leave the rest of the view alone. Places can share a file: what `rewrite` writes at one of them
is seen at all of them, until an entry is put in place of one or one is erased.
-/

namespace ProviderKit

/-- The names that lead from the root to an entry. -/
abbrev Place := List Text

/-- The permissions of a file, by the bits that the system keeps them in. -/
structure Mode where
  bits : Nat
deriving DecidableEq

namespace Mode

/-- The permissions of a new file: everyone may read it, and its owner may write it. -/
def usual : Mode := ⟨0o644⟩

/-- The permissions of a new file that everyone may run. -/
def runnable : Mode := ⟨0o755⟩

/-- The permissions of a temporary file: only its owner may read and write it. -/
def secret : Mode := ⟨0o600⟩

/-- The owner may run the file. -/
def isRunnable (mode : Mode) : Bool := mode.bits.testBit 6

/-- The permissions that a file from an archive gets: its owner may read and write it, nobody else
may write it, and nobody may run it unless its owner may. -/
def unpacked (mode : Mode) : Mode :=
  ⟨(mode.bits &&& if mode.isRunnable then 0o755 else 0o644) ||| 0o600⟩

end Mode

mutual

/-- What a file holds: bytes, or a compressed archive, of which only the members matter. -/
inductive Content where
  | bytes (data : Bytes)
  | archive (members : List Member)

/-- One member of an archive, with the name it is stored under. -/
inductive Member where
  | directory (name : Text)
  | file (name : Text) (mode : Mode) (content : Content)
  | link (name : Text) (target : Text)
  /-- A second name for a file that the archive holds under another name. -/
  | sameFile (name : Text) (target : Text)
  /-- A named pipe. -/
  | pipe (name : Text)
  /-- A device. -/
  | device (name : Text)
  /-- A member of a kind that is not known, and the bytes that come with it. -/
  | unknown (name : Text) (content : Content)

end

instance : Inhabited Content := ⟨.bytes []⟩

namespace Content

/-- The bytes of a file. Of an archive only the beginning is known, which no text starts with. -/
def data : Content → Bytes
  | bytes data => data
  | archive _ => [0x1F, 0x8B]

/-- The content of a text file. -/
def ofChars (cs : List Char) : Content := .bytes (cs.flatMap String.utf8EncodeChar)

end Content

namespace Member

/-- The name that a member is stored under. -/
def name : Member → Text
  | directory name | file name .. | link name _ | sameFile name _ | pipe name | device name
  | unknown name _ => name

end Member

/-- An entry of a disk. -/
inductive Entry where
  | directory
  | file (mode : Mode) (content : Content)
  | link (target : Text)

instance : Inhabited Entry := ⟨.directory⟩

namespace Entry

/-- The entry is a directory. -/
def isDirectory : Entry → Bool
  | directory => true
  | _ => false

/-- The entry is a file. -/
def isFile : Entry → Bool
  | file .. => true
  | _ => false

/-- The entry is a symbolic link. -/
def isLink : Entry → Bool
  | link _ => true
  | _ => false

end Entry

/-- A disk: its entries, each at its place. The root has no entry of its own. -/
structure Disk where
  entries : List (Place × Entry)
  /-- The groups of places that share a file. -/
  shared : List (List Place) := []
deriving Inhabited

namespace Disk

/-- The first entry listed for a place. -/
def find? (place : Place) : List (Place × Entry) → Option Entry
  | [] => none
  | (p, entry) :: rest => if p = place then some entry else find? place rest

/-- The entry at a place, if there is one. -/
def get? (disk : Disk) (place : Place) : Option Entry :=
  if place = [] then some .directory else find? place disk.entries

/-- The entries with a new one at a place. -/
def setEntry (place : Place) (entry : Entry) : List (Place × Entry) → List (Place × Entry)
  | [] => [(place, entry)]
  | (p, e) :: rest =>
    if p = place then (p, entry) :: rest else (p, e) :: setEntry place entry rest

/-- The places with which a place shares its file; it always shares with itself. -/
def sharers (disk : Disk) (place : Place) : List Place :=
  (disk.shared.find? (·.contains place)).getD [place]

/-- The disk with the entries at the places that have a property; the other places share no longer
with one that has not. -/
def keep (disk : Disk) (stays : Place → Bool) : Disk :=
  ⟨disk.entries.filter fun (p, _) => stays p, disk.shared.map (·.filter stays)⟩

/-- The disk with a new entry at a place, which shares with no other. -/
def put (disk : Disk) (place : Place) (entry : Entry) : Disk :=
  ⟨setEntry place entry disk.entries, disk.shared.map (·.filter (· != place))⟩

/-- The disk with the file at a place changed, and so at every place that shares it. -/
def rewrite (disk : Disk) (place : Place) (entry : Entry) : Disk :=
  ⟨(disk.sharers place).foldl (fun entries p => setEntry p entry entries) disk.entries,
    disk.shared⟩

/-- The disk with the file at a place shared with a second, free place. -/
def share (disk : Disk) (place second : Place) (entry : Entry) : Disk :=
  ⟨setEntry second entry disk.entries,
    (disk.sharers place ++ [second]) :: disk.shared.filter (!·.contains place)⟩

/-- The disk without the entry at a place. -/
def erase (disk : Disk) (place : Place) : Disk := disk.keep (· != place)

/-- The disk without the entry at a place and everything below it. -/
def eraseTree (disk : Disk) (place : Place) : Disk := disk.keep fun p => !place.isPrefixOf p

/-- The disk without anything below a place. -/
def eraseBelow (disk : Disk) (place : Place) : Disk :=
  disk.keep fun p => !place.isPrefixOf p || p == place

/-- The disk with everything at and below a place moved to a second place, where nothing is. -/
def move (disk : Disk) (place second : Place) : Disk :=
  let moved (p : Place) : Place :=
    if place.isPrefixOf p then second ++ p.drop place.length else p
  ⟨disk.entries.map fun (p, entry) => (moved p, entry), disk.shared.map (·.map moved)⟩

/-- The order of places: the first differing name decides, and a directory comes before what lies
below it. -/
def placeLe : Place → Place → Bool
  | [], _ => true
  | _ :: _, [] => false
  | a :: p, b :: q => if a = b then placeLe p q else Text.le a b

/-- The disk without what comes below a place before an entry. The directories that lead to the
entry stay. -/
def eraseUpTo (disk : Disk) (place entry : Place) : Disk :=
  disk.keep fun p => !place.isPrefixOf p || p.isPrefixOf entry || !placeLe p entry

/-- A list in order with one more item, which goes before the first one that does not come before
it. -/
def insertInOrder {α : Type} (le : α → α → Bool) (item : α) : List α → List α
  | [] => [item]
  | other :: rest =>
    if le item other then item :: other :: rest else other :: insertInOrder le item rest

/-- The items of a list in order. -/
def inOrder {α : Type} (le : α → α → Bool) (items : List α) : List α :=
  items.foldr (insertInOrder le) []

/-- Everything below a place, each entry by the names that lead to it from there, in the order of
places. -/
def below (disk : Disk) (place : Place) : List (Place × Entry) :=
  inOrder (fun a b => placeLe a.1 b.1) (disk.entries.filterMap fun (p, entry) =>
    if place.isPrefixOf p && p != place then some (p.drop place.length, entry) else none)

/-- The names of the entries directly below a place, in code point order. -/
def names (disk : Disk) (place : Place) : List Text :=
  inOrder Text.le (disk.entries.filterMap fun (p, _) =>
    if place.isPrefixOf p && p.length = place.length + 1 then p.getLast? else none)

end Disk

end ProviderKit
