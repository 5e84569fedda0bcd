import ProviderKit.Archive.Fault
import ProviderKit.Archive.Header
import ProviderKit.Disk.Basic
import ProviderKit.Archive.Filter
import ProviderKit.Disk.Change

/-!
# Unpacking an archive

An archive is read from its beginning, and what is wrong with it shows only when the place is
reached: the members before the fault are known by then. A file whose data breaks off is known as
far as whole portions of it could be read.

The members are unpacked one after the other, each checked against the disk as it then is, and the
first failure stops the work and leaves what was unpacked before it. Missing directories above a
member are made, a file that is there is overwritten, and a link that is there is replaced. A
second name for a file shares the file. Where the disk refuses a link, what it names in the archive
is unpacked in its place.
-/

namespace ProviderKit.Archive

variable [Interpreter]

/-! ## What an archive holds -/

/-- The members of an archive, and how reading them ends. -/
structure Contents where
  members : List Member := []
  /-- The member in whose data the archive breaks off, with the data as far as it was read. -/
  broken : Option Member := none
  fault : Option Fault := none

namespace Contents

/-- How many bytes of a file are written at a time. -/
def portion : Nat := 16384

/-- The member that a header and its data stand for. -/
def memberOf (h : Header) (data : Bytes) : Member :=
  match Header.kindOf h.kind with
  | .file => .file h.name h.permissions (.bytes data)
  | .sameFile => .sameFile h.name h.linkName
  | .link => .link h.name h.linkName
  | .device => .device h.name
  | .directory => .directory h.name
  | .pipe => .pipe h.name
  | .unknown => .unknown h.name (.bytes data)

/-- The fault that ends the data of a member. -/
def dataFault (e : Compressed.Expanded) : Fault := (e.fault.map Fault.ofData).getD .unreadable

/-- Reads the members from a position on. -/
def readFrom (e : Compressed.Expanded) : Nat → Header.Records → Nat → Contents
  | 0, _, _ => {}
  | fuel + 1, common, position =>
    let first := position = 0
    match Header.read e common position with
    | .error .finished => {}
    | .error .invalid => if first then { fault := some .unreadable } else {}
    | .error .unannounced => { fault := some .unreadable }
    | .error (.stream fault) => { fault := some (.ofHeader first fault) }
    | .error .tooDeep => { fault := some .tooDeep }
    | .ok (h, common) =>
      let size := if h.hasData then h.size.toNat else 0
      let data := (e.bytes.extract h.dataAt (h.dataAt + size)).toList
      if data.length < size then
        { broken := some (memberOf h (data.take (data.length / portion * portion)))
          fault := some (dataFault e) }
      else
        let member := memberOf h data
        if e.bytes.size < h.next then { members := [member], fault := some (dataFault e) }
        else
          let rest := readFrom e fuel common h.next
          { rest with members := member :: rest.members }

/-- The contents of a compressed archive. -/
def ofBytes (bytes : Bytes) : Contents :=
  let e := Compressed.expand bytes
  readFrom e (e.bytes.size / blockSize + 1) [] 0

end Contents

/-- The contents of what a file holds. -/
def contentsOf : Content → Contents
  | .archive members => { members }
  | .bytes data => .ofBytes data

/-! ## Members -/

/-- Why the unpacking of a member ends early. -/
inductive Stop where
  | failure (f : Failure)
  /-- The member is left out. -/
  | leftOut

/-- Work on a disk that can stop early and then leaves what was done. -/
abbrev Unpack (α : Type) := ExceptT Stop (StateM Disk) α

namespace Unpack

/-- Work that fails. -/
def fail {α : Type} (f : Failure) : Unpack α := throw (.failure f)

/-- The outcome of something that can fail. -/
def ofExcept {α : Type} : Except Failure α → Unpack α
  | .ok a => pure a
  | .error f => fail f

/-- A request to the disk. -/
def request (f : Disk → Except Disk.Fault Disk) : Unpack Unit := do
  match f (← get) with
  | .ok disk => set disk
  | .error fault => fail (.disk fault)

end Unpack

/-- The path leads to something; a path that leads nowhere for whatever reason does not. -/
def isThere (disk : Disk) (through : Bool) (path : Path) : Bool :=
  match disk.find through path with
  | .ok _ => true
  | .error _ => false

/-- The path leads to a directory. -/
def isDirectory (disk : Disk) (path : Path) : Bool :=
  match disk.find true path with
  | .ok (_, .directory) => true
  | _ => false

/-- A new directory, or one that is there already. -/
def ensureDirectory (path : Path) : Unpack Unit := do
  match (← get).makeDirectory path with
  | .ok disk => set disk
  | .error fault => if !isDirectory (← get) path then Unpack.fail (.disk fault)

/-- Makes a directory with at most as many missing directories above it as the levels given. One of
those above may be there in some other form; then the last step tells. -/
def makeUpper : Nat → Path → Unpack Unit
  | levels, path => do
    if !path.names.isEmpty && !isThere (← get) true path.parent then
      match levels with
      | 0 => Unpack.fail (.disk .tooDeep)
      | levels + 1 =>
        try makeUpper levels path.parent
        catch stop =>
          match stop with
          | .failure (.disk (.refused .exists _)) => pure ()
          | stop => throw stop
      if path.names.getLast? = some (Text.ofString ".") then return ()
    ensureDirectory path

/-- Makes the directory above a path if it is missing. -/
def makeParent (path : Path) : Unpack Unit := do
  if !isThere (← get) true path.parent then makeUpper Interpreter.unpacking path.parent

/-- Unpacks a directory: it may be there already. -/
def unpackDirectory (path : Path) : Unpack Unit := do
  match (← get).makeDirectory path with
  | .ok disk => set disk
  | .error fault =>
    if fault != .refused .exists path || !isDirectory (← get) path then Unpack.fail (.disk fault)

/-- Unpacks a file, through a link if there is one at its place. -/
def unpackFile (path : Path) (mode : Mode) (content : Content) : Unpack Unit := do
  Unpack.request (·.write path content)
  let place ← Unpack.ofExcept (orFail ((← get).locate true path))
  modify (·.rewrite place (.file mode content))

/-- Unpacks a symbolic link in place of what is there. -/
def unpackLink (path : Path) (target : Text) : Unpack Unit := do
  if isThere (← get) false path then Unpack.request (·.unlink path)
  Unpack.request (·.makeLink target path)

/-- The names of a text without `.` names and with each `..` taking away a name before it, where
there is one; at the root there is nothing above. -/
def normalNames (t : Text) : List Text :=
  let isAbsolute := (Path.ofText t).isAbsolute
  (Path.namesOf t).foldl (fun done name =>
    if name != Text.ofString ".." then done ++ [name]
    else if done.isEmpty then (if isAbsolute then [] else [name])
    else if done.getLast? = some (Text.ofString "..") then done ++ [name]
    else done.dropLast) []

/-- Two names have the same normal form. -/
def sameName (a b : Text) : Bool :=
  Path.rootOf a == Path.rootOf b && normalNames a == normalNames b

/-- The first of some members with a given name, and the members after it. -/
def findNamed (name : Text) : List Member → Option (Member × List Member)
  | [] => none
  | member :: rest =>
    if sameName member.name name then some (member, rest) else findNamed name rest

/-- What a link names in an archive, with the members before it, the nearest first: for a symbolic
link the last member of that name, for a second name the last one before the link. All members have
to be read for that. -/
def named (contents : Contents) (before : List Member) (member : Member) :
    Unpack (Option (Member × List Member)) := do
  if let some fault := contents.fault then Unpack.fail (.archive fault)
  match member with
  | .link name target =>
    let parts := [directoryText name, target].filter fun part => !part.isEmpty
    pure (findNamed (Text.join "/" parts) contents.members.reverse)
  | .sameFile _ target => pure (findNamed target before)
  | _ => pure none

/-- The disk refused a request; other failures lie with the request. -/
def Stop.isRefusal : Stop → Bool
  | failure (.disk (.refused ..)) | failure (.archive .damaged) => true
  | _ => false

/-- Unpacks what a member names in the archive instead of it. -/
def unpackNamed (contents : Contents) (unpack : List Member → Member → Unpack Unit)
    (before : List Member) (member : Member) : Unpack Unit := do
  match ← named contents before member with
  | some (other, before) => unpack before other
  | none => throw .leftOut

/-- Unpacks a link, or what it names instead if the disk refuses the link. -/
def unpackOr (instead body : Unpack Unit) : Unpack Unit :=
  tryCatch body fun stop => if stop.isRefusal then instead else throw stop

/-- Unpacks a member at a path, where `instead` unpacks what the member names. -/
def unpackWith (contents : Contents) (instead : Unpack Unit) (path : Path) (source : Option Path)
    (before : List Member) (member : Member) : Unpack Unit := do
  makeParent path
  match member with
  | .directory _ => unpackDirectory path
  | .file _ mode content => unpackFile path mode content
  | .unknown _ content => unpackFile path .usual content
  | .pipe _ | .device _ =>
    if isThere (← get) false path then Unpack.fail (.disk (.refused .exists path))
  | .link _ target => unpackOr instead (unpackLink path target)
  | .sameFile .. =>
    match source with
    | none => instead
    | some source =>
      if isThere (← get) true source then
        unpackOr instead (Unpack.request (·.makeSecondName source path))
      else if (← named contents before member).isNone then Unpack.fail (.archive .missingFile)
      else instead

/-- Unpacks a member at a path. `before` are the members before it, the nearest first, and `source`
is what a second name is given to, if that is known. At most the given number of members are
unpacked in place of one. -/
def unpackAt (contents : Contents) :
    Nat → Path → Option Path → List Member → Member → Unpack Unit
  | 0, path, source, before, member =>
    let deeper := fun _ _ => Unpack.fail (.disk .tooDeep)
    unpackWith contents (unpackNamed contents deeper before member) path source before member
  | levels + 1, path, source, before, member =>
    let deeper := unpackAt contents levels path none
    unpackWith contents (unpackNamed contents deeper before member) path source before member

/-- What a member that is a second name is given to. -/
def sourceOf (directory : Path) : Member → Option Path
  | .sameFile _ target => some (pathBelow directory target)
  | _ => none

/-- Unpacks a member into a directory if it may be unpacked there. A link that the disk refuses and
that names nothing in the archive is left out. -/
def unpackMember (directory : Path) (contents : Contents) (before : List Member) (member : Member) :
    Unpack Unit := do
  let accepted ← Unpack.ofExcept (accept (← get) directory member)
  let path := pathBelow directory accepted.name
  tryCatch (unpackAt contents Interpreter.replacing path (sourceOf directory accepted) before
    accepted) fun stop =>
      match stop with
      | .leftOut => pure ()
      | stop => throw stop

/-- Unpacks members one after the other; `before` are the members already unpacked, the last one
first. -/
def unpackMembers (directory : Path) (contents : Contents) :
    List Member → List Member → Unpack Unit
  | _, [] => pure ()
  | before, member :: rest => do
    unpackMember directory contents before member
    unpackMembers directory contents (member :: before) rest

/-- Unpacks all that an archive holds up to its fault. -/
def unpackContents (directory : Path) (contents : Contents) : Unpack Unit := do
  unpackMembers directory contents [] contents.members
  if let some member := contents.broken then
    unpackMember directory contents contents.members.reverse member
  if let some fault := contents.fault then Unpack.fail (.archive fault)

/-- Unpacks the archive at a path into a directory. -/
def unpack (disk : Disk) (archive directory : Path) : Except Failure Unit × Disk :=
  match disk.read archive with
  | .error fault => (.error (.disk fault), disk)
  | .ok content =>
    match StateT.run (ExceptT.run (unpackContents directory (contentsOf content))) disk with
    | (.error (.failure f), disk) => (.error f, disk)
    | (.error .leftOut, disk) | (.ok (), disk) => (.ok (), disk)

end ProviderKit.Archive
