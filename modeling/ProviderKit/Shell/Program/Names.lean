import ProviderKit.Shell.Program.Transfer

/-!
# Programs that show names

Programs that write the names of files and directories, or parts of the texts of paths.
-/

namespace ProviderKit.Shell.Program

/-- Writes the directory. -/
def pwd : Utility := fun arguments => do
  let g ← read "pwd" { letters := "LP", names := [("logical", 'L'), ("physical", 'P')] } arguments
  let s ← get
  let location := if g.has 'L' then s.location else s.path.text
  writeLine location
  pure 0

/-- The text of a path without its last name. -/
def directoryName (t : Text) : Text :=
  let trim (t : Text) : Text := (t.reverse.dropWhile (· = .char '/')).reverse
  let trimmed := trim t
  if !trimmed.contains (.char '/') then
    if trimmed.isEmpty && !t.isEmpty then "/" else "."
  else
    let front := trim (trimmed.reverse.dropWhile (· != .char '/')).reverse
    if front.isEmpty then "/" else front

/-- Writes paths without their last names. -/
def dirname : Utility := fun arguments => do
  let g ← read "dirname" { letters := "z" } arguments
  if g.operands.isEmpty then misuse "dirname" {} "missing operand"
  for t in g.operands do writeLine (directoryName t)
  pure 0

/-- A name without an ending, unless nothing else is left. -/
def withoutSuffix (name ending : Text) : Text :=
  if name.hasSuffix ending && name.length > ending.length then
    name.take (name.length - ending.length)
  else name

/-- Writes the last names of paths. -/
def basename : Utility := fun arguments => do
  let g ← read "basename"
    { letters := "az", valued := "s", strict := true, names := [("suffix", 's'), ("multiple", 'a')] }
    arguments
  let each (names : List Text) (ending : Text) : Action Nat := do
    for t in names do writeLine (withoutSuffix (lastName t) ending)
    pure 0
  match g.value? 's', g.operands with
  | _, [] => misuse "basename" {} "missing operand"
  | some ending, names => each names ending
  | none, [name] => each [name] []
  | none, name :: ending :: others =>
    if g.has 'a' then each g.operands []
    else match others with
      | [] => each [name] ending
      | extra :: _ => misuse "basename" {} ("extra operand " ++ named extra)

/-- The path of what an operand leads to, without links in it. -/
def trueName (mustExist : Bool) (operand : Text) : Action (Except Disk.Fault Text) := do
  let s ← get
  let path := pathOf s operand
  if operand.isEmpty then return .error (missingFault path)
  if mustExist then
    pure ((entryOf s.disk true operand path).map fun (place, _) => Path.text ⟨.single, place⟩)
  else pure ((s.disk.locate true path).map fun place => Path.text ⟨.single, place⟩)

/-- Writes the targets of links. -/
def readlink : Utility := fun arguments => do
  let g ← read "readlink"
    { letters := "femnqsvz"
      names := [("canonicalize", 'f'), ("canonicalize-existing", 'e'), ("canonicalize-missing", 'm'),
        ("no-newline", 'n'), ("quiet", 'q'), ("verbose", 'v')] } arguments
  if g.operands.isEmpty then misuse "readlink" {} "missing operand"
  let mut status := 0
  for operand in g.operands do
    let s ← get
    let found : Except Disk.Fault Text ←
      if g.has 'f' || g.has 'e' || g.has 'm' then trueName (g.has 'e') operand
      else match entryOf s.disk false operand (pathOf s operand) with
        | .ok (_, .link target) => pure (.ok target)
        | .ok _ => pure (.error (.refused .invalid s.path))
        | .error fault => pure (.error fault)
    match found with
    | .ok t => write (if g.has 'n' && g.operands.length = 1 then t else t ++ "\n")
    | .error fault =>
      if g.has 'v' then complain (plainComplaint "readlink" operand fault)
      status := 1
  pure status

/-- Writes paths without links in them. -/
def realpath : Utility := fun arguments => do
  let g ← read "realpath"
    { letters := "emLPqsz"
      names := [("canonicalize-existing", 'e'), ("canonicalize-missing", 'm'), ("quiet", 'q')] }
    arguments
  if g.operands.isEmpty then misuse "realpath" {} "missing operand"
  let mut status := 0
  for operand in g.operands do
    match ← trueName (g.has 'e') operand with
    | .ok t => writeLine t
    | .error fault =>
      if !g.has 'q' then complain (plainComplaint "realpath" operand fault)
      status := 1
  pure status

/-- The mark at the end of a name that tells what it is the name of. -/
def kindMark (g : Given) : Entry → Text
  | .directory => if g.has 'F' || g.has 'p' then "/" else []
  | .file mode _ => if mode.isRunnable && g.has 'F' then "*" else []
  | .link _ => if g.has 'F' then "@" else []

/-- The names in a directory that are to be listed. -/
def listed (g : Given) (disk : Disk) (place : Place) : List Text :=
  let isHidden (name : Text) : Bool := name.head? = some (.char '.')
  let names := disk.names place
  let dots : List Text := [Text.ofString ".", Text.ofString ".."]
  let names : List Text :=
    if g.has 'a' then dots ++ names
    else if g.has 'A' then names
    else names.filter fun name => !isHidden name
  if g.has 'r' then names.reverse else names

/-- Writes the names in a directory, and after them those in the directories in it if asked. -/
def listDirectory (g : Given) : Nat → Bool → Text → Place → Action Unit
  | 0, _, _, _ => pure ()
  | fuel + 1, isHeaded, title, place => do
    let disk := (← get).disk
    let names := listed g disk place
    if isHeaded then writeLine (title ++ ":")
    for name in names do
      let mark := (disk.get? (place ++ [name])).elim [] (kindMark g)
      writeLine (name ++ mark)
    if g.has 'R' then
      for name in names do
        if (disk.get? (place ++ [name])).any Entry.isDirectory then
          write "\n"
          listDirectory g fuel true (entryText title name) (place ++ [name])

/-- Writes the names of files and the names in directories. -/
def ls : Utility := fun arguments => do
  let g ← read "ls"
    { letters := "1ACFHLRSUXacdfghiklmnopqrstuvx", valued := "ITw", status := 2
      names := [("all", 'a'), ("almost-all", 'A'), ("directory", 'd'), ("recursive", 'R'),
        ("reverse", 'r'), ("classify", 'F')] } arguments
  let operands := if g.operands.isEmpty then [Text.ofString "."] else g.operands
  let operands := Disk.inOrder Text.le operands
  let operands := if g.has 'r' then operands.reverse else operands
  let mut status := 0
  let mut files : List (Text × Entry) := []
  let mut directories : List (Text × Place) := []
  for operand in operands do
    let s ← get
    let through := !(g.has 'd' || g.has 'F' || g.has 'l')
    let path := pathOf s operand
    let found : Except Disk.Fault (Place × Entry) := match entryOf s.disk through operand path with
      | .ok found => .ok found
      | .error fault => match s.disk.find false path with
        | .ok (place, .link target) =>
          if endsInSlash operand then .error fault else .ok (place, .link target)
        | _ => .error fault
    match found with
    | .ok (place, entry) =>
      if entry.isDirectory && !g.has 'd' then directories := directories ++ [(operand, place)]
      else files := files ++ [(operand, entry)]
    | .error fault =>
      complain ("ls: cannot access " ++ named operand ++ ": " ++ reasonText fault)
      status := 2
  for (name, entry) in files do writeLine (name ++ kindMark g entry)
  let isHeaded : Bool := operands.length > 1 || g.has 'R'
  let mut isFirst := files.isEmpty
  for (name, place) in directories do
    if !isFirst then write "\n"
    isFirst := false
    listDirectory g ((← get).disk.entries.length + 1) isHeaded name place
  pure status

end ProviderKit.Shell.Program
