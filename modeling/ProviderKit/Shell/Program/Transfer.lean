import ProviderKit.Process.Lookup
import ProviderKit.Shell.Program.Files

/-!
# Programs that copy, move and link

Programs that take sources to a target. Where the target is a directory, a source goes into it by
its own last name.
-/

namespace ProviderKit.Shell.Program

/-- What a program is to take, and where to. -/
structure Errand where
  sources : List Text
  target : Text
  /-- Sources go into the target by their own names. -/
  isInto : Bool

/-- Where the errand takes a source. -/
def Errand.goal (errand : Errand) (source : Text) : Text :=
  let name := lastName source
  if !errand.isInto || name = Text.ofString ".." then errand.target
  else entryText errand.target name

/-- The errand of a program that is given sources and, as the last operand or as an option, a
target. -/
def readErrand (name : String) (g : Given) : Action Errand := do
  let isDirectory (target : Text) : Action (Except Disk.Fault Bool) := do
    let s ← get
    if target.isEmpty then return .error (missingFault s.path)
    pure ((s.disk.find true (pathOf s target)).map fun (_, entry) => entry.isDirectory)
  let refuse (target : Text) (fault : Disk.Fault) : Action Errand :=
    stop 1 (Text.ofString name ++ ": target " ++ named target ++ ": " ++ reasonText fault)
  match g.value? 't', g.operands with
  | _, [] => misuse name {} "missing file operand"
  | some target, sources =>
    match ← isDirectory target with
    | .ok true => pure { sources, target, isInto := true }
    | .ok false => refuse target (.refused .notDirectory default)
    | .error fault => refuse target fault
  | none, [only] =>
    if name = "ln" && !g.has 'T' then pure { sources := [only], target := ".", isInto := true }
    else misuse name {} ("missing destination file operand after " ++ named only)
  | none, operands =>
    let target := (operands.getLast?).getD []
    let sources := operands.dropLast
    let isLink : Bool := match (← get).disk.find false (pathOf (← get) target) with
      | .ok (_, entry) => entry.isLink
      | .error _ => false
    if sources.length = 1 && (g.has 'T' || (g.has 'n' && name = "ln" && isLink)) then
      return { sources, target, isInto := false }
    match ← isDirectory target, sources with
    | .ok true, _ => pure { sources, target, isInto := true }
    | _, [_] => pure { sources, target, isInto := false }
    | .ok false, _ => refuse target (.refused .notDirectory default)
    | .error fault, _ => refuse target fault

/-- Does something for each source and its goal; what fails makes the status one. -/
def Errand.run (errand : Errand) (action : Text → Text → Action Bool) : Action Nat := do
  let mut status := 0
  for source in errand.sources do
    if !(← action source (errand.goal source)) then status := 1
  pure status

/-- Complains, and has failed. -/
def failed (complaint : Text) : Action Bool := do
  complain complaint
  pure false

/-- Tells, if asked, where something goes. -/
def tellMove (isAsked : Bool) (before source target : Text) : Action Bool := do
  if isAsked then writeLine (before ++ named source ++ " -> " ++ named target)
  pure true

/-- The disk is what a request makes of it, or the request is complained about. -/
def request (complaint : Text) (outcome : Except Disk.Fault Disk) : Action Bool := do
  match outcome with
  | .ok disk =>
    modify fun s => { s with disk }
    pure true
  | .error fault => failed (complaint ++ ": " ++ reasonText fault)

/-- Copies a file over what a target leads to. -/
def copyFile (source target : Text) (origin : Place) (mode : Mode) (content : Content) :
    Action Bool := do
  let s ← get
  let path := pathOf s target
  match s.disk.find false path, s.disk.find true path with
  | _, .ok (_, .directory) =>
    failed ("cp: cannot overwrite directory " ++ named target ++ " with non-directory")
  | _, .ok (place, .file old _) =>
    if place = origin || (s.disk.sharers origin).contains place then
      failed ("cp: " ++ named source ++ " and " ++ named target ++ " are the same file")
    else
      set { s with disk := s.disk.rewrite place (.file old content) }
      pure true
  | .ok (_, .link _), _ =>
    failed ("cp: not writing through dangling symlink " ++ named target)
  | _, _ =>
    let complaint := "cp: cannot create regular file " ++ named target
    if endsInSlash target then request complaint (.error (.refused .notDirectory path))
    else request complaint do
      let place ← s.disk.locate false path
      pure (s.disk.put place (.file mode content))

/-- Copies what a source leads to: directories with everything in them if `recursive` says so, and
links as links unless `through` follows them. The goal of the whole errand, at `goal`, is not copied
into itself. -/
def copyTree (recursive through : Bool) (goal : Text × Text × Option Place) :
    Nat → Text → Text → Action Bool
  | 0, _, _ => pure true
  | fuel + 1, source, target => do
    let s ← get
    let path := pathOf s target
    match entryOf s.disk through source (pathOf s source) with
    | .error fault => failed ("cp: cannot stat " ++ named source ++ ": " ++ reasonText fault)
    | .ok (origin, .file mode content) => copyFile source target origin mode content
    | .ok (_, .link text) =>
      match s.disk.find false path with
      | .ok (_, .directory) =>
        failed ("cp: cannot overwrite directory " ++ named target ++ " with non-directory")
      | .ok (place, _) =>
        set { s with disk := s.disk.put place (.link text) }
        pure true
      | .error _ =>
        request ("cp: cannot create symbolic link " ++ named target) (s.disk.makeLink text path)
    | .ok (origin, .directory) =>
      if !recursive then
        return ← failed ("cp: -r not specified; omitting directory " ++ named source)
      if goal.2.2 = some origin then
        return ← failed ("cp: cannot copy a directory, " ++ named goal.1 ++ ", into itself, " ++
          named goal.2.1)
      let isMade ← match s.disk.find true path with
        | .ok (_, .directory) => pure true
        | .ok _ =>
          failed ("cp: cannot overwrite non-directory " ++ named target ++ " with directory " ++
            named source)
        | .error _ =>
          request ("cp: cannot create directory " ++ named target) (s.disk.makeDirectory path)
      if !isMade then return false
      let place? := ((← get).disk.find true path).toOption.map (·.1)
      let goal := (goal.1, goal.2.1, goal.2.2.or place?)
      let mut succeeded := true
      for name in (← get).disk.names origin do
        if !(← copyTree recursive through goal fuel (entryText source name)
            (entryText target name)) then
          succeeded := false
      pure succeeded

/-- Copies files and directories. -/
def cp : Utility := fun arguments => do
  let g ← read "cp"
    { letters := "abdfiHlLnPpRrsTuvx", valued := "St"
      names := [("recursive", 'r'), ("archive", 'a'), ("force", 'f'), ("no-clobber", 'n'),
        ("verbose", 'v'), ("dereference", 'L'), ("no-dereference", 'P'), ("target-directory", 't'),
        ("no-target-directory", 'T'), ("preserve", 'p')] } arguments
  let errand ← readErrand "cp" g
  let recursive := g.has 'r' || g.has 'R' || g.has 'a'
  let through := g.has 'L' || !(recursive || g.has 'P' || g.has 'd')
  errand.run fun source target => do
    let s ← get
    if g.has 'n' && (s.disk.find false (pathOf s target)).toOption.isSome then return true
    let _ ← tellMove (g.has 'v') [] source target
    copyTree recursive (through || endsInSlash source) (source, target, none)
      (s.disk.entries.length + 2) source target

/-- Moves an entry. -/
def moveEntry (isQuiet isTold : Bool) (source target : Text) : Action Bool := do
  let s ← get
  let path := pathOf s target
  let complaint := "mv: cannot move " ++ named source ++ " to " ++ named target
  match entryOf s.disk false source (pathOf s source), s.disk.locate false path with
  | .error fault, _ => failed ("mv: cannot stat " ++ named source ++ ": " ++ reasonText fault)
  | .ok _, .error fault => request complaint (.error fault)
  | .ok (origin, entry), .ok place =>
    let there := s.disk.get? place
    let isDirectory := (there.map Entry.isDirectory).getD false
    if isQuiet && there.isSome then return true
    if (s.disk.sharers origin).contains place then
      return ← failed ("mv: " ++ named source ++ " and " ++ named target ++ " are the same file")
    if isDots (lastName source) then
      return ← request complaint (.error (.refused .busy path))
    if entry.isDirectory && origin.isPrefixOf place then
      return ← failed ("mv: cannot move " ++ named source ++ " to a subdirectory of itself, " ++
        named target)
    if entry.isDirectory && there.isSome && !isDirectory then
      return ← failed ("mv: cannot overwrite non-directory " ++ named target ++
        " with directory " ++ named source)
    if !entry.isDirectory && isDirectory then
      return ← failed ("mv: cannot overwrite directory " ++ named target ++
        " with non-directory")
    if !entry.isDirectory && endsInSlash target then
      return ← request complaint (.error (.refused .notDirectory path))
    if isDirectory && !(s.disk.names place).isEmpty then
      return ← request complaint (.error (.refused .notEmpty path))
    set { s with
      disk := (s.disk.erase place).move origin place
      channels := s.channels.map (Channel.afterMove origin place) }
    tellMove isTold "renamed " source target

/-- Moves files and directories. -/
def mv : Utility := fun arguments => do
  let g ← read "mv"
    { letters := "bfinuvT", valued := "St"
      names := [("force", 'f'), ("no-clobber", 'n'), ("verbose", 'v'), ("target-directory", 't'),
        ("no-target-directory", 'T')] } arguments
  let errand ← readErrand "mv" g
  errand.run (moveEntry (g.has 'n') (g.has 'v'))

/-- Makes a link. -/
def linkEntry (isSymbolic isForced : Bool) (source target : Text) : Action Bool := do
  let s ← get
  let path := pathOf s target
  if !isSymbolic then
    match entryOf s.disk false source (pathOf s source) with
    | .error fault =>
      return ← failed ("ln: failed to access " ++ named source ++ ": " ++ reasonText fault)
    | .ok (_, .directory) =>
      return ← failed ("ln: " ++ Shown.plain source ++ ": hard link not allowed for directory")
    | .ok _ => pure ()
  let kind : Text := if isSymbolic then "symbolic link " else "hard link "
  let complaint := "ln: failed to create " ++ kind ++ named target
  let make (disk : Disk) : Except Disk.Fault Disk :=
    if target.isEmpty then .error (missingFault path)
    else if isSymbolic then disk.makeLink source path
    else disk.makeSecondName (pathOf s source) path
  match isForced, s.disk.find false path with
  | true, .ok (place, entry) =>
    if entry.isDirectory then
      return ← failed ("ln: " ++ Shown.plain target ++ ": cannot overwrite directory")
    match s.disk.find false (pathOf s source) with
    | .ok (origin, _) =>
      if (s.disk.sharers origin).contains place && (!isSymbolic || origin = place) then
        if origin = place then
          return ← failed ("ln: " ++ named source ++ " and " ++ named target ++
            " are the same file")
        else return true
    | .error _ => pure ()
    request complaint (make (s.disk.erase place))
  | _, _ =>
    match make s.disk with
    | .error (.refused .exists path) => request complaint (.error (.refused .exists path))
    | .error fault =>
      let arrow : Text := if isSymbolic then " -> " else " => "
      let isShort := isSymbolic && !source.isEmpty
      request (if isShort then complaint else complaint ++ arrow ++ named source) (.error fault)
    | .ok disk => request complaint (.ok disk)

/-- Gives entries second names, or makes links to paths. -/
def ln : Utility := fun arguments => do
  let g ← read "ln"
    { letters := "bdfFiLnPrsTv", valued := "St"
      names := [("symbolic", 's'), ("force", 'f'), ("no-dereference", 'n'), ("verbose", 'v'),
        ("target-directory", 't'), ("no-target-directory", 'T')] } arguments
  let errand ← readErrand "ln" g
  errand.run fun source target => do
    let isMade ← linkEntry (g.has 's') (g.has 'f') source target
    let arrow : Text := if g.has 's' then " -> " else " => "
    if isMade && g.has 'v' then writeLine (named target ++ arrow ++ named source)
    pure isMade

end ProviderKit.Shell.Program
