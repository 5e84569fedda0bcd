import ProviderKit.Shell.Program.Basic

/-!
# Programs that change files

Programs that make, copy, move, name and remove entries of the disk. What fails is told and makes
the status one, and the other operands are still served.
-/

namespace ProviderKit.Shell.Program

/-- What fails for an operand: a complaint about it. -/
abbrev Change := Disk → Text → Path → Except Text Unit × Disk

/-- Changes the disk for each operand. -/
def changeEach (operands : List Text) (change : Change) : Action Nat := do
  let mut status := 0
  for operand in operands do
    let s ← get
    let (outcome, disk) := change s.disk operand (pathOf s operand)
    set { s with disk }
    match outcome with
    | .ok () => pure ()
    | .error complaint =>
      complain complaint
      status := 1
  pure status

/-- A text in the quotes in which names are shown. -/
def named (t : Text) : Text := Shown.quoted t

/-- The outcome of a request that leaves the disk alone when it is refused. -/
def settle (disk : Disk) (complaint : Text) :
    Except Disk.Fault Disk → Except Text Unit × Disk
  | .ok disk => (.ok (), disk)
  | .error fault => (.error (complaint ++ ": " ++ reasonText fault), disk)

/-- Ends a program that is given no operand. -/
def needOperand (name : String) (g : Given) : Action Unit := do
  if g.operands.isEmpty then misuse name {} "missing operand"

/-- The entry that an operand names is missing in name only: an empty text names nothing. -/
def missingFault (path : Path) : Disk.Fault := .refused .missing path

/-- The entry at an operand. -/
def entryOf (disk : Disk) (through : Bool) (operand : Text) (path : Path) :
    Except Disk.Fault (Place × Entry) := do
  if operand.isEmpty then throw (missingFault path)
  let endsInSlash := operand.getLast? = some (.char '/')
  let (place, entry) ← disk.find (through || endsInSlash) path
  if endsInSlash && !entry.isDirectory then throw (.refused .notDirectory path)
  pure (place, entry)

/-- Tells, if asked, what was done to an operand. -/
def tellEach (isAsked : Bool) (words : Text) (operands : List Text) (change : Change) :
    Action Nat := do
  let mut status := 0
  for operand in operands do
    let result ← changeEach [operand] change
    if isAsked && result = 0 then writeLine (words ++ named operand)
    status := max status result
  pure status

/-- The texts of the paths that lead to a path, each one name longer than the one before it. -/
def stages (t : Text) : List Text :=
  let pieces := Text.split (.char '/') t
  let texts := (List.range pieces.length).filterMap fun n =>
    let piece := (pieces[n]?).getD []
    if piece.isEmpty then none else some (Text.join "/" (pieces.take (n + 1)))
  match texts.getLast? with
  | some _ => texts.dropLast ++ [t]
  | none => [t]

/-- Makes a directory and the missing ones above it. -/
def makeStages (disk : Disk) (s : State) (told : Text → Text) :
    List Text → Except Text Unit × Disk
  | [] => (.ok (), disk)
  | t :: rest =>
    let path := pathOf s t
    match disk.makeDirectory path with
    | .ok disk => makeStages disk s told rest
    | .error fault =>
      match disk.find true path, rest with
      | .ok (_, .directory), _ => makeStages disk s told rest
      | .ok _, _ :: _ => settle disk (told t) (.error (.refused .notDirectory path))
      | _, _ => settle disk (told t) (.error fault)

/-- Makes directories. -/
def mkdir : Utility := fun arguments => do
  let g ← read "mkdir"
    { letters := "pv", valued := "m"
      names := [("parents", 'p'), ("mode", 'm'), ("verbose", 'v')] } arguments
  needOperand "mkdir" g
  let told (operand : Text) : Text := "mkdir: cannot create directory " ++ named operand
  let s ← get
  tellEach (g.has 'v' && !g.has 'p') "mkdir: created directory " g.operands fun disk operand path =>
    if operand.isEmpty then settle disk (told operand) (.error (missingFault path))
    else if g.has 'p' then makeStages disk s told (stages operand)
    else settle disk (told operand) (disk.makeDirectory path)

/-- Removes empty directories. -/
def rmdir : Utility := fun arguments => do
  let g ← read "rmdir"
    { letters := "pv", names := [("parents", 'p'), ("verbose", 'v')] } arguments
  needOperand "rmdir" g
  let chain (operand : Text) : List Text :=
    if g.has 'p' then (stages operand).reverse else [operand]
  let s ← get
  tellEach (g.has 'v') "rmdir: removing directory, " g.operands fun disk operand _ =>
    (chain operand).foldl (fun (outcome, disk) t =>
      match outcome with
      | .ok () => settle disk ("rmdir: failed to remove " ++ named t)
          (if t.isEmpty then .error (missingFault s.path)
            else disk.removeDirectory (pathOf s t))
      | .error complaint => (.error complaint, disk)) (.ok (), disk)

/-- The last name in the text of a path. -/
def lastName (t : Text) : Text :=
  let trimmed := (t.reverse.dropWhile (· = .char '/')).reverse
  if trimmed.isEmpty then t.take 1
  else (trimmed.reverse.takeWhile (· != .char '/')).reverse

/-- A text ends with a slash. -/
def endsInSlash (t : Text) : Bool := t.getLast? = some (.char '/')

/-- The name is that of the directory itself or of the one above it. -/
def isDots (name : Text) : Bool := name = Text.ofString "." || name = Text.ofString ".."

/-- Removes entries. -/
def rm : Utility := fun arguments => do
  let g ← read "rm"
    { letters := "rRfdivI"
      names := [("recursive", 'r'), ("force", 'f'), ("dir", 'd'), ("verbose", 'v')] } arguments
  if !g.has 'f' then needOperand "rm" g
  let isRecursive := g.has 'r' || g.has 'R'
  let mut status := 0
  for operand in g.operands do
    let s ← get
    let path := pathOf s operand
    let complaint := "rm: cannot remove " ++ named operand
    let tell (what : Text) (disk : Disk) : Action Nat := do
      modify fun s => { s with disk }
      if g.has 'v' then writeLine (what ++ named operand)
      pure 0
    let refuse (complaint : Text) : Action Nat := do
      complain complaint
      pure 1
    let result ←
      match entryOf s.disk false operand path, endsInSlash operand, s.disk.find false path with
      | .ok _, true, .ok (_, .link _) =>
        refuse (complaint ++ (if isRecursive then ": Not a directory" else ": Is a directory"))
      | .ok (place, .directory), _, _ =>
        if !isRecursive && !g.has 'd' then refuse (complaint ++ ": Is a directory")
        else if isDots (lastName operand) then
          refuse ("rm: refusing to remove '.' or '..' directory: skipping " ++ named operand)
        else if isRecursive then
          for (names, entry) in (s.disk.below place).reverse do
            let kind : Text := if entry.isDirectory then "removed directory " else "removed "
            if g.has 'v' then writeLine (kind ++ named (Text.join "/" (operand :: names)))
          tell "removed directory " (s.disk.eraseTree place)
        else match s.disk.removeDirectory path with
          | .ok disk => tell "removed directory " disk
          | .error fault => refuse (complaint ++ ": " ++ reasonText fault)
      | .ok (place, _), _, _ => tell "removed " (s.disk.erase place)
      | .error (.refused .missing _), _, _ =>
        if g.has 'f' then pure 0 else refuse (complaint ++ ": No such file or directory")
      | .error fault, _, _ =>
        if g.has 'f' && fault matches .refused .notDirectory _ then pure 0
        else refuse (complaint ++ ": " ++ reasonText fault)
    status := max status result
  pure status

/-- Makes files that are missing. -/
def touch : Utility := fun arguments => do
  let g ← read "touch" { letters := "acmfh", valued := "drt" } arguments
  if g.operands.isEmpty then misuse "touch" {} "missing file operand"
  changeEach g.operands fun disk operand path =>
    match entryOf disk true operand path with
    | .ok _ => (.ok (), disk)
    | .error fault =>
      if g.has 'c' then (.ok (), disk)
      else if endsInSlash operand then
        settle disk ("touch: setting times of " ++ named operand) (.error fault)
      else
        let complaint := "touch: cannot touch " ++ named operand
        if operand.isEmpty then settle disk complaint (.error fault)
        else settle disk complaint (disk.write path (.bytes []))

/-- A text that says how permissions change. -/
def isMode (mode : Text) : Bool :=
  let isOneOf (known : String) (c : CodePoint) : Bool := c.satisfies known.toList.contains
  if (mode.head?.map (isOneOf "0123456789")).getD false then
    mode.all (isOneOf "01234567") && Arithmetic.digitsValue 8 mode < Nat.pow 8 4
  else (Text.split (.char ',') mode).all fun clause =>
    match clause.dropWhile (isOneOf "ugoa") with
    | sign :: rights => isOneOf "+-=" sign && rights.all (isOneOf "+-=rwxXstugo")
    | [] => false

/-- Clauses let the owner run a file, if they say anything about that. -/
def runClauses? (mode : Text) : Option Bool :=
  (Text.split (.char ',') mode).foldl (fun found clause =>
    let (who, rest) := clause.span fun c => c.satisfies fun c => "ugoa".toList.contains c
    let owner := who.isEmpty || who.contains (.char 'u') || who.contains (.char 'a')
    match rest with
    | .char '+' :: rights =>
      if owner && (rights.contains (.char 'x') || rights.contains (.char 'X')) then some true
      else found
    | .char '-' :: rights => if owner && rights.contains (.char 'x') then some false else found
    | .char '=' :: rights => if owner then some (rights.contains (.char 'x')) else found
    | _ => found) none

/-- The permissions after a change. Of clauses only what they say about running counts. -/
def changedMode (change : Text) (mode : Mode) : Mode :=
  if Control.isNumeral change then ⟨Arithmetic.digitsValue 8 change⟩
  else match runClauses? change with
    | some true => ⟨mode.bits ||| 0o111⟩
    | some false => ⟨mode.bits &&& 0o7666⟩
    | none => mode

/-- Changes who may run files. -/
def chmod : Utility := fun arguments => do
  let takesAway (a : Text) : Bool := a.hasPrefix "-" && a.length > 1 && (a.drop 1).all fun c =>
    c.satisfies fun c => "rwxXst".toList.contains c
  let (modes, others) := arguments.partition takesAway
  let g ← read "chmod" { letters := "Rfcv" } others
  match modes ++ g.operands with
  | [] => misuse "chmod" {} "missing operand"
  | [mode] => misuse "chmod" {} ("missing operand after " ++ named mode)
  | mode :: operands =>
    if !isMode mode then misuse "chmod" {} ("invalid mode: " ++ named mode)
    changeEach operands fun disk operand path =>
      match entryOf disk true operand path with
      | .ok (place, .file old content) =>
        (.ok (), disk.rewrite place (.file (changedMode mode old) content))
      | .ok _ => (.ok (), disk)
      | .error fault =>
        (.error ("chmod: cannot access " ++ named operand ++ ": " ++ reasonText fault), disk)

end ProviderKit.Shell.Program
