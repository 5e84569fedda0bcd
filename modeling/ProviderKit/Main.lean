import ProviderKit.Process.Runner
import ProviderKit.Program
import ProviderKit.Shell.Machine

/-!
# The command

The layer around `Program.run`: it takes the variables, the directories and the files of the project
from the machine, runs the program on a disk that holds them, writes back what the run changed,
prints what it wrote and ends with its status. The tools of a build run on the machine of scripts,
so this layer starts no process.
-/

namespace ProviderKit.OuterLayer

/-- The variables that a run may look at. -/
def variableNames : List String :=
  ["HOME", "PATH", "COLUMNS", "LINES", "TERMINAL_WIDTH", "NO_COLOR", "TERM", "FORCE_COLOR",
    "TTY_COMPATIBLE", "GITHUB_REF", "PULUMI_HOME", "XDG_DATA_HOME", "TMPDIR", "TEMP", "TMP"]

/-- The variables that are set. -/
def takeEnvironment : IO Environment :=
  variableNames.filterMapM fun name => do
    pure ((← IO.getEnv name).map fun value => (Text.ofString name, Text.ofString value))

/-- The files of a project that a run may look at. -/
def filenames : List Text :=
  [Schema.usualFilename] ++ Schema.otherFilenames ++
    [packageFilename, manifestFilename, Package.compilerFilename, declarationFilename] ++
    LockConvention.all.filterMap (·.filename?)

/-- The file at a path, if one can be read there. -/
def takeFile (path : Path) : IO (Option Entry) := do
  try pure (some (.file .usual (.bytes (← IO.FS.readBinFile path.text.toString).toList)))
  catch _ => pure none

/-- The files of a project in a directory. -/
def takeProject (directory : Path) : IO (List (Place × Entry)) :=
  filenames.filterMapM fun name => do
    pure ((← takeFile (directory.child name)).map (directory.names ++ [name], ·))

/-- The directories above a place. -/
def directoriesAbove (place : Place) : List (Place × Entry) :=
  (List.range place.length).map fun n => (place.take n, .directory)

/-- What a word of the command line names, if it is a path, with the project that may be there. -/
def takeNamed (word : String) : IO (List (Place × Entry)) := do
  try
    let path := Path.ofText (Text.ofString (← IO.FS.realPath word).toString)
    match ← takeFile path with
    | some file => pure (directoriesAbove path.names ++ [(path.names, file)])
    | none =>
      pure (directoriesAbove path.names ++ [(path.names, .directory)] ++ (← takeProject path))
  catch _ => pure []

/-- The disk that a run with the given words starts with. -/
def takeDisk (words : List String) : IO Disk := do
  let named ← words.mapM takeNamed
  pure (named.flatten.foldl (fun disk (place, entry) => disk.put place entry) default)

/-- The letters of random names. -/
def drawLetters : List Char := "abcdefghijklmnopqrstuvwxyz0123456789_".toList

/-- The random part of a name. -/
def draw : IO Text :=
  (List.range 8).mapM fun _ => do
    pure (.char (drawLetters.getD (← IO.rand 0 (drawLetters.length - 1)) '_'))

/-- How many names are drawn for a run. -/
def drawCount : Nat := 100

/-- What a run finds around it. -/
def takeSurroundings : IO Surroundings := do
  let environment ← takeEnvironment
  pure
    { environment
      workingDirectory := .ofText (Text.ofString (← IO.FS.realPath ".").toString)
      draws := ← (List.range drawCount).mapM fun _ => draw }

/-- Writes a changed entry. -/
def writeEntry (place : Place) : Entry → IO Unit
  | .directory => IO.FS.createDirAll (Path.mk .single place).text.toString
  | .file _ content =>
    IO.FS.writeBinFile (Path.mk .single place).text.toString ⟨content.data.toArray⟩
  | .link _ => pure ()

/-- The two entries are alike. -/
def isSame : Option Entry → Entry → Bool
  | some .directory, .directory => true
  | some (.file _ a), .file _ b => a.data == b.data
  | some (.link a), .link b => a == b
  | _, _ => false

/-- Writes back what a run changed. -/
def writeBack (start finish : Disk) : IO Unit := do
  for (place, entry) in finish.entries do
    unless isSame (start.get? place) entry do writeEntry place entry

/-- Writes a text on a stream. -/
def print (stream : IO.FS.Stream) (t : Text) : IO Unit := do
  stream.write ⟨(Utf8.encodeLossless t).toArray⟩
  stream.flush

end ProviderKit.OuterLayer

open ProviderKit in
/-- Runs the program on the words of a command line. -/
def main (words : List String) : IO UInt32 := do
  let surroundings ← OuterLayer.takeSurroundings
  let start ← OuterLayer.takeDisk
    (surroundings.temporaryDirectories.map (·.text.toString) ++ "." :: words)
  let program : Program :=
    { surroundings
      system := "Linux"
      moment := Text.ofString (toString (← IO.monoMsNow))
      runner := fun base => Shell.machine.runner surroundings base none
      records := fun base => Shell.machine.records surroundings base none }
  let conclusion := program.run (words.map Text.ofString) start
  OuterLayer.writeBack start conclusion.world.disk
  OuterLayer.print (← IO.getStdout) conclusion.output.standard
  OuterLayer.print (← IO.getStderr) conclusion.output.error
  match conclusion.exit with
  | .ok status => pure (UInt32.ofNat status.toNat)
  | .error _ => pure 1
