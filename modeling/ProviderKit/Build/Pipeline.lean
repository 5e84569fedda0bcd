import ProviderKit.Archive.Pack
import ProviderKit.Generate
import ProviderKit.Json.Writer
import ProviderKit.Package.Basic
import ProviderKit.Release.Tag
import ProviderKit.Settings

/-!
# Building a package

A build generates the declarations, looks at the package, and then works in a fresh staging
directory: it compiles the sources into it, puts the package file, the manifest and the lock file
there, installs the dependencies, and packs everything into `dist/<name>.tar.gz`. Whatever happens
in the staging directory, it is removed at the end unless it is to be kept; a directory that the
system does not remove is reported and changes nothing about the outcome. Only what lies too many
levels down in it takes the place of the outcome.
-/

namespace ProviderKit

/-- What a build is given: its settings, a runner for its tools and what that records, the table of
install strategies, and where, in the order in which the directories are tried, and under which
names it may make temporary entries. -/
structure Build where
  settings : Settings
  runner : Runner
  records : Records := fun _ _ => []
  strategies : List (LockConvention × InstallStrategy) := InstallStrategy.standard
  temporaryDirectories : List Path
  draws : List Text

/-- What a build makes. -/
structure Artifact where
  staging : Path
  archive : Path
  name : Text
  version : Text
deriving DecidableEq

namespace Build

variable [Interpreter]

/-- The beginning of the name of a staging directory. -/
def stagingStart : Text := "provider-build-"

/-- The name of the directory for archives. -/
def distName : Text := "dist"

/-- The variables that the package manager is given. -/
def productionVariables : Environment := [("NODE_ENV", "production")]

/-- The project's directory. -/
def directory (b : Build) : Path := b.settings.directory

/-- A stage: it is announced, and recorded once its body is done. -/
def stage {α : Type} (stage : Stage) (body : Run α) : Run α := do
  Run.say (.debug ("Stage: " ++ Text.ofString stage.word))
  let result ← body
  Run.complete stage
  pure result

/-- The word for a truth value in messages. -/
def truthWord (b : Bool) : Text := if b then "True" else "False"

/-- Looks at the package. -/
def discover (b : Build) : Run Package := do
  let package ← Run.look (Package.discover · b.directory)
  Run.say (.debug ("Discovered " ++ package.name ++ "@" ++ package.version ++ " (typescript=" ++
    truthWord package.hasCompiledSource ++ ", lock=" ++
    Text.ofString package.lockConvention.word ++ ")"))
  pure package

/-- The first directory in which temporary entries can be made. -/
def temporaryDirectory (b : Build) (disk : Disk) : Except Failure Path :=
  match b.temporaryDirectories.find? (disk.takesTemporary b.draws) with
  | some directory => .ok directory
  | none => .error .noTemporaryDirectory

/-- Makes a fresh staging directory. -/
def makeStaging (b : Build) : Run Path := do
  let directory ← Run.look b.temporaryDirectory
  let path ← Run.look fun disk => orFail (disk.temporaryPath directory stagingStart [] b.draws)
  Run.request fun disk => disk.makeDirectory path
  pure path

/-- Removes the staging directory, or says that it is kept. Only what the system reports is a
warning. -/
def removeStaging (b : Build) (staging : Path) : Run Unit :=
  if b.settings.retain then Run.say (.info ("Retained build directory " ++ staging.text))
  else do
    let (outcome, disk) := (← Run.disk).removeTree staging
    Run.change fun world => { world with disk }
    match outcome with
    | .ok () => pure ()
    | .error fault =>
      if fault.isReported then
        Run.say (.warning ("Could not remove build directory " ++ staging.text ++ ": " ++
          fault.message))
      else Run.fail (.disk fault)

/-- Cleans up after the work in the staging directory. -/
def cleanUp (b : Build) (staging : Path) : Run Unit := do
  b.removeStaging staging
  Run.complete .cleanup

/-- Work in a fresh staging directory, which is cleaned up however the work ends. -/
def inStaging {α : Type} (b : Build) (work : Path → Run α) : Run α := do
  let staging ← b.makeStaging
  Run.complete .prepareWorkspace
  Run.say (.debug ("Staging directory: " ++ staging.text))
  Run.thenAlways (work staging) (b.cleanUp staging)

/-- Compiles the sources into the staging directory. -/
def compile (b : Build) (package : Package) (staging : Path) : Run Unit := do
  let (program, args) := compileCommand package.lockConvention staging
  Run.say (.info ("Compiling with " ++ program ++ " tsc..."))
  let result ← Run.call b.runner b.records { program, args, directory := b.directory }
  if result.succeeded then Run.say (.toolOutput result.output)
  else Run.fail (.problem (.compileFailed program result.status result.output))

/-- The text of a package file with the given version, unless it has too many levels. -/
def packageText (members : List (Text × Json)) (version : Text) : Except Failure Text :=
  match (Json.object (Json.insertMember "version" (.text version) members)).write? with
  | some text => .ok (text ++ "\n")
  | none => .error .tooDeep

/-- Writes a text to a file. The file is there, and empty, before the text is encoded. -/
def writeText (path : Path) (text : Text) : Run Unit := do
  Run.request fun disk => disk.write path (.bytes [])
  match Utf8.encode? text with
  | some bytes => Run.request fun disk => disk.write path (.bytes bytes)
  | none => Run.fail .unencodable

/-- Puts the package file into the staging directory, with the version of the release if there is
one, and gives the version of the package. -/
def stagePackage (b : Build) (package : Package) (staging : Path) : Run Text := do
  let target := staging.child packageFilename
  match b.settings.releaseReference with
  | none =>
    Run.request fun disk => disk.copy (b.directory.child packageFilename) target
    pure package.version
  | some reference =>
    let version ← Run.ofExcept (orProblem (Release.version reference))
    let members ← Run.look (Package.load · b.directory)
    writeText target (← Run.ofExcept (packageText members version))
    Run.say (.info ("Using version " ++ version ++ " from release tag"))
    pure version

/-- The install strategy for the package. -/
def strategy (b : Build) (package : Package) : Run InstallStrategy :=
  Run.ofExcept (orProblem (InstallStrategy.select b.strategies package.lockConvention))

/-- Puts the manifest and the lock file into the staging directory. -/
def stageFiles (b : Build) (package : Package) (staging : Path) : Run Unit := do
  let manifest := b.directory.child manifestFilename
  if !(← Run.look fun disk => orFail (disk.isFile? manifest)) then
    Run.fail (.problem (.manifestMissing b.directory))
  Run.request fun disk => disk.copy manifest (staging.child manifestFilename)
  match (← b.strategy package).lockFilename with
  | none => pure ()
  | some name => Run.request fun disk => disk.copy (b.directory.child name) (staging.child name)

/-- Installs the dependencies in the staging directory. -/
def installDependencies (b : Build) (package : Package) (staging : Path) : Run Unit := do
  let strategy ← b.strategy package
  Run.say (.info ("Installing production dependencies with " ++ strategy.commandLine ++ "..."))
  let result ← Run.call b.runner b.records
    { program := strategy.program, args := strategy.args, directory := staging,
      overrides := productionVariables }
  if result.succeeded then Run.say (.toolOutput result.output)
  else Run.fail (.problem (.installFailed strategy.commandLine result.status result.output))

/-- The path of the archive of a package. -/
def archivePath (b : Build) (name : Text) : Path :=
  (b.directory.child distName).join (.ofText (name ++ ".tar.gz"))

/-- Packs the staging directory. -/
def packArchive (b : Build) (package : Package) (staging : Path) : Run Path := do
  let archive := b.archivePath package.name
  Archive.pack staging archive
  Run.say (.success ("Packaged to " ++ archive.shownFrom b.directory))
  pure archive

/-- The work in the staging directory. -/
def assemble (b : Build) (package : Package) (staging : Path) : Run Artifact := do
  if package.hasCompiledSource then stage .compile (b.compile package staging)
  let version ← stage .resolveVersion (b.stagePackage package staging)
  stage .stageFiles (b.stageFiles package staging)
  stage .installDependencies (b.installDependencies package staging)
  let archive ← stage .archive (b.packArchive package staging)
  pure ⟨staging, archive, package.name, version⟩

/-- Runs the build. -/
def run (b : Build) : Run Artifact := do
  let _ ← stage .generateTypes (generate b.draws b.directory)
  let package ← stage .discover b.discover
  b.inStaging (b.assemble package)

end Build

end ProviderKit
