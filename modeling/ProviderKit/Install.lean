import ProviderKit.Archive.Unpack
import ProviderKit.Build.Pipeline

/-!
# Installing a plugin

The plugin host keeps each release of a plugin in a directory of its own. Installing removes the
directory of that name and version, makes it anew, and unpacks the archive into it. The root of the
host has to be there already.
-/

namespace ProviderKit

/-- The name of the directory of a release. -/
def pluginDirectoryName (name version : Text) : Text := "provider-" ++ name ++ "-v" ++ version

/-- The name of the directory that holds the releases. -/
def pluginsName : Text := "plugins"

/-- The directory of a release under the root of a host. -/
def pluginDirectory (host : Path) (name version : Text) : Path :=
  (host.child pluginsName).join (.ofText (pluginDirectoryName name version))

variable [Interpreter]

/-- Installs an artifact under the root of a host and gives the directory of the release. -/
def installArtifact (host : Path) (artifact : Artifact) : Run Path := do
  if !(← Run.look fun disk => orFail (disk.isDirectory? host)) then
    Run.fail (.problem (.hostMissing host))
  let directory := pluginDirectory host artifact.name artifact.version
  if ← Run.look fun disk => orFail (disk.exists? directory) then
    Run.say (.debug ("Removing previous install at " ++ directory.text))
    Run.requests fun disk => disk.removeTree directory
  Run.requests fun disk => disk.makeDirectories false directory
  Run.step fun disk => Archive.unpack disk artifact.archive directory
  Run.say (.success ("Installed to " ++ directory.text))
  pure directory

/-- Builds a package and installs it. -/
def Build.install (b : Build) : Run Path := do
  let artifact ← b.run
  installArtifact b.settings.hostRoot artifact

end ProviderKit
