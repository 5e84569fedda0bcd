import ProviderKit.Text.Basic

/-!
# Stages of a build
-/

namespace ProviderKit

/-- The stages of a build, in the order in which they run. -/
inductive Stage where
  | generateTypes
  | discover
  | prepareWorkspace
  | compile
  | resolveVersion
  | stageFiles
  | installDependencies
  | archive
  | cleanup
deriving DecidableEq, Inhabited

/-- The word for a stage. -/
def Stage.word : Stage → String
  | generateTypes => "generate-types"
  | discover => "discover"
  | prepareWorkspace => "prepare-workspace"
  | compile => "compile"
  | resolveVersion => "resolve-version"
  | stageFiles => "stage-files"
  | installDependencies => "install-dependencies"
  | archive => "archive"
  | cleanup => "cleanup"

end ProviderKit
