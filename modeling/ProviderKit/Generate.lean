import ProviderKit.Declaration.Printer
import ProviderKit.Disk.AtomicWrite
import ProviderKit.Run.Basic
import ProviderKit.Schema.Document

/-!
# Generating declarations

Reads the schema of a project and writes its declarations beside it, replacing those of an earlier
run. Nothing is written unless the whole file is known.
-/

namespace ProviderKit

/-- The text of the declarations of a schema, with their number. -/
def Schema.source (schema : Schema) : Except Failure (Text × Nat) := do
  let file ← orProblem (schema.declarations Declaration.warningHeader)
  pure (file.source, file.declarations.length)

/-- Writes the declarations of the project in a directory and gives the path of the file. -/
def generate [Interpreter] (draws : List Text) (directory : Path) : Run Path := do
  let schemaPath ← Run.look (Schema.find · directory)
  Run.say (.debug ("Loading schema from: " ++ schemaPath.text))
  let schema ← Run.look (Schema.load · schemaPath)
  let (source, count) ← Run.ofExcept schema.source
  let target := directory.child declarationFilename
  Run.step fun disk => disk.writeWhole draws target source
  Run.say (.debug ("Wrote " ++ Text.ofNat count ++ " declarations to " ++ target.text))
  pure target

end ProviderKit
