import ProviderKit.Text.Utf8
import ProviderKit.Value.Quoted

/-!
# Checks of shape

The outcome of a check is a thing of the right shape or every rule that is broken. What a report on
a value of the wrong shape consists of is, for each thing that is wrong, the steps that lead to it
from the root of the value, and the rule that it breaks. Two checks side by side report the
violations of both.
-/

namespace ProviderKit

/-! ## Violations -/

/-- One step into a value. -/
inductive Step where
  | name (t : Text)
  | index (n : Int)
deriving DecidableEq

/-- A rule of shape that a value can break. -/
inductive ShapeRule where
  | mapping
  | list
  | tuple
  | text
  /-- The value is a mapping that can be made a thing of the given kind. -/
  | thing (kind : String)
  | textKey
  | wellFormedText
  | present
  | truthValue
  /-- The value is a word or number that stands for a truth value. -/
  | truthWord
  /-- The value is one of the given words. -/
  | oneOf (words : List String)
deriving DecidableEq

namespace ShapeRule

/-- Words in quotes, the last one set off by `or`. -/
def alternatives : List String → Text
  | [] => []
  | [word] => "'" ++ Text.ofString word ++ "'"
  | [first, last] => "'" ++ Text.ofString first ++ "' or '" ++ Text.ofString last ++ "'"
  | word :: words => "'" ++ Text.ofString word ++ "', " ++ alternatives words

/-- The wording of a rule. -/
def message : ShapeRule → Text
  | mapping => "Input should be a valid dictionary"
  | list => "Input should be a valid list"
  | tuple => "Input should be a valid tuple"
  | text => "Input should be a valid string"
  | thing kind => "Input should be a valid dictionary or instance of " ++ Text.ofString kind
  | textKey => "Keys should be strings"
  | wellFormedText =>
    "Input should be a valid string, unable to parse raw data as a unicode string"
  | present => "Field required"
  | truthValue => "Input should be a valid boolean"
  | truthWord => "Input should be a valid boolean, unable to interpret input"
  | oneOf words => "Input should be " ++ alternatives words

end ShapeRule

/-- A rule that is broken, and where. -/
structure Violation where
  path : List Step
  rule : ShapeRule
deriving DecidableEq

namespace Violation

/-- The violation as seen from one level further out. -/
def under (step : Step) (v : Violation) : Violation := ⟨step :: v.path, v.rule⟩

/-- A violation at the root of a value. -/
def here (rule : ShapeRule) : Violation := ⟨[], rule⟩

end Violation

namespace Step

/-- The step to the entry of a name. A lone surrogate in it would take three bytes, none of which
can be shown. -/
def ofName (t : Text) : Step :=
  name (t.flatMap fun c => if c.isSurrogate then List.replicate 3 (.char '\ufffd') else [c])

/-- The step to the entry of a key: an integer of machine size is an index, a truth value counts
as one or zero, and any other key that is no text steps by its literal. -/
def ofKey : Value → Step
  | .text t => ofName t
  | .bool b => index (if b then 1 else 0)
  | .int n =>
    if -9223372036854775808 ≤ n ∧ n ≤ 9223372036854775807 then index n else name (Text.ofInt n)
  | key => name key.quoted

/-- The step from an entry of a mapping to its key. -/
def toKey : Step := name "[key]"

end Step

/-- The text that a value stands for where a text is asked for: bytes stand for the text that they
encode. -/
def Value.asText : Value → Except ShapeRule Text
  | .text t => .ok t
  | .bytes b =>
    match Utf8.decode b with
    | .ok t => .ok t
    | .error _ => .error .wellFormedText
  | _ => .error .text

/-! ## Checks -/

/-- A value of the right shape, or everything that is wrong with it. -/
abbrev Checked (α : Type) := Except (List Violation) α

namespace Checked

/-- The same check as seen from one level further out. -/
def under {α : Type} (step : Step) : Checked α → Checked α
  | .ok a => .ok a
  | .error violations => .error (violations.map (.under step))

/-- Both results, or the violations of both. -/
def both {α β : Type} : Checked α → Checked β → Checked (α × β)
  | .ok a, .ok b => .ok (a, b)
  | .error v, .ok _ => .error v
  | .ok _, .error w => .error w
  | .error v, .error w => .error (v ++ w)

/-- A single violation at the root. -/
def broken {α : Type} (rule : ShapeRule) : Checked α := .error [.here rule]

/-- The result of a check that knows only the rule. -/
def ofRule {α : Type} : Except ShapeRule α → Checked α
  | .ok a => .ok a
  | .error rule => broken rule

/-- All results of a list of checks, or all their violations. -/
def all {α : Type} : List (Checked α) → Checked (List α)
  | [] => .ok []
  | check :: checks => (fun (a, as) => a :: as) <$> both check (all checks)

end Checked

end ProviderKit
