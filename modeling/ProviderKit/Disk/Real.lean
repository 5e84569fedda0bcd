import ProviderKit.Disk.Walk
import ProviderKit.Interpreter

/-!
# Real paths

The real path of a path has no `..` and no symbolic link in it. Names that do not exist are kept as
they are. Where a link leads back to itself, what is left of the path is kept too; the result then
still leads into the loop, unless a later `..` takes it out again. What is left counts from the root
if a second slash comes before it.

A link is resolved by the same routine while the path that leads through it is, so links nest. A
link that is known from before is not resolved again.
-/

namespace ProviderKit.Disk

/-- The names reached, and whether all of them are resolved. -/
abbrev Resolved := List Text × Bool

/-- The names between the slashes of a relative text, as they are written; the slash in front of an
absolute one does not count. -/
def writtenNames (t : Text) : List Text :=
  Text.split (.char '/') (if t.head? = some (.char '/') then t.drop 1 else t)

/-- What is left of a path, behind the names before it. -/
def leftAfter (names rest : List Text) : List Text :=
  match rest with
  | [] :: next :: rest => next :: rest
  | rest => names ++ rest

/-- What resolving names comes to: its outcome, how deep the links nest that were resolved for it,
and the links that are known from then on. -/
structure Trace where
  outcome : Except Fault Resolved
  levels : Nat := 0
  known : List Path

/-- The path of the names that are reached, taken lexically. -/
def Trace.path (trace : Trace) : Except Fault Path := do
  let (names, _) ← trace.outcome
  pure ⟨.single, Path.collapse (names.filter fun name =>
    !name.isEmpty && name != Text.ofString ".")⟩

/-- Resolves names from a place that is already resolved. `expand` resolves the target of a link;
`pending` are the links that are being resolved, and `known` those that have been. A name whose
entry cannot be found is kept. -/
def traceNames (disk : Disk) (pending : List Path)
    (expand : List Path → Path → List Text → List Text → Trace) :
    List Path → List Text → List Text → Trace
  | known, here, [] => { outcome := .ok (here, true), known }
  | known, here, name :: rest =>
    if name.isEmpty || name = Text.ofString "." then traceNames disk pending expand known here rest
    else if name = Text.ofString ".." then
      traceNames disk pending expand known here.dropLast rest
    else
      let path : Path := ⟨.single, here ++ [name]⟩
      match disk.find false path with
      | .error fault =>
        if fault.isPathText then { outcome := .error fault, known }
        else traceNames disk pending expand known path.names rest
      | .ok (_, .link target) =>
        if pending.contains path then
          { outcome := .ok (leftAfter path.names rest, false), known }
        else
          let link := expand known path (targetStart here target) (writtenNames target)
          let levels := if known.contains path then 0 else link.levels + 1
          match link.outcome with
          | .error fault => { outcome := .error fault, levels, known := link.known }
          | .ok (names, true) =>
            let last := traceNames disk pending expand (path :: link.known) names rest
            { last with levels := max levels last.levels }
          | .ok (names, false) =>
            { outcome := .ok (leftAfter names rest, false), levels, known := link.known }
      | .ok _ => traceNames disk pending expand known path.names rest

/-- Resolves names through links nested at most as deep as the given number. -/
def traceWith (disk : Disk) : Nat → List Path → List Path → List Text → List Text → Trace
  | 0, pending => traceNames disk pending fun known path _ _ =>
      { outcome := .ok (path.names, false), known }
  | depth + 1, pending => traceNames disk pending fun known path start names =>
      traceWith disk depth (path :: pending) known start names

/-- What resolving a path comes to. Links nest at most as deep as there are entries on the disk. -/
def trace (disk : Disk) (path : Path) : Trace :=
  traceWith disk (disk.entries.length + 1) [] [] [] path.names

/-- The real path of a path. -/
def realPath [Interpreter] (disk : Disk) (path : Path) : Except Fault Path :=
  let trace := disk.trace path
  if Interpreter.resolving < trace.levels then .error .tooDeep else trace.path

/-- Why a path has no real path. -/
inductive RealFault where
  | fault (f : Fault)
  /-- The path leads around a loop of links. -/
  | loop
deriving DecidableEq

/-- The real path of a path that does not lead into a loop. -/
def resolve [Interpreter] (disk : Disk) (path : Path) : Except RealFault Path :=
  match disk.realPath path with
  | .error fault => .error (.fault fault)
  | .ok real =>
    match disk.find true real with
    | .error (.refused .tooManyLinks _) => .error .loop
    | .error fault => if fault.isPathText then .error (.fault fault) else .ok real
    | .ok _ => .ok real

end ProviderKit.Disk
