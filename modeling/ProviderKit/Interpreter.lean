/-!
# The interpreter

The program runs on an interpreter, which ends a routine that calls itself too often. How often it
may do so is up to the interpreter and to the place where the routine is called: the program does
not know the numbers, and what is said about it here holds whatever they are.
-/

namespace ProviderKit

/-- How deep the routines that call themselves may go. As an instance these numbers need not be
handed down to every routine. -/
class Interpreter where
  /-- The levels of entries below a directory that is removed with all that it holds. -/
  removing : Nat
  /-- The levels of entries below a directory that is packed. -/
  packing : Nat
  /-- The links that are resolved one within the other. -/
  resolving : Nat
  /-- As many links can be resolved as the system itself follows on a way. -/
  resolves : 40 ≤ resolving
  /-- The missing directories that are made one above the other. -/
  making : Nat
  /-- The missing directories that are made above a member of an archive. -/
  unpacking : Nat
  /-- The members of an archive that are unpacked one in place of the other. -/
  replacing : Nat
  /-- The blocks of an archive that lead to one header. -/
  announcing : Nat
  /-- The levels of a JSON text that is read. -/
  reading : Nat
  /-- The levels of a document that is written as JSON. -/
  writing : Nat
  /-- The levels of a YAML text. -/
  composing : Nat

/-- An interpreter on which a routine may call itself about a thousand times; some of the routines
need more than one call for each step. It is the one that the command runs on, and that examples
are evaluated on. -/
instance Interpreter.usual : Interpreter where
  removing := 950
  packing := 950
  resolving := 950
  resolves := by decide
  making := 950
  unpacking := 950
  replacing := 450
  announcing := 240
  reading := 950
  writing := 950
  composing := 450

end ProviderKit
