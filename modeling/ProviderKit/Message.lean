import ProviderKit.Text.Basic

/-!
# Messages

What a run says, in the order in which it says it. How a message is shown, and whether it is shown
at all, is for the console to decide.
-/

namespace ProviderKit

/-- One thing that a run says. -/
inductive Message where
  /-- Progress. -/
  | info (t : Text)
  /-- Something was achieved. -/
  | success (t : Text)
  /-- Something went wrong that does not end the run. -/
  | warning (t : Text)
  /-- Why the run failed. -/
  | error (t : Text)
  /-- What to do next. -/
  | suggest (t : Text)
  /-- A detail for the curious. -/
  | debug (t : Text)
  /-- The output of a tool. -/
  | toolOutput (t : Text)
  /-- The result of the run. -/
  | data (t : Text)
  /-- Text that is shown as it is, whatever the console. -/
  | notice (t : Text)
  /-- A page of help, which is a result of the run. -/
  | page (t : Text)
  /-- A record of what became of a command. -/
  | log (t : Text)
deriving DecidableEq

end ProviderKit
