import ProviderKit.Text.Quoted
import ProviderKit.Number.Shortest
import ProviderKit.Value.Basic

/-!
# Quoted values

The form in which messages and error locations quote a value that is not a text: its literal.
Container values are never quoted; they show as their kind.
-/

namespace ProviderKit

/-- Arguments in parentheses after a name. -/
def callText (name : Text) (arguments : List Text) : Text :=
  name ++ "(" ++ Text.join ", " arguments ++ ")"

/-- The literal of an offset from Greenwich. -/
def offsetText (minutes : Int) : Text :=
  let seconds := minutes * 60
  let days := seconds.fdiv 86400
  let rest := seconds.fmod 86400
  let parts :=
    (if days = 0 then [] else ["days=" ++ Text.ofInt days]) ++
    (if rest = 0 then [] else ["seconds=" ++ Text.ofInt rest])
  if minutes = 0 then "datetime.timezone.utc"
  else callText "datetime.timezone" [callText "datetime.timedelta" parts]

/-- The numbers of a timestamp's literal: seconds and microseconds only as far as needed. -/
def Timestamp.parts (t : Timestamp) : List Nat :=
  [t.date.year, t.date.month, t.date.day, t.hour, t.minute] ++
    (if t.microsecond != 0 then [t.second, t.microsecond]
     else if t.second != 0 then [t.second] else [])

/-- The literal of a value. -/
def Value.quoted : Value → Text
  | null => "None"
  | bool b => if b then "True" else "False"
  | int n => Text.ofInt n
  | float x => x.text "inf" "nan"
  | text t => t.quoted
  | bytes b => Bytes.quoted b
  | date d => callText "datetime.date" ([d.year, d.month, d.day].map Text.ofNat)
  | timestamp t =>
    let zone : List Text := match t.offset with
      | none => []
      | some m => ["tzinfo=" ++ offsetText m]
    callText "datetime.datetime" (t.parts.map Text.ofNat ++ zone)
  | other => Text.ofString other.kindName

end ProviderKit
