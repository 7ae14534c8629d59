import Appwright.Spec.Fields

/-!
# Actions without their secrets
-/

namespace Appwright.Spec

def Action.masked? (a : Action) : Option Json :=
  match a.http, a.llm with
  | some http, some _ =>
    let hidden := { http with headers := http.headers.mapValues fun _ => "***" }
    some { a with http := some hidden }.toJson
  | _, _ => none

end Appwright.Spec
