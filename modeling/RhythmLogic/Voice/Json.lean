/-
**Triggers in JSON.**

Main definitions:

* `Trigger.toJson` — the value of a trigger.
-/

import RhythmLogic.Json.Basic
import RhythmLogic.Voice

set_option autoImplicit false

namespace RhythmLogic

/-- **The value of a trigger.**  Drums have no pitch. -/
def Trigger.toJson (t : Trigger) : Json :=
  .object
    [ ("voice", .string t.voice.name)
    , ("time", .real t.time)
    , ("pitch", (t.pitch.map Json.real).getD .null)
    , ("velocity", .real t.velocity) ]

end RhythmLogic
