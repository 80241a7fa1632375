/-
**How bindings are written.**

Main definitions:

* `Bindings.text` — the latest bindings as a map of quoted texts.
-/

import RhythmLogic.Bindings
import RhythmLogic.Text.Quoted

set_option autoImplicit false

namespace RhythmLogic

/-- **The latest bindings as a map of quoted texts.** -/
def Bindings.text (e : Bindings) : String :=
  let entry := fun (p : String × Term) => visiblyQuoted p.1 ++ ": " ++ visiblyQuoted p.2.text
  "\x7b" ++ separated ", " (e.latest.map entry) ++ "\x7d"

end RhythmLogic
