/-
**Configuration: tempo, grid, bars, search depth and logging.**

Every setting has a default, so a document may give some of them, or none.

Main definitions:

* `Configuration`, `Configuration.standard` — the settings, and their defaults;
* `Configuration.ofToml?` — the settings that a document gives;
* `SettingFault`, `Configuration.fault?` — a setting outside its range, and the first such;
* `Configuration.parse` — reading and checking together;
* `Configuration.transport`, `Configuration.handover` — what is built with the settings.
-/

import RhythmLogic.Command
import RhythmLogic.FileTree
import RhythmLogic.Handover
import RhythmLogic.Toml.Reader

set_option autoImplicit false

namespace RhythmLogic

/-- The settings. -/
structure Configuration where
  timing : Timing Float
  /-- The time from tick to tick, in milliseconds. -/
  cadence : Nat
  barBeats : Float
  maxDepth : Nat
  seed : Option Nat
  level : Severity
  /-- Messages also go to the log file. -/
  logsToFile : Bool

namespace Configuration

/-- The settings where none are given. -/
def standard : Configuration where
  timing := .standard
  cadence := 20
  barBeats := 4.0
  maxDepth := defaultDepth
  seed := none
  level := .info
  logsToFile := false

/-! ### Settings from a document -/

/-- A floating-point setting.  Whole numbers are taken too. -/
def float? : Toml → Option Float
  | .float x => some x
  | .integer n => some (Quantity.ofInt n)
  | _ => none

/-- A setting that is a natural number. -/
def natural? : Toml → Option Nat
  | .integer n => if 0 ≤ n then some n.toNat else none
  | _ => none

/-- A setting that is on or off. -/
def boolean? : Toml → Option Bool
  | .boolean b => some b
  | _ => none

/-- A table or an array without entries. -/
def isVacant : Toml → Bool
  | .table _ entries => entries.isEmpty
  | .array items => items.isEmpty
  | .tables items => items.isEmpty
  | _ => false

/-- A severity: its name, or a table with its name over something empty. -/
def severity? : Toml → Option Severity
  | .string name => Severity.ofName? name
  | .table _ [(name, v)] => if isVacant v then Severity.ofName? name else none
  | _ => none

/-- **The entries of a section,** under their names.  A section may also be an array of its entries
in the order of `names`, and a date is a section without entries. -/
def section? (names : List String) : Toml → Option (String → Option Toml)
  | .table _ entries => some fun name => entries.lookup name
  | .array items => some fun name => items[names.idxOf name]?
  | .tables items => some fun name => (items[names.idxOf name]?).map (.table .header)
  | .datetime => some fun _ => none
  | _ => none

/-- The entries of a section of a document, which may be missing. -/
def sectionOf (document : Toml.Table) (title : String) (names : List String) :
    Option (String → Option Toml) :=
  match document.get? title with
  | some v => section? names v
  | none => some fun _ => none

/-- A setting that may be missing. -/
def setting {α : Type} (read : Toml → Option α) (default : α) : Option Toml → Option α
  | some v => read v
  | none => some default

/-- **The settings that a document gives,** unless one of them has a value of another kind.  Names
without a meaning are passed over. -/
def ofToml? (document : Toml.Table) : Option Configuration := do
  let playing ← sectionOf document "scheduler"
    ["bpm", "swing", "lookahead_ms", "grid_beats", "tick_ms"]
  let bars ← sectionOf document "transition" ["quantization_beats"]
  let search ← sectionOf document "engine" ["max_depth", "seed"]
  let logging ← sectionOf document "log" ["level", "file"]
  let timing : Timing Float := {
    bpm := ← setting float? standard.timing.bpm (playing "bpm")
    swing := ← setting float? standard.timing.swing (playing "swing")
    lookahead := ← setting float? standard.timing.lookahead (playing "lookahead_ms")
    grid := ← setting float? standard.timing.grid (playing "grid_beats") }
  some {
    timing := timing
    cadence := ← setting natural? standard.cadence (playing "tick_ms")
    barBeats := ← setting float? standard.barBeats (bars "quantization_beats")
    maxDepth := ← setting natural? standard.maxDepth (search "max_depth")
    seed := ← setting (fun v => (natural? v).map some) standard.seed (search "seed")
    level := ← setting severity? standard.level (logging "level")
    logsToFile := ← setting boolean? standard.logsToFile (logging "file") }

end Configuration

/-! ### Ranges -/

/-- A setting outside its range. -/
inductive SettingFault where
  | bpm (value : Float)
  | swing (value : Float)
  | lookahead (value : Float)
  | grid (value : Float)
  | cadence
  | bar (value : Float)
  | depth
deriving Repr

/-- The words for a setting outside its range. -/
def SettingFault.text : SettingFault → String
  | bpm value =>
      "bpm " ++ floatText value ++ " outside " ++ floatText leastBpm ++ "..=" ++
        floatText greatestBpm
  | swing value => "swing " ++ floatText value ++ " outside 0..=1"
  | lookahead value => "lookahead_ms must be positive, got " ++ floatText value
  | grid value => "grid_beats must be positive, got " ++ floatText value
  | cadence => "tick_ms must be positive"
  | bar value => "quantization_beats must be positive, got " ++ floatText value
  | depth => "max_depth must be positive"

namespace Configuration

/-- A positive number that is not infinite. -/
def isLength (x : Float) : Bool := 0.0 < x && x.isFinite

/-- **The first setting outside its range.** -/
def fault? (c : Configuration) : Option SettingFault :=
  if !liesIn c.timing.bpm leastBpm greatestBpm then some (.bpm c.timing.bpm)
  else if !liesIn c.timing.swing 0.0 1.0 then some (.swing c.timing.swing)
  else if !isLength c.timing.lookahead then some (.lookahead c.timing.lookahead)
  else if !isLength c.timing.grid then some (.grid c.timing.grid)
  else if c.cadence = 0 then some .cadence
  else if !isLength c.barBeats then some (.bar c.barBeats)
  else if c.maxDepth = 0 then some .depth
  else none

end Configuration

/-- Why there are no settings. -/
inductive ConfigurationError where
  | file (error : FileError)
  | malformed
  | invalid (fault : SettingFault)
deriving Repr

namespace ConfigurationError

/-- What lies behind a failure, if it has words of its own. -/
def cause? : ConfigurationError → Option String
  | file e => some e.text
  | malformed => some "not a TOML document of this form"
  | invalid _ => none

/-- The words for a failure. -/
def text : ConfigurationError → String
  | file e => "cannot read config: " ++ e.text
  | malformed => "malformed config: not a TOML document of this form"
  | invalid fault => "invalid config: " ++ fault.text

end ConfigurationError

namespace Configuration

/-- The settings, if all of them are in their ranges. -/
def checked (c : Configuration) : Except ConfigurationError Configuration :=
  match c.fault? with
  | some fault => .error (.invalid fault)
  | none => .ok c

/-- **The settings of a document.** -/
def parse (text : String) : Except ConfigurationError Configuration :=
  match (Toml.parse text).bind ofToml? with
  | none => .error .malformed
  | some c => c.checked

/-- The settings of the document under a path. -/
def load (read : FileReader) (path : String) : Except ConfigurationError Configuration :=
  match read path with
  | .error e => .error (.file e)
  | .ok text => parse text

/-! ### What is built with the settings -/

/-- A transport that stands, with these settings. -/
def transport [Generator] (c : Configuration) (output : Output Float)
    (builtins : BuiltinTable) : Transport Float × List Signal :=
  let new := Transport.new output builtins (c.seed.getD 0)
  Transport.configure { new with maxDepth := c.maxDepth } c.timing.bpm c.timing.swing
    c.timing.lookahead c.timing.grid

/-- A handover with these settings. -/
def handover (c : Configuration) : Handover Float := .new c.barBeats

end Configuration

end RhythmLogic
