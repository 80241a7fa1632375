/-
**Characters that may be passed over in silence.**

The Unicode property `Default_Ignorable_Code_Point`: fillers, joiners and selectors, which leave no
trace where they are not understood.  Some of them are letters or marks by their category.  Unicode
version 17.

Main definitions:

* `ignorableRanges` — the table;
* `isIgnorable` — the property.
-/

import RhythmLogic.Text.CodeRange

set_option autoImplicit false

namespace RhythmLogic

/-- The code points that may be passed over in silence. -/
def ignorableRanges : RangeTable where
  ranges :=
    [ (0xad, 0xad), (0x34f, 0x34f), (0x61c, 0x61c), (0x115f, 0x1160), (0x17b4, 0x17b5)
    , (0x180b, 0x180f), (0x200b, 0x200f), (0x202a, 0x202e), (0x2060, 0x206f), (0x3164, 0x3164)
    , (0xfe00, 0xfe0f), (0xfeff, 0xfeff), (0xffa0, 0xffa0), (0xfff0, 0xfff8), (0x1bca0, 0x1bca3)
    , (0x1d173, 0x1d17a), (0xe0000, 0xe0fff) ]

/-- **A character that may be passed over in silence.** -/
def isIgnorable (c : Char) : Bool := ignorableRanges.covers c

end RhythmLogic
