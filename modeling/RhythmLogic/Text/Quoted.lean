/-
**Text in quotes, with everything that cannot be seen spelled out.**

Main definitions:

* `isHidden` — characters that are spelled out;
* `visiblyQuoted` — a text in quotes whose hidden characters are escaped.
-/

import RhythmLogic.Text.Ignorable
import RhythmLogic.Text.Joining
import RhythmLogic.Text.Unseen

set_option autoImplicit false

namespace RhythmLogic

/-- A character that is spelled out: nothing shows it, it may be passed over in silence, or it joins
the character before it. -/
def isHidden (c : Char) : Bool := isUnseen c || isIgnorable c || isJoining c

/-- The escape that names a code point. -/
def codePointEscape (c : Char) : List Char :=
  ['\\', 'u', '\x7b'] ++ Nat.toDigits 16 c.toNat ++ ['\x7d']

/-- A character inside quotes. -/
def visibly (c : Char) : List Char :=
  if c = '"' then ['\\', '"']
  else if c = '\\' then ['\\', '\\']
  else if c = '\n' then ['\\', 'n']
  else if c = '\r' then ['\\', 'r']
  else if c = '\t' then ['\\', 't']
  else if c.toNat = 0 then ['\\', '0']
  else if isHidden c then codePointEscape c
  else [c]

/-- **A text in quotes,** with quotes, backslashes and hidden characters escaped. -/
def visiblyQuoted (s : String) : String :=
  String.ofList ('"' :: s.toList.flatMap visibly ++ ['"'])

end RhythmLogic
