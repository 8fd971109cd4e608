import TurtleLogo.Text.Combining
import TurtleLogo.Text.Invisible
import TurtleLogo.Text.Unassigned

/-!
# Quoted texts

Messages show a piece of source text between double quotes. Quotes and backslashes take a backslash, the four
common controls have short forms, and what cannot be seen on its own is given by its code point in hexadecimal.
-/

namespace TurtleLogo
namespace Text

/-- A code point in lower-case hexadecimal without padding, between braces. -/
def codeEscape (c : Char) : List Char :=
  '\\' :: 'u' :: '\x7b' :: (Nat.toDigits 16 c.toNat ++ ['\x7d'])

/-- How one character stands inside double quotes. -/
def quotedChar (c : Char) : List Char :=
  if c = '"' then ['\\', '"']
  else if c = '\\' then ['\\', '\\']
  else if c = '\n' then ['\\', 'n']
  else if c = '\r' then ['\\', 'r']
  else if c = '\t' then ['\\', 't']
  else if c.toNat = 0 then ['\\', '0']
  else if isInvisible c || isCombining c || isUnassigned c then codeEscape c
  else [c]

/-- A text between double quotes. -/
def quoted (s : String) : String :=
  String.ofList ('"' :: (s.toList.flatMap quotedChar ++ ['"']))

end Text
end TurtleLogo
