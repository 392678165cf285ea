import ConvTiling.Text.Graphic

/-!
# Quoted texts

A word that a reader did not understand is shown in its report between
double quotes, so that its ends can be seen, and with every character that
would not show spelled out, so that what is in it can be seen too. The quote
and the backslash are escaped, and so the quoted form can be read back.
-/

namespace ConvTiling.Text

/-- The code point of a character in hexadecimal digits, lower case and as
few as there are. -/
def hexDigits (c : Char) : List Char := Nat.toDigits 16 c.toNat

/-- **How a character is written between quotes.** Five have an escape of
their own besides the quote, and a character that does not show is written
by its code point between braces. -/
def quoteChar (c : Char) : List Char :=
  if c = '\x00' then ['\\', '0']
  else if c = '\t' then ['\\', 't']
  else if c = '\r' then ['\\', 'r']
  else if c = '\n' then ['\\', 'n']
  else if c = '\\' then ['\\', '\\']
  else if c = '"' then ['\\', '"']
  else if showsAsItself c then [c]
  else ['\\', 'u', '\x7b'] ++ hexDigits c ++ ['\x7d']

/-- **A text between quotes.** -/
def quoted (text : String) : String :=
  String.ofList ('"' :: (text.toList.flatMap quoteChar ++ ['"']))

end ConvTiling.Text
