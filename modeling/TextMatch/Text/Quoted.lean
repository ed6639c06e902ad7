import TextMatch.Decimal
import TextMatch.Text.Extender
import TextMatch.Text.Printable

namespace TextMatch.Text

/-!
# Quoted characters

How a message shows a single character: between single quotes, so written that every character
can be seen and told from every other.

* `shortEscape?` — the six characters with an escape of two characters;
* `codeEscape` — the escape by code point;
* `escaped` — what stands between the quotes;
* `quoted` — the whole.
-/

/-- The single quote. -/
def quoteMark : Char := '\x27'

/-- The character every escape begins with. -/
def backslash : Char := '\x5c'

/-- The letter after the backslash for the characters that have a short escape. -/
def shortEscape? (c : Char) : Option Char :=
  if c = Char.ofNat 0 then some '0'
  else if c = '\t' then some 't'
  else if c = '\n' then some 'n'
  else if c = '\r' then some 'r'
  else if c = quoteMark then some quoteMark
  else if c = backslash then some backslash
  else none

/-- The escape by code point: the number in lower-case hexadecimal, without leading zeros,
    between braces. -/
def codeEscape (c : Char) : List Char :=
  [backslash, 'u', '\x7b'] ++ Decimal.hexDigits c.toNat ++ ['\x7d']

/-- The text of a character inside the quotes.  A short escape comes first; then what would not
    show by itself, because it attaches to the quote or has no shape, goes by its code point; all
    else, the double quote included, stands as it is. -/
def escaped (c : Char) : List Char :=
  match shortEscape? c with
  | some letter => [backslash, letter]
  | none => if attaches c || !hasShape c then codeEscape c else [c]

/-- A character between single quotes. -/
def quoted (c : Char) : String :=
  String.ofList (quoteMark :: escaped c ++ [quoteMark])

end TextMatch.Text
