import DerivationBelief.ExtendingMarks
import DerivationBelief.UnprintableCharacters

/-!
# Quoted texts

A text in double quotes.  Quotes and backslashes are escaped, line ends, tabs and the zero character
have escapes of their own, and every other character that does not show on its own is given by its
number.
-/

namespace DerivationBelief.Text

/-- Whether a character does not show on its own. -/
def isHidden (c : Char) : Bool :=
  isUnprintable c || isExtending c

def quotedChar (c : Char) : List Char :=
  match c with
  | '"' => ['\\', '"']
  | '\\' => ['\\', '\\']
  | '\n' => ['\\', 'n']
  | '\r' => ['\\', 'r']
  | '\t' => ['\\', 't']
  | c =>
      if c.toNat = 0 then ['\\', '0']
      else if isHidden c then ['\\', 'u', '{'] ++ Nat.toDigits 16 c.toNat ++ ['}']
      else [c]

def quoted (text : String) : String :=
  "\"" ++ String.ofList (text.toList.flatMap quotedChar) ++ "\""

end DerivationBelief.Text
