import DerivationBelief.JsonText

/-!
# Writing JSON

A value is written without blanks, members in their order.  In a string the quote, the backslash
and the control characters are escaped; everything else stands for itself.  A null is written in
place of a garbled value.
-/

namespace DerivationBelief.Json

def ofNat (n : Nat) : Json :=
  .number (Text.natDigits n)

def ofList {β : Type} (encode : β → Json) (values : List β) : Json :=
  .array (values.map encode)

def writtenChar (c : Char) : List Char :=
  match c with
  | '"' => ['\\', '"']
  | '\\' => ['\\', '\\']
  | '\n' => ['\\', 'n']
  | '\r' => ['\\', 'r']
  | '\t' => ['\\', 't']
  | c =>
      if c.toNat < 0x20 then
        let digits := Nat.toDigits 16 c.toNat
        ['\\', 'u'] ++ List.replicate (4 - digits.length) '0' ++ digits
      else [c]

def writtenString (text : String) : String :=
  "\"" ++ String.ofList (text.toList.flatMap writtenChar) ++ "\""

mutual

def text : Json → String
  | .null | .garbled => "null"
  | .bool value => if value then "true" else "false"
  | .number literal => String.ofList literal
  | .string value => writtenString value
  | .array elements => "[" ++ ",".intercalate (elementTexts elements) ++ "]"
  | .object members => "\x7b" ++ ",".intercalate (memberTexts members) ++ "\x7d"

def elementTexts : List Json → List String
  | [] => []
  | value :: rest => value.text :: elementTexts rest

def memberTexts : List (String × Json) → List String
  | [] => []
  | (name, value) :: rest => (writtenString name ++ ":" ++ value.text) :: memberTexts rest

end

end DerivationBelief.Json
