import TagLedger.Json.Basic
import TagLedger.Number.Shortest
import TagLedger.Text.Printable

/-!
The written forms of JSON values: compact, on one line without blanks, and indented, with one item
to a line.
-/

namespace TagLedger.Json

/-- The written form of one character of a string. Quote, backslash and control characters are
escaped, all others stand for themselves. -/
def escapeChar (c : Char) : Text :=
  if c = '"' then ['\\', '"']
  else if c = '\\' then ['\\', '\\']
  else if c = '\x08' then ['\\', 'b']
  else if c = '\x0c' then ['\\', 'f']
  else if c = '\n' then ['\\', 'n']
  else if c = '\r' then ['\\', 'r']
  else if c = '\t' then ['\\', 't']
  else if c.val.toNat < 0x20 then
    ['\\', 'u', '0', '0', Text.hexDigit (c.val.toNat / 16), Text.hexDigit (c.val.toNat % 16)]
  else [c]

def stringText (s : String) : Text := '"' :: (s.toList.flatMap escapeChar ++ ['"'])

def Number.toText : Number → Text
  | .whole n => (toString n).toList
  | .real x => x.toText

mutual

def toText : Json → Text
  | .null => "null".toList
  | .bool true => "true".toList
  | .bool false => "false".toList
  | .num n => n.toText
  | .str s => stringText s
  | .arr items => '[' :: (itemsText items ++ [']'])
  | .obj members => '\x7b' :: (membersText members ++ ['\x7d'])

def itemsText : List Json → Text
  | [] => []
  | [x] => toText x
  | x :: y :: xs => toText x ++ ',' :: itemsText (y :: xs)

def membersText : Members → Text
  | [] => []
  | [(k, v)] => stringText k ++ ':' :: toText v
  | (k, v) :: m :: ms => stringText k ++ ':' :: (toText v ++ ',' :: membersText (m :: ms))

end

def compact (j : Json) : String := String.ofList j.toText

/-- A new line at a depth of nesting, two blanks to a level. -/
def newLine (depth : Nat) : Text := '\n' :: List.replicate (2 * depth) ' '

mutual

/-- The indented form inside `depth` levels. -/
def indentedText (depth : Nat) : Json → Text
  | .arr (x :: xs) => '[' :: (indentedItems (depth + 1) (x :: xs) ++ newLine depth ++ [']'])
  | .obj (m :: ms) =>
    '\x7b' :: (indentedMembers (depth + 1) (m :: ms) ++ newLine depth ++ ['\x7d'])
  | .arr [] => ['[', ']']
  | .obj [] => ['\x7b', '\x7d']
  | .null => "null".toList
  | .bool b => toText (.bool b)
  | .num n => n.toText
  | .str s => stringText s

def indentedItems (depth : Nat) : List Json → Text
  | [] => []
  | [x] => newLine depth ++ indentedText depth x
  | x :: y :: xs => newLine depth ++ indentedText depth x ++ ',' :: indentedItems depth (y :: xs)

def indentedMembers (depth : Nat) : Members → Text
  | [] => []
  | [(k, v)] => newLine depth ++ stringText k ++ ':' :: ' ' :: indentedText depth v
  | (k, v) :: m :: ms =>
    newLine depth ++ stringText k ++ ':' :: ' ' ::
      (indentedText depth v ++ ',' :: indentedMembers depth (m :: ms))

end

def indented (j : Json) : String := String.ofList (j.indentedText 0)

end TagLedger.Json
