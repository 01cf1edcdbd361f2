import TagLedger.Json.Reader
import TagLedger.Text.Blank

/-!
JSON as a model writes it: bare, or inside a code fence marked `json`. Where it should be, markup
may have leaked in.
-/

namespace TagLedger.Json

def fenceOpen : Text := "```json".toList

def fenceClose : Text := "```".toList

/-- Removes the closing fence, if the text ends with one. -/
def dropFenceClose (t : Text) : Text :=
  match Text.dropPrefix? fenceClose.reverse t.reverse with
  | some rest => rest.reverse
  | none => t

/-- The JSON text inside blanks and an optional fence. A closing fence counts only after an opening
one. -/
def unfence (t : Text) : Text :=
  let trimmed := Text.trim t
  match Text.dropPrefix? fenceOpen trimmed with
  | some rest => Text.trim (dropFenceClose rest)
  | none => Text.trim trimmed

def parseFenced (t : Text) : Except ReadError Json := parse (unfence t)

end TagLedger.Json

namespace TagLedger.OutputContent

/-- Whether a text goes on with a tag name that ends there. -/
def startsTag (t : Text) (name : String) : Bool :=
  match Text.dropPrefix? name.toList t with
  | some (c :: _) => c == '>' || c == '/' || Text.isBlank c
  | _ => false

/-- Whether content opens with a tag of the vocabulary, be it an open or a close tag. -/
def isLeakedMarkup (t : Text) (tags : List String) : Bool :=
  match t with
  | '<' :: '/' :: rest => tags.any (startsTag rest)
  | '<' :: rest => tags.any (startsTag rest)
  | _ => false

end TagLedger.OutputContent
