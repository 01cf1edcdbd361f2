import TagLedger.Entry.Basic
import TagLedger.Json.Fenced
import TagLedger.Markup.Element

/-!
Entries made from parsed elements. The content of an element becomes the content of its entry, an
attribute `name` or `type` its name or type, and all other attributes its parameters.
-/

namespace TagLedger

namespace Markup.Attributes

/-- The attributes but one. -/
def erase (a : Attributes) (name : Text) : Attributes := a.filter fun p => p.1 != name

/-- Attributes as members of an object. -/
def toMembers (a : Attributes) : Json.Members :=
  a.map fun p => (String.ofList p.1, .str (String.ofList p.2))

end Markup.Attributes

namespace Entry

/-- The value of an attribute, or what was there before. -/
def attributeOr (a : Markup.Attributes) (name : Text) (before : String) : String :=
  match a.get? name with
  | some v => String.ofList v
  | none => before

/-- The data that the content of an event writes; content that is no JSON is a text. -/
def eventData (content : Text) : Json :=
  match Json.parseFenced content with
  | .ok j => j
  | .error _ => .str (String.ofList content)

/-- Content, name and parameters of an element put into its entry. Results, steps and runs have none
of them. -/
def fill (x : Markup.Element) : Entry → Entry
  | .thought e => .thought { e with content := String.ofList x.content }
  | .call e =>
    .call { e with
      content := String.ofList x.content
      name := attributeOr x.attributes "name".toList e.name
      params := (x.attributes.erase "name".toList).toMembers }
  | .output e =>
    .output { e with
      content := String.ofList x.content
      type := attributeOr x.attributes "type".toList e.type
      params := (x.attributes.erase "type".toList).toMembers }
  | .input e =>
    .input { e with
      content := String.ofList x.content
      type := attributeOr x.attributes "type".toList e.type
      params := (x.attributes.erase "type".toList).toMembers }
  | .event e =>
    .event { e with
      name := attributeOr x.attributes "name".toList e.name
      data := eventData x.content
      params := (x.attributes.erase "name".toList).toMembers }
  | .result e => .result e
  | .step e => .step e
  | .run e => .run e

/-- The entry of an element as the element is now. -/
def withElement (x : Markup.Element) (e : Entry) : Entry :=
  let filled := e.fill x
  filled.withHeader { filled.header with done := x.done }

end Entry

end TagLedger
