import SoapClient.Xml.Element
import SoapClient.Xml.Scanner
import SoapClient.Text.Utf8

/-!
Documents: building the tree of elements from the events of a document. The first event that does
not fit decides the fault.
-/

namespace SoapClient.Xml

/-- Why a document has no tree. -/
inductive DocumentError where
  /-- The bytes are no UTF-8 text. -/
  | notText
  /-- A tag, attribute, reference or section is malformed, or an end tag does not fit. -/
  | markup
  | noRoot
  | secondRoot
  | textOutsideRoot
  | unclosed (localName : String)
  | unboundQualifier (qualifier name : String)
  deriving DecidableEq

/-- What the fault is, where that can be said. -/
def DocumentError.detail? : DocumentError → Option String
  | .notText => some "document is not valid UTF-8"
  | .markup => none
  | .noRoot => some "document has no root element"
  | .secondRoot => some "document has more than one root element"
  | .textOutsideRoot => some "text content outside of the root element"
  | .unclosed localName =>
    some ("unexpected end of document, element '" ++ localName ++ "' is not closed")
  | .unboundQualifier qualifier name =>
    some ("namespace prefix '" ++ qualifier ++ "' of element '" ++ name ++ "' is not bound")

/-- A fault of a document as shown to a reader, where it can be said what it is. -/
def DocumentError.describe (detail : String) : String := "Malformed document: " ++ detail

/-- The fault as shown to a reader. -/
def DocumentError.message (e : DocumentError) : String :=
  match e.detail? with
  | some detail => describe detail
  | none => "Malformed document"

/-- The element that a tag opens, still without content. -/
def Element.ofTag (outer : Scope) (name : String) (attributes : List (String × String)) :
    Except DocumentError Element :=
  let scope := outer.enter attributes
  let (qualifier, localName) := (splitName? name).getD ("", name)
  let others := attributes.filter fun (a, _) => (Scope.declared? a).isNone
  match scope.find? qualifier with
  | some ns => .ok ⟨some ns, localName, others, scope, [], ""⟩
  | none =>
    if qualifier = "" then .ok ⟨none, localName, others, scope, [], ""⟩
    else .error (.unboundQualifier qualifier name)

/-- An element whose end tag has not come yet. -/
structure OpenElement where
  /-- The name in its tag. -/
  written : String
  /-- The element as its tag has it. -/
  tag : Element
  /-- The children so far, the latest first. -/
  children : List Element
  /-- The character data so far. -/
  text : String

/-- The element at its end tag. Where there are children, text of blanks alone is dropped. -/
def OpenElement.close (o : OpenElement) : Element :=
  { o.tag with
    children := o.children.reverse
    text := if o.children ≠ [] ∧ Text.isBlankText o.text then "" else o.text }

/-- A document that is read up to some event. -/
structure PartialDocument where
  /-- The open elements, the innermost first. -/
  stack : List OpenElement
  /-- The root, once it is closed. -/
  root : Option Element

namespace PartialDocument

/-- Nothing has been read. -/
def start : PartialDocument := ⟨[], none⟩

/-- The declarations in force. -/
def scope (d : PartialDocument) : Scope :=
  match d.stack with
  | [] => Scope.outermost
  | o :: _ => o.tag.scope

/-- Puts a closed element into its place. -/
def attach (d : PartialDocument) (e : Element) : Except DocumentError PartialDocument :=
  match d.stack, d.root with
  | o :: outer, root => .ok ⟨{ o with children := e :: o.children } :: outer, root⟩
  | [], none => .ok ⟨[], some e⟩
  | [], some _ => .error .secondRoot

/-- Adds character data to the innermost open element. -/
def addText (d : PartialDocument) (content : String) : Except DocumentError PartialDocument :=
  match d.stack with
  | o :: outer => .ok ⟨{ o with text := o.text ++ content } :: outer, d.root⟩
  | [] => if Text.isBlankText content then .ok d else .error .textOutsideRoot

/-- Reads one event. -/
def step (d : PartialDocument) : Event → Except DocumentError PartialDocument
  | .startTag name attributes => do
    let tag ← Element.ofTag d.scope name attributes
    if d.stack.isEmpty ∧ d.root.isSome then .error .secondRoot
    else .ok ⟨⟨name, tag, [], ""⟩ :: d.stack, d.root⟩
  | .emptyTag name attributes => do
    let tag ← Element.ofTag d.scope name attributes
    d.attach tag
  | .endTag name =>
    match d.stack with
    | [] => .error .markup
    | o :: outer =>
      if o.written = name then attach ⟨outer, d.root⟩ o.close else .error .markup
  | .text content => d.addText content
  | .cdata content => d.addText content
  | .skipped => .ok d

/-- The root of a document that is read to its end. -/
def finish (d : PartialDocument) : Except DocumentError Element :=
  match d.stack, d.root with
  | o :: _, _ => .error (.unclosed o.tag.localName)
  | [], some root => .ok root
  | [], none => .error .noRoot

end PartialDocument

/-- The root element of a sequence of events. -/
def Element.ofEvents (events : List Event) : Except DocumentError Element := do
  let d ← events.foldlM PartialDocument.step PartialDocument.start
  d.finish

/-- The root element of a scan. What comes before a fault of the scan is looked at first. -/
def Element.ofScan (s : Scan) : Except DocumentError Element := do
  let d ← s.events.foldlM PartialDocument.step PartialDocument.start
  if s.isComplete then d.finish else .error .markup

/-- The characters without one byte order mark in front. -/
def dropMark : List Char → List Char
  | '\uFEFF' :: cs => cs
  | cs => cs

/-- The root element of a document. At most two byte order marks in front do not count. -/
def Element.ofText (text : String) : Except DocumentError Element :=
  Element.ofScan (scan (dropMark (dropMark text.toList)))

/-- The root element of a document in UTF-8. -/
def Element.ofBytes (bytes : List UInt8) : Except DocumentError Element :=
  match Text.Utf8.decode? bytes with
  | some text => Element.ofText text
  | none => .error .notText

end SoapClient.Xml
