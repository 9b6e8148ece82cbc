/-!
The pieces an XML document is made of, in the order in which they are written.
-/

namespace SoapClient.Xml

/-- A piece of a document. Names are as written, with their qualifier; attribute values and texts
have their references resolved. -/
inductive Event where
  /-- The tag that opens an element. -/
  | startTag (name : String) (attributes : List (String × String))
  /-- The tag of an element without content. -/
  | emptyTag (name : String) (attributes : List (String × String))
  /-- The tag that closes an element. -/
  | endTag (name : String)
  /-- Character data. -/
  | text (content : String)
  /-- Character data in a `CDATA` section. -/
  | cdata (content : String)
  /-- A comment, a processing instruction, a declaration or a document type. -/
  | skipped
  deriving DecidableEq

end SoapClient.Xml
