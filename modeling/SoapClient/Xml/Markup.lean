import SoapClient.Xml.Reference

/-!
Markup to be written. Names are written as they are; texts and attribute values are escaped.
-/

namespace SoapClient.Xml

/-- A piece of markup. -/
inductive Markup where
  | element (name : String) (attributes : List (String × String)) (children : List Markup)
  /-- An element without content, written as a single tag. -/
  | empty (name : String) (attributes : List (String × String))
  | text (content : String)

namespace Markup

/-- Attributes, each after a blank. -/
def renderAttributes : List (String × String) → List Char
  | [] => []
  | (name, value) :: rest =>
    ' ' :: name.toList ++ '=' :: '"' :: escape value.toList ++ '"' :: renderAttributes rest

mutual

/-- The markup as characters. -/
def render : Markup → List Char
  | element name attributes children =>
    '<' :: name.toList ++ renderAttributes attributes ++ '>' :: renderAll children ++
      '<' :: '/' :: name.toList ++ ['>']
  | empty name attributes => '<' :: name.toList ++ renderAttributes attributes ++ ['/', '>']
  | text content => escape content.toList

/-- Pieces of markup one after the other. -/
def renderAll : List Markup → List Char
  | [] => []
  | m :: rest => m.render ++ renderAll rest

end

/-- The declaration in front of a document. -/
def declaration : List Char := "<?xml version=\"1.0\" encoding=\"utf-8\"?>".toList

/-- A document with a root. -/
def document (root : Markup) : String := String.ofList (declaration ++ root.render)

end Markup

end SoapClient.Xml
