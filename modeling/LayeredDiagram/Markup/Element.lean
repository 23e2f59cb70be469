import LayeredDiagram.Markup.Escape
import LayeredDiagram.Number.Written

namespace LayeredDiagram

inductive AttributeValue where
  | text (s : String)
  | number (x : Float)

inductive Element where
  | node (tag : String) (attributes : List (String × AttributeValue)) (text : Option String)
      (children : List Element)

namespace Markup

-- What names of attributes keep of their characters: letters, digits, dashes and colons.
def isNameChar (c : Char) : Bool :=
  c.isAlphanum || c == '-' || c == ':'

-- What is not finite is written as zero.
def AttributeValue.write : AttributeValue → List Char
  | .text s => escapeAttribute s.toList
  | .number x => (Number.text (if x.isFinite then x else 0)).toList

def writeAttribute (a : String × AttributeValue) : List Char :=
  ' ' :: (a.1.toList.filter isNameChar ++ ['=', '"'] ++ AttributeValue.write a.2 ++ ['"'])

def openTag (tag : String) (attributes : List (String × AttributeValue)) : List Char :=
  '<' :: (tag.toList ++ attributes.flatMap writeAttribute)

-- An element around children that are written already. An element without text and children closes
-- itself.
def serialize (tag : String) (attributes : List (String × AttributeValue)) (text : Option String)
    (children : List (List Char)) : List Char :=
  match text, children with
  | none, [] => openTag tag attributes ++ ['/', '>']
  | _, _ =>
    openTag tag attributes ++ ['>'] ++ escape ((text.map String.toList).getD []) ++
      children.flatten ++ ['<', '/'] ++ tag.toList ++ ['>']

end Markup

namespace Element

mutual

def render : Element → List Char
  | node tag attributes text children =>
    Markup.serialize tag attributes text (renderAll children)

def renderAll : List Element → List (List Char)
  | [] => []
  | e :: es => e.render :: renderAll es

end

def attributes (pairs : List (String × String)) : List (String × AttributeValue) :=
  pairs.map fun (key, value) => (key, .text value)

end Element

end LayeredDiagram
