import ReactiveMarkup.Markup.Basic
import ReactiveMarkup.Text

/-!
# Fragments and their HTML

A fragment is the tree below a node as a plain value. Its HTML is a sequence of pieces, of which
only texts and attribute values come from content that is escaped. Anchors do not show, their
children do; what is below a text, a comment or a void element does not. The pretty form puts every
piece of structure on a line of its own and leaves blank texts out.
-/

namespace ReactiveMarkup

/-- The tree below a node, without what lies below texts and comments. -/
inductive Fragment where
  | element (tag : String) (attributes : List (String × String)) (children : List Fragment)
  | text (content : String)
  | comment (content : String)
  | anchor (name : String) (children : List Fragment)
deriving Inhabited, Repr

namespace Markup

/-- The tree below a node down to a depth. -/
def fragmentTo (markup : Markup) : Nat → NodeId → Fragment
  | 0, _ => .text ""
  | depth + 1, id =>
    match markup.kind id with
    | .element tag attributes =>
      .element tag attributes ((markup.children id).map (fragmentTo markup depth))
    | .text content => .text content
    | .comment content => .comment content
    | .anchor name => .anchor name ((markup.children id).map (fragmentTo markup depth))

/-- The tree below a node. -/
def fragment (markup : Markup) (id : NodeId) : Fragment := markup.fragmentTo markup.size id

end Markup

/-- A piece of HTML: markup as it is, a text, or the value of an attribute. -/
inductive Piece where
  | markup (html : String)
  | text (content : String)
  | value (content : String)
deriving DecidableEq, Repr

namespace Piece

/-- A character of a text, with the markup characters escaped. -/
def escapeInText (c : Char) : List Char :=
  if c = '&' then ['&', 'a', 'm', 'p', ';']
  else if c = '<' then ['&', 'l', 't', ';']
  else if c = '>' then ['&', 'g', 't', ';']
  else [c]

/-- A character of an attribute value, with the double quote escaped too. -/
def escapeInValue (c : Char) : List Char :=
  if c = '"' then ['&', 'q', 'u', 'o', 't', ';'] else escapeInText c

/-- A piece as it is written. -/
def written : Piece → String
  | .markup html => html
  | .text content => String.ofList (content.toList.flatMap escapeInText)
  | .value content => String.ofList (content.toList.flatMap escapeInValue)

end Piece

namespace Fragment

/-- Tags of elements that are written without content and end tag. -/
def voidTags : List String :=
  ["area", "base", "br", "col", "embed", "hr", "img", "input", "link", "meta", "source", "track",
    "wbr"]

/-- Whether an element has neither content nor an end tag, in any case of its letters. -/
def isVoid (tag : String) : Bool := voidTags.contains (Unicode.lowerAscii tag)

/-- The pieces of the attributes of an element. -/
def attributePieces : List (String × String) → List Piece
  | [] => []
  | (name, value) :: rest =>
    .markup (" " ++ name ++ "=\"") :: .value value :: .markup "\"" :: attributePieces rest

/-- The pieces of a start tag. -/
def startPieces (tag : String) (attributes : List (String × String)) : List Piece :=
  .markup ("<" ++ tag) :: attributePieces attributes ++ [.markup ">"]

/-- The end tag of an element. -/
def endTag (tag : String) : String := "</" ++ tag ++ ">"

mutual

/-- The pieces of the compact HTML of a fragment. -/
def pieces : Fragment → List Piece
  | .element tag attributes children =>
    if isVoid tag then startPieces tag attributes
    else startPieces tag attributes ++ piecesOfAll children ++ [.markup (endTag tag)]
  | .text content => [.text content]
  | .comment content => [.markup ("<!--" ++ content ++ "-->")]
  | .anchor _ children => piecesOfAll children

/-- The pieces of the compact HTML of some fragments. -/
def piecesOfAll : List Fragment → List Piece
  | [] => []
  | fragment :: rest => pieces fragment ++ piecesOfAll rest

end

/-- Pieces as they are written. -/
def write (pieces : List Piece) : String := String.join (pieces.map Piece.written)

/-- The compact HTML of some fragments. -/
def html (fragments : List Fragment) : String := write (piecesOfAll fragments)

/-- A line at a depth. -/
def line (indent : String) (depth : Nat) (content : String) : String :=
  String.join (List.replicate depth indent) ++ content ++ "\n"

mutual

/-- The pretty HTML of a fragment at a depth. -/
def pretty (indent : String) (depth : Nat) : Fragment → String
  | .element tag attributes children =>
    let start := write (startPieces tag attributes)
    if isVoid tag then line indent depth start
    else if children.isEmpty then line indent depth (start ++ endTag tag)
    else
      line indent depth start ++ prettyAll indent (depth + 1) children
        ++ line indent depth (endTag tag)
  | .text content =>
    if Text.isBlank content then "" else line indent depth (Piece.text content).written
  | .comment content => line indent depth ("<!--" ++ content ++ "-->")
  | .anchor _ children => prettyAll indent depth children

/-- The pretty HTML of some fragments at a depth. -/
def prettyAll (indent : String) (depth : Nat) : List Fragment → String
  | [] => ""
  | fragment :: rest => pretty indent depth fragment ++ prettyAll indent depth rest

end

end Fragment

namespace Markup

/-- The compact HTML of some nodes. -/
def html (markup : Markup) (ids : List NodeId) : String := Fragment.html (ids.map markup.fragment)

/-- The pretty HTML of some nodes. -/
def prettyHtml (markup : Markup) (indent : String) (ids : List NodeId) : String :=
  Fragment.prettyAll indent 0 (ids.map markup.fragment)

end Markup

end ReactiveMarkup
