/-
# Styled text

A line of a report is made of pieces, each of which may have an emphasis and a
colour. Without colours a piece is its text. With colours its style is set in
front and reset behind; a reset inside the text is followed by the style again.

Key definitions: `Report.Style`, `Report.Piece`, `Report.Piece.render`.
Key theorem: `Report.Piece.render_false`.
-/

namespace FetchClients
namespace Report

/-- How strongly a piece is shown. -/
inductive Emphasis where
  | bold
  | dim
deriving DecidableEq, Repr

/-- The colours that are used. -/
inductive Colour where
  | red
  | green
  | yellow
  | blue
  | cyan
deriving DecidableEq, Repr

/-- How a piece is shown. -/
structure Style where
  emphasis : Option Emphasis
  colour : Option Colour
deriving DecidableEq, Repr

/-- The number of an emphasis. -/
def Emphasis.code : Emphasis → String
  | bold => "1"
  | dim => "2"

/-- The number of a colour. -/
def Colour.code : Colour → String
  | red => "31"
  | green => "32"
  | yellow => "33"
  | blue => "34"
  | cyan => "36"

/-- The numbers of a style, the emphasis first. -/
def Style.codes (s : Style) : List String :=
  (s.emphasis.map Emphasis.code).toList ++ (s.colour.map Colour.code).toList

/-- A text that a terminal reads as an instruction about style. -/
def escape (codes : List String) : String :=
  "\x1b[" ++ String.intercalate ";" codes ++ "m"

/-- The text that ends every style. -/
def reset : String := escape ["0"]

/-- A text in which every reset is followed by the start of a style. -/
def restyled (start : List Char) : List Char → List Char
  | '\x1b' :: '[' :: '0' :: 'm' :: cs => reset.toList ++ start ++ restyled start cs
  | c :: cs => c :: restyled start cs
  | [] => []

/-- A text with its style. -/
structure Piece where
  style : Style
  text : String
deriving DecidableEq, Repr

namespace Piece

/-- A piece without style. -/
def plain (text : String) : Piece := ⟨⟨none, none⟩, text⟩

/-- A piece with an emphasis. -/
def shown (emphasis : Emphasis) (text : String) : Piece := ⟨⟨some emphasis, none⟩, text⟩

/-- A piece with a colour. -/
def coloured (colour : Colour) (text : String) : Piece := ⟨⟨none, some colour⟩, text⟩

/-- A piece with both. -/
def both (emphasis : Emphasis) (colour : Colour) (text : String) : Piece :=
  ⟨⟨some emphasis, some colour⟩, text⟩

/-- The text of a piece, with or without colours. -/
def render (colours : Bool) (p : Piece) : String :=
  if !colours || p.style.codes.isEmpty then p.text
  else
    let start := escape p.style.codes
    start ++ String.ofList (restyled start.toList p.text.toList) ++ reset

theorem render_false (p : Piece) : p.render false = p.text := rfl

end Piece

/-- The text of lines. -/
def renderLines (colours : Bool) (lines : List (List Piece)) : String :=
  String.join (lines.map fun line => String.join (line.map (·.render colours)) ++ "\n")

end Report
end FetchClients
