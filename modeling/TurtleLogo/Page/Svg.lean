import TurtleLogo.Number.Decimal
import TurtleLogo.Page.Layout

/-!
# SVG documents

The text of a page: one element a line, a `line` for each segment and a `path` through its outline for each arc.
-/

namespace TurtleLogo

/-- A name and a quoted value with a space before them. -/
def Svg.attribute (name value : String) : String :=
  " " ++ name ++ "=\"" ++ value ++ "\""

/-- The stroke as a style. -/
def Stroke.style (s : Stroke) : String :=
  "stroke:" ++ s.colour.rgb ++ "; stroke-width:" ++ toString s.width.toNat

/-- Both coordinates with a space between them. -/
def Point.text (p : Point) : String :=
  Number.text p.x ++ " " ++ Number.text p.y

/-- A path through the points of a figure. -/
def Figure.path (f : Figure) : String :=
  "M " ++ f.firstPoint.text ++ String.join (f.furtherPoints.map fun p => " L " ++ p.text)

/-- The element of a mark. -/
def Mark.svg (m : Mark) : String :=
  match m.figure with
  | .segment start finish =>
      "<line" ++ Svg.attribute "x1" (Number.text start.x) ++ Svg.attribute "y1" (Number.text start.y)
        ++ Svg.attribute "x2" (Number.text finish.x) ++ Svg.attribute "y2" (Number.text finish.y)
        ++ Svg.attribute "style" m.stroke.style ++ "/>"
  | .arc _ =>
      "<path" ++ Svg.attribute "fill" "none" ++ Svg.attribute "style" m.stroke.style
        ++ Svg.attribute "d" m.figure.path ++ "/>"

/-- The document of a page. -/
def Page.svg (p : Page) : String :=
  "<svg" ++ Svg.attribute "xmlns" "http://www.w3.org/2000/svg" ++ Svg.attribute "width" (toString p.width.toNat)
    ++ Svg.attribute "height" (toString p.height.toNat) ++ ">\n"
    ++ String.join (p.canvas.map fun m => m.svg ++ "\n") ++ "</svg>"

/-- The document of a canvas. -/
def Canvas.svg (canvas : Canvas) : String :=
  (Page.layout canvas).svg

end TurtleLogo
