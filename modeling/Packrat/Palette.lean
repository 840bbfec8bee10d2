/-!
# Colours

Escape sequences for coloured text on a terminal. A palette without colours has an empty text for
each of them, so that printing is the same with and without.
-/

namespace Packrat

/-- The colours of printed programs, trees and traces. -/
structure Palette where
  /-- Rules and kinds of nodes. -/
  blue : String
  /-- Texts and tokens. -/
  green : String
  /-- Errors. -/
  red : String
  /-- Spans, trivia and punctuation. -/
  dim : String
  reset : String
  deriving Repr, DecidableEq

namespace Palette

/-- Coloured text. -/
def on : Palette := ⟨"\x1b[34m", "\x1b[32m", "\x1b[31m", "\x1b[2m", "\x1b[0m"⟩

/-- Plain text. -/
def off : Palette := ⟨"", "", "", "", ""⟩

/-- Coloured or plain text. -/
def ofBool (colored : Bool) : Palette := if colored then on else off

/-- A text in blue. -/
def inBlue (p : Palette) (text : String) : String := p.blue ++ text ++ p.reset

/-- A text in green. -/
def inGreen (p : Palette) (text : String) : String := p.green ++ text ++ p.reset

/-- A text in red. -/
def inRed (p : Palette) (text : String) : String := p.red ++ text ++ p.reset

/-- A dimmed text. -/
def dimmed (p : Palette) (text : String) : String := p.dim ++ text ++ p.reset

end Palette

end Packrat
