/-!
# Highlighting

The escape sequences that a listing or a trace puts around its parts, by what the part is. `plain`
has none, so one rendering serves terminals and files.
-/

namespace StackContract.Text

/-- Escape sequences by what they highlight. -/
structure Palette where
  /-- Method labels, callees, calls and returns. -/
  label : String
  /-- Pushed constants and folded values. -/
  literal : String
  /-- Undecodable bytes, services and faults. -/
  alert : String
  /-- Addresses, depths and tags. -/
  muted : String
  reset : String

namespace Palette

/-- Terminal colours. -/
def ansi : Palette :=
  ⟨"\x1b[34m", "\x1b[32m", "\x1b[33m", "\x1b[2m", "\x1b[0m"⟩

/-- No highlighting. -/
def plain : Palette :=
  ⟨"", "", "", "", ""⟩

/-- A text between an escape sequence of the palette and its reset. -/
def paint (palette : Palette) (colour text : String) : String :=
  colour ++ text ++ palette.reset

end Palette

end StackContract.Text
