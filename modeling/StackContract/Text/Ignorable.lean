import StackContract.Text.Boundaries
/-!
# Ignorable letters

The letters of Unicode 17.0 with the property Default_Ignorable_Code_Point: the fillers that stand for a
missing part of a Hangul syllable and show nothing.
-/

namespace StackContract.Text

/-- The letters with the property Default_Ignorable_Code_Point. -/
def ignorable : Boundaries where
  points := [0x115f, 0x1161, 0x3164, 0x3165, 0xffa0, 0xffa1]

end StackContract.Text
