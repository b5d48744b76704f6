/-! # ASCII letters

    Words of a fixed vocabulary are compared without regard to the case of the letters from
    A to Z.  Letters outside ASCII have no case here. -/

namespace LinearAssignment.Text

/-- The text with the letters from A to Z made small; all other characters stay. -/
def lowerAscii (text : String) : String := String.ofList (text.toList.map Char.toLower)

end LinearAssignment.Text
