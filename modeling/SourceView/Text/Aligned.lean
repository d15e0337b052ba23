/-! Aligned texts: a text filled up with spaces to the width of its column. A text that is wider
than its column stays as it is. -/
namespace SourceView.Text

/-- A text with the missing spaces in front of it. -/
def alignedRight (width : Nat) (text : String) : String :=
  String.ofList (text.toList.leftpad width ' ')

/-- A text with the missing spaces behind it. -/
def alignedLeft (width : Nat) (text : String) : String :=
  String.ofList (text.toList.rightpad width ' ')

example : alignedRight 5 "12" = "   12" := by decide +kernel
example : alignedLeft 6 "<middle>" = "<middle>" := by decide +kernel

end SourceView.Text
