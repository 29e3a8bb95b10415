/-! # Columns

Texts that are filled up with spaces to a width. -/

namespace Lc3.Text

def alignRight (width : Nat) (text : String) : String :=
  String.ofList (text.toList.leftpad width ' ')

def alignLeft (width : Nat) (text : String) : String :=
  String.ofList (text.toList.rightpad width ' ')

end Lc3.Text
