/-! Texts filled up with blanks to a width. -/
namespace Scriptlet.Text

def blanksTo (width : Nat) (s : String) : String :=
  String.ofList (List.replicate (width - s.length) ' ')

def alignLeft (width : Nat) (s : String) : String := s ++ blanksTo width s

def alignRight (width : Nat) (s : String) : String := blanksTo width s ++ s

end Scriptlet.Text
