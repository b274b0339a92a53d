/-
  Clausal.Text.Layout

  Texts put side by side: joined by a separator, indented, and set flush right.
-/
namespace Clausal

/-- Texts one after the other, with a separator between any two. -/
def joinWith (separator : String) : List String → String
  | [] => ""
  | first :: rest => rest.foldl (fun acc next => acc ++ separator ++ next) first

def indent (n : Nat) : String := String.ofList (List.replicate n ' ')

/-- A text set flush right in a column of the given width. A longer text stands as it is. -/
def flushRight (width : Nat) (s : String) : String := indent (width - s.length) ++ s

end Clausal
