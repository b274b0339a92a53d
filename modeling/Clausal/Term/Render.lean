/-
  Clausal.Term.Render

  The text of a term. Groups print as what they hold; parentheses are put where reading the
  text back needs them: around an element of an application that is itself a sequence of
  more than one element, and around an element of an arrow that is an arrow of more than
  one. Both tests look through groups.

  A missing term shows as a mark wherever it is shown by itself, in a group or as a side of a
  relation. A sequence with a missing element has no text, and a mark stands for the whole of it.
  `render` gives every term a text; whether there is one to be had says `text?`.
-/
import Clausal.Cause
import Clausal.Term.Basic
import Clausal.Text.Layout

namespace Clausal.Term

/-- Whether a term needs parentheses as an element of an application. -/
def isCompound : Term → Bool
  | .group t => t.isCompound
  | .seq _ xs => 1 < xs.length
  | _ => false

/-- Whether a term needs parentheses as an element of an arrow. -/
def isChain : Term → Bool
  | .group t => t.isChain
  | .arrow xs => 1 < xs.length
  | _ => false

/-- The texts of some elements, in parentheses where `wrap` says so. -/
def wrapped (wrap : Term → Bool) (elems : List Term) (texts : List String) : List String :=
  List.zipWith (fun t text => if wrap t then "(" ++ text ++ ")" else text) elems texts

mutual

/-- Whether a term has a text. Groups and relations always have one. -/
def hasText : Term → Bool
  | .seq .application xs => allHaveText xs
  | .seq .arrow xs => allHaveText xs
  | .seq .entity xs => entityHasText xs
  | .ident _ => true
  | .group _ => true
  | .rel _ _ _ => true
  | .builtin _ _ => true
  | .marker => true
  | .builtinMarker => true
  | .hole => true

/-- Whether none of some elements is missing and each has a text. -/
def allHaveText : List Term → Bool
  | [] => true
  | t :: ts => t != .hole && (t.hasText && allHaveText ts)

/-- Whether a type declaration shows no missing element. -/
def entityHasText : List Term → Bool
  | [] => true
  | t :: ts => t != .hole && (t.hasText && constructorsHaveText ts)

/-- Whether the constructors among some elements have a text. The others do not show. -/
def constructorsHaveText : List Term → Bool
  | [] => true
  | t :: ts => (!t.isApp || t.hasText) && constructorsHaveText ts

end

/-- Stands for a text that a term does not have. `place` tells where it was to be shown. -/
def textless (place : String) : String :=
  "%!" ++ place ++
    "(PANIC=String method: runtime error: invalid memory address or nil pointer dereference)"

/-- What a group holds, or a term that is printed by itself. -/
def inside (t : Term) (text : String) : String :=
  if t.hasText then text else textless "v"

/-- A side of a relation. A missing side shows as a format error. -/
def side (t : Term) (text : String) : String :=
  if t = .hole then "%!s(<nil>)" else if t.hasText then text else textless "s"

/-- What stands between the sides of a relation, and in front of them. -/
def Relation.render : Relation → String → String → String
  | .typing, left, right => left ++ " : " ++ right
  | .equation, left, right => left ++ " = " ++ right
  | .clause, left, right => "> " ++ left ++ " = " ++ right

/-- A type declaration whose elements have the given texts. Elements that are neither
    parameters nor constructors do not show. -/
def renderEntity (elems : List Term) (texts : List String) : String :=
  match elems, texts with
  | _ :: rest, name :: others =>
    let parts := rest.zip others
    let params := (parts.takeWhile (·.1.isIdent)).map (" " ++ ·.2)
    let constructors := (parts.filter (·.1.isApp)).map (·.2)
    "decltype " ++ name ++ String.join params ++
      (if constructors.isEmpty then "" else " = " ++ joinWith " | " constructors)
  | _, _ => "decltype"

mutual

/-- The text of a term. -/
def render : Term → String
  | .ident n => n
  | .group t => inside t t.render
  | .seq .application xs => joinWith " " (wrapped isCompound xs (renderAll xs))
  | .seq .arrow xs => joinWith " -> " (wrapped isChain xs (renderAll xs))
  | .seq .entity xs => renderEntity xs (renderAll xs)
  | .rel k a b => k.render (side a a.render) (side b b.render)
  | .builtin a b => "builtin " ++ Relation.typing.render (side a a.render) (side b b.render)
  | .marker => "<>"
  | .builtinMarker => "<b>"
  | .hole => "<nil>"

def renderAll : List Term → List String
  | [] => []
  | t :: ts => t.render :: renderAll ts

end

@[simp] theorem renderAll_eq_map (ts : List Term) : renderAll ts = ts.map render := by
  induction ts with
  | nil => rfl
  | cons t ts ih => simp [renderAll, ih]

/-- The text of a term that is asked for it directly. A missing term cannot be asked, and a sequence
    with a missing element has no answer. -/
def text? (t : Term) : Option String :=
  if t = .hole then none else if t.hasText then some t.render else none

/-- The text of a term inside a message, where a missing term shows as a format error. -/
def shown (t : Term) : String := side t t.render

/-- The text of a term that is printed by itself. -/
def printed (t : Term) : String := inside t t.render

/-! ## Head and tail -/

/-- Why a term has no head or no tail. -/
inductive PartFault where
  | notSequence (t : Term)
  | empty
  deriving Repr

def PartFault.cause : PartFault → Cause
  | .notSequence _ => .notSequence
  | .empty => .emptySequence

def PartFault.message : PartFault → String
  | .notSequence t => t.shown ++ ": " ++ Cause.notSequence.text
  | .empty => Cause.emptySequence.text

/-- The first element of a sequence. -/
def head : Term → Except PartFault Term
  | .seq _ (t :: _) => .ok t
  | .seq _ [] => .error .empty
  | t => .error (.notSequence t)

/-- The sequence of the same kind without its first element. An empty one stays empty. -/
def tail : Term → Except PartFault Term
  | .seq k xs => .ok (.seq k xs.tail)
  | t => .error (.notSequence t)

end Clausal.Term
