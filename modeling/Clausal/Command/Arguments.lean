/-
  Clausal.Command.Arguments

  Options on a command line. Letters stand behind a dash, several of them together if they like;
  a letter that takes a value takes the rest of its word, or the next word if nothing is left.
  Options end at the first word that is none; a lone dash and an empty word are none, and two
  dashes end them without being counted among the words that follow.
-/
namespace Clausal

/-- The letters a command knows, and whether each takes a value. -/
abbrev Letters := List (Char × Bool)

/-- An option as it was given. The value is empty for a letter that takes none. -/
structure Given where
  letter : Char
  value : String
  deriving DecidableEq, Repr

/-- What is wrong with options. -/
inductive OptionFault where
  | unknown (letter : Char)
  | missingValue (letter : Char)
  deriving DecidableEq, Repr

def OptionFault.message : OptionFault → String
  | .unknown letter => "husk: unknown option -" ++ String.singleton letter
  | .missingValue letter => "husk: expected argument for -" ++ String.singleton letter

namespace Given

/-- Reads the letters of one word: the options, and the letter that still needs a value. -/
def ofLetters (letters : Letters) : List Char → Except OptionFault (List Given × Option Char)
  | [] => .ok ([], none)
  | c :: rest =>
    match letters.lookup c with
    | none => .error (.unknown c)
    | some true =>
      if rest.isEmpty then .ok ([], some c) else .ok ([⟨c, String.ofList rest⟩], none)
    | some false => do
      let (options, unfilled) ← ofLetters letters rest
      return (⟨c, ""⟩ :: options, unfilled)

/-- Reads options up to the first word that is none, and gives the words that are left. -/
def ofWords (letters : Letters) : List String → Except OptionFault (List Given × List String)
  | [] => .ok ([], [])
  | word :: rest =>
    match word.toList with
    | ['-', '-'] => .ok ([], rest)
    | '-' :: c :: cs => do
      match ← ofLetters letters (c :: cs), rest with
      | (options, none), rest => do
        let (more, words) ← ofWords letters rest
        return (options ++ more, words)
      | (_, some letter), [] => .error (.missingValue letter)
      | (options, some letter), value :: rest => do
        let (more, words) ← ofWords letters rest
        return (options ++ ⟨letter, value⟩ :: more, words)
    | _ => .ok ([], word :: rest)

end Given

end Clausal
