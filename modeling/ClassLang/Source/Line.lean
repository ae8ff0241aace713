/-!
# Lines of a text

A newline ends a line, together with the one carriage return that may stand before it. What
follows the last newline is a line only if it is not empty.
-/

namespace ClassLang

/-- The lines of a text, without their ends. -/
def linesOf : List Char → List (List Char)
  | [] => []
  | '\r' :: '\n' :: rest => [] :: linesOf rest
  | '\n' :: rest => [] :: linesOf rest
  | c :: rest =>
    match linesOf rest with
    | [] => [[c]]
    | line :: lines => (c :: line) :: lines

/-- The line of the given number, counted from one. -/
def lineAt? (text : String) (number : Nat) : Option String :=
  match number with
  | 0 => none
  | n + 1 => (linesOf text.toList)[n]?.map String.ofList

end ClassLang
