import ClassLang.Token.Lexeme
import ClassLang.Diagnostic.Report

/-!
# From text to tokens

A text is cut into lexemes from left to right. Those that stand for a token are kept, with their
text and span, and the end of the text becomes the last token. A character at which no lexeme
starts is refused.
-/

namespace ClassLang.Token

/-- What a text is called that was given no name. -/
def unnamed : String := "shell"

/-- The token at the end of a text. -/
def endOfText (p : Position) : Token := ⟨.eof, "EOF", ⟨p, p⟩⟩

/-- The tokens of a text that starts at `p`. -/
def scan (p : Position) (text : List Char) : Except Diagnostic (List Token) :=
  match text with
  | [] => .ok [endOfText p]
  | c :: rest =>
    match Lexeme.first? c rest with
    | none => .error ⟨.unrecognisedToken (String.singleton c), ⟨p, p.next c⟩⟩
    | some lexeme =>
      let written := c :: rest.take lexeme.more
      let q := p.behind written
      match scan q (rest.drop lexeme.more), lexeme.kind with
      | .error d, _ => .error d
      | .ok tokens, none => .ok tokens
      | .ok tokens, some kind => .ok (⟨kind, String.ofList written, ⟨p, q⟩⟩ :: tokens)
termination_by text.length
decreasing_by simp only [List.length_cons, List.length_drop]; omega

/-- The tokens of the text called `file`. -/
def ofText (file text : String) : Except Diagnostic (List Token) :=
  scan (.origin file) text.toList

end ClassLang.Token
