import JavaFrontend.Text.Form
import JavaFrontend.Token.Basic

/-!
Tokens as forms.
-/

namespace JavaFrontend

/-- What a token stands for. -/
def TokenValue.form : TokenValue → Form
  | .none => .absent
  | .int value => .call "int" [.word (toString value.toInt)]
  | .long value => .call "long" [.word (toString value.toInt)]
  | .float bits => .call "float" [.bits 8 bits.toNat]
  | .double bits => .call "double" [.bits 16 bits.toNat]
  | .char value => .call "char" [.number value.toNat]
  | .string value => .call "string" [.quoted value]
  | .error reason => .call "error" [.quoted reason.message]

namespace Token

/-- The kind, the text, the place and the value. -/
def formParts (token : Token) : List Form :=
  [.kind token.kind, .quoted token.text, token.position.form, token.value.form]

def form (token : Token) : Form := .call "token" token.formParts

end Token

end JavaFrontend
