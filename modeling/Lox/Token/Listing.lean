import Lox.Token
import Lox.Text.Quoted

/-!
# Tokens as JSON

The list of tokens as an indented JSON array of objects. The kind of a literal is an object that
holds its value under the kind's name.
-/

set_option autoImplicit false

namespace Lox.Token

/-- An object with one field per line, its closing brace indented by `margin`. -/
def jsonObject (margin : String) (fields : List (String × String)) : String :=
  let lines := fields.map fun (key, value) => margin ++ "  " ++ Text.json key ++ ": " ++ value
  "\x7b\n" ++ String.intercalate ",\n" lines ++ "\n" ++ margin ++ "\x7d"

/-- The kind of a token. -/
def jsonKind : Kind → String
  | .string contents => jsonObject "    " [("STRING", Text.json contents)]
  | .number value => jsonObject "    " [("NUMBER", Number.json value)]
  | kind => Text.json kind.name

/-- One token. -/
def json (token : Token) : String :=
  jsonObject "  " [("token_type", jsonKind token.kind), ("lexeme", Text.json token.lexeme),
    ("line", toString token.line)]

/-- A list of tokens. -/
def jsonListing (tokens : List Token) : String :=
  if tokens.isEmpty then "[]"
  else
    "[\n" ++ String.intercalate ",\n" (tokens.map fun token => "  " ++ token.json) ++ "\n]"

end Lox.Token
