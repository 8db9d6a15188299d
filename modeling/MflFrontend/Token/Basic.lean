import MflFrontend.Token.Kind
import MflFrontend.Token.Value

/-!
# Tokens

A token is a kind with a value and the place where it starts. Lines and columns are integers without
bounds, because a token need not come from a text.
-/

namespace MflFrontend

/-- One token. -/
structure Token where
  /-- What the token is. -/
  kind : TokenKind
  /-- The number, truth value, name or spelling that it carries. -/
  value : Value := .none
  /-- The line on which it starts, from one. -/
  line : Int := 0
  /-- The column in which it starts, from one. -/
  column : Int := 0
  deriving DecidableEq

/-- What equality of tokens looks at: values by their keys, all else as it is. -/
structure TokenKey where
  /-- The token's kind. -/
  kind : TokenKind
  /-- The key of the token's value. -/
  value : ValueKey
  /-- The token's line. -/
  line : Int
  /-- The token's column. -/
  column : Int
  deriving DecidableEq

namespace Token

/-- The key of a token. -/
def key (t : Token) : TokenKey := ⟨t.kind, t.value.key, t.line, t.column⟩

/-- Equality of tokens, values being compared by amount. -/
def agrees (a b : Token) : Bool := a.key == b.key

/-- How many different tokens a set of the two has. -/
def distinct (a b : Token) : Nat := if a.key = b.key then 1 else 2

/-- Whether the token can be shown. -/
def IsWritable (t : Token) : Prop := t.value.IsWritable

instance (t : Token) : Decidable t.IsWritable := inferInstanceAs (Decidable t.value.IsWritable)

/-- The token as it is shown, if it can be: its kind, and its value if it has one. -/
def display (t : Token) : String :=
  match t.value with
  | .none => "Token(" ++ t.kind.name ++ ")"
  | v => "Token(" ++ t.kind.name ++ ", " ++ v.display ++ ")"

end Token

end MflFrontend
