import Framing.Json.Lexer

/-!
From tokens to documents. Arrays and objects that are still open wait on a stack.
-/

namespace Framing.Json

-- An open array with its items, or an open object with its members and the key of the next one. The
-- latest item or member comes first.
inductive Frame where
  | array (items : List Json)
  | object (members : List (Option String × Json)) (key : Option String)
  deriving Repr

mutual

-- The document whose next value is at the start of the tokens.
def value? (stack : List Frame) : List Token → Option Json
  | .scalar value :: tokens            => after? stack value tokens
  | .openArray :: .closeArray :: tokens   => after? stack (.array []) tokens
  | .openArray :: tokens               => value? (.array [] :: stack) tokens
  | .openObject :: .closeObject :: tokens => after? stack (.object []) tokens
  | .openObject :: .scalar (.string key) :: .colon :: tokens =>
    value? (.object [] key :: stack) tokens
  | _                                  => none

-- The document whose latest value is followed by the tokens.
def after? (stack : List Frame) (value : Json) (tokens : List Token) : Option Json :=
  match stack, tokens with
  | [], []                               => some value
  | .array items :: stack, .comma :: tokens =>
    value? (.array (value :: items) :: stack) tokens
  | .array items :: stack, .closeArray :: tokens =>
    after? stack (.array (value :: items).reverse) tokens
  | .object members key :: stack, .comma :: .scalar (.string next) :: .colon :: tokens =>
    value? (.object ((key, value) :: members) next :: stack) tokens
  | .object members key :: stack, .closeObject :: tokens =>
    after? stack (.object ((key, value) :: members).reverse) tokens
  | _, _                                 => none

end

-- The one document that makes up all of `text`.
def parse? (text : String) : Option Json :=
  (tokens? text.toList).bind (value? [])

end Framing.Json
