/-!
JSON documents. A document is read as far as settings need it: of the
numbers only those are told that are written as plain natural numbers.
-/

namespace Framing

-- A string is `none` if its escapes spell no text, because half of a surrogate pair is missing.
inductive Json where
  | null
  | bool (value : Bool)
  | number (natural : Option Nat)
  | string (text : Option String)
  | array (items : List Json)
  | object (members : List (Option String × Json))
  deriving Repr

namespace Json

inductive Token where
  | comma
  | colon
  | openArray
  | closeArray
  | openObject
  | closeObject
  | scalar (value : Json)
  deriving Repr

end Json
end Framing
