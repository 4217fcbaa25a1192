import Framing.Grouping
import Framing.Json.Parser

/-!
Settings, and how they are read from JSON. A record is written as an object, or as an array of its
fields in order; fields that are left out have their defaults.
-/

namespace Framing

namespace Json

-- The fields of a record that `json` gives, of those called `names`. An object may have other fields
-- beside them, but none of them twice.
def fields? (names : List String) : Json → Option (List (String × Json))
  | array items    => if items.length ≤ names.length then some (names.zip items) else none
  | object members => do
    let members ← members.mapM fun (key, value) => key.map (·, value)
    let known := members.filter fun (key, _) => names.contains key
    if (known.map Prod.fst).Nodup then some known else none
  | _              => none

-- The field called `name`, as `read?` reads it.
def field? {α : Type} (fields : List (String × Json)) (name : String) (read? : Json → Option α)
    (default : α) : Option α :=
  match fields.lookup name with
  | none       => some default
  | some value => read? value

-- A natural number that fits a 64-bit word.
def word? : Json → Option Nat
  | number (some value) => if value < UInt64.size then some value else none
  | _                   => none

end Json

namespace Grouping

def ofName? : String → Option Grouping
  | "single" => some together
  | "unfold" => some apart
  | _        => none

-- A mode is written as its name, or as an object with its name for the only key and null behind it.
def ofJson? : Json → Option Grouping
  | .string (some name)          => ofName? name
  | .object [(some name, .null)] => ofName? name
  | _                            => none

end Grouping

-- The settings of a decoder.
structure DecoderSettings where
  floor    : Nat      := 256
  grouping : Grouping := .together
  deriving DecidableEq, Repr

def DecoderSettings.ofJson? (json : Json) : Option DecoderSettings := do
  let standard : DecoderSettings := {}
  let fields ← json.fields? ["min_capacity", "fan_out"]
  let floor ← Json.field? fields "min_capacity" Json.word? standard.floor
  let grouping ← Json.field? fields "fan_out" Grouping.ofJson? standard.grouping
  return { floor, grouping }

-- The settings for a transport that is read in slices.
structure TransportSettings where
  sliceSize : Nat := 8192
  deriving DecidableEq, Repr

def TransportSettings.ofJson? (json : Json) : Option TransportSettings := do
  let standard : TransportSettings := {}
  let fields ← json.fields? ["read_size"]
  let sliceSize ← Json.field? fields "read_size" Json.word? standard.sliceSize
  return { sliceSize }

end Framing
