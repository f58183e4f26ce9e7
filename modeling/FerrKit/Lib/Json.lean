/-
JSON documents as `serde_json` holds them. A number is kept as it is
written: nothing here computes with one.
-/

namespace Json

inductive Value
  | null
  | bool (b : Bool)
  | number (text : String)
  | string (s : String)
  | array (items : List Value)
  | object (fields : List (String × Value))

/-- `Map<String, Value>`. -/
abbrev Map := List (String × Value)

def Map.get (m : Map) (key : String) : Option Value := List.lookup key m

namespace Value

/-- `Value::get`: nothing in what is not an object. -/
def get : Value → String → Option Value
  | .object fields, key => Map.get fields key
  | _, _ => none

def asStr : Value → Option String
  | .string s => some s
  | _ => none

def asArray : Value → Option (List Value)
  | .array items => some items
  | _ => none

def asBool : Value → Option Bool
  | .bool b => some b
  | _ => none

end Value

end Json
