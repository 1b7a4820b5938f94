/-! # JSON values

The raw results of a chain, and the arguments handed to one. A number is kept as it is written; the
entries of an object stand in the order of their keys.
-/

namespace ChainScript
set_option autoImplicit false

inductive Json where
  | null
  | bool (flag : Bool)
  | number (literal : String)
  | string (text : String)
  | array (items : List Json)
  | object (entries : List (String × Json))
  deriving Inhabited

end ChainScript
