import ChainScript.Dict

/-! # Settings

Who acts by default, which names the accounts have, further names for addresses, the seed of the
chain in memory, and whether a run prints its output.
-/

namespace ChainScript
set_option autoImplicit false

structure Settings where
  defaultFrom : String := "Admin"
  accounts : List String := ["Admin", "Bank", "Geoff", "Torrey", "Robert", "Coburn", "Jared"]
  aliases : Dict String := [("Zero", "0x0000000000000000000000000000000000000000")]
  chainSeed : UInt64 := 0
  printValues : Bool := true
  deriving Inhabited

end ChainScript
