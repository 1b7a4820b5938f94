import ChainScript.Contract.Index
import ChainScript.Expr.Fetch

/-! # Tables of fetchers

The fetchers of the core, and the namespace of fetchers that each contract brings.
-/

namespace ChainScript.Fetcher
set_option autoImplicit false

open Handler Param

/-- A fetcher that computes its value. -/
def computed (name : String) (params : List (Param Reading)) (formula : Formula)
    (description : String) : Fetcher :=
  named name params (.compute formula) description

def constant (name : String) (value : Value) (description : String) : Fetcher :=
  computed name [] (.constant value) description

def arithmetic (name : String) (operation : Arithmetic) (description : String) : Fetcher :=
  computed name [one "a" .number, one "b" .number] (.arithmetic operation) description

/-- The fetchers of the core, in the order in which they are tried. -/
def core : List Fetcher :=
  [constant "True" (.bool true) "The boolean true",
   constant "False" (.bool false) "The boolean false",
   constant "Anything" .anything "Matches any value in assertions",
   constant "Nothing" .nothing "The empty value",
   computed "Exactly" [one "amount" .number] .amount
     "A number taken as written, e.g. `(Exactly 1e18)`",
   computed "Exp" [one "amount" .exp] .amount "A number scaled by 1e18, e.g. `(Exp 1.5)`",
   computed "Percent" [one "amount" .percent] .amount
     "A percentage as a 1e18 mantissa, e.g. `(Percent 5)`",
   computed "Precisely" [one "amount" .number, one "precision" .number] .precisely
     "A number compared to the given significant figures",
   arithmetic "Add" .add "Sum of two numbers",
   arithmetic "Sub" .sub "Difference of two numbers",
   arithmetic "Mul" .mul "Product of two numbers",
   arithmetic "Div" .div "Exact quotient of two numbers",
   computed "Equal" [one "expected" .core, one "actual" .core] .equal
     "Whether two values compare equal",
   named "Default" [one "expr" .event, one "fallback" .event] .firstOf
     "Value of `expr`, or of `fallback` when `expr` cannot be resolved",
   computed "List" [each "items" .core] .list "A list of values",
   computed "Array" [each "items" .core] .array "An ordered array of values",
   computed "Address" [one "who" .address] .address "Address of an alias, account or contract",
   computed "Account" [one "name" .string] .account "Address of a named account",
   computed "LastContract" [] .lastContract "Address of the most recently deployed contract",
   computed "Var" [one "key" .string] .stored "A value stored with `Set`",
   named "Call" [one "address" .address, one "method" .string, each "args" .core] .call
     "Read a view method at an address",
   catchAll "Literal" [one "literal" .literal] (.compute .literal)
     "A number, hex address or string literal"]

/-- The fetchers behind the name of a contract. -/
def ofContract (i : ContractInstance) : Fetcher :=
  namespaced i.name
    [constant "Address" (.address i.address) "Address of the contract instance",
     constant "Artifact" (.string i.artifact) "Artifact the instance was deployed from",
     catchAll "View" [one "method" .string, each "args" .core] (.view i.address)
       "Read a view method, e.g. `(Token balanceOf Geoff)`"]
    (some ("Contract " ++ i.name ++ " (" ++ i.artifact ++ ")"))

/-- A registry: a static list followed by the fetchers synthesized for each name. -/
def registry (static : List Fetcher) (names : List String) (synthesize : String → List Fetcher) :
    List Fetcher :=
  static ++ names.flatMap synthesize

end ChainScript.Fetcher
