import ApiScribe.Double

/-! Values of expressions, as far as declarations need them: literals,
containers, dotted names and calls. Any other expression is kept as its own
text, so that it can still be reported verbatim. -/
namespace ApiScribe

/-- The value that an expression denotes. -/
inductive Value where
  | str (text : String)
  | int (number : Int)
  | float (number : Double)
  | bool (flag : Bool)
  | none
  | list (items : List Value)
  | tuple (items : List Value)
  | dict (entries : List (Value × Value))
  | name (dotted : String)
  | call (callee : String) (args : List Value) (named : List (String × Value))
  | raw (text : String)
  deriving Inhabited

/-- A call with its positional and named arguments. -/
structure Call where
  callee : String
  args : List Value
  named : List (String × Value)

/-- The part of a dotted name after its last point. -/
def lastSegment (dotted : List Char) : List Char :=
  (dotted.reverse.takeWhile (· ≠ '.')).reverse

/-- The last segment of a name given as a string. -/
def lastSegmentOf (dotted : String) : String := String.ofList (lastSegment dotted.toList)

namespace Call

/-- The callee without its qualifiers. -/
def shortName (call : Call) : String := lastSegmentOf call.callee

def named? (call : Call) (key : String) : Option Value := call.named.lookup key

/-- Whether a named argument is literally true. -/
def flag (call : Call) (key : String) : Bool :=
  match call.named? key with
  | some (.bool true) => true
  | _ => false

/-- Whether a named argument is literally false. An absent one is not. -/
def flagFalse (call : Call) (key : String) : Bool :=
  match call.named? key with
  | some (.bool false) => true
  | _ => false

end Call

namespace Value

/-- Callees that mark their first argument as a message to localize. -/
def translators : List String :=
  ["_", "gettext", "gettext_lazy", "ugettext", "ugettext_lazy", "pgettext_lazy"]

/-- The text of a string, also one that is marked as a message. -/
def asString? : Value → Option String
  | .str text => some text
  | .call callee (first :: _) _ => if callee ∈ translators then first.asString? else .none
  | _ => .none

def asInt? : Value → Option Int
  | .int number => some number
  | _ => .none

/-- The items of a list or tuple. -/
def items? : Value → Option (List Value)
  | .list items => some items
  | .tuple items => some items
  | _ => .none

def asName? : Value → Option String
  | .name dotted => some dotted
  | _ => .none

def asCall? : Value → Option Call
  | .call callee args named => some ⟨callee, args, named⟩
  | _ => .none

/-- The value of the first entry whose key is a string with the given text. -/
def entry? (key : String) : Value → Option Value
  | .dict entries => (entries.find? fun entry => entry.1.asString? == some key).map (·.2)
  | _ => .none

/-- The strings among the items of a list or tuple. -/
def strings (value : Value) : List String :=
  (value.items?.getD []).filterMap asString?

end Value
end ApiScribe
