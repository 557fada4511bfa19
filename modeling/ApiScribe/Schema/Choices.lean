import ApiScribe.Expr.Printer
import ApiScribe.Schema.Field

/-! Choices of a field, written as pairs of value and label. A group is a label
with the choices of the group after it; groups are flattened. A choice without
a readable label is labelled by its value, and one without a readable value is
left out. -/
namespace ApiScribe

def ChoiceValue.ofValue? : Value → Option ChoiceValue
  | .int number => some (.int number)
  | value => value.asString?.map .str

namespace Choice

/-- The choice of a value and a label. -/
def ofPair (value label : Value) : List Choice :=
  match ChoiceValue.ofValue? value with
  | some key => [⟨key, label.asString?.getD key.text⟩]
  | none => []

/-- The choice of a value that stands alone. -/
def ofSingle (value : Value) : List Choice :=
  match ChoiceValue.ofValue? value with
  | some key => [⟨key, key.text⟩]
  | none => []

mutual

/-- The choices that a list or tuple holds. -/
def ofValue : Value → List Choice
  | .list items => ofItems items
  | .tuple items => ofItems items
  | _ => []

def ofItems : List Value → List Choice
  | [] => []
  | item :: rest => ofItem item ++ ofItems rest

/-- The choices of one item: a group, a pair or a bare value. -/
def ofItem : Value → List Choice
  | .list [label, group] =>
    if group.items?.isSome && label.asString?.isSome then ofValue group else ofPair label group
  | .tuple [label, group] =>
    if group.items?.isSome && label.asString?.isSome then ofValue group else ofPair label group
  | .list (value :: label :: _) => ofPair value label
  | .tuple (value :: label :: _) => ofPair value label
  | single => ofSingle single

end

end Choice
end ApiScribe
