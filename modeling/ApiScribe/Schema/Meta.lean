import ApiScribe.Schema.Declaration

/-! Fields that a serializer takes from its model. The class `Meta` inside a
serializer names them and may change who writes them; fields that the body
declares stay as they are. -/
namespace ApiScribe
open Source

/-- Fields of models by the name of the model. -/
abbrev ModelIndex := List (String × List Field)

namespace Field

/-- The names that `Meta` selects. Leaving out some fields selects all others. -/
def selectedNames (options : Block) (modelNames : List String) : List String :=
  match options.value? "fields" with
  | some (.str text) => if text = "__all__" then modelNames else []
  | some value => value.strings
  | none => if (options.value? "exclude").isSome then modelNames else []

/-- The field that a selected name stands for. One that the model does not have
is of unknown type, but every model has an `id`. -/
def selected (modelFields : List Field) (name : String) : Field :=
  (find? modelFields name).getD
    (if name = "id" then implicitId else { name, type := .unknown })

/-- The selected names that are neither declared nor excluded, each once. -/
def missingNames (declared exclude : List String) : List String → List String
  | [] => []
  | name :: rest =>
    if exclude.contains name || declared.contains name then missingNames declared exclude rest
    else name :: missingNames (declared ++ [name]) exclude rest

/-- The literal truth value of an entry. -/
def flagEntry? (options : Value) (key : String) : Option Bool :=
  match options.entry? key with
  | some (.bool flag) => some flag
  | _ => none

def markReadOnly (field : Field) : Field := { field with readOnly := true, required := false }

/-- A field with the entry `read_only` of its options. -/
def withReadOnly (field : Field) : Option Bool → Field
  | some true => field.markReadOnly
  | some false => { field with readOnly := false }
  | none => field

/-- A field with the entry `write_only` of its options. -/
def withWriteOnly (field : Field) : Option Bool → Field
  | some writeOnly => { field with writeOnly }
  | none => field

/-- A field with the entry `required` of its options. A field that is only read
is never required. -/
def withRequired (field : Field) : Option Bool → Field
  | some required => { field with required := required && !field.readOnly }
  | none => field

/-- Changes who writes a field as `extra_kwargs` says, entry by entry. -/
def withOptions (field : Field) (options : Value) : Field :=
  let field := field.withReadOnly <| flagEntry? options "read_only"
  let field := field.withWriteOnly <| flagEntry? options "write_only"
  field.withRequired <| flagEntry? options "required"

/-- A selected field as the options of `Meta` change it. -/
def adjusted (options : Block) (field : Field) : Field :=
  let readOnly := ((options.value? "read_only_fields").map Value.strings).getD []
  let field := if readOnly.contains field.name then field.markReadOnly else field
  match (options.value? "extra_kwargs").bind (Value.entry? field.name) with
  | some extra => field.withOptions extra
  | none => field

/-- The fields of the model that `Meta` names. -/
def metaModel (options : Block) (models : ModelIndex) : List Field :=
  match (options.value? "model").bind Value.asName? with
  | some model => (models.lookup (lastSegmentOf model)).getD []
  | none => []

/-- The fields that `Meta` adds to declared ones. -/
def addedByMeta (declared : List Field) (options : Block) (models : ModelIndex) : List Field :=
  let modelFields := metaModel options models
  let exclude := ((options.value? "exclude").map Value.strings).getD []
  let wanted := missingNames (names declared) exclude
    (selectedNames options (names modelFields))
  wanted.map fun name => (selected modelFields name).adjusted options

/-- The fields of a serializer body with those that its `Meta` adds. -/
def ofSerializer (declared : Declared) (models : ModelIndex) : List Field :=
  let fields := declaredBySerializer declared
  match declared.definition.inner? "Meta" with
  | some options => fields ++ addedByMeta fields options.block models
  | none => fields

end Field

/-- The fields of a class by its role. A class that is a model and a serializer
has the fields of a model. -/
def Registry.fields (registry : Registry) (declared : Declared) (models : ModelIndex) :
    List Field :=
  if registry.has declared .model then Field.declaredByModel declared
  else if registry.has declared .serializer then Field.ofSerializer declared models
  else []

end ApiScribe
