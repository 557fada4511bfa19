import ApiScribe.Schema.Choices
import ApiScribe.Schema.Registry

/-! Fields that a class body declares, each by a call of a field constructor.
Serializers and models have constructors of their own. Names that begin with an
underscore and augmented assignments declare no field. -/
namespace ApiScribe
open Text Source

/-- A call that is assigned to a name in a class body. -/
def Source.Block.declarations (block : Block) : List (String × Call) :=
  block.assignments.filterMap fun found =>
    if startsWith found.target "_" || found.augmented then none
    else found.value.asCall?.map fun call => (found.target, call)

namespace Field

/-- Sets what every constructor says in the same way. -/
def withCommon (field : Field) (call : Call) : Field :=
  { field with
    default := (call.named? "default").map Value.display
    helpText := (call.named? "help_text").map fun text => text.asString?.getD text.display
    maxLength := (call.named? "max_length").bind Value.asInt?
    source := (call.named? "source").bind Value.asString? }

/-- The value of a choices argument. A name stands for a constant of the class
or else of its module. -/
def choicesValue? (declared : Declared) (body : Block) : Value → Option Value
  | .name dotted =>
    (body.value? dotted).or
      ((declared.module.value? (lastSegmentOf dotted)).or (declared.module.value? dotted))
  | value => some value

/-- Sets the choices of a field. A string or integer with choices is a choice;
other types stay, as a multiple choice is a list of choices already. -/
def withChoices (field : Field) (choices : List Choice) : Field :=
  if choices.isEmpty then field
  else
    { field with
      choices
      type := if field.type = .string ∨ field.type = .integer then .choice else field.type }

private def readChoices (declared : Declared) (body : Block) (argument : Option Value) :
    List Choice :=
  ((argument.bind (choicesValue? declared body)).map Choice.ofValue).getD []

/-- The type that a serializer field constructor makes. -/
def serializerType? : String → Option FieldType
  | "BooleanField" | "NullBooleanField" => some .boolean
  | "CharField" | "RegexField" | "IPAddressField" | "FilePathField" => some .string
  | "ChoiceField" => some .choice
  | "MultipleChoiceField" => some (.listOf .choice)
  | "DateField" => some .date
  | "DateTimeField" => some .datetime
  | "DecimalField" => some .decimal
  | "DictField" | "HStoreField" => some .object
  | "DurationField" => some .duration
  | "EmailField" => some .email
  | "FileField" => some .file
  | "FloatField" => some .float
  | "ImageField" => some .image
  | "IntegerField" => some .integer
  | "JSONField" => some .json
  | "ListField" => some (.listOf .unknown)
  | "PrimaryKeyRelatedField" => some .primaryKey
  | "SlugField" => some .slug
  | "TimeField" => some .time
  | "URLField" => some .url
  | "UUIDField" => some .uuid
  | "HyperlinkedRelatedField" | "HyperlinkedIdentityField" => some .hyperlink
  | "SlugRelatedField" | "StringRelatedField" | "ReadOnlyField" => some .string
  | "SerializerMethodField" => some .method
  | _ => none

/-- Serializer field constructors whose fields are never written. -/
def readOnlyConstructors : List String :=
  ["HyperlinkedIdentityField", "StringRelatedField", "ReadOnlyField", "SerializerMethodField"]

/-- The type of a field that a serializer constructor makes, where constructors
beyond the known ones are told by the word that they end in. -/
def constructedType? (constructor : String) : Option FieldType :=
  (serializerType? constructor).or
    (if endsWith constructor "Serializer" then some (.nested constructor)
    else if endsWith constructor "Field" then some .unknown
    else none)

/-- The type of a list field from the constructor of its items. -/
def listType (call : Call) (bare : FieldType) : FieldType :=
  match (call.named? "child").bind Value.asCall? with
  | some child => .listOf ((serializerType? child.shortName).getD .unknown)
  | none => bare

/-- The argument that holds the choices of a serializer field. The choice
constructors take it also without a name. -/
def choicesArgument? (call : Call) : Option Value :=
  (call.named? "choices").or
    (if call.shortName = "ChoiceField" ∨ call.shortName = "MultipleChoiceField" then
      call.args.head?
    else none)

/-- The field that a call in a serializer body declares. -/
def ofSerializerCall? (declared : Declared) (body : Block) (name : String) (call : Call) :
    Option Field :=
  let constructor := call.shortName
  (constructedType? constructor).map fun bare =>
    let item := if constructor = "ListField" then listType call bare else bare
    let readOnly := readOnlyConstructors.contains constructor || call.flag "read_only"
    let field : Field :=
      { name
        type := if call.flag "many" then .listOf item else item
        readOnly
        writeOnly := call.flag "write_only"
        required := !call.flagFalse "required" && !readOnly
        nullable := call.flag "allow_null" || constructor == "NullBooleanField" }
    (field.withCommon call).withChoices (readChoices declared body (choicesArgument? call))

/-- The fields that a serializer body declares. -/
def declaredBySerializer (declared : Declared) : List Field :=
  let body := declared.definition.block
  body.declarations.filterMap fun (name, call) => ofSerializerCall? declared body name call

/-- The type that a model field constructor makes. -/
def modelType? : String → Option FieldType
  | "AutoField" | "BigAutoField" | "SmallAutoField" => some .integer
  | "CharField" | "TextField" | "FilePathField" | "GenericIPAddressField" | "IPAddressField"
  | "BinaryField" => some .string
  | "SlugField" => some .slug
  | "EmailField" => some .email
  | "URLField" => some .url
  | "UUIDField" => some .uuid
  | "IntegerField" | "BigIntegerField" | "SmallIntegerField" | "PositiveIntegerField"
  | "PositiveSmallIntegerField" | "PositiveBigIntegerField" => some .integer
  | "FloatField" => some .float
  | "DecimalField" => some .decimal
  | "BooleanField" | "NullBooleanField" => some .boolean
  | "DateField" => some .date
  | "DateTimeField" => some .datetime
  | "TimeField" => some .time
  | "DurationField" => some .duration
  | "FileField" => some .file
  | "ImageField" => some .image
  | "JSONField" => some .json
  | "ForeignKey" | "OneToOneField" => some .primaryKey
  | "ManyToManyField" => some (.listOf .primaryKey)
  | constructor => if endsWith constructor "Field" then some .unknown else none

/-- Model field constructors whose field is the key of the model. -/
def autoKeys : List String := ["AutoField", "BigAutoField", "SmallAutoField"]

/-- Whether a call in a model body declares the key of the model. -/
def declaresKey (call : Call) : Bool :=
  autoKeys.contains call.shortName || call.flag "primary_key"

/-- The field that a call in a model body declares. -/
def ofModelCall? (declared : Declared) (body : Block) (name : String) (call : Call) :
    Option Field :=
  let constructor := call.shortName
  (modelType? constructor).map fun type =>
    let readOnly := autoKeys.contains constructor || call.flag "auto_now" ||
      call.flag "auto_now_add" || call.flagFalse "editable"
    let field : Field :=
      { name
        type
        readOnly
        nullable := call.flag "null" || constructor == "NullBooleanField"
        required := !(readOnly || call.flag "blank" || call.flag "null" ||
          (call.named? "default").isSome) }
    (field.withCommon call).withChoices (readChoices declared body (call.named? "choices"))

/-- The fields of a model body. A model that declares no key has an `id` first. -/
def declaredByModel (declared : Declared) : List Field :=
  let body := declared.definition.block
  let fields := body.declarations.filterMap fun (name, call) =>
    ofModelCall? declared body name call
  let keyed := body.declarations.any fun (name, call) =>
    (ofModelCall? declared body name call).isSome && declaresKey call
  if keyed || fields.any fun field => field.name == "id" then fields else implicitId :: fields

end Field
end ApiScribe
