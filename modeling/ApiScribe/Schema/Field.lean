import ApiScribe.Text.Cut

/-! Fields of serializers and models: their types, their choices and the flags
that say who may write them. Field types belong to no output language. -/
namespace ApiScribe

/-- What kind of data a field holds. -/
inductive FieldType where
  | string | integer | float | decimal | boolean | email | url | uuid | slug
  | date | datetime | time | duration | choice | file | image | json | object
  | primaryKey | hyperlink | method
  | nested (serializer : String)
  | listOf (item : FieldType)
  | unknown
  deriving DecidableEq, Repr

namespace FieldType

/-- The word for a type, without the class or item type that it carries. -/
def tag : FieldType → String
  | .string => "string"
  | .integer => "integer"
  | .float => "float"
  | .decimal => "decimal"
  | .boolean => "boolean"
  | .email => "email"
  | .url => "url"
  | .uuid => "uuid"
  | .slug => "slug"
  | .date => "date"
  | .datetime => "datetime"
  | .time => "time"
  | .duration => "duration"
  | .choice => "choice"
  | .file => "file"
  | .image => "image"
  | .json => "json"
  | .object => "object"
  | .primaryKey => "primary_key"
  | .hyperlink => "hyperlink"
  | .method => "method"
  | .nested _ => "nested"
  | .listOf _ => "list_of"
  | .unknown => "unknown"

/-- The types that carry nothing. -/
def scalars : List FieldType :=
  [.string, .integer, .float, .decimal, .boolean, .email, .url, .uuid, .slug, .date, .datetime,
    .time, .duration, .choice, .file, .image, .json, .object, .primaryKey, .hyperlink, .method,
    .unknown]

/-- The type as it is written out, such as `list_of(nested(UserSerializer))`. -/
def text : FieldType → String
  | .nested serializer => "nested(" ++ serializer ++ ")"
  | .listOf item => "list_of(" ++ item.text ++ ")"
  | scalar => scalar.tag

end FieldType

/-- The value of a choice: choices are keyed by integers or strings. -/
inductive ChoiceValue where
  | int (number : Int)
  | str (text : String)
  deriving DecidableEq, Repr

def ChoiceValue.text : ChoiceValue → String
  | .int number => toString number
  | .str text => text

/-- A value that may be chosen and the label that it is shown with. -/
structure Choice where
  value : ChoiceValue
  label : String
  deriving DecidableEq, Repr

/-- A field of a serializer or model. -/
structure Field where
  name : String
  type : FieldType
  required : Bool := true
  readOnly : Bool := false
  writeOnly : Bool := false
  nullable : Bool := false
  default : Option String := none
  helpText : Option String := none
  choices : List Choice := []
  maxLength : Option Int := none
  source : Option String := none
  deriving DecidableEq, Repr

namespace Field

/-- The key that a model has when it declares none. -/
def implicitId : Field :=
  { name := "id", type := .integer, readOnly := true, required := false }

/-- The first field of a name. -/
def find? (fields : List Field) (name : String) : Option Field :=
  fields.find? fun field => field.name == name

def names (fields : List Field) : List String := fields.map Field.name

end Field

/-- Where a class stands and what it derives from. -/
structure ClassRecord where
  name : String
  file : String
  line : Nat
  bases : List String
  docstring : Option String
  deriving DecidableEq, Repr

/-- A class with the fields that it has, inherited ones included. -/
structure ClassFields where
  record : ClassRecord
  fields : List Field
  deriving DecidableEq, Repr

end ApiScribe
