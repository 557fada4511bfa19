import ApiScribe.TypeScript.Expr
import ApiScribe.Web.Method

/-! Declarations of types. A module holds the declarations of one application
and the names that it takes from other modules. -/
namespace ApiScribe.TypeScript

/-- A property of an interface or a member of an enumeration. -/
structure Property where
  name : String
  expression : String
  optional : Bool := false
  readOnly : Bool := false
  deriving DecidableEq, Repr

/-- What a declaration declares. An alias without a right-hand side is
unfinished and is written as `none`. -/
inductive Body where
  | interface (properties : List Property)
  | enumeration (members : List Property)
  | synonym (expression : Option String)
  deriving DecidableEq, Repr

/-- A named type. -/
structure Declaration where
  name : String
  body : Body
  parameters : List String := []
  description : Option String := none
  deriving DecidableEq, Repr

/-- Names that are imported from another module. -/
structure Import where
  module : String
  names : List String
  deriving DecidableEq, Repr

/-- The declarations of one application. -/
structure Module where
  app : String
  declarations : List Declaration
  imports : List Import
  deriving DecidableEq, Repr

namespace Declaration

def properties (declaration : Declaration) : List Property :=
  match declaration.body with
  | .interface properties => properties
  | .enumeration members => members
  | .synonym _ => []

def aliasOf (name : String) (expression : TypeExpr) (description : String) : Declaration :=
  { name, body := .synonym (some expression.text), description := some description }

/-- An object that is sent, with the properties that it may have. -/
def payload (name : String) (verb target : String) (properties : List Property) :
    Declaration :=
  { name, body := .interface properties
    description := some ("Payload for " ++ verb ++ " " ++ target) }

def creationName (name : String) : String := "Create" ++ name

def updateName (name : String) : String := "Update" ++ name

/-- What is sent to create and to update an object: the properties that may be
written, all of them optional in an update. An object without such properties
is never sent. -/
def variants (declaration : Declaration) : List Declaration :=
  match declaration.body with
  | .interface properties =>
    let writable := properties.filter fun property => !property.readOnly
    if writable.isEmpty then []
    else
      [payload (creationName declaration.name) "creating" declaration.name writable,
        payload (updateName declaration.name) "updating" declaration.name
          (writable.map fun property => { property with optional := true })]
  | _ => []

end Declaration

/-- Names without repetitions, sorted. -/
def sortedDistinct (names : List String) : List String :=
  names.eraseDups.mergeSort fun left right => left ≤ right

theorem mem_sortedDistinct {name : String} {names : List String} :
    name ∈ sortedDistinct names ↔ name ∈ names := by
  rw [sortedDistinct, List.mem_mergeSort, List.mem_eraseDups]

/-- The module of the declarations that every application shares. -/
def commonModule : String := "common"

/-- The declaration of a page of a list. -/
def pageName : String := "PaginatedResponse"

/-- The declarations that every application shares. -/
def commonDeclarations : List Declaration :=
  [{ name := "Nullable"
     body := .synonym (some "T | null")
     parameters := ["T"]
     description := some "A value that may be null" },
   { name := pageName
     body := .interface
       [{ name := "count", expression := "number" },
        { name := "next", expression := "string | null" },
        { name := "previous", expression := "string | null" },
        { name := "results", expression := "T[]" }]
     parameters := ["T"]
     description := some "Page of results from a paginated list endpoint" },
   { name := "ApiError"
     body := .interface
       [{ name := "detail", expression := "string", optional := true },
        { name := "non_field_errors", expression := "string[]", optional := true },
        { name := "[field: string]", expression := "string[] | string | undefined" }]
     description := some "Error body returned by the API" },
   .aliasOf "HttpMethod"
     (.union (HttpMethod.all.map fun method => .literal (.str method.name)))
     "HTTP methods used by the API"]

end ApiScribe.TypeScript
