import ApiScribe.Text.Cut

/-! The HTTP methods that an endpoint can have. -/
namespace ApiScribe

inductive HttpMethod where
  | get
  | post
  | put
  | patch
  | delete
  deriving DecidableEq, Repr

namespace HttpMethod

def all : List HttpMethod := [.get, .post, .put, .patch, .delete]

def name : HttpMethod → String
  | .get => "GET"
  | .post => "POST"
  | .put => "PUT"
  | .patch => "PATCH"
  | .delete => "DELETE"

/-- The function of a view class that handles a method. -/
def handlerName : HttpMethod → String
  | .get => "get"
  | .post => "post"
  | .put => "put"
  | .patch => "patch"
  | .delete => "delete"

/-- A verb in capitals. Only letters of ASCII have capitals here. -/
def raised (verb : String) : String := String.ofList (verb.toList.map Char.toUpper)

/-- The method of a verb in any mix of capitals. -/
def ofVerb? (verb : String) : Option HttpMethod :=
  all.find? fun method => method.name == raised verb

/-- What an endpoint does, as far as its action tells. -/
def describe (method : HttpMethod) (action subject : String) : String :=
  match method, action with
  | .get, "list" => "List all " ++ subject ++ " instances"
  | .post, "create" => "Create a new " ++ subject ++ " instance"
  | .get, "retrieve" => "Retrieve a specific " ++ subject ++ " instance"
  | .put, "update" => "Update a specific " ++ subject ++ " instance"
  | .patch, "partial_update" => "Partially update a specific " ++ subject ++ " instance"
  | .delete, "destroy" => "Delete a specific " ++ subject ++ " instance"
  | _, _ => method.name ++ " " ++ subject

end HttpMethod
end ApiScribe
