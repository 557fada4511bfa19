import ApiScribe.App.Analysis

/-! Enrichment of descriptions. A client is asked for a description of each
endpoint and for the help texts that serializer fields lack. A failure or an
empty answer leaves what is there. -/
namespace ApiScribe
open Text

/-- What the question of each number is answered with; none is a failure. -/
abbrev Client := Nat → Option String

/-- A client that gives listed answers in turn and the last one from then on. -/
def Client.scripted (answers : List (Option String)) : Client := fun number =>
  (answers[min number (answers.length - 1)]?).join

namespace Enrichment

/-- Quotes that an answer may be wrapped in. -/
def isWrapper (c : Char) : Bool := c == '"' || c == '\'' || c == '\x60'

/-- A text without the quotes at its ends. -/
def unquoted (text : List Char) : List Char :=
  ((text.dropWhile isWrapper).reverse.dropWhile isWrapper).reverse

/-- The first line of an answer that holds something, without the quotes and
blanks at its ends. -/
def cleanAnswer (answer : String) : String :=
  let line := (((lines answer.toList).map trim).find? fun line => !line.isEmpty).getD []
  String.ofList (trim (unquoted line))

/-- The question about an endpoint. -/
def endpointPrompt (endpoint : Endpoint) : String :=
  "Describe in one sentence what the Django REST Framework endpoint " ++ endpoint.method.name ++
    " " ++ endpoint.path ++ " does. It is handled by " ++ endpoint.handlerClass ++ "." ++
    endpoint.handlerFunction ++ "." ++
    (match endpoint.serializerClass with
      | some serializer => " It uses the serializer " ++ serializer ++ "."
      | none => "") ++
    " Current description: " ++ endpoint.description

/-- The question about a field of a serializer. -/
def fieldPrompt (serializer : String) (field : Field) : String :=
  "Write a one-sentence help text for the field '" ++ field.name ++ "' of type " ++
    field.type.text ++ " in the serializer " ++ serializer ++ "."

/-- The usable answer to the question of a number. -/
def answer? (client : Client) (number : Nat) : Option String :=
  (client number).bind fun answer =>
    let text := cleanAnswer answer
    if text.isEmpty then none else some text

/-- What asking leads to: the enriched value, the questions in order and the
number of texts that were replaced. -/
structure Outcome (α : Type) where
  value : α
  prompts : List String
  replaced : Nat

/-- Asks about each of several values in turn, after `asked` questions. -/
def each {α : Type} (ask : Nat → α → Outcome α) (asked : Nat) : List α → Outcome (List α)
  | [] => ⟨[], [], 0⟩
  | value :: rest =>
    let first := ask asked value
    let others := each ask (asked + first.prompts.length) rest
    ⟨first.value :: others.value, first.prompts ++ others.prompts,
      first.replaced + others.replaced⟩

def endpoint (client : Client) (asked : Nat) (found : Endpoint) : Outcome Endpoint :=
  match answer? client asked with
  | some text => ⟨{ found with description := text }, [endpointPrompt found], 1⟩
  | none => ⟨found, [endpointPrompt found], 0⟩

/-- Only a field without help text is asked about. -/
def field (client : Client) (serializer : String) (asked : Nat) (found : Field) : Outcome Field :=
  if found.helpText.isSome then ⟨found, [], 0⟩
  else match answer? client asked with
    | some text => ⟨{ found with helpText := some text }, [fieldPrompt serializer found], 1⟩
    | none => ⟨found, [fieldPrompt serializer found], 0⟩

def serializer (client : Client) (asked : Nat) (found : ClassFields) : Outcome ClassFields :=
  let fields := each (field client found.record.name) asked found.fields
  ⟨{ found with fields := fields.value }, fields.prompts, fields.replaced⟩

/-- Asks about the endpoints of an application and then about its serializers. -/
def app (client : Client) (asked : Nat) (found : App) : Outcome App :=
  let endpoints := each (endpoint client) asked found.endpoints
  let serializers := each (serializer client) (asked + endpoints.prompts.length) found.serializers
  ⟨{ found with endpoints := endpoints.value, serializers := serializers.value },
    endpoints.prompts ++ serializers.prompts, endpoints.replaced + serializers.replaced⟩

/-- The client that is asked at all: none for the local provider. -/
def active? (config : Config.Assistant) (client : Option Client) : Option Client :=
  if config.provider = .local then none else client

/-- Enriches an application, after `asked` questions of the same run. -/
def enrich (config : Config.Assistant) (client : Option Client) (asked : Nat) (found : App) :
    Outcome App :=
  match active? config client with
  | some client => app client asked found
  | none => ⟨found, [], 0⟩

end Enrichment
end ApiScribe
