import ApiScribe.Proofs.TypeScript.Enrichment

/-! Where answers go. An application keeps the texts that a client may write at places, and
enrichment asks about them one after the other: each endpoint has one, and so has each field of
a serializer without a help text. The answer to a question reaches the place that it was asked
about, if it is usable, and everything else stays as it is. -/
namespace ApiScribe

/-- A place where an application keeps a text that a client may write. -/
inductive TextPlace
  | description (endpoint : Nat)
  | help (serializer field : Nat)
  deriving DecidableEq, Repr

/-- The text at a place, if there is one. -/
def App.text? (app : App) : TextPlace → Option String
  | .description i => app.endpoints[i]?.map Endpoint.description
  | .help i j => app.serializers[i]?.bind fun found => found.fields[j]?.bind Field.helpText

/-! An application without its texts, and the texts, make up the application. -/

private theorem Endpoint.eq_of_bare {found other : Endpoint} (bare : found.bare = other.bare)
    (text : found.description = other.description) : found = other := by
  cases found
  cases other
  simp_all [Endpoint.bare]

private theorem Field.eq_of_bare {found other : Field} (bare : found.bare = other.bare)
    (text : found.helpText = other.helpText) : found = other := by
  cases found
  cases other
  simp_all [Field.bare]

/-- Lists are the same where a view of them is and tells their items apart at each index. -/
theorem eq_of_view {α β : Type} {items others : List α} {view : α → β}
    (views : items.map view = others.map view)
    (told : ∀ (i : Nat) item other, items[i]? = some item → others[i]? = some other →
      view item = view other → item = other) : items = others := by
  refine List.ext_getElem? fun i => ?_
  have here := congrArg (·[i]?) views
  simp only [List.getElem?_map] at here
  cases item : items[i]? with
  | none =>
    rw [item, Option.map_none, eq_comm, Option.map_eq_none_iff] at here
    exact here.symm
  | some found =>
    rw [item, Option.map_some, eq_comm, Option.map_eq_some_iff] at here
    obtain ⟨other, there, same⟩ := here
    rw [there, told i found other item there same.symm]

/-- Applications are the same where they differ in no text and in nothing else. -/
theorem App.eq_of_text? {found other : App} (bare : found.bare = other.bare)
    (texts : ∀ place, found.text? place = other.text? place) : found = other := by
  have endpoints : found.endpoints = other.endpoints := by
    refine eq_of_view (congrArg App.endpoints bare) fun i item other here there same => ?_
    have text := texts (.description i)
    rw [App.text?, App.text?, here, there] at text
    exact Endpoint.eq_of_bare same (Option.some.inj text)
  have serializers : found.serializers = other.serializers := by
    refine eq_of_view (congrArg App.serializers bare) fun i item other here there same => ?_
    have fields : item.fields = other.fields := by
      refine eq_of_view (congrArg ClassFields.fields same) fun j field field' listed listed' same =>
        Field.eq_of_bare same ?_
      have text := texts (.help i j)
      simpa only [App.text?, here, there, Option.bind_some, listed, listed'] using text
    cases item
    cases other
    exact congrArg₂ ClassFields.mk (congrArg ClassFields.record same) fields
  cases found
  cases other
  simp_all [App.bare]

namespace Enrichment

/-- An answer without what it is wrapped in, if it came and something of it is left. -/
def usable? (answer : Option String) : Option String :=
  (answer.map cleanAnswer).filter (· ≠ "")

private theorem answer?_eq (client : Client) (number : Nat) :
    answer? client number = usable? (client number) := by
  rw [answer?, usable?]
  cases client number with
  | none => rfl
  | some answer => by_cases empty : cleanAnswer answer = "" <;> simp [Option.filter, empty]

/-! Asking in turn. -/

/-- What comes of questions about open places, asked after `asked` others: `before` and `after`
give the texts at all places. -/
structure Answered {P : Type} (client : Client) (asked : Nat) (openings : List (P × String))
    (before after : P → Option String) (questions : List String) (count : Nat) : Prop where
  /-- There is one question about each open place, in their order. -/
  prompts : questions = openings.map Prod.snd
  /-- An open place has the usable answer to its question, and else the text that it had. -/
  written : ∀ n place question, openings[n]? = some (place, question) →
    after place = (usable? (client (asked + n))).or (before place)
  /-- A place that is not open keeps its text. -/
  kept : ∀ place, place ∉ openings.map Prod.fst → after place = before place
  /-- The questions with a usable answer are counted. -/
  replaced : count =
    (openings.zipIdx asked).countP fun opening => (usable? (client opening.2)).isSome

section Turns
variable {P Q R : Type} {client : Client} {asked count count' : Nat}
  {questions questions' : List String} {openings : List (P × String)}
  {openings' : List (Q × String)} {before after : R → Option String}

/-- Where nothing is open, nothing is asked and every text is kept. -/
theorem answered_none (client : Client) (asked : Nat) (text? : P → Option String) :
    Answered client asked [] text? text? [] 0 where
  prompts := rfl
  written _ _ _ opened := absurd opened (Option.not_mem_none _)
  kept _ _ := rfl
  replaced := rfl

/-- What is asked about the places of one value and then about those of another one is asked
about the places of both, wherever these are found in the whole. -/
theorem Answered.append (first : P → R) (second : Q → R)
    (one : Answered client asked openings (before <| first ·) (after <| first ·) questions count)
    (two : Answered client (asked + questions.length) openings' (before <| second ·)
      (after <| second ·) questions' count')
    (cover : ∀ place, (∃ inner, place = first inner) ∨ ∃ inner, place = second inner) :
    Answered client asked
      (openings.map (fun (place, question) => (first place, question)) ++
        openings'.map fun (place, question) => (second place, question))
      before after (questions ++ questions') (count + count') where
  prompts := by
    rw [List.map_append, List.map_map, List.map_map, one.prompts, two.prompts]
    rfl
  written n place question opened := by
    rw [List.getElem?_append, List.length_map] at opened
    split at opened
    · rw [List.getElem?_map] at opened
      obtain ⟨⟨inner, _⟩, here, same⟩ := Option.map_eq_some_iff.mp opened
      cases same
      exact one.written n inner question here
    · next beyond =>
      rw [List.getElem?_map] at opened
      obtain ⟨⟨inner, _⟩, there, same⟩ := Option.map_eq_some_iff.mp opened
      cases same
      have written := two.written _ inner question there
      have number : asked + questions.length + (n - openings.length) = asked + n := by
        rw [one.prompts, List.length_map]
        omega
      rwa [number] at written
  kept place unopened := by
    rw [List.map_append, List.map_map, List.map_map, List.mem_append, not_or] at unopened
    rcases cover place with ⟨inner, rfl⟩ | ⟨inner, rfl⟩
    · refine one.kept inner fun opened => unopened.1 ?_
      obtain ⟨opening, listed, rfl⟩ := List.mem_map.mp opened
      exact List.mem_map.mpr ⟨opening, listed, rfl⟩
    · refine two.kept inner fun opened => unopened.2 ?_
      obtain ⟨opening, listed, rfl⟩ := List.mem_map.mp opened
      exact List.mem_map.mpr ⟨opening, listed, rfl⟩
  replaced := by
    rw [List.zipIdx_append, List.countP_append, List.zipIdx_map, List.zipIdx_map, List.countP_map,
      List.countP_map, List.length_map, one.replaced, two.replaced, one.prompts, List.length_map]
    rfl

end Turns

section Each
variable {α P : Type}

/-- What asking does to values of a kind, with the places that they are open at. -/
def Asks (client : Client) (openings : α → List (P × String)) (text? : α → P → Option String)
    (ask : Nat → α → Outcome α) : Prop :=
  ∀ asked value, Answered client asked (openings value) (text? value)
    (text? (ask asked value).value) (ask asked value).prompts (ask asked value).replaced

/-- What the values of a list are open at. -/
def openingsOfEach (openings : α → List (P × String)) (values : List α) :
    List ((Nat × P) × String) :=
  values.zipIdx.flatMap fun (value, i) =>
    (openings value).map fun (place, question) => ((i, place), question)

private theorem openingsOfEach_cons (openings : α → List (P × String)) (value : α) (rest : List α) :
    openingsOfEach openings (value :: rest) =
      (openings value).map (fun (place, question) => ((0, place), question)) ++
        (openingsOfEach openings rest).map
          fun (place, question) => ((place.1 + 1, place.2), question) := by
  rw [openingsOfEach, openingsOfEach, List.zipIdx_cons', List.flatMap_cons, List.flatMap_map,
    List.map_flatMap]
  simp [Function.comp_def]

/-- The text at a place of one of several values. -/
def textOfEach? (text? : α → P → Option String) (values : List α) (place : Nat × P) :
    Option String :=
  values[place.1]?.bind (text? · place.2)

/-- Asking about each of several values is asking about the first one and then about the rest. -/
theorem Asks.each {client : Client} {openings : α → List (P × String)}
    {text? : α → P → Option String} {ask : Nat → α → Outcome α}
    (asks : Asks client openings text? ask) :
    Asks client (openingsOfEach openings) (textOfEach? text?) (each ask) := by
  intro asked values
  induction values generalizing asked with
  | nil => exact answered_none client asked _
  | cons value rest ih =>
    rw [openingsOfEach_cons]
    refine Answered.append (fun place : P => (0, place))
      (fun place : Nat × P => (place.1 + 1, place.2)) (asks asked value) (ih _) fun (i, place) => ?_
    cases i with
    | zero => exact .inl ⟨place, rfl⟩
    | succ i => exact .inr ⟨(i, place), rfl⟩

end Each

/-! The places of an application. -/

/-- What an application is open at: the description of each endpoint and then the help text of
each serializer field that has none, each with the question about it. -/
def openings (app : App) : List (TextPlace × String) :=
  app.endpoints.zipIdx.map (fun (found, i) => (.description i, endpointPrompt found)) ++
    app.serializers.zipIdx.flatMap fun (found, i) =>
      (found.fields.zipIdx.filter fun (field, _) => field.helpText.isNone).map
        fun (field, j) => (.help i j, fieldPrompt found.record.name field)

/-- Every endpoint is open. -/
def ofEndpoint (found : Endpoint) : List (Unit × String) := [((), endpointPrompt found)]

/-- A field is open where it has no help text. -/
def ofField (serializer : String) (found : Field) : List (Unit × String) :=
  if found.helpText.isNone then [((), fieldPrompt serializer found)] else []

def ofSerializer (found : ClassFields) : List ((Nat × Unit) × String) :=
  openingsOfEach (ofField found.record.name) found.fields

/-- One question about one place. -/
theorem answered_one {client : Client} {asked count : Nat} {question : String}
    {before after : Option String} (written : after = (usable? (client asked)).or before)
    (counted : count = (usable? (client asked)).isSome.toNat) :
    Answered client asked [((), question)] (fun _ => before) (fun _ => after) [question] count where
  prompts := rfl
  written n place asking opened := by
    obtain rfl : n = 0 := by
      have bound := (List.getElem?_eq_some_iff.mp opened).1
      simpa using bound
    exact written
  kept place unopened := absurd (List.mem_singleton.mpr rfl) unopened
  replaced := by
    rw [List.zipIdx_singleton, List.countP_singleton, counted]
    cases usable? (client asked) <;> rfl

private theorem asks_endpoint (client : Client) :
    Asks client ofEndpoint (fun found _ => some found.description) (endpoint client) := by
  intro asked found
  rw [endpoint, answer?_eq]
  cases given : usable? (client asked) <;>
    exact answered_one (by rw [given]; rfl) (by rw [given]; rfl)

private theorem asks_field (client : Client) (serializer : String) :
    Asks client (ofField serializer) (fun found _ => found.helpText) (field client serializer) := by
  intro asked found
  rw [field, ofField, answer?_eq]
  cases helped : found.helpText with
  | some text =>
    rw [Option.isNone_some, if_neg Bool.false_ne_true]
    exact answered_none client asked _
  | none =>
    cases given : usable? (client asked) <;>
      exact answered_one (by rw [given]; rfl) (by rw [given]; rfl)

private theorem asks_serializer (client : Client) :
    Asks client ofSerializer
      (fun found => textOfEach? (fun field _ => field.helpText) found.fields)
      (serializer client) :=
  fun asked found => (asks_field client found.record.name).each asked found.fields

private theorem openings_eq (app : App) :
    openings app =
      (openingsOfEach ofEndpoint app.endpoints).map
        (fun (place, question) => (.description place.1, question)) ++
      (openingsOfEach ofSerializer app.serializers).map
        fun (place, question) => (.help place.1 place.2.1, question) := by
  have fields (serializer : String) (i : Nat) (fields : List (Field × Nat)) :
      ((fields.filter fun (field, _) => field.helpText.isNone).map fun (field, j) =>
          (TextPlace.help i j, fieldPrompt serializer field)) =
        fields.flatMap fun (field, j) =>
          (ofField serializer field).map fun (_, question) => (TextPlace.help i j, question) := by
    induction fields with
    | nil => rfl
    | cons first rest ih =>
      rw [List.flatMap_cons, ← ih]
      cases lacks : first.1.helpText.isNone <;> simp [ofField, lacks]
  rw [openings, openingsOfEach, openingsOfEach, List.map_flatMap, List.map_flatMap]
  congr 1
  · exact List.map_eq_flatMap
  · refine congrArg (List.flatMap · _) (funext fun (found, i) => ?_)
    simp only
    rw [fields, ofSerializer, openingsOfEach, List.map_map, List.map_flatMap]
    simp [Function.comp_def]

/-- An application is asked about its endpoints and then about its serializers. -/
theorem asks_app (client : Client) : Asks client openings App.text? (app client) := by
  intro asked found
  have description (app : App) : (fun place : Nat × Unit => app.text? (.description place.1)) =
      textOfEach? (fun found _ => some found.description) app.endpoints :=
    funext fun _ => Option.map_eq_bind
  rw [openings_eq]
  refine Answered.append (fun place : Nat × Unit => TextPlace.description place.1)
    (fun place : Nat × Nat × Unit => TextPlace.help place.1 place.2.1) ?_
    ((asks_serializer client).each _ found.serializers) fun place => ?_
  · rw [description, description]
    exact (asks_endpoint client).each asked found.endpoints
  · cases place with
    | description i => exact .inl ⟨(i, ()), rfl⟩
    | help i j => exact .inr ⟨(i, j, ()), rfl⟩

/-! Exactness. -/

/-- `outcome` comes from asking about an application and from nothing else, after `asked`
questions of the same run. -/
structure Exact (client : Client) (asked : Nat) (found : App) (outcome : Outcome App) : Prop extends
    Answered client asked (openings found) found.text? outcome.value.text? outcome.prompts
      outcome.replaced where
  /-- Nothing but texts changes. -/
  bare : outcome.value.bare = found.bare
  /-- Without any usable answer the application is what it was. -/
  failing : (∀ n < (openings found).length, usable? (client (asked + n)) = none) →
    outcome.value = found

/-- Nothing is asked of the local provider or without a client, and otherwise every answer goes
where it was asked for. -/
theorem enrich_exact (config : Config.Assistant) (client : Option Client) (asked : Nat)
    (found : App) :
    (config.provider = .local ∨ client = none → enrich config client asked found = ⟨found, [], 0⟩) ∧
      ∀ answers ∈ client, config.provider ≠ .local →
        Exact answers asked found (enrich config client asked found) := by
  refine ⟨fun inactive => ?_, fun answers given elsewhere => ?_⟩
  · have none : active? config client = none := by
      rw [active?]
      rcases inactive with here | rfl
      · exact if_pos here
      · split <;> rfl
    rw [enrich, none]
  · have bare := enrich_bare config client asked found
    have active : active? config client = some answers := by
      rw [active?, if_neg elsewhere, Option.mem_def.mp given]
    rw [enrich, active] at bare ⊢
    have answered := asks_app answers asked found
    refine ⟨answered, bare, fun failing => App.eq_of_text? bare fun place => ?_⟩
    by_cases opened : place ∈ (openings found).map Prod.fst
    · obtain ⟨⟨place, question⟩, listed, rfl⟩ := List.mem_map.mp opened
      obtain ⟨n, here⟩ := List.mem_iff_getElem?.mp listed
      have bound := (List.getElem?_eq_some_iff.mp here).1
      rw [answered.written n place question here, failing n bound, Option.none_or]
    · exact answered.kept place opened

/-- An application with an endpoint, a field without a help text and a field with one. -/
def staff : App where
  name := "staff"
  rootPath := "staff"
  pythonFileCount := 2
  usesRestFramework := true
  models := []
  serializers := [⟨⟨"StaffSerializer", "staff/serializers.py", 1, ["Serializer"], none⟩,
    [{ name := "phone", type := .string },
      { name := "email", type := .email, helpText := some "Login address" }]⟩]
  views := []
  endpoints := [⟨"/staff/", .get, "StaffView", "get", "List staff", none, []⟩]

/-- A client that fails at first and then answers with a quoted line and another one. -/
def staffClient : Client := .scripted [none, some "\n \"Office number\"\nor mobile"]

theorem staff_enriched :
    Exact staffClient 0 staff (enrich { provider := .openai } (some staffClient) 0 staff) ∧
      (enrich { provider := .openai } (some staffClient) 0 staff).replaced = 1 ∧
      (enrich { provider := .openai } (some staffClient) 0 staff).value.text? (.help 0 0) =
        some "Office number" :=
  ⟨(enrich_exact _ _ 0 staff).2 _ rfl (by decide), by decide +kernel⟩

end Enrichment
end ApiScribe
