import ApiScribe.TypeScript.Synthesis
import Mathlib.Data.List.Nodup

/-! A module never names a serializer type that nobody declares. What a module
uses is read off the fields and endpoints of its application; what it may use is
what it declares and what it takes from a module that declares it. The texts of
its declarations are written with nothing else. -/
namespace ApiScribe.TypeScript

namespace TypeExpr

mutual

/-- The names that an expression is built from. -/
def names : TypeExpr → List String
  | .name text => [text]
  | .literal _ => []
  | .union members => memberNames members
  | .array item => names item

def memberNames : List TypeExpr → List String
  | [] => []
  | member :: rest => names member ++ memberNames rest

end

private theorem memberNames_eq (members : List TypeExpr) :
    memberNames members = members.flatMap names := by
  induction members with
  | nil => rfl
  | cons member rest ih => simp [memberNames, ih]

end TypeExpr

/-- The expressions of a declaration: those of its properties or members, or
what it is a synonym of. -/
def Declaration.expressions (declaration : Declaration) : List String :=
  match declaration.body with
  | .interface properties => properties.map Property.expression
  | .enumeration members => members.map Property.expression
  | .synonym expression => expression.toList

namespace Module

def Declares (module : Module) (name : String) : Prop :=
  ∃ declaration ∈ module.declarations, declaration.name = name

def Imports (module : Module) (source name : String) : Prop :=
  ∃ found ∈ module.imports, found.module = source ∧ name ∈ found.names

end Module

/-- A page of a list of the objects that an interface describes. -/
def pageOf (interface : String) : String := pageName ++ "<" ++ interface ++ ">"

/-- The names that are known without any serializer. -/
def plainNames : List String :=
  ["string", "number", "boolean", "File", "Record<string, any>", "any", "null", "void"]

/-- A text that is written with plain names, with names that are used and with
pages of these. No other name stands in it. -/
def WrittenWith (uses : String → Prop) (text : String) : Prop :=
  ∃ expr : TypeExpr, expr.text = text ∧ ∀ name ∈ expr.names,
    name ∈ plainNames ∨ ∃ used, uses used ∧ (name = used ∨ name = pageOf used)

/-- The serializer that an endpoint of an application takes and gives. -/
def Serves (index : SerializerIndex) (app : App) (endpoint : Endpoint)
    (known : KnownSerializer) : Prop :=
  endpoint ∈ app.endpoints ∧
    endpoint.serializerClass.bind (index.resolve? (some app.name)) = some known

/-- The payloads that endpoints are sent: the variant of a writable serializer
for creating or for updating. -/
inductive UsesPayload (index : SerializerIndex) (app : App) : String → Prop where
  | creation (serves : Serves index app endpoint known) (writable : known.writable = true)
      (method : endpoint.method = .post) :
      UsesPayload index app (Declaration.creationName known.interface)
  | update (serves : Serves index app endpoint known) (writable : known.writable = true)
      (method : endpoint.method = .put ∨ endpoint.method = .patch) :
      UsesPayload index app (Declaration.updateName known.interface)

/-- The serializer types that the module of an application names: the interface
of a nested serializer at any depth of lists, what endpoints are sent and what
they give back. -/
inductive Uses (index : SerializerIndex) (app : App) : String → Prop where
  | nested (member : found ∈ app.serializers) (listed : field ∈ found.fields)
      (nests : nestedClass? field.type = some className)
      (meant : index.resolve? (some app.name) className = some known) :
      Uses index app known.interface
  | payload (used : UsesPayload index app name) : Uses index app name
  | response (serves : Serves index app endpoint known) (kept : endpoint.method ≠ .delete) :
      Uses index app known.interface

/-- The module of an application can see what another one declares: it is its
own, or it imports the name from there. -/
def Sees (apps : List App) (app owner : App) (name : String) : Prop :=
  owner = app ∨
    owner.name ≠ app.name ∧ (moduleOf (.ofApps apps) app).Imports owner.name name

/-- Every reference to another module is imported from there. -/
theorem importsOf_lists (listed : reference ∈ references) (foreign : reference.module ≠ app) :
    ∃ found ∈ importsOf app references,
      found.module = reference.module ∧ reference.name ∈ found.names := by
  have kept : reference ∈ references.filter fun reference => reference.module != app := by
    simpa [listed] using foreign
  refine ⟨_, List.mem_map.mpr ⟨reference.module, ?_, rfl⟩, rfl, ?_⟩
  · exact mem_sortedDistinct.mpr (List.mem_map_of_mem kept)
  · apply mem_sortedDistinct.mpr
    exact List.mem_map_of_mem (List.mem_filter.mpr ⟨kept, by simp⟩)

/-- A class name means a known serializer of that name. -/
theorem mem_of_resolve? {index : SerializerIndex} {home : Option String}
    (meant : index.resolve? home className = some known) :
    known ∈ index ∧ known.name = className := by
  have listed : known ∈ index.filter fun known => known.name == className := by
    rw [SerializerIndex.resolve?, Option.or_eq_some_iff] at meant
    rcases meant with sameApp | ⟨_, first⟩
    · exact List.mem_of_find?_eq_some sameApp
    · exact List.mem_of_head? first
  exact (List.mem_filter.mp listed).imp_right eq_of_beq

theorem interface_of_mem (member : known ∈ SerializerIndex.ofApps apps) :
    known.interface = interfaceName known.name := by
  obtain ⟨owner, _, inside⟩ := List.mem_flatMap.mp member
  obtain ⟨found, _, rfl⟩ := List.mem_map.mp inside
  rfl

/-- A serializer that a class name means is one that some application has. -/
theorem resolve?_ofApps
    (meant : (SerializerIndex.ofApps apps).resolve? app className = some known) :
    ∃ owner ∈ apps, ∃ found ∈ owner.serializers, known.app = owner.name ∧
      known.interface = interfaceName found.record.name ∧
      known.writable = found.fields.any fun field => !field.readOnly := by
  obtain ⟨owner, ownerMember, inside⟩ := List.mem_flatMap.mp (mem_of_resolve? meant).1
  obtain ⟨found, foundMember, rfl⟩ := List.mem_map.mp inside
  exact ⟨owner, ownerMember, found, foundMember, rfl, rfl, rfl⟩

/-- What a module refers to in the module of another application is seen there.
Applications are told apart by their names. -/
theorem sees_of_reference (distinct : (apps.map App.name).Nodup) (app_mem : app ∈ apps)
    (owner_mem : owner ∈ apps)
    (referred : ⟨owner.name, name⟩ ∈ referencesOf (.ofApps apps) app) :
    Sees apps app owner name := by
  by_cases same : owner.name = app.name
  · exact .inl (List.inj_on_of_nodup_map distinct owner_mem app_mem same)
  · exact .inr ⟨same, importsOf_lists referred same⟩

/-- A nested serializer is referred to where its application has one of that name. -/
theorem nested_referred (member : found ∈ app.serializers)
    (listed : field ∈ found.fields) (nests : nestedClass? field.type = some className)
    (meant : index.resolve? (some app.name) className = some known) :
    ⟨known.app, known.interface⟩ ∈ referencesOf index app := by
  apply List.mem_append_left
  refine List.mem_flatMap.mpr ⟨found, member, List.mem_filterMap.mpr ⟨field, listed, ?_⟩⟩
  simp [nests, meant]

/-- What the aliases of an endpoint mention its module refers to. -/
theorem alias_referred (member : endpoint ∈ app.endpoints)
    (referred : reference ∈ (endpointAliases index app endpoint).2) :
    reference ∈ referencesOf index app := by
  apply List.mem_append_right
  exact List.mem_flatMap.mpr ⟨_, List.mem_map_of_mem member, referred⟩

/-- What an endpoint with a known serializer gives back, unless it deletes. -/
private theorem responseOf_some (kept : endpoint.method ≠ .delete) :
    responseOf (some known) endpoint =
      if endpoint.method = .get && endpoint.handlerFunction == "list" then
        (.name (pageOf known.interface),
          [⟨known.app, known.interface⟩, ⟨commonModule, pageName⟩])
      else (.name known.interface, [⟨known.app, known.interface⟩]) := by
  cases method : endpoint.method with
  | delete => exact absurd method kept
  | get => simp [responseOf, method, pageOf]
  | post => simp [responseOf, method]
  | put => simp [responseOf, method]
  | patch => simp [responseOf, method]

/-- An endpoint that gives something back refers to the interface of its serializer. -/
theorem response_referred (serves : Serves index app endpoint known)
    (kept : endpoint.method ≠ .delete) :
    ⟨known.app, known.interface⟩ ∈ referencesOf index app := by
  apply alias_referred serves.1
  have responded : ⟨known.app, known.interface⟩ ∈ (responseOf (some known) endpoint).2 := by
    rw [responseOf_some kept]
    split <;> simp
  simp only [endpointAliases, serves.2]
  split
  · exact responded
  · exact List.mem_append_right _ responded

private theorem request_referred (serves : Serves index app endpoint known)
    (sent : requestOf? (some known) endpoint.method = some request)
    (referred : reference ∈ request.2) : reference ∈ referencesOf index app := by
  apply alias_referred serves.1
  simp only [endpointAliases, serves.2, sent]
  exact List.mem_append_left _ referred

/-- An endpoint that creates refers to the payload for it. -/
theorem creation_referred (serves : Serves index app endpoint known)
    (writable : known.writable = true) (method : endpoint.method = .post) :
    ⟨known.app, Declaration.creationName known.interface⟩ ∈ referencesOf index app := by
  have sent : requestOf? (some known) endpoint.method =
      some (.name (Declaration.creationName known.interface),
        [⟨known.app, Declaration.creationName known.interface⟩]) := by
    simp [requestOf?, method, writable]
  exact request_referred serves sent (by simp)

/-- An endpoint that changes something refers to the payload for it, be it in whole or in part. -/
theorem update_referred (serves : Serves index app endpoint known)
    (writable : known.writable = true)
    (method : endpoint.method = .put ∨ endpoint.method = .patch) :
    ⟨known.app, Declaration.updateName known.interface⟩ ∈ referencesOf index app := by
  have sent : requestOf? (some known) endpoint.method =
      some (.name (Declaration.updateName known.interface),
        [⟨known.app, Declaration.updateName known.interface⟩]) := by
    rcases method with method | method <;> simp [requestOf?, method, writable]
  exact request_referred serves sent (by simp)

/-- A serializer with a field that may be written has both variants. -/
theorem variants_names (resolve? : String → Option KnownSerializer)
    (writable : (found.fields.any fun field => !field.readOnly) = true) :
    (interfaceOf resolve? found).variants.map Declaration.name =
      [Declaration.creationName (interfaceName found.record.name),
        Declaration.updateName (interfaceName found.record.name)] := by
  obtain ⟨field, listed, written⟩ := List.any_eq_true.mp writable
  have kept : propertyOf resolve? field ∈
      (found.fields.map (propertyOf resolve?)).filter fun property => !property.readOnly := by
    exact List.mem_filter.mpr ⟨List.mem_map_of_mem listed, written⟩
  have some : (found.fields.map (propertyOf resolve?)).filter
      (fun property => !property.readOnly) ≠ [] := List.ne_nil_of_mem kept
  simp only [Declaration.variants, interfaceOf]
  rw [if_neg (by simpa using some)]
  rfl

/-- What a serializer is turned into its module declares. -/
theorem declares_of_serializer (member : found ∈ app.serializers)
    (declared : declaration ∈ serializerDeclarations (index.resolve? (some app.name)) found) :
    (moduleOf index app).Declares declaration.name :=
  ⟨declaration, List.mem_append_left _ (List.mem_flatMap.mpr ⟨found, member, declared⟩), rfl⟩

theorem declares_interface (member : found ∈ app.serializers) :
    (moduleOf index app).Declares (interfaceName found.record.name) := by
  have declared : interfaceOf (index.resolve? (some app.name)) found ∈
      serializerDeclarations (index.resolve? (some app.name)) found := by
    simp [serializerDeclarations]
  exact declares_of_serializer member declared

/-- A name that one of the variants of an application's serializers has. -/
def OffersVariant (index : SerializerIndex) (app : App) (name : String) : Prop :=
  ∃ found ∈ app.serializers,
    ∃ variant ∈ (interfaceOf (index.resolve? (some app.name)) found).variants,
      variant.name = name

/-- A serializer with a field that can be written offers both of its payloads. -/
theorem offersVariant_of_mem (member : found ∈ app.serializers)
    (writable : (found.fields.any fun field => !field.readOnly) = true)
    (named : name ∈ [Declaration.creationName (interfaceName found.record.name),
      Declaration.updateName (interfaceName found.record.name)]) :
    OffersVariant index app name := by
  rw [← variants_names (index.resolve? (some app.name)) writable] at named
  obtain ⟨variant, offered, rfl⟩ := List.mem_map.mp named
  exact ⟨found, member, variant, offered, rfl⟩

/-- A variant that a serializer offers is declared in the module of its
application. -/
theorem declares_variant (offered : OffersVariant index app name) :
    (moduleOf index app).Declares name := by
  obtain ⟨found, member, variant, derived, rfl⟩ := offered
  apply declares_of_serializer member
  simp [serializerDeclarations, derived]

/-- A payload that is used was derived from a serializer, and its module is seen. -/
theorem payload_supplied (distinct : (apps.map App.name).Nodup) (app_mem : app ∈ apps)
    (used : UsesPayload (.ofApps apps) app name) :
    ∃ owner ∈ apps, Sees apps app owner name ∧ OffersVariant (.ofApps apps) owner name := by
  cases used with
  | creation serves writable method =>
    obtain ⟨className, _, meant⟩ := Option.bind_eq_some_iff.mp serves.2
    obtain ⟨owner, owner_mem, found, member, home, interface, written⟩ := resolve?_ofApps meant
    have referred := creation_referred serves writable method
    rw [home] at referred
    refine ⟨owner, owner_mem, sees_of_reference distinct app_mem owner_mem referred, ?_⟩
    exact offersVariant_of_mem member (written ▸ writable) (by simp [interface])
  | update serves writable method =>
    obtain ⟨className, _, meant⟩ := Option.bind_eq_some_iff.mp serves.2
    obtain ⟨owner, owner_mem, found, member, home, interface, written⟩ := resolve?_ofApps meant
    have referred := update_referred serves writable method
    rw [home] at referred
    refine ⟨owner, owner_mem, sees_of_reference distinct app_mem owner_mem referred, ?_⟩
    exact offersVariant_of_mem member (written ▸ writable) (by simp [interface])

private theorem interface_supplied (distinct : (apps.map App.name).Nodup) (app_mem : app ∈ apps)
    (meant : (SerializerIndex.ofApps apps).resolve? (some app.name) className = some known)
    (referred : ⟨known.app, known.interface⟩ ∈ referencesOf (.ofApps apps) app) :
    ∃ owner ∈ apps, Sees apps app owner known.interface ∧
      (moduleOf (.ofApps apps) owner).Declares known.interface := by
  obtain ⟨owner, owner_mem, found, member, home, interface, _⟩ := resolve?_ofApps meant
  rw [home] at referred
  refine ⟨owner, owner_mem, sees_of_reference distinct app_mem owner_mem referred, ?_⟩
  rw [interface]
  exact declares_interface member

/-- Whatever a module uses is declared by a module that it sees. -/
theorem use_supplied (distinct : (apps.map App.name).Nodup) (app_mem : app ∈ apps)
    (used : Uses (.ofApps apps) app name) :
    ∃ owner ∈ apps, Sees apps app owner name ∧ (moduleOf (.ofApps apps) owner).Declares name := by
  cases used with
  | nested member listed nests meant =>
    exact interface_supplied distinct app_mem meant (nested_referred member listed nests meant)
  | payload used =>
    obtain ⟨owner, owner_mem, seen, offered⟩ := payload_supplied distinct app_mem used
    exact ⟨owner, owner_mem, seen, declares_variant offered⟩
  | response serves kept =>
    obtain ⟨className, _, meant⟩ := Option.bind_eq_some_iff.mp serves.2
    exact interface_supplied distinct app_mem meant (response_referred serves kept)

/-- The type of data holds no other names than plain ones and the interface of
the serializer that it nests. -/
theorem typeOf_names (named : name ∈ (typeOf resolve? choices type).names) :
    name ∈ plainNames ∨ ∃ className known, nestedClass? type = some className ∧
      resolve? className = some known ∧ name = known.interface := by
  induction type with
  | choice =>
    simp only [typeOf] at named
    split at named
    · simp_all [TypeExpr.names, plainNames]
    · simp [TypeExpr.names, TypeExpr.memberNames_eq] at named
  | nested className =>
    simp only [typeOf] at named
    cases meant : resolve? className with
    | none => simp_all [TypeExpr.names, TypeExpr.any, plainNames]
    | some known =>
      simp only [meant, TypeExpr.names, List.mem_singleton] at named
      exact .inr ⟨className, known, rfl, meant, named⟩
  | listOf item ih => exact ih named
  | file | image | primaryKey =>
    simp only [typeOf, TypeExpr.names, TypeExpr.memberNames, List.mem_append,
      List.mem_singleton, List.not_mem_nil, or_false] at named
    rcases named with rfl | rfl <;> simp [plainNames]
  | _ => simp_all [typeOf, TypeExpr.names, TypeExpr.any, TypeExpr.anyObject, plainNames]

private theorem typeOfField_names (named : name ∈ (typeOfField resolve? field).names) :
    name ∈ plainNames ∨ ∃ className known, nestedClass? field.type = some className ∧
      resolve? className = some known ∧ name = known.interface := by
  simp only [typeOfField, TypeExpr.orNull] at named
  split at named
  · split at named
    · exact typeOf_names named
    · simp only [TypeExpr.names, TypeExpr.memberNames, List.append_nil, List.mem_append,
        List.mem_singleton] at named
      rcases named with named | rfl
      · exact typeOf_names named
      · simp [plainNames]
  · exact typeOf_names named

private theorem property_written (member : found ∈ app.serializers)
    (listed : field ∈ found.fields) :
    WrittenWith (Uses index app)
      (propertyOf (index.resolve? (some app.name)) field).expression := by
  refine ⟨_, rfl, fun name named => ?_⟩
  rcases typeOfField_names named with plain | ⟨className, known, nests, meant, rfl⟩
  · exact .inl plain
  · exact .inr ⟨_, .nested member listed nests meant, .inl rfl⟩

/-- A variant has properties of its declaration only. -/
theorem variant_expressions {declaration variant : Declaration}
    (derived : variant ∈ declaration.variants) (listed : text ∈ variant.expressions) : text ∈ declaration.expressions := by
  obtain ⟨name, body, parameters, description⟩ := declaration
  cases body with
  | interface properties =>
    simp only [Declaration.variants] at derived
    split at derived
    · cases derived
    · simp only [List.mem_cons, List.not_mem_nil, or_false] at derived
      rcases derived with rfl | rfl
      · simp only [Declaration.payload, Declaration.expressions, List.mem_map,
          List.mem_filter] at listed ⊢
        obtain ⟨property, kept, rfl⟩ := listed
        exact ⟨property, kept.1, rfl⟩
      · simp only [Declaration.payload, Declaration.expressions, List.map_map, List.mem_map,
          List.mem_filter] at listed ⊢
        obtain ⟨property, kept, rfl⟩ := listed
        exact ⟨property, kept.1, rfl⟩
  | enumeration members => cases derived
  | synonym expression => cases derived

private theorem literal_written (listed : member ∈ members used choices) :
    WrittenWith uses member.expression := by
  induction choices generalizing used with
  | nil => cases listed
  | cons choice rest ih =>
    rcases List.mem_cons.mp listed with rfl | later
    · exact ⟨.literal choice.value, rfl, fun name named => by cases named⟩
    · exact ih later

/-- Everything that comes from a serializer is written with names in use. -/
theorem serializer_written (member : found ∈ app.serializers)
    (declared : declaration ∈ serializerDeclarations (index.resolve? (some app.name)) found)
    (listed : text ∈ declaration.expressions) : WrittenWith (Uses index app) text := by
  have interface_written : ∀ text ∈ (interfaceOf (index.resolve? (some app.name)) found).expressions,
      WrittenWith (Uses index app) text := by
    intro text listed
    simp only [interfaceOf, Declaration.expressions, List.map_map, List.mem_map] at listed
    obtain ⟨field, kept, rfl⟩ := listed
    exact property_written member kept
  simp only [serializerDeclarations, List.cons_append, List.mem_cons, List.mem_append] at declared
  rcases declared with rfl | derived | enumerated
  · exact interface_written text listed
  · exact interface_written text (variant_expressions derived listed)
  · obtain ⟨field, _, rfl⟩ := List.mem_map.mp enumerated
    obtain ⟨choice, chosen, rfl⟩ := List.mem_map.mp listed
    exact literal_written chosen

private theorem plain_written (plain : name ∈ plainNames) :
    WrittenWith uses (TypeExpr.name name).text :=
  ⟨.name name, rfl, fun _ named => .inl (List.mem_singleton.mp named ▸ plain)⟩

private theorem used_written (used : uses name) : WrittenWith uses (TypeExpr.name name).text :=
  ⟨.name name, rfl, fun _ named => .inr ⟨name, used, .inl (List.mem_singleton.mp named)⟩⟩

private theorem page_written (used : uses name) :
    WrittenWith uses (TypeExpr.name (pageOf name)).text :=
  ⟨.name (pageOf name), rfl, fun _ named =>
    .inr ⟨name, used, .inr (List.mem_singleton.mp named)⟩⟩

private theorem response_written (member : endpoint ∈ app.endpoints) :
    WrittenWith (Uses index app)
      (responseOf (endpoint.serializerClass.bind (index.resolve? (some app.name))) endpoint).1.text := by
  by_cases deletes : endpoint.method = .delete
  · have voided : (responseOf (endpoint.serializerClass.bind (index.resolve? (some app.name)))
        endpoint).1 = .name "void" := by simp [responseOf, deletes]
    rw [voided]
    exact plain_written (by simp [plainNames])
  · cases target : endpoint.serializerClass.bind (index.resolve? (some app.name)) with
    | none =>
      have unknown : (responseOf none endpoint).1 = .anyObject := by
        cases method : endpoint.method <;> simp_all [responseOf]
      rw [unknown]
      exact plain_written (by simp [plainNames])
    | some known =>
      have used : Uses index app known.interface := .response ⟨member, target⟩ deletes
      rw [responseOf_some deletes]
      split
      · exact page_written used
      · exact used_written used

private theorem request_written (member : endpoint ∈ app.endpoints)
    (sent : requestOf? (endpoint.serializerClass.bind (index.resolve? (some app.name)))
      endpoint.method = some request) : WrittenWith (Uses index app) request.1.text := by
  have open_written : WrittenWith (Uses index app) TypeExpr.anyObject.text :=
    plain_written (by simp [plainNames])
  cases target : endpoint.serializerClass.bind (index.resolve? (some app.name)) with
  | none =>
    simp only [target, requestOf?, Option.map_eq_some_iff] at sent
    obtain ⟨_, _, rfl⟩ := sent
    exact open_written
  | some known =>
    have serves : Serves index app endpoint known := ⟨member, target⟩
    simp only [target, requestOf?, Option.map_eq_some_iff] at sent
    obtain ⟨variantName, chosen, rfl⟩ := sent
    by_cases writable : known.writable = true
    · rw [if_pos writable]
      cases method : endpoint.method with
      | get => simp [method] at chosen
      | delete => simp [method] at chosen
      | post =>
        simp only [method, Option.some.injEq] at chosen
        exact chosen ▸ used_written (.payload (.creation serves writable method))
      | put =>
        simp only [method, Option.some.injEq] at chosen
        exact chosen ▸ used_written (.payload (.update serves writable (.inl method)))
      | patch =>
        simp only [method, Option.some.injEq] at chosen
        exact chosen ▸ used_written (.payload (.update serves writable (.inr method)))
    · rw [if_neg writable]
      exact open_written

/-- The aliases of an endpoint are written with names in use. -/
theorem alias_written (member : endpoint ∈ app.endpoints)
    (declared : declaration ∈ (endpointAliases index app endpoint).1)
    (listed : text ∈ declaration.expressions) : WrittenWith (Uses index app) text := by
  simp only [endpointAliases] at declared
  split at declared
  · obtain rfl := List.mem_singleton.mp declared
    obtain rfl := List.mem_singleton.mp listed
    exact response_written member
  · rename_i request sent
    simp only [List.mem_cons, List.not_mem_nil, or_false] at declared
    rcases declared with rfl | rfl
    · obtain rfl := List.mem_singleton.mp listed
      exact request_written member sent
    · obtain rfl := List.mem_singleton.mp listed
      exact response_written member

/-- Leaving repeated aliases out adds none. -/
theorem withoutRepeats_subset : withoutRepeats latest aliases ⊆ aliases := by
  induction aliases generalizing latest with
  | nil => exact List.Subset.refl _
  | cons first rest ih =>
    simp only [withoutRepeats]
    split
    · exact List.subset_cons_of_subset _ ih
    · exact List.cons_subset_cons _ ih

/-- Every expression of a module is written with plain names and names in use. -/
theorem module_written {declaration : Declaration}
    (declared : declaration ∈ (moduleOf index app).declarations)
    (listed : text ∈ declaration.expressions) : WrittenWith (Uses index app) text := by
  rcases List.mem_append.mp declared with serialized | aliased
  · obtain ⟨found, member, inside⟩ := List.mem_flatMap.mp serialized
    exact serializer_written member inside listed
  · obtain ⟨_, mapped, inside⟩ := List.mem_flatMap.mp (withoutRepeats_subset aliased)
    obtain ⟨endpoint, member, rfl⟩ := List.mem_map.mp mapped
    exact alias_written member inside listed

/-- What a module uses is there to be used. -/
structure Closed (apps : List App) (app : App) : Prop where
  /-- Each use is declared by the module itself or by one that it is imported from. -/
  declared : ∀ name, Uses (.ofApps apps) app name → ∃ owner ∈ apps,
    Sees apps app owner name ∧ (moduleOf (.ofApps apps) owner).Declares name
  /-- A payload is used only if a serializer has it as a variant. -/
  derived : ∀ name, UsesPayload (.ofApps apps) app name → ∃ owner ∈ apps,
    Sees apps app owner name ∧ OffersVariant (.ofApps apps) owner name
  /-- No expression of the module holds a name that is not used. -/
  written : ∀ declaration ∈ (moduleOf (.ofApps apps) app).declarations,
    ∀ text ∈ declaration.expressions, WrittenWith (Uses (.ofApps apps) app) text

/-- No serializer type dangles in the module of an application, whatever the
other applications declare and however often a class name occurs. -/
theorem module_references_closed (distinct : (apps.map App.name).Nodup) (member : app ∈ apps) :
    Closed apps app where
  declared _ used := use_supplied distinct member used
  derived _ used := payload_supplied distinct member used
  written _ declared _ listed := module_written declared listed

/-- An application whose orders nest the users of another one. -/
def orderApp : App :=
  { name := "orders", rootPath := "orders", pythonFileCount := 2, usesRestFramework := true
    models := [], views := []
    serializers := [⟨⟨"OrderSerializer", "orders/serializers.py", 1, ["Serializer"], none⟩,
      [{ name := "buyers", type := .listOf (.nested "UserSerializer") }]⟩]
    endpoints := [
      { path := "/orders/", method := .post, handlerClass := "OrderView"
        handlerFunction := "post", description := "Create", serializerClass := some "UserSerializer"
        permissionClasses := [] }] }

def userApp : App :=
  { name := "users", rootPath := "users", pythonFileCount := 1, usesRestFramework := true
    models := [], views := [], endpoints := []
    serializers := [⟨⟨"UserSerializer", "users/serializers.py", 1, ["Serializer"], none⟩,
      [{ name := "email", type := .email }]⟩] }

def userType : KnownSerializer := ⟨"UserSerializer", "users", "User", true⟩

theorem order_module_closed :
    ([orderApp, userApp].map App.name).Nodup ∧ orderApp ∈ [orderApp, userApp] ∧
      Uses (.ofApps [orderApp, userApp]) orderApp userType.interface ∧
      UsesPayload (.ofApps [orderApp, userApp]) orderApp (Declaration.creationName userType.interface) ∧
      Closed [orderApp, userApp] orderApp := by
  have known : SerializerIndex.resolve? (.ofApps [orderApp, userApp]) (some "orders")
      "UserSerializer" = some userType := by decide
  refine ⟨by decide, by simp, ?_, ?_, module_references_closed (by decide) (by simp)⟩
  · exact .nested (List.mem_singleton_self _) (List.mem_singleton_self _) rfl known
  · exact .creation ⟨List.mem_singleton_self _, known⟩ rfl rfl

end ApiScribe.TypeScript
