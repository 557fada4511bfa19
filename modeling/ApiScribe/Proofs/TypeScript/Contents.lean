import ApiScribe.Proofs.TypeScript.Aliases

/-! What a module imports and what it declares, told by what its application has. The
interfaces and payloads of serializers stand in it whether they are its own or those of
other applications: the first are declared and the others imported. Besides these there
are enumerations and aliases, which it declares, and pages, which it imports. -/
namespace ApiScribe.TypeScript

/-- The serializers whose interfaces stand in the module of an application: its own, those
that its fields nest and those that its endpoints give back. -/
inductive Stands (index : SerializerIndex) (app : App) : KnownSerializer → Prop where
  | own (member : known ∈ SerializerIndex.ofApp app) : Stands index app known
  | nested (member : found ∈ app.serializers) (listed : field ∈ found.fields)
      (nests : nestedClass? field.type = some className)
      (meant : index.resolve? (some app.name) className = some known) : Stands index app known
  | given (serves : Serves index app endpoint known) (kept : endpoint.method ≠ .delete) :
      Stands index app known

/-- The payloads that stand in the module: the variants of its own serializers and those
that its endpoints are sent. -/
inductive StandsPayload (index : SerializerIndex) (app : App) :
    KnownSerializer → String → Prop where
  | own (member : known ∈ SerializerIndex.ofApp app) (writable : known.writable = true)
      (named : name = Declaration.creationName known.interface ∨
        name = Declaration.updateName known.interface) : StandsPayload index app known name
  | creation (serves : Serves index app endpoint known) (writable : known.writable = true)
      (method : endpoint.method = .post) :
      StandsPayload index app known (Declaration.creationName known.interface)
  | update (serves : Serves index app endpoint known) (writable : known.writable = true)
      (method : endpoint.method = .put ∨ endpoint.method = .patch) :
      StandsPayload index app known (Declaration.updateName known.interface)

/-- Some endpoint of an application gives back a page of objects. -/
def Pages (index : SerializerIndex) (app : App) : Prop :=
  ∃ endpoint known, Serves index app endpoint known ∧ endpoint.method = .get ∧
    endpoint.handlerFunction = "list"

/-- The names that an application coins besides those of serializers: enumerations and
aliases. -/
inductive Coins (app : App) : String → Prop where
  | enumeration (member : found ∈ app.serializers) (listed : field ∈ found.fields)
      (chosen : field.choices ≠ []) : Coins app (enumerationOf found.record.name field).name
  | request (member : endpoint ∈ app.endpoints) (method : endpoint.method ≠ .get)
      (kept : endpoint.method ≠ .delete) : Coins app (aliasStem app endpoint ++ "Request")
  | response (member : endpoint ∈ app.endpoints) : Coins app (aliasStem app endpoint ++ "Response")

/-- A name of a serializer type that stands in the module, with the application that has
the serializer. -/
def Names (index : SerializerIndex) (app : App) (source name : String) : Prop :=
  (∃ known, Stands index app known ∧ known.app = source ∧ known.interface = name) ∨
    ∃ known, StandsPayload index app known name ∧ known.app = source

variable {index : SerializerIndex} {apps : List App} {app : App} {endpoint : Endpoint}
  {known : KnownSerializer} {name source : String}

/-- A payload stands beside the object that it is made into. -/
theorem StandsPayload.stands (payload : StandsPayload index app known name) :
    Stands index app known ∧ (name = Declaration.creationName known.interface ∨
      name = Declaration.updateName known.interface) := by
  cases payload with
  | own member _ named => exact ⟨.own member, named⟩
  | creation serves _ method => exact ⟨.given serves (by simp [method]), .inl rfl⟩
  | update serves _ method =>
    exact ⟨.given serves (by rcases method with method | method <;> simp [method]), .inr rfl⟩

/-! What a module refers to. -/

private theorem mem_request_iff {target : Option KnownSerializer} {method : HttpMethod}
    {reference : Reference} :
    reference ∈ ((requestOf? target method).map Prod.snd).getD [] ↔
      ∃ known, target = some known ∧ known.writable = true ∧
        ((method = .post ∧
            reference = ⟨known.app, Declaration.creationName known.interface⟩) ∨
          ((method = .put ∨ method = .patch) ∧
            reference = ⟨known.app, Declaration.updateName known.interface⟩)) := by
  cases target with
  | none => cases method <;> simp [requestOf?]
  | some known => cases writable : known.writable <;> cases method <;> simp [requestOf?, writable]

private theorem mem_response_iff {target : Option KnownSerializer} {reference : Reference} :
    reference ∈ (responseOf target endpoint).2 ↔
      ∃ known, target = some known ∧ endpoint.method ≠ .delete ∧
        (reference = ⟨known.app, known.interface⟩ ∨
          (endpoint.method = .get ∧ endpoint.handlerFunction = "list" ∧
            reference = ⟨commonModule, pageName⟩)) := by
  cases target with
  | none => cases method : endpoint.method <;> simp [responseOf, method]
  | some known =>
    cases method : endpoint.method <;> by_cases lists : endpoint.handlerFunction = "list" <;>
      simp [responseOf, method, lists]

private theorem endpointAliases_references (index : SerializerIndex) (app : App)
    (endpoint : Endpoint) :
    (endpointAliases index app endpoint).2 =
      ((requestOf? (targetOf index app endpoint) endpoint.method).map Prod.snd).getD [] ++
        (responseOf (targetOf index app endpoint) endpoint).2 := by
  rw [endpointAliases, targetOf]
  split
  · next none => simp [none]
  · next request sent => simp [sent]

/-- What a module refers to is what stands in it by its fields and endpoints, and pages. -/
theorem reference_cases (referred : ⟨source, name⟩ ∈ referencesOf index app) :
    Names index app source name ∨ Pages index app ∧ source = commonModule ∧ name = pageName := by
  rcases List.mem_append.mp referred with nested | aliased
  · obtain ⟨found, member, listed⟩ := List.mem_flatMap.mp nested
    obtain ⟨field, field_mem, made⟩ := List.mem_filterMap.mp listed
    obtain ⟨known, chosen, same⟩ := Option.map_eq_some_iff.mp made
    obtain ⟨className, nests, meant⟩ := Option.bind_eq_some_iff.mp chosen
    cases same
    exact .inl (.inl ⟨known, .nested member field_mem nests meant, rfl, rfl⟩)
  · obtain ⟨_, mapped, listed⟩ := List.mem_flatMap.mp aliased
    obtain ⟨endpoint, member, rfl⟩ := List.mem_map.mp mapped
    rw [endpointAliases_references, List.mem_append, mem_request_iff, mem_response_iff] at listed
    rcases listed with ⟨known, target, writable, ⟨method, same⟩ | ⟨method, same⟩⟩ |
      ⟨known, target, kept, same | ⟨method, lists, same⟩⟩
    · cases same
      exact .inl (.inr ⟨known, .creation ⟨member, target⟩ writable method, rfl⟩)
    · cases same
      exact .inl (.inr ⟨known, .update ⟨member, target⟩ writable method, rfl⟩)
    · cases same
      exact .inl (.inl ⟨known, .given ⟨member, target⟩ kept, rfl, rfl⟩)
    · cases same
      exact .inr ⟨⟨endpoint, known, ⟨member, target⟩, method, lists⟩, rfl, rfl⟩

theorem app_of_mem_ofApp (member : known ∈ SerializerIndex.ofApp app) : known.app = app.name := by
  obtain ⟨found, _, rfl⟩ := List.mem_map.mp member
  rfl

/-- What stands in a module and is of another application is referred to. -/
theorem reference_of_names (named : Names index app source name) (other : source ≠ app.name) :
    ⟨source, name⟩ ∈ referencesOf index app := by
  rcases named with ⟨known, stands, rfl, rfl⟩ | ⟨known, payload, rfl⟩
  · cases stands with
    | own member => exact absurd (app_of_mem_ofApp member) other
    | nested member listed nests meant => exact nested_referred member listed nests meant
    | given serves kept => exact response_referred serves kept
  · cases payload with
    | own member => exact absurd (app_of_mem_ofApp member) other
    | creation serves writable method => exact creation_referred serves writable method
    | update serves writable method => exact update_referred serves writable method

private theorem reference_of_pages (pages : Pages index app) :
    ⟨commonModule, pageName⟩ ∈ referencesOf index app := by
  obtain ⟨endpoint, known, serves, method, lists⟩ := pages
  have kept : endpoint.method ≠ .delete := by simp [method]
  apply alias_referred serves.1
  rw [endpointAliases_references, List.mem_append, targetOf, serves.2]
  exact .inr (mem_response_iff.mpr ⟨known, rfl, kept, .inr ⟨method, lists, rfl⟩⟩)

/-- A module imports only what it refers to in another one. -/
theorem reference_of_imports (imported : (moduleOf index app).Imports source name) :
    source ≠ app.name ∧ ⟨source, name⟩ ∈ referencesOf index app := by
  obtain ⟨found, listed, rfl, named⟩ := imported
  obtain ⟨module, _, rfl⟩ := List.mem_map.mp listed
  simp only [mem_sortedDistinct, List.mem_map, List.mem_filter,
    bne_iff_ne, ne_eq, beq_iff_eq] at named
  obtain ⟨reference, ⟨⟨referred, foreign⟩, rfl⟩, rfl⟩ := named
  exact ⟨foreign, referred⟩

/-- What a module refers to in another one it imports. -/
theorem imports_of_reference (referred : ⟨source, name⟩ ∈ referencesOf index app)
    (other : source ≠ app.name) : (moduleOf index app).Imports source name :=
  importsOf_lists referred other

/-- A module imports what stands in it and is of another application, and pages. -/
theorem imports_iff : (moduleOf index app).Imports source name ↔ source ≠ app.name ∧
    (Names index app source name ∨ Pages index app ∧ source = commonModule ∧ name = pageName) := by
  constructor
  · intro imported
    obtain ⟨other, referred⟩ := reference_of_imports imported
    exact ⟨other, reference_cases referred⟩
  · rintro ⟨other, named | ⟨pages, rfl, rfl⟩⟩
    · exact imports_of_reference (reference_of_names named other) other
    · exact imports_of_reference (reference_of_pages pages) other

/-! What a module declares. -/

/-- What stands in a module is the application's own or what some class name means there. -/
theorem Stands.own_or_meant (stands : Stands index app known) :
    known ∈ SerializerIndex.ofApp app ∨
      ∃ className, index.resolve? (some app.name) className = some known := by
  cases stands with
  | own member => exact .inl member
  | nested _ _ _ meant => exact .inr ⟨_, meant⟩
  | given serves _ =>
    obtain ⟨className, _, meant⟩ := Option.bind_eq_some_iff.mp serves.2
    exact .inr ⟨className, meant⟩

/-- A class of the application itself that stands in its module is one that it has. -/
theorem Stands.mem_ofApp (distinct : (apps.map App.name).Nodup) (app_mem : app ∈ apps)
    (stands : Stands (.ofApps apps) app known) (home : known.app = app.name) :
    known ∈ SerializerIndex.ofApp app := by
  rcases stands.own_or_meant with member | ⟨className, meant⟩
  · exact member
  · obtain ⟨owner, owner_mem, inside⟩ := List.mem_flatMap.mp (mem_of_resolve? meant).1
    have same : owner.name = app.name := (app_of_mem_ofApp inside).symm.trans home
    obtain rfl := List.inj_on_of_nodup_map distinct owner_mem app_mem same
    exact inside

private theorem StandsPayload.writable (payload : StandsPayload index app known name) :
    known.writable = true := by
  cases payload <;> assumption

/-- A serializer has both variants or none of them. -/
theorem variant_iff (resolve? : String → Option KnownSerializer) (found : ClassFields) :
    (∃ variant ∈ (interfaceOf resolve? found).variants, variant.name = name) ↔
      (found.fields.any fun field => !field.readOnly) = true ∧
        (name = Declaration.creationName (interfaceName found.record.name) ∨
          name = Declaration.updateName (interfaceName found.record.name)) := by
  rw [← List.mem_map]
  by_cases writable : (found.fields.any fun field => !field.readOnly) = true
  · rw [variants_names resolve? writable]
    simp [writable]
  · have sealed : (found.fields.map (propertyOf resolve?)).filter
        (fun property => !property.readOnly) = [] := by
      rw [List.filter_eq_nil_iff]
      intro property listed
      obtain ⟨field, member, rfl⟩ := List.mem_map.mp listed
      exact fun written => writable (List.any_eq_true.mpr ⟨field, member, written⟩)
    simp [Declaration.variants, interfaceOf, sealed, writable]

/-- What a serializer of an application declares. -/
theorem declares_serializer_iff (resolve? : String → Option KnownSerializer)
    (found : ClassFields) :
    (∃ declaration ∈ serializerDeclarations resolve? found, declaration.name = name) ↔
      name = interfaceName found.record.name ∨
        (∃ variant ∈ (interfaceOf resolve? found).variants, variant.name = name) ∨
        ∃ field ∈ found.fields, field.choices ≠ [] ∧
          name = (enumerationOf found.record.name field).name := by
  simp only [serializerDeclarations, List.cons_append, List.mem_cons, List.mem_append, enumerations,
    List.mem_map, List.mem_filter]
  constructor
  · rintro ⟨declaration, rfl | variant | ⟨field, ⟨listed, chosen⟩, rfl⟩, rfl⟩
    · exact .inl rfl
    · exact .inr (.inl ⟨declaration, variant, rfl⟩)
    · exact .inr (.inr ⟨field, listed, by simpa using chosen, rfl⟩)
  · rintro (rfl | ⟨variant, derived, rfl⟩ | ⟨field, listed, chosen, rfl⟩)
    · exact ⟨_, .inl rfl, rfl⟩
    · exact ⟨variant, .inr (.inl derived), rfl⟩
    · exact ⟨_, .inr (.inr ⟨field, ⟨listed, by simpa using chosen⟩, rfl⟩), rfl⟩

/-- An alias of an endpoint has the name of its response or, if something is sent, of its
request. -/
theorem alias_name_iff :
    (∃ declaration ∈ (endpointAliases index app endpoint).1, declaration.name = name) ↔
      name = aliasStem app endpoint ++ "Response" ∨
        (endpoint.method ≠ .get ∧ endpoint.method ≠ .delete ∧
          name = aliasStem app endpoint ++ "Request") := by
  have reads : (∃ declaration ∈ (endpointAliases index app endpoint).1, declaration.name = name) ↔
      ∃ body, AliasReads index app endpoint name body := by
    simp [AliasReads]
  rw [reads]
  simp only [aliasReads_iff]
  constructor
  · rintro ⟨body, ⟨named, _⟩ | ⟨text, sent, named, _⟩⟩
    · exact .inl named
    · refine .inr ⟨?_, ?_, named⟩ <;> rintro method <;> rw [method] at sent <;> cases sent
  · rintro (named | ⟨read, deleted, named⟩)
    · exact ⟨_, .inl ⟨named, rfl⟩⟩
    · have sent : ∃ text, sentText? (targetOf index app endpoint) endpoint.method = some text := by
        cases method : endpoint.method <;> simp_all [sentText?]
      obtain ⟨text, sent⟩ := sent
      exact ⟨_, .inr ⟨text, sent, named, rfl⟩⟩

/-- What comes from one serializer of an application stands in its module or is coined. -/
theorem names_of_serializer (member : found ∈ app.serializers) {declaration : Declaration}
    (declared : declaration ∈ serializerDeclarations (index.resolve? (some app.name)) found) :
    Names index app app.name declaration.name ∨ Coins app declaration.name := by
  have known : ⟨found.record.name, app.name, interfaceName found.record.name,
      found.fields.any fun field => !field.readOnly⟩ ∈ SerializerIndex.ofApp app :=
    List.mem_map.mpr ⟨found, member, rfl⟩
  rcases (declares_serializer_iff _ found).mp ⟨declaration, declared, rfl⟩ with
    named | variant | ⟨field, listed, chosen, named⟩
  · exact .inl (.inl ⟨_, .own known, rfl, named.symm⟩)
  · obtain ⟨writable, named⟩ := (variant_iff _ found).mp variant
    exact .inl (.inr ⟨_, .own known writable named, rfl⟩)
  · rw [named]
    exact .inr (.enumeration member listed chosen)

private theorem declares_of_alias (member : endpoint ∈ app.endpoints)
    (aliased : ∃ declaration ∈ (endpointAliases index app endpoint).1, declaration.name = name) :
    (moduleOf index app).Declares name := by
  obtain ⟨found, listed, named⟩ := aliased
  obtain ⟨declaration, declared, same, _⟩ := declares_alias member ⟨found, listed, named, rfl⟩
  exact ⟨declaration, declared, same⟩

/-- A name that an application has in its own module is declared there. -/
theorem declares_of_names (distinct : (apps.map App.name).Nodup) (app_mem : app ∈ apps)
    (named : Names (.ofApps apps) app app.name name) :
    (moduleOf (.ofApps apps) app).Declares name := by
  rcases named with ⟨known, stands, home, rfl⟩ | ⟨known, payload, home⟩
  · obtain ⟨found, member, rfl⟩ := List.mem_map.mp (stands.mem_ofApp distinct app_mem home)
    exact declares_interface member
  · obtain ⟨stands, variant⟩ := payload.stands
    have writable := payload.writable
    obtain ⟨found, member, rfl⟩ := List.mem_map.mp (stands.mem_ofApp distinct app_mem home)
    exact declares_variant (offersVariant_of_mem member writable (by simpa using variant))

/-- A name that an application coins its module declares. -/
theorem declares_of_coins (coins : Coins app name) : (moduleOf index app).Declares name := by
  cases coins with
  | enumeration member listed chosen =>
    obtain ⟨declaration, declared, named⟩ := (declares_serializer_iff
      (index.resolve? (some app.name)) _).mpr (.inr (.inr ⟨_, listed, chosen, rfl⟩))
    exact named ▸ declares_of_serializer member declared
  | request member method kept =>
    exact declares_of_alias member (alias_name_iff.mpr (.inr ⟨method, kept, rfl⟩))
  | response member => exact declares_of_alias member (alias_name_iff.mpr (.inl rfl))

/-- A module declares what stands in it of its own application and what that coins. -/
theorem declares_iff (distinct : (apps.map App.name).Nodup) (app_mem : app ∈ apps) :
    (moduleOf (.ofApps apps) app).Declares name ↔
      Names (.ofApps apps) app app.name name ∨ Coins app name := by
  constructor
  · rintro ⟨declaration, declared, rfl⟩
    rcases List.mem_append.mp declared with serialized | aliased
    · obtain ⟨found, member, inside⟩ := List.mem_flatMap.mp serialized
      exact names_of_serializer member inside
    · obtain ⟨_, mapped, inside⟩ := List.mem_flatMap.mp (withoutRepeats_subset aliased)
      obtain ⟨endpoint, member, rfl⟩ := List.mem_map.mp mapped
      rcases alias_name_iff.mp ⟨declaration, inside, rfl⟩ with named | ⟨method, kept, named⟩
      · rw [named]
        exact .inr (.response member)
      · rw [named]
        exact .inr (.request member method kept)
  · rintro (named | coins)
    · exact declares_of_names distinct app_mem named
    · exact declares_of_coins coins

end ApiScribe.TypeScript
