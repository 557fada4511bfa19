import ApiScribe.Proofs.TypeScript.Contents

/-! Applications that refer to no serializer of another one. A module reads the serializers
of a project through the class names that its application refers to and in no other way. A
name that the application itself has means its own class there, wherever and how often
others have it too, so what others declare cannot reach such a module. -/
namespace ApiScribe.TypeScript

/-- The serializer classes of an application by their names. -/
def classNames (app : App) : List String := app.serializers.map fun found => found.record.name

/-- The class names that an application refers to: what the fields of its serializers nest,
at any depth of lists, and what its endpoints take and give. -/
def referredClasses (app : App) : List String :=
  app.serializers.flatMap (fun found =>
      found.fields.filterMap fun field => nestedClass? field.type) ++
    app.endpoints.filterMap Endpoint.serializerClass

/-- Among some applications, whatever serializer one refers to it has itself. It may refer
to names that nobody has. -/
def SelfContained (apps : List App) (app : App) : Prop :=
  ∀ className ∈ referredClasses app, ∀ owner ∈ apps,
    className ∈ classNames owner → className ∈ classNames app

instance (apps : List App) (app : App) : Decidable (SelfContained apps app) :=
  List.decidableBAll _ (referredClasses app)

variable {index other : SerializerIndex} {apps : List App} {app : App} {endpoint : Endpoint}
  {found : ClassFields} {className name source : String}

private theorem referred_of_field (member : found ∈ app.serializers) {field : Field}
    (listed : field ∈ found.fields) (nests : nestedClass? field.type = some className) :
    className ∈ referredClasses app :=
  List.mem_append_left _
    (List.mem_flatMap.mpr ⟨found, member, List.mem_filterMap.mpr ⟨field, listed, nests⟩⟩)

private theorem referred_of_endpoint (member : endpoint ∈ app.endpoints)
    (serves : endpoint.serializerClass = some className) : className ∈ referredClasses app :=
  List.mem_append_right _ (List.mem_filterMap.mpr ⟨endpoint, member, serves⟩)

/-! A module depends on what the names it refers to mean. -/

section
variable {first second : String → Option KnownSerializer}

private theorem typeOf_congr {choices : List Choice} {type : FieldType}
    (agree : ∀ className, nestedClass? type = some className → first className = second className) :
    typeOf first choices type = typeOf second choices type := by
  induction type with
  | nested className => rw [typeOf, typeOf, agree className rfl]
  | listOf item ih => rw [typeOf, typeOf, ih agree]
  | _ => rfl

private theorem propertyOf_congr {field : Field}
    (agree : ∀ className, nestedClass? field.type = some className →
      first className = second className) :
    propertyOf first field = propertyOf second field := by
  rw [propertyOf, propertyOf, typeOfField, typeOfField, typeOf_congr agree]

/-- Two readings agree on whatever some fields nest. -/
def AgreeOn (first second : String → Option KnownSerializer) (fields : List Field) : Prop :=
  ∀ field ∈ fields, ∀ className, nestedClass? field.type = some className →
    first className = second className

private theorem serializerDeclarations_congr (agree : AgreeOn first second found.fields) :
    serializerDeclarations first found = serializerDeclarations second found := by
  have same : interfaceOf first found = interfaceOf second found := by
    rw [interfaceOf, interfaceOf,
      List.map_congr_left fun field listed => propertyOf_congr (agree field listed)]
  rw [serializerDeclarations, serializerDeclarations, same]

private theorem fieldReferences_congr {fields : List Field} (agree : AgreeOn first second fields) :
    fieldReferences first fields = fieldReferences second fields := by
  refine List.filterMap_congr fun field listed => ?_
  rw [Option.bind_congr fun className nests => agree field listed className nests]

end

private theorem endpointAliases_congr
    (agree : ∀ className, endpoint.serializerClass = some className →
      index.resolve? (some app.name) className = other.resolve? (some app.name) className) :
    endpointAliases index app endpoint = endpointAliases other app endpoint := by
  rw [endpointAliases, endpointAliases, Option.bind_congr agree]

/-- A module is the same under two indexes if the names that its application refers to mean
the same under both. -/
theorem moduleOf_congr
    (agree : ∀ className ∈ referredClasses app,
      index.resolve? (some app.name) className = other.resolve? (some app.name) className) :
    moduleOf index app = moduleOf other app := by
  have nested : ∀ found ∈ app.serializers, AgreeOn (index.resolve? (some app.name))
      (other.resolve? (some app.name)) found.fields := fun found member field listed className nests =>
    agree className (referred_of_field member listed nests)
  have declared : app.serializers.flatMap
        (serializerDeclarations (index.resolve? (some app.name))) =
      app.serializers.flatMap (serializerDeclarations (other.resolve? (some app.name))) :=
    List.flatMap_congr fun found member => serializerDeclarations_congr (nested found member)
  have nestedReferences : (app.serializers.flatMap fun found =>
        fieldReferences (index.resolve? (some app.name)) found.fields) =
      app.serializers.flatMap fun found =>
        fieldReferences (other.resolve? (some app.name)) found.fields :=
    List.flatMap_congr fun found member => fieldReferences_congr (nested found member)
  have aliased : app.endpoints.map (endpointAliases index app) =
      app.endpoints.map (endpointAliases other app) :=
    List.map_congr_left fun endpoint member => endpointAliases_congr fun className serves =>
      agree className (referred_of_endpoint member serves)
  rw [moduleOf, moduleOf, referencesOf, referencesOf, declared, nestedReferences, aliased]

/-! What a name means to an application that has it. -/

/-- Nothing is known under the name of an application that is not there. -/
theorem ofApps_foreign (apart : app.name ∉ apps.map App.name) :
    (SerializerIndex.ofApps apps).filter (fun known => known.app == app.name) = [] := by
  refine List.filter_eq_nil_iff.mpr fun known listed => ?_
  obtain ⟨owner, owner_mem, inside⟩ := List.mem_flatMap.mp listed
  rw [app_of_mem_ofApp inside, beq_iff_eq]
  exact fun same => apart (List.mem_map.mpr ⟨owner, owner_mem, same⟩)

/-- The serializers that are known under the name of an application are its own, as
applications are told apart by their names. -/
theorem ofApps_home (distinct : (apps.map App.name).Nodup) (app_mem : app ∈ apps) :
    (SerializerIndex.ofApps apps).filter (fun known => known.app == app.name) =
      SerializerIndex.ofApp app := by
  have own : (SerializerIndex.ofApp app).filter (fun known => known.app == app.name) =
      SerializerIndex.ofApp app :=
    List.filter_eq_self.mpr fun known listed => beq_iff_eq.mpr (app_of_mem_ofApp listed)
  obtain ⟨front, back, rfl⟩ := List.append_of_mem app_mem
  rw [List.map_append, List.map_cons, List.nodup_middle, List.nodup_cons, List.mem_append,
    not_or] at distinct
  obtain ⟨⟨before, behind⟩, _⟩ := distinct
  have parts : SerializerIndex.ofApps (front ++ app :: back) = SerializerIndex.ofApps front ++
      (SerializerIndex.ofApp app ++ SerializerIndex.ofApps back) := List.flatMap_append
  rw [parts, List.filter_append, List.filter_append, own, ofApps_foreign before,
    ofApps_foreign behind, List.nil_append, List.append_nil]

private theorem find?_ofApp_isSome :
    ((SerializerIndex.ofApp app).find? fun known => known.name == className).isSome ↔
      className ∈ classNames app := by
  simp [SerializerIndex.ofApp, classNames]

/-- A name means the first class of an application that has it. Others that have it count
only if the application has not. -/
theorem resolve?_ofApps_eq (distinct : (apps.map App.name).Nodup) (app_mem : app ∈ apps)
    (className : String) :
    (SerializerIndex.ofApps apps).resolve? (some app.name) className =
      ((SerializerIndex.ofApp app).find? fun known => known.name == className).or
        ((SerializerIndex.ofApps apps).find? fun known => known.name == className) := by
  rw [← ofApps_home distinct app_mem, SerializerIndex.resolve?, List.find?_filter,
    List.find?_filter, List.head?_filter]
  congr 2
  funext known
  simp [and_comm]

/-- To an application with nothing of others a name means its own class or none. -/
theorem SelfContained.resolve?_eq (contained : SelfContained apps app)
    (distinct : (apps.map App.name).Nodup) (app_mem : app ∈ apps)
    (referred : className ∈ referredClasses app) :
    (SerializerIndex.ofApps apps).resolve? (some app.name) className =
      (SerializerIndex.ofApp app).find? fun known => known.name == className := by
  rw [resolve?_ofApps_eq distinct app_mem]
  by_cases has : className ∈ classNames app
  · obtain ⟨known, meant⟩ := Option.isSome_iff_exists.mp (find?_ofApp_isSome.mpr has)
    rw [meant, Option.some_or]
  · have unknown : (SerializerIndex.ofApps apps).find? (fun known => known.name == className) =
        none := by
      refine List.find?_eq_none.mpr fun known listed named => ?_
      obtain ⟨owner, owner_mem, inside⟩ := List.mem_flatMap.mp listed
      exact has (contained className referred owner owner_mem
        (find?_ofApp_isSome.mp (List.find?_isSome.mpr ⟨known, inside, named⟩)))
    rw [unknown, Option.or_none]

/-- What stands in the module of such an application is its own. -/
theorem SelfContained.app_eq {known : KnownSerializer} (contained : SelfContained apps app)
    (distinct : (apps.map App.name).Nodup) (app_mem : app ∈ apps)
    (stands : Stands (.ofApps apps) app known) : known.app = app.name := by
  have home {className : String} (referred : className ∈ referredClasses app)
      (meant : (SerializerIndex.ofApps apps).resolve? (some app.name) className = some known) :
      known.app = app.name := by
    rw [contained.resolve?_eq distinct app_mem referred] at meant
    exact app_of_mem_ofApp (List.mem_of_find?_eq_some meant)
  cases stands with
  | own member => exact app_of_mem_ofApp member
  | nested member listed nests meant => exact home (referred_of_field member listed nests) meant
  | given serves _ =>
    obtain ⟨className, called, meant⟩ := Option.bind_eq_some_iff.mp serves.2
    exact home (referred_of_endpoint serves.1 called) meant

/-- Such a module imports nothing but the page of the shared declarations. -/
theorem SelfContained.imports (contained : SelfContained apps app)
    (distinct : (apps.map App.name).Nodup) (app_mem : app ∈ apps)
    (imported : (moduleOf (.ofApps apps) app).Imports source name) :
    source = commonModule ∧ name = pageName := by
  obtain ⟨foreign, named | ⟨_, shared⟩⟩ := imports_iff.mp imported
  · rcases named with ⟨known, stands, rfl, _⟩ | ⟨known, payload, rfl⟩
    · exact absurd (contained.app_eq distinct app_mem stands) foreign
    · exact absurd (contained.app_eq distinct app_mem payload.stands.1) foreign
  · exact shared

/-- The module is that of a project with nothing but the application. -/
theorem SelfContained.moduleOf_eq (contained : SelfContained apps app)
    (distinct : (apps.map App.name).Nodup) (app_mem : app ∈ apps) :
    moduleOf (.ofApps apps) app = moduleOf (.ofApps [app]) app := by
  have alone : SelfContained [app] app := fun className _ owner owner_mem has =>
    List.mem_singleton.mp owner_mem ▸ has
  refine moduleOf_congr fun className referred => ?_
  rw [contained.resolve?_eq distinct app_mem referred,
    alone.resolve?_eq (List.nodup_singleton _) List.mem_cons_self referred]

/-- An application that refers to no serializer of others has the same module in every
project, whatever the others declare and in whatever order they come. -/
theorem self_contained_module_fixed {first second : List App}
    (distinct : (first.map App.name).Nodup) (distinctToo : (second.map App.name).Nodup)
    (member : app ∈ first) (memberToo : app ∈ second) (contained : SelfContained first app)
    (containedToo : SelfContained second app) :
    moduleOf (.ofApps first) app = moduleOf (.ofApps second) app :=
  (contained.moduleOf_eq distinct member).trans
    (containedToo.moduleOf_eq distinctToo memberToo).symm

/-- A shop whose carts nest lines of its own, with an endpoint for a class that nobody has. -/
def cartApp : App :=
  { name := "cart", rootPath := "cart", pythonFileCount := 2, usesRestFramework := true
    models := [], views := []
    serializers := [
      ⟨⟨"LineSerializer", "cart/serializers.py", 1, ["Serializer"], none⟩,
        [{ name := "amount", type := .integer }]⟩,
      ⟨⟨"CartSerializer", "cart/serializers.py", 4, ["Serializer"], none⟩,
        [{ name := "lines", type := .listOf (.nested "LineSerializer") }]⟩]
    endpoints := [
      { path := "/cart/", method := .get, handlerClass := "CartView", handlerFunction := "list"
        description := "List", serializerClass := some "CartSerializer", permissionClasses := [] },
      { path := "/gift/", method := .post, handlerClass := "GiftView", handlerFunction := "post"
        description := "Create", serializerClass := some "GiftSerializer", permissionClasses := [] }] }

/-- An application whose lines are read-only and have the same class name. -/
def billApp : App :=
  { name := "bills", rootPath := "bills", pythonFileCount := 1, usesRestFramework := true
    models := [], views := [], endpoints := []
    serializers := [⟨⟨"LineSerializer", "bills/serializers.py", 1, ["Serializer"], none⟩,
      [{ name := "text", type := .string, readOnly := true }]⟩] }

/-- Lines of bills do not reach the carts, whether they are known before those of the carts or
not at all. -/
theorem cart_module_fixed :
    (([billApp, cartApp].map App.name).Nodup ∧ ([cartApp, orderApp].map App.name).Nodup) ∧
      (cartApp ∈ [billApp, cartApp] ∧ cartApp ∈ [cartApp, orderApp]) ∧
      (SelfContained [billApp, cartApp] cartApp ∧ SelfContained [cartApp, orderApp] cartApp) ∧
      "LineSerializer" ∈ referredClasses cartApp ∧ "LineSerializer" ∈ classNames billApp ∧
      moduleOf (.ofApps [billApp, cartApp]) cartApp =
        moduleOf (.ofApps [cartApp, orderApp]) cartApp := by
  have distinct : ([billApp, cartApp].map App.name).Nodup ∧
      ([cartApp, orderApp].map App.name).Nodup := by decide
  have contained : SelfContained [billApp, cartApp] cartApp ∧
      SelfContained [cartApp, orderApp] cartApp := by decide
  have member : cartApp ∈ [billApp, cartApp] ∧ cartApp ∈ [cartApp, orderApp] := by simp
  exact ⟨distinct, member, contained, by decide, by decide,
    self_contained_module_fixed distinct.1 distinct.2 member.1 member.2 contained.1 contained.2⟩

end ApiScribe.TypeScript
