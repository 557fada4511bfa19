import ApiScribe.Proofs.TypeScript.Contents
import ApiScribe.Proofs.TypeScript.Ownership

/-! Names that a module imports. A name is made from that of a class, and different classes
of different applications can come to one name: a class and its namesake with the word
`Serializer` at its end, or a class that is called like what is sent to create another
one. What a module takes from others and what it declares are compared by the names that
they are made from, and nothing else can make two of them meet. -/
namespace ApiScribe.TypeScript

variable {index : SerializerIndex} {apps : List App} {app : App}
  {known first second : KnownSerializer} {name source other : String}

/-! Classes that come to one interface. -/

/-- A class is called like its interface, or so with the word `Serializer` at its end. -/
theorem className_cases (className : String) : className = interfaceName className ∨
    className = interfaceName className ++ "Serializer" := by
  rw [interfaceName, Naming.withoutTail]
  split
  · next c rest cut =>
    obtain ⟨reversed, dropped, same⟩ := Option.map_eq_some_iff.mp cut
    rw [Text.dropHead?] at dropped
    split at dropped
    · next starts =>
      cases dropped
      obtain ⟨left, whole⟩ := List.isPrefixOf_iff_prefix.mp starts
      rw [← whole, List.drop_left] at same
      refine .inr (String.toList_inj.mp ?_)
      rw [String.toList_append, String.toList_ofList, ← same]
      simpa using congrArg List.reverse whole.symm
    · cases dropped
  · exact .inl (by simp)

/-- A name of a class of an application means a class of that application there. -/
theorem resolve?_home (member : known ∈ index) :
    ∃ found, index.resolve? (some known.app) known.name = some found ∧ found.app = known.app := by
  have some : ((index.filter fun other => other.name == known.name).find?
      fun other => some other.app == some known.app).isSome := by
    rw [List.find?_isSome]
    exact ⟨known, by simp [member], by simp⟩
  obtain ⟨found, first⟩ := Option.isSome_iff_exists.mp some
  refine ⟨found, by rw [SerializerIndex.resolve?, first, Option.some_or], ?_⟩
  simpa using List.find?_some first

private theorem Stands.mem (app_mem : app ∈ apps) (stands : Stands (.ofApps apps) app known) :
    known ∈ SerializerIndex.ofApps apps := by
  rcases stands.own_or_meant with member | ⟨_, meant⟩
  · exact List.mem_flatMap.mpr ⟨app, app_mem, member⟩
  · exact (mem_of_resolve? meant).1

/-- What stands in a module is of the application that its name means there. -/
theorem Stands.meant (app_mem : app ∈ apps) (stands : Stands (.ofApps apps) app known) :
    ∃ found, (SerializerIndex.ofApps apps).resolve? (some app.name) known.name = some found ∧
      found.app = known.app := by
  rcases stands.own_or_meant with member | ⟨_, meant⟩
  · rw [← app_of_mem_ofApp member]
    exact resolve?_home (stands.mem app_mem)
  · exact ⟨known, (mem_of_resolve? meant).2 ▸ meant, rfl⟩

/-- Classes of different applications come to one interface only if one of them is called
like the other one with the word at its end. -/
theorem Stands.twins (app_mem : app ∈ apps) (stands : Stands (.ofApps apps) app first)
    (standsToo : Stands (.ofApps apps) app second) (same : first.interface = second.interface)
    (other : first.app ≠ second.app) :
    second.name = first.name ++ "Serializer" ∨ first.name = second.name ++ "Serializer" := by
  -- In one module a name means one class, so these two differ in their names.
  have different : first.name ≠ second.name := by
    intro named
    obtain ⟨found, meant, home⟩ := stands.meant app_mem
    obtain ⟨foundToo, meantToo, homeToo⟩ := standsToo.meant app_mem
    rw [named, meantToo, Option.some.injEq] at meant
    exact other (home.symm.trans ((congrArg _ meant.symm).trans homeToo))
  have cases := interface_of_mem (stands.mem app_mem) ▸ className_cases first.name
  have casesToo := interface_of_mem (standsToo.mem app_mem) ▸ className_cases second.name
  rw [← same] at casesToo
  rcases cases with plain | ended <;> rcases casesToo with plainToo | endedToo
  · exact absurd (plain.trans plainToo.symm) different
  · exact .inl (by rw [endedToo, plain])
  · exact .inr (by rw [ended, plainToo])
  · exact absurd (ended.trans endedToo.symm) different

/-! What can meet. -/

/-- The names that stand in a module are told apart by the classes that they come from. -/
structure NamesApart (index : SerializerIndex) (app : App) : Prop where
  /-- A class and the one called like it with the word at its end do not come to one
  interface, if they are of different applications. -/
  interfaces : ∀ first second, Stands index app first → Stands index app second →
    second.name = first.name ++ "Serializer" → first.interface = second.interface →
      first.app = second.app
  /-- No interface is called like a payload of another application. -/
  payloads : ∀ first second, Stands index app first →
    StandsPayload index app second first.interface → first.app = second.app
  /-- Where pages are imported, no interface of an application is called like them. -/
  pages : Pages index app → app.name ≠ commonModule → ∀ known, Stands index app known →
    known.interface = pageName → known.app = commonModule
  /-- What the application coins is not called like anything that it imports. -/
  coined : ∀ name, Coins app name →
    (∀ source, Names index app source name → source = app.name) ∧
      (Pages index app → app.name ≠ commonModule → name ≠ pageName)

/-- A payload tells what it is for and what interface it is derived from. -/
theorem interface_eq_of_payload
    (named : name = Declaration.creationName source ∨ name = Declaration.updateName source)
    (same : name = Declaration.creationName other ∨ name = Declaration.updateName other) :
    source = other := by
  have apart (first second : String) :
      Declaration.creationName first ≠ Declaration.updateName second := by
    intro same
    have chars := congrArg String.toList same
    simp [Declaration.creationName, Declaration.updateName] at chars
  rcases named with rfl | rfl <;> rcases same with same | same
  · exact (String.append_right_inj "Create").mp same
  · exact absurd same (apart source other)
  · exact absurd same.symm (apart other source)
  · exact (String.append_right_inj "Update").mp same

private theorem pageName_not_payload :
    ¬ (pageName = Declaration.creationName source ∨ pageName = Declaration.updateName source) := by
  rintro (same | same) <;> have chars := congrArg String.toList same <;>
    simp [Declaration.creationName, Declaration.updateName, pageName] at chars

/-- Classes that come to one interface are of one application. -/
theorem NamesApart.app_eq (apart : NamesApart (.ofApps apps) app) (app_mem : app ∈ apps)
    (stands : Stands (.ofApps apps) app first) (standsToo : Stands (.ofApps apps) app second)
    (same : first.interface = second.interface) : first.app = second.app := by
  by_contra other
  rcases stands.twins app_mem standsToo same other with named | named
  · exact other (apart.interfaces first second stands standsToo named same)
  · exact other (apart.interfaces second first standsToo stands named same.symm).symm

/-- Names that stand in a module and meet are names of one application. -/
theorem NamesApart.source_eq (apart : NamesApart (.ofApps apps) app) (app_mem : app ∈ apps)
    (named : Names (.ofApps apps) app source name)
    (same : Names (.ofApps apps) app other name) : source = other := by
  rcases named with ⟨first, stands, rfl, rfl⟩ | ⟨first, payload, rfl⟩ <;>
    rcases same with ⟨second, standsToo, rfl, same⟩ | ⟨second, payloadToo, rfl⟩
  · exact apart.app_eq app_mem stands standsToo same.symm
  · exact apart.payloads first second stands payloadToo
  · exact (apart.payloads second first standsToo (same ▸ payload)).symm
  · obtain ⟨stands, named⟩ := payload.stands
    obtain ⟨standsToo, namedToo⟩ := payloadToo.stands
    exact apart.app_eq app_mem stands standsToo (interface_eq_of_payload named namedToo)

/-- Only an interface can be called like a page. -/
theorem NamesApart.source_of_page (apart : NamesApart index app) (pages : Pages index app)
    (other : app.name ≠ commonModule) (named : Names index app source pageName) :
    source = commonModule := by
  rcases named with ⟨known, stands, rfl, named⟩ | ⟨known, payload, rfl⟩
  · exact apart.pages pages other known stands named
  · exact absurd payload.stands.2 pageName_not_payload

/-- A module imports no name from two modules and none that it declares. -/
structure ImportsApart (module : Module) : Prop where
  once : ∀ first ∈ module.imports, ∀ second ∈ module.imports, ∀ name ∈ first.names,
    name ∈ second.names → first.module = second.module
  foreign : ∀ found ∈ module.imports, ∀ name ∈ found.names, name ∉ module.names

private theorem importsApart_iff (module : Module) : ImportsApart module ↔
    (∀ source other name, module.Imports source name → module.Imports other name →
      source = other) ∧ ∀ source name, module.Imports source name → ¬ module.Declares name := by
  constructor
  · refine fun apart => ⟨?_, ?_⟩
    · rintro _ _ name ⟨first, listed, rfl, named⟩ ⟨second, listedToo, rfl, same⟩
      exact apart.once first listed second listedToo name named same
    · rintro _ name ⟨found, listed, rfl, named⟩ ⟨declaration, declared, same⟩
      exact apart.foreign found listed name named (List.mem_map.mpr ⟨declaration, declared, same⟩)
  · rintro ⟨once, foreign⟩
    constructor
    · intro first listed second listedToo name named same
      exact once _ _ name ⟨first, listed, rfl, named⟩ ⟨second, listedToo, rfl, same⟩
    · intro found listed name named declared
      exact foreign _ name ⟨found, listed, rfl, named⟩ (List.mem_map.mp declared)

/-- Where names are apart, no import meets another one. -/
theorem NamesApart.once (apart : NamesApart (.ofApps apps) app) (app_mem : app ∈ apps)
    (imported : (moduleOf (.ofApps apps) app).Imports source name)
    (again : (moduleOf (.ofApps apps) app).Imports other name) : source = other := by
  obtain ⟨foreign, named | ⟨pages, rfl, rfl⟩⟩ := imports_iff.mp imported <;>
    obtain ⟨foreignToo, same | ⟨pagesToo, rfl, same⟩⟩ := imports_iff.mp again
  · exact apart.source_eq app_mem named same
  · exact apart.source_of_page pagesToo foreignToo.symm (same ▸ named)
  · exact (apart.source_of_page pages foreign.symm same).symm
  · rfl

/-- Where names are apart, no import meets a declaration. -/
theorem NamesApart.foreign (apart : NamesApart (.ofApps apps) app)
    (distinct : (apps.map App.name).Nodup) (app_mem : app ∈ apps)
    (imported : (moduleOf (.ofApps apps) app).Imports source name) :
    ¬ (moduleOf (.ofApps apps) app).Declares name := by
  intro declared
  obtain ⟨other, named | ⟨pages, rfl, rfl⟩⟩ := imports_iff.mp imported <;>
    rcases (declares_iff distinct app_mem).mp declared with own | coins
  · exact other (apart.source_eq app_mem named own)
  · exact other ((apart.coined name coins).1 source named)
  · exact other (apart.source_of_page pages other.symm own).symm
  · exact (apart.coined pageName coins).2 pages other.symm rfl

/-- Where imports are apart, what stands in the module under one name is of one
application: what is not its own is imported. -/
theorem ImportsApart.source_eq (distinct : (apps.map App.name).Nodup) (app_mem : app ∈ apps)
    (apart : ImportsApart (moduleOf (.ofApps apps) app))
    (named : Names (.ofApps apps) app source name) (same : Names (.ofApps apps) app other name) :
    source = other := by
  obtain ⟨once, foreign⟩ := (importsApart_iff _).mp apart
  have imports {source : String} (named : Names (.ofApps apps) app source name)
      (away : source ≠ app.name) := imports_iff.mpr ⟨away, .inl named⟩
  by_cases home : source = app.name <;> by_cases homeToo : other = app.name
  · rw [home, homeToo]
  · exact absurd (declares_of_names distinct app_mem (home ▸ named))
      (foreign _ _ (imports same homeToo))
  · exact absurd (declares_of_names distinct app_mem (homeToo ▸ same))
      (foreign _ _ (imports named home))
  · exact once _ _ _ (imports named home) (imports same homeToo)

/-- What a module imports meets nothing else in it exactly if the names that they are
made from do not meet. -/
theorem imports_apart_iff (distinct : (apps.map App.name).Nodup) (member : app ∈ apps) :
    ImportsApart (moduleOf (.ofApps apps) app) ↔ NamesApart (.ofApps apps) app := by
  constructor
  · intro apart
    obtain ⟨once, foreign⟩ := (importsApart_iff _).mp apart
    have page (pages : Pages (.ofApps apps) app) (other : app.name ≠ commonModule) :=
      imports_iff.mpr ⟨other.symm, .inr ⟨pages, rfl, rfl⟩⟩
    refine ⟨?interfaces, ?payloads, ?pages, ?coined⟩
    case interfaces =>
      intro first second stands standsToo _ same
      exact apart.source_eq distinct member (.inl ⟨first, stands, rfl, same⟩)
        (.inl ⟨second, standsToo, rfl, rfl⟩)
    case payloads =>
      intro first second stands payload
      exact apart.source_eq distinct member (.inl ⟨first, stands, rfl, rfl⟩)
        (.inr ⟨second, payload, rfl⟩)
    case pages =>
      intro pages other known stands named
      by_cases home : known.app = app.name
      · refine absurd ?_ (foreign _ _ (page pages other))
        exact declares_of_names distinct member (.inl ⟨known, stands, home, named⟩)
      · exact once _ _ _ (imports_iff.mpr ⟨home, .inl (.inl ⟨known, stands, rfl, named⟩)⟩)
          (page pages other)
    case coined =>
      refine fun name coins => ⟨fun source named => ?_, fun pages other same => ?_⟩
      · by_contra away
        exact foreign _ _ (imports_iff.mpr ⟨away, .inl named⟩) (declares_of_coins coins)
      · exact foreign _ _ (page pages other) (declares_of_coins (same ▸ coins))
  · intro apart
    exact (importsApart_iff _).mpr ⟨fun _ _ _ => apart.once member,
      fun _ _ => apart.foreign distinct member⟩

theorem order_module_names_apart :
    ([orderApp, userApp].map App.name).Nodup ∧ orderApp ∈ [orderApp, userApp] ∧
      (moduleOf (.ofApps [orderApp, userApp]) orderApp).Imports "users" "User" ∧
      ImportsApart (moduleOf (.ofApps [orderApp, userApp]) orderApp) ∧
      NamesApart (.ofApps [orderApp, userApp]) orderApp := by
  have used : referencesOf (.ofApps [orderApp, userApp]) orderApp =
      [⟨"users", "User"⟩, ⟨"users", "CreateUser"⟩, ⟨"users", "User"⟩] := by decide
  have declared : (moduleOf (.ofApps [orderApp, userApp]) orderApp).names =
      ["Order", "CreateOrder", "UpdateOrder", "OrderViewPostRequest",
        "OrderViewPostResponse"] := by decide +kernel
  have imported {source : String} (name : String)
      (found : (moduleOf (.ofApps [orderApp, userApp]) orderApp).Imports source name) :
      source = "users" ∧ (name = "User" ∨ name = "CreateUser") := by
    have referred := used ▸ (reference_of_imports found).2
    simp only [List.mem_cons, Reference.mk.injEq, List.not_mem_nil, or_false] at referred
    tauto
  have apart : ImportsApart (moduleOf (.ofApps [orderApp, userApp]) orderApp) := by
    refine (importsApart_iff _).mpr ⟨fun _ _ name first second => ?_, fun _ name found own => ?_⟩
    · rw [(imported name first).1, (imported name second).1]
    · have own : name ∈ (moduleOf (.ofApps [orderApp, userApp]) orderApp).names :=
        List.mem_map.mpr own
      rw [declared] at own
      rcases (imported name found).2 with rfl | rfl <;> revert own <;> decide
  refine ⟨by decide, by simp, ?_, apart, (imports_apart_iff (by decide) (by simp)).mp apart⟩
  exact imports_of_reference (used ▸ List.mem_cons_self) (by decide)

/-- An application with one serializer. -/
def serializing (app className : String) (fields : List Field) : App :=
  { name := app, rootPath := app, pythonFileCount := 1, usesRestFramework := true
    models := [], views := [], endpoints := []
    serializers := [⟨⟨className, app ++ "/serializers.py", 1, ["Serializer"], none⟩, fields⟩] }

/-- A class of the stock and one of the parts that come to one interface. -/
def stockApp : App := serializing "stock" "ItemSerializer" [{ name := "code", type := .string }]

def partsApp : App := serializing "parts" "Item" [{ name := "size", type := .integer }]

/-- Orders that nest both of them. -/
def assemblyApp : App := serializing "orders" "OrderSerializer"
  [{ name := "item", type := .nested "ItemSerializer" }, { name := "part", type := .nested "Item" }]

/-- The orders import the name of their items from the stock and from the parts. -/
theorem item_imported_twice :
    ([stockApp, partsApp, assemblyApp].map App.name).Nodup ∧
      assemblyApp ∈ [stockApp, partsApp, assemblyApp] ∧
      (moduleOf (.ofApps [stockApp, partsApp, assemblyApp]) assemblyApp).Imports "stock" "Item" ∧
      (moduleOf (.ofApps [stockApp, partsApp, assemblyApp]) assemblyApp).Imports "parts" "Item" ∧
      ¬ ImportsApart (moduleOf (.ofApps [stockApp, partsApp, assemblyApp]) assemblyApp) := by
  have used : referencesOf (.ofApps [stockApp, partsApp, assemblyApp]) assemblyApp =
      [⟨"stock", "Item"⟩, ⟨"parts", "Item"⟩] := by decide
  have stock : (moduleOf (.ofApps [stockApp, partsApp, assemblyApp]) assemblyApp).Imports
      "stock" "Item" := imports_of_reference (used ▸ List.mem_cons_self) (by decide)
  have parts : (moduleOf (.ofApps [stockApp, partsApp, assemblyApp]) assemblyApp).Imports
      "parts" "Item" :=
    imports_of_reference (used ▸ List.mem_cons_of_mem _ List.mem_cons_self) (by decide)
  refine ⟨by decide, by simp, stock, parts, fun apart => ?_⟩
  exact absurd (((importsApart_iff _).mp apart).1 _ _ _ stock parts) (by decide)

end ApiScribe.TypeScript
