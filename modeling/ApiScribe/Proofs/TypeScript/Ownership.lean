import ApiScribe.Proofs.NameLists
import ApiScribe.TypeScript.Files
import Mathlib.Data.List.Nodup

/-! The module that a name belongs to is the first one that declares it. Modules are
rendered in turn with a table of the names that belong to earlier ones. The table
says what the earlier modules say, so what comes of a module depends on it and on
the modules before it alone. -/
namespace ApiScribe.TypeScript

/-- The names that a module declares, as often as it declares them. -/
def Module.names (module : Module) : List String := module.declarations.map Declaration.name

/-- The application of the first module that declares a name. -/
def owner? (modules : List Module) (name : String) : Option String :=
  (modules.find? fun module => module.names.contains name).map Module.app

variable {modules before earlier : List Module} {module : Module} {owners : Owners}
  {name app : String}

/-- The earlier of two rows of modules owns a name. -/
theorem owner?_append (first second : List Module) (name : String) :
    owner? (first ++ second) name = (owner? first name).or (owner? second name) := by
  rw [owner?, List.find?_append, Option.map_or]
  rfl

theorem owner?_cons (module : Module) (rest : List Module) (name : String) :
    owner? (module :: rest) name =
      if name ∈ module.names then some module.app else owner? rest name := by
  by_cases declares : name ∈ module.names
  · rw [if_pos declares, owner?, List.find?_cons_of_pos (by simpa using declares)]
    rfl
  · rw [if_neg declares, owner?, List.find?_cons_of_neg (by simpa using declares)]
    rfl

/-- A name without an owner is declared nowhere. -/
theorem owner?_eq_none_iff :
    owner? modules name = none ↔ ∀ module ∈ modules, name ∉ module.names := by
  rw [owner?, Option.map_eq_none_iff, List.find?_eq_none]
  simp

theorem app_mem_of_owner? (owned : owner? modules name = some app) :
    app ∈ modules.map Module.app := by
  obtain ⟨module, found, rfl⟩ := Option.map_eq_some_iff.mp owned
  exact List.mem_map_of_mem (List.mem_of_find?_eq_some found)

/-- A module after others owns what it declares and they do not. -/
theorem owner?_append_singleton (before : List Module) (module : Module) (name : String) :
    owner? (before ++ [module]) name =
      (owner? before name).or (if name ∈ module.names then some module.app else none) := by
  rw [owner?_append, owner?_cons]
  rfl

/-- A module gets the names that nobody has. -/
theorem lookup_claimNames (owners : Owners) (app : String) (names : List String) (name : String) :
    (claimNames owners app names).lookup name =
      (owners.lookup name).or (if name ∈ names then some app else none) := by
  induction names generalizing owners with
  | nil => simp [claimNames]
  | cons first rest ih =>
    rw [claimNames]
    by_cases same : name = first
    · subst same
      rw [if_pos List.mem_cons_self]
      cases held : owners.lookup name with
      | some owner => rw [if_pos Option.isSome_some, ih, held, Option.some_or, Option.some_or]
      | none =>
        rw [if_neg (by simp), ih, lookup_cons, if_pos rfl, Option.some_or, Option.none_or]
    · have inRest : name ∈ first :: rest ↔ name ∈ rest := by simp [same]
      simp only [inRest]
      split
      · exact ih owners
      · rw [ih, lookup_cons, if_neg same]

/-- A table holds the owners of the names that modules declare. -/
def Records (owners : Owners) (modules : List Module) : Prop :=
  ∀ name, owners.lookup name = owner? modules name

private theorem Records.claim (records : Records owners before) (module : Module) :
    Records (claimNames owners module.app module.names.eraseDups) (before ++ [module]) := by
  intro name
  rw [lookup_claimNames, records name, owner?_append_singleton]
  simp only [List.mem_eraseDups]

/-- The names of a module that belong to modules before it, with their owners. -/
def shadowed (before : List Module) (module : Module) : List (String × String) :=
  module.names.eraseDups.filterMap fun name =>
    (owner? before name).map fun owner => (name, owner)

/-- What the index exports of a module after others. -/
def exportOf (before : List Module) (module : Module) : Export :=
  ⟨module.app,
    if (shadowed before module).isEmpty then none
    else some (sortedDistinct (module.names.eraseDups.filter fun name =>
      (owner? before name).isNone))⟩

/-- What is emitted for a module after others. -/
def blockOf (config : Config) (before : List Module) (module : Module) : List Emission :=
  fileEmissions config (moduleTitle module.app) module.app module.imports module.declarations ++
    (shadowed before module).map fun (name, owner) =>
      .problem (indexPath config) (.exportedBefore name module.app owner)

/-- Modules with the modules before each of them. -/
def withEarlier (before : List Module) : List Module → List (List Module × Module)
  | [] => []
  | module :: rest => (before, module) :: withEarlier (before ++ [module]) rest

/-- Each module comes with exactly those before it. -/
theorem mem_withEarlier :
    (earlier, module) ∈ withEarlier before modules ↔
      ∃ front back, modules = front ++ module :: back ∧ earlier = before ++ front := by
  induction modules generalizing before with
  | nil => simp [withEarlier]
  | cons first rest ih =>
    rw [withEarlier, List.mem_cons, ih]
    constructor
    · rintro (here | ⟨front, back, rfl, rfl⟩)
      · cases here
        exact ⟨[], rest, rfl, by simp⟩
      · exact ⟨first :: front, back, rfl, by simp⟩
    · rintro ⟨front, back, split, rfl⟩
      cases front with
      | nil =>
        cases split
        exact .inl (by simp)
      | cons other front =>
        cases split
        exact .inr ⟨front, back, rfl, by simp⟩

theorem withEarlier_modules (before modules : List Module) :
    (withEarlier before modules).map Prod.snd = modules := by
  induction modules generalizing before with
  | nil => rfl
  | cons module rest ih => rw [withEarlier, List.map_cons, ih]

/-- A module stands where it stands among the modules, after those before it. -/
theorem withEarlier_getElem? (before front : List Module) (module : Module) (back : List Module) :
    (withEarlier before (front ++ module :: back))[front.length]? =
      some (before ++ front, module) := by
  induction front generalizing before with
  | nil => simp [withEarlier]
  | cons first rest ih =>
    rw [List.cons_append, withEarlier, List.length_cons, List.getElem?_cons_succ, ih]
    simp

private theorem takenNames_eq (records : Records owners before) (module : Module) :
    takenNames owners module.names.eraseDups = shadowed before module := by
  rw [takenNames, shadowed]
  congr 1
  funext name
  rw [records name]

/-- After a module has got its names, those that the table gives to it are those
that no earlier module declares. -/
theorem own_eq (records : Records owners before) (fresh : module.app ∉ before.map Module.app) :
    (module.names.eraseDups.filter fun name =>
        (claimNames owners module.app module.names.eraseDups).lookup name == some module.app) =
      module.names.eraseDups.filter fun name => (owner? before name).isNone := by
  apply List.filter_congr
  intro name member
  rw [records.claim module name, owner?_append_singleton, if_pos (List.mem_eraseDups.mp member)]
  cases owned : owner? before name with
  | none => simp
  | some owner =>
    have other : owner ≠ module.app := by
      rintro rfl
      exact fresh (app_mem_of_owner? owned)
    simpa using other

/-- Rendering with a table gives for each module what comes of it after the modules
before it. -/
theorem moduleEmissions_eq (config : Config) (records : Records owners before)
    (distinct : ((before ++ modules).map Module.app).Nodup) :
    moduleEmissions config owners modules =
      ((withEarlier before modules).flatMap fun found => blockOf config found.1 found.2,
        (withEarlier before modules).map fun found => exportOf found.1 found.2) := by
  induction modules generalizing owners before with
  | nil => rfl
  | cons module rest ih =>
    have fresh : module.app ∉ before.map Module.app := by
      intro again
      rw [List.map_append, List.nodup_append] at distinct
      exact distinct.2.2 _ again _ List.mem_cons_self rfl
    have later := ih (records.claim module) (by simpa using distinct)
    rw [moduleEmissions]
    rw [show (module.declarations.map Declaration.name) = module.names from rfl]
    simp only [takenNames_eq records module, own_eq records fresh, later]
    rw [withEarlier, List.flatMap_cons, List.map_cons, blockOf, exportOf, List.append_assoc]

/-- The shared declarations as a module. -/
def sharedModule : Module := ⟨commonModule, commonDeclarations, []⟩

/-- Nobody comes before the shared declarations. -/
theorem blockOf_shared (config : Config) :
    blockOf config [] sharedModule =
      fileEmissions config "Common API Types" commonModule [] commonDeclarations := by
  have title : moduleTitle sharedModule.app = "Common API Types" := by decide
  have free : shadowed [] sharedModule = [] := by decide
  rw [blockOf, free, title, List.map_nil, List.append_nil]
  rfl

/-- The shared declarations are rendered like those of a module that comes first,
and the index is written last. -/
theorem emissions_eq (config : Config)
    (distinct : ((sharedModule :: modules).map Module.app).Nodup) :
    emissions config modules =
      ((withEarlier [] (sharedModule :: modules)).flatMap fun found =>
          blockOf config found.1 found.2) ++
        [.file (indexPath config) (indexText config.projectName config.version
          ((withEarlier [sharedModule] modules).map fun found => exportOf found.1 found.2))] := by
  have nothing : Records [] [] := fun _ => rfl
  have each : sharedModule.names.eraseDups = commonDeclarations.map Declaration.name := by decide
  have shared : Records (claimNames [] commonModule (commonDeclarations.map Declaration.name))
      [sharedModule] := each ▸ nothing.claim sharedModule
  rw [emissions, moduleEmissions_eq config shared distinct, withEarlier, List.flatMap_cons,
    blockOf_shared]
  rfl

end ApiScribe.TypeScript
