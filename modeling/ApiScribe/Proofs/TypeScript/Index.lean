import ApiScribe.Proofs.FileTree.Saving
import ApiScribe.Proofs.TypeScript.Files
import ApiScribe.Proofs.TypeScript.IndexLines
import ApiScribe.Proofs.TypeScript.RenderedFiles
import Mathlib.Data.Finset.Card
import Mathlib.Data.Finset.Filter

/-! The index exports each name once, from the module that the name belongs to, and this is what
is read off its text and those of the files that it names. Each name of a module that belongs to
an earlier one is reported, and so is each later declaration of a name in one file. -/
namespace ApiScribe.TypeScript
open Text

variable {config : Config} {modules before : List Module} {module : Module} {name app : String}

section Reports

/-- A report that the index leaves out a name: the application that declares it
again, the name and its owner. -/
def exportReport? : Emission → Option (String × String × String)
  | .problem _ (.exportedBefore name app owner) => some (app, name, owner)
  | _ => none

/-- A report that a file leaves out a declaration: the path and the name. -/
def repeatReport? : Emission → Option (String × String)
  | .problem path (.repeatedName name) => some (path, name)
  | _ => none

private theorem fileEmissions_eq (config : Config) (title app : String) (imports : List Import)
    (declarations : List Declaration) :
    fileEmissions config title app imports declarations =
      (repeatedNames declarations).map (fun name =>
          .problem (modulePath config.output.typescriptDir app) (.repeatedName name)) ++
        [.file (modulePath config.output.typescriptDir app)
          (fileText title config.projectName config.version imports
            (heldDeclarations declarations))] := rfl

/-- Emissions of one kind are no reports of another. -/
theorem filterMap_silent {report? : Emission → Option α} {emitted : β → Emission}
    (silent : ∀ found, report? (emitted found) = none) (found : List β) :
    (found.map emitted).filterMap report? = [] := by
  rw [List.filterMap_map, List.filterMap_eq_nil_iff]
  exact fun found _ => silent found

private theorem blockOf_exportReports (config : Config) (before : List Module) (module : Module) :
    (blockOf config before module).filterMap exportReport? =
      (shadowed before module).map fun found => (module.app, found) := by
  have file : (fileEmissions config (moduleTitle module.app) module.app module.imports
      module.declarations).filterMap exportReport? = [] := by
    rw [fileEmissions_eq, List.filterMap_append, filterMap_silent fun _ => rfl]
    rfl
  rw [blockOf, List.filterMap_append, file, List.nil_append, List.filterMap_map]
  exact congrFun List.filterMap_eq_map _

private theorem blockOf_repeatReports (config : Config) (before : List Module) (module : Module) :
    (blockOf config before module).filterMap repeatReport? =
      (repeatedNames module.declarations).map fun name =>
        (modulePath config.output.typescriptDir module.app, name) := by
  rw [blockOf, List.filterMap_append, filterMap_silent fun _ => rfl, List.append_nil,
    fileEmissions_eq, List.filterMap_append, List.filterMap_map]
  exact (List.append_nil _).trans (congrFun List.filterMap_eq_map _)

/-- Reports come from the blocks of modules, as the index is written without any. -/
theorem filterMap_emissions {report? : Emission → Option α}
    (silent : ∀ path text, report? (.file path text) = none)
    (distinct : ((sharedModule :: modules).map Module.app).Nodup) :
    (emissions config modules).filterMap report? =
      (withEarlier [] (sharedModule :: modules)).flatMap fun found =>
        (blockOf config found.1 found.2).filterMap report? := by
  rw [emissions_eq config distinct, List.filterMap_append, List.filterMap_flatMap]
  simp [silent]

private theorem exportReports_eq (config : Config)
    (distinct : ((sharedModule :: modules).map Module.app).Nodup) :
    (emissions config modules).filterMap exportReport? =
      (withEarlier [] (sharedModule :: modules)).flatMap fun found =>
        (shadowed found.1 found.2).map fun pair => (found.2.app, pair) := by
  rw [filterMap_emissions (fun _ _ => rfl) distinct]
  simp only [blockOf_exportReports]

/-- A name is reported where a module declares it and an earlier one owns it. -/
theorem mem_exportReports (distinct : ((sharedModule :: modules).map Module.app).Nodup)
    {owner : String} :
    (app, name, owner) ∈ (emissions config modules).filterMap exportReport? ↔
      ∃ before module after, sharedModule :: modules = before ++ module :: after ∧
        module.app = app ∧ name ∈ module.names ∧ owner? before name = some owner := by
  rw [exportReports_eq config distinct, List.mem_flatMap]
  constructor
  · rintro ⟨⟨before, module⟩, placed, listed⟩
    obtain ⟨⟨found, held⟩, member, same⟩ := List.mem_map.mp listed
    obtain ⟨front, after, split, prior⟩ := mem_withEarlier.mp placed
    cases same
    obtain ⟨declares, owned⟩ := mem_shadowed.mp member
    exact ⟨before, module, after, prior ▸ split, rfl, declares, owned⟩
  · rintro ⟨before, module, after, split, rfl, declares, owned⟩
    refine ⟨(before, module), mem_withEarlier.mpr ⟨before, after, split, rfl⟩, ?_⟩
    exact List.mem_map_of_mem (mem_shadowed.mpr ⟨declares, owned⟩)

/-- A module and a name that it declares although an earlier module owns it. -/
def shadowedPairs (modules : List Module) : Finset (String × String) :=
  (modules.flatMap fun module => module.names.map fun name => (module.app, name)).toFinset.filter
    fun pair => owner? modules pair.2 ≠ some pair.1

private theorem shadowed_names (before : List Module) (module : Module) :
    (shadowed before module).map Prod.fst =
      module.names.eraseDups.filter fun name => (owner? before name).isSome := by
  rw [shadowed, List.map_filterMap, ← List.filterMap_eq_filter]
  congr 1
  funext name
  cases owned : owner? before name <;> simp [Option.guard, owned]

/-- A pair of a module and a name is reported once. -/
theorem exportKeys_nodup (distinct : (modules.map Module.app).Nodup) (before : List Module) :
    (((withEarlier before modules).flatMap fun found =>
        (shadowed found.1 found.2).map fun pair => (found.2.app, pair)).map
      fun report => (report.1, report.2.1)).Nodup := by
  induction modules generalizing before with
  | nil => exact List.nodup_nil
  | cons module rest ih =>
    obtain ⟨fresh, restDistinct⟩ := List.nodup_cons.mp distinct
    rw [withEarlier, List.flatMap_cons, List.map_append]
    refine List.nodup_append.mpr ⟨?_, ih restDistinct _, ?_⟩
    · have names : ((shadowed before module).map Prod.fst).Nodup := by
        rw [shadowed_names]
        exact (eraseDups_nodup _).filter _
      rw [List.map_map]
      exact List.Nodup.of_map Prod.snd (by simpa [Function.comp_def] using names)
    · rintro key here again later rfl
      obtain ⟨report, listed, rfl⟩ := List.mem_map.mp here
      obtain ⟨pair, _, rfl⟩ := List.mem_map.mp listed
      obtain ⟨other, otherListed, same⟩ := List.mem_map.mp later
      obtain ⟨⟨earlier, found⟩, placed, inBlock⟩ := List.mem_flatMap.mp otherListed
      obtain ⟨otherPair, _, rfl⟩ := List.mem_map.mp inBlock
      obtain ⟨front, back, split, _⟩ := mem_withEarlier.mp placed
      have sameApp : found.app = module.app := congrArg Prod.fst same
      exact fresh (sameApp ▸ List.mem_map_of_mem (by simp [split]))

/-- With distinct names of modules, a name that a module declares belongs to another
module exactly if an earlier one declares it. -/
theorem reported_iff_shadowed (distinct : (modules.map Module.app).Nodup) :
    (∃ owner before module after, modules = before ++ module :: after ∧
        module.app = app ∧ name ∈ module.names ∧ owner? before name = some owner) ↔
      (app, name) ∈ shadowedPairs modules := by
  have owner_eq : ∀ {before module after}, modules = before ++ module :: after →
      name ∈ module.names → owner? modules name = (owner? before name).or (some module.app) := by
    rintro before module after rfl declares
    rw [owner?_append, owner?_cons, if_pos declares]
  rw [shadowedPairs, Finset.mem_filter, List.mem_toFinset]
  constructor
  · rintro ⟨owner, before, module, after, split, rfl, declares, owned⟩
    have member : module ∈ modules := by simp [split]
    refine ⟨List.mem_flatMap.mpr ⟨module, member, List.mem_map_of_mem declares⟩, ?_⟩
    rw [owner_eq split declares, owned, Option.some_or]
    intro same
    rw [split, List.map_append, List.nodup_append] at distinct
    exact distinct.2.2 _ (app_mem_of_owner? owned) _ List.mem_cons_self (Option.some.inj same)
  · rintro ⟨listed, other⟩
    obtain ⟨module, member, inModule⟩ := List.mem_flatMap.mp listed
    obtain ⟨found, declares, same⟩ := List.mem_map.mp inModule
    cases same
    obtain ⟨before, after, split⟩ := List.append_of_mem member
    dsimp only at other
    rw [owner_eq split declares] at other
    cases owned : owner? before name with
    | none => simp [owned] at other
    | some owner => exact ⟨owner, before, module, after, split, rfl, declares, owned⟩

/-- There are as many reports as modules and names that an earlier module owns. -/
theorem exportReports_length (distinct : ((sharedModule :: modules).map Module.app).Nodup) :
    ((emissions config modules).filterMap exportReport?).length =
      (shadowedPairs (sharedModule :: modules)).card := by
  have once := exportKeys_nodup distinct []
  rw [← exportReports_eq config distinct] at once
  have same : (((emissions config modules).filterMap exportReport?).map
      fun report => (report.1, report.2.1)).toFinset = shadowedPairs (sharedModule :: modules) := by
    ext ⟨app, name⟩
    rw [List.mem_toFinset, ← reported_iff_shadowed distinct, List.mem_map]
    constructor
    · rintro ⟨⟨found, named, owner⟩, listed, same⟩
      cases same
      exact ⟨owner, (mem_exportReports distinct).mp listed⟩
    · rintro ⟨owner, reported⟩
      exact ⟨(app, name, owner), (mem_exportReports distinct).mpr reported, rfl⟩
  rw [← same, List.toFinset_card_of_nodup once, List.length_map]

end Reports

section Texts

/-- The blocks of modules hold the file of each. -/
theorem file_mem_blocks (member : module ∈ modules) (before : List Module) :
    .file (modulePath config.output.typescriptDir module.app)
        (fileText (moduleTitle module.app) config.projectName config.version module.imports
          (heldDeclarations module.declarations)) ∈
      (withEarlier before modules).flatMap fun found => blockOf config found.1 found.2 := by
  obtain ⟨front, after, split⟩ := List.append_of_mem member
  have placed : (before ++ front, module) ∈ withEarlier before modules :=
    mem_withEarlier.mpr ⟨front, after, split, rfl⟩
  refine List.mem_flatMap.mpr ⟨_, placed, List.mem_append_left _ ?_⟩
  rw [fileEmissions_eq]
  exact List.mem_append_right _ List.mem_cons_self

/-- The only file in the block of a module is its own. -/
theorem file_of_mem_blockOf {path text : String}
    (member : .file path text ∈ blockOf config before module) :
    path = modulePath config.output.typescriptDir module.app ∧
      text = fileText (moduleTitle module.app) config.projectName config.version module.imports
        (heldDeclarations module.declarations) := by
  rw [blockOf, fileEmissions_eq] at member
  simpa using member

/-- What a function gives for one member of a list and for no other one is found first. -/
private theorem findSome?_of_unique {find? : α → Option β} {found : β} {members : List α}
    {member : α} (listed : member ∈ members) (finds : find? member = some found)
    (unique : ∀ member ∈ members, ∀ other, find? member = some other → other = found) :
    members.findSome? find? = some found := by
  cases first : members.findSome? find? with
  | none => simp [List.findSome?_eq_none_iff.mp first member listed] at finds
  | some other =>
    obtain ⟨holder, held, holds⟩ := List.exists_of_findSome?_eq_some first
    rw [unique holder held other holds]

private theorem modulePath_injective {first second : String} (directory : String)
    (plain : '/' ∉ first.toList) (otherPlain : '/' ∉ second.toList)
    (same : modulePath directory first = modulePath directory second) : first = second := by
  by_contra different
  have apart := modulePath_apart directory plain otherPlain different
  rw [same] at apart
  exact FileTree.Apart.irrefl apart

private theorem moduleText?_eq (legible : ∀ module ∈ sharedModule :: modules, module.Legible)
    (distinct : ((sharedModule :: modules).map Module.app).Nodup)
    (member : module ∈ sharedModule :: modules) :
    moduleText? config modules module.app =
      some (fileText (moduleTitle module.app) config.projectName config.version module.imports
        (heldDeclarations module.declarations)) := by
  rw [moduleText?, emissions_eq config distinct, List.dropLast_concat]
  refine findSome?_of_unique (file_mem_blocks member []) (if_pos rfl) ?_
  intro emission listed text finds
  cases emission with
  | problem path problem => cases finds
  | file path written =>
    obtain ⟨⟨before, other⟩, placed, inBlock⟩ := List.mem_flatMap.mp listed
    obtain ⟨rfl, rfl⟩ := file_of_mem_blockOf inBlock
    have otherListed : other ∈ sharedModule :: modules := by
      obtain ⟨front, back, split, -⟩ := mem_withEarlier.mp placed
      rw [split]
      simp
    obtain ⟨same, rfl⟩ := Option.ite_some_none_eq_some.mp finds
    have sameApp : other.app = module.app :=
      modulePath_injective _ (legible other otherListed).plain (legible module member).plain same
    rw [List.inj_on_of_nodup_map distinct otherListed member sameApp]

/-- The file of a legible module declares its names once each, as it is read. -/
theorem statements_file (project : Confined config.projectName.toList)
    (version : Confined config.version.toList) (legible : module.Legible) :
    statements (fileText (moduleTitle module.app) config.projectName config.version module.imports
        (heldDeclarations module.declarations)).toList =
      module.names.eraseDups.map (.declaration true) := by
  have held := held_first module.declarations
  have header : Comment (fileHeader config (moduleTitle module.app)) :=
    (comment_fileHeader_iff config _).mpr ⟨legible.title, confined_append project version⟩
  have declarations : ∀ declaration ∈ heldDeclarations module.declarations, declaration.Legible :=
    fun declaration member => legible.declarations declaration (held.order.subset member)
  rw [statements_fileText header legible.imports declarations, Module.names, ← held.once,
    List.map_map]
  rfl

private theorem legible_exportOf (legible : module.Legible) (before : List Module) :
    (exportOf before module).Legible := by
  refine ⟨legible.quotable, fun names listed name member => ?_⟩
  have declared : name ∈ module.names := by
    rcases shares_or_free before module with shares | free
    · rw [exportOf_listed shares] at listed
      cases listed
      exact (mem_ownNames.mp member).1
    · rw [exportOf_whole free] at listed
      cases listed
  obtain ⟨declaration, held, rfl⟩ := List.mem_map.mp declared
  exact (legible.declarations declaration held).word

/-- A line of the index exports as it is read what it exports of its module. -/
theorem exported_exportOf {declares : String → List String}
    (declared : declares module.app = module.names.eraseDups) (before : List Module) :
    (exportOf before module).statement?.toList.flatMap (Statement.exported declares) =
      (exportedBy module (exportOf before module)).map fun name => (name, module.app) := by
  rcases shares_or_free before module with shares | free
  · have own : ∀ name ∈ ownNames before module, (declares module.app).contains name = true := by
      intro name member
      rw [declared, List.contains_iff_mem, List.mem_eraseDups]
      exact (mem_ownNames.mp member).1
    have kept : (ownNames before module).filter (declares module.app).contains =
        ownNames before module := List.filter_eq_self.mpr own
    rw [exportOf_listed shares, exportedBy]
    cases names : ownNames before module with
    | nil => rfl
    | cons first others =>
      rw [names] at kept
      show (List.filter _ (first :: others)).map _ ++ [] = _
      rw [kept, List.append_nil]
      rfl
  · have held : (heldDeclarations module.declarations).map Declaration.name = declares module.app :=
      (held_first module.declarations).once.trans declared.symm
    rw [exportOf_whole free]
    show (declares module.app).map _ ++ [] = (List.map Declaration.name _).map _
    rw [held, List.append_nil]

private theorem exported_exportsAfter {declares : String → List String}
    (declared : ∀ module ∈ modules, declares module.app = module.names.eraseDups)
    (before : List Module) :
    ((exportsAfter before modules).filterMap Export.statement?).flatMap
        (Statement.exported declares) =
      exportedNames modules (exportsAfter before modules) := by
  induction modules generalizing before with
  | nil => rfl
  | cons module rest ih =>
    have step : exportsAfter before (module :: rest) =
        exportOf before module :: exportsAfter (before ++ [module]) rest := rfl
    obtain ⟨here, below⟩ := List.forall_mem_cons.mp declared
    rw [step, exportedNames_cons, ← ih below, exportOf_module, ← exported_exportOf here before]
    rw [List.filterMap_cons]
    cases (exportOf before module).statement? <;> simp

end Texts

/-- What is read off the texts of the index and of the files, where `exports` are the lines of
the index. -/
structure ReadBack (config : Config) (modules : List Module) (exports : List Export) : Prop where
  index : ∃ text, (emissions config modules).getLast? = some (.file (indexPath config) text) ∧
    statements text.toList = exports.filterMap Export.statement?
  files : ∀ module ∈ sharedModule :: modules,
    ∃ text, moduleText? config modules module.app = some text ∧
      statements text.toList = module.names.eraseDups.map (.declaration true)
  once : ((readExports config modules).map Prod.fst).Nodup
  owned : ∀ name app, (name, app) ∈ readExports config modules ↔
    owner? (sharedModule :: modules) name = some app

/-- What the index is to hold, where `exports` are its lines. It is written last. -/
structure IndexOf (config : Config) (modules : List Module) (exports : List Export) : Prop where
  text : ∃ text, (emissions config modules).getLast? = some (.file (indexPath config) text) ∧
    text.toList = indexHeader config ++ '\n' :: '\n' ::
      (unlines (exports.flatMap Export.lines)).toList
  common : exports.head? = some ⟨commonModule, none⟩
  length : exports.length = modules.length + 1
  lines : ∀ before module after, sharedModule :: modules = before ++ module :: after →
    ∃ line, exports[before.length]? = some line ∧ LineOf before module line
  once : ((exportedNames (sharedModule :: modules) exports).map Prod.fst).Nodup
  owned : ∀ name app, (name, app) ∈ exportedNames (sharedModule :: modules) exports ↔
    owner? (sharedModule :: modules) name = some app
  complete : ∀ module ∈ sharedModule :: modules, ∀ name ∈ module.names,
    ∃ app, (name, app) ∈ exportedNames (sharedModule :: modules) exports
  read : Legible config modules → ReadBack config modules exports

/-- What is reported of names that modules or declarations share, in any run. -/
structure Reported (config : Config) (modules : List Module) : Prop where
  exports : ∀ app name owner,
    (app, name, owner) ∈ (emissions config modules).filterMap exportReport? ↔
      ∃ before module after, sharedModule :: modules = before ++ module :: after ∧
        module.app = app ∧ name ∈ module.names ∧ owner? before name = some owner
  exportCount : ((emissions config modules).filterMap exportReport?).length =
    (shadowedPairs (sharedModule :: modules)).card
  repeats : (emissions config modules).filterMap repeatReport? =
    (sharedModule :: modules).flatMap fun module => (repeatedNames module.declarations).map
      fun name => (modulePath config.output.typescriptDir module.app, name)
  files : ∀ module ∈ sharedModule :: modules,
    HoldsFirst module.declarations (heldDeclarations module.declarations)
        (repeatedNames module.declarations) ∧
      ∃ text, .file (modulePath config.output.typescriptDir module.app) text ∈
          emissions config modules ∧
        text.toList = fileHeader config (moduleTitle module.app) ++ '\n' ::
          ((importText module.imports).toList ++
            (heldDeclarations module.declarations).flatMap fun declaration =>
              '\n' :: declaration.text.toList)
  runs : ∀ dryRun tree,
    (Saved.problemErrors (emissions config modules)).Sublist
        (Saved.emitAll dryRun { tree } (emissions config modules)).errors ∧
      (dryRun = true → (Saved.emitAll dryRun { tree } (emissions config modules)).errors =
        Saved.problemErrors (emissions config modules))

private theorem exportsAfter_shared (modules : List Module) :
    exportsAfter [] (sharedModule :: modules) =
      ⟨commonModule, none⟩ :: exportsAfter [sharedModule] modules := by
  have shared : exportOf [] sharedModule = ⟨commonModule, none⟩ := exportOf_whole fun _ _ => rfl
  rw [← shared]
  rfl

private theorem index_emitted (config : Config)
    (distinct : ((sharedModule :: modules).map Module.app).Nodup) :
    (emissions config modules).getLast? = some (.file (indexPath config)
      (indexText config.projectName config.version (exportsAfter [sharedModule] modules))) := by
  rw [emissions_eq config distinct, List.getLast?_concat]
  rfl

private theorem readBack (legible : Legible config modules)
    (distinct : ((sharedModule :: modules).map Module.app).Nodup) :
    ReadBack config modules (exportsAfter [] (sharedModule :: modules)) := by
  have all : ∀ module ∈ sharedModule :: modules, module.Legible :=
    List.forall_mem_cons.mpr ⟨legible_sharedModule, legible.modules⟩
  have file := fun module member =>
    statements_file legible.project legible.version (all module member)
  have header : Comment (indexHeader config) :=
    (comment_indexHeader_iff config).mpr ⟨legible.project, legible.version⟩
  have lines : ∀ line ∈ exportsAfter [] (sharedModule :: modules), line.Legible := by
    intro line listed
    obtain ⟨⟨before, module⟩, placed, rfl⟩ := List.mem_map.mp listed
    obtain ⟨front, back, split, -⟩ := mem_withEarlier.mp placed
    exact legible_exportOf (all module (by simp [split])) before
  have index : statements (indexText config.projectName config.version
      (exportsAfter [sharedModule] modules)).toList =
        (exportsAfter [] (sharedModule :: modules)).filterMap Export.statement? := by
    rw [exportsAfter_shared] at lines ⊢
    exact statements_indexText header lines
  have exports : readExports config modules =
      exportedNames (sharedModule :: modules) (exportsAfter [] (sharedModule :: modules)) := by
    rw [readExports, index_emitted config distinct]
    simp only
    rw [index]
    apply exported_exportsAfter
    intro module member
    rw [moduleText?_eq all distinct member, Option.map_some, Option.getD_some, declaredNames,
      file module member, List.filterMap_map]
    exact List.filterMap_some
  exact {
    index := ⟨_, index_emitted config distinct, index⟩
    files := fun module member => ⟨_, moduleText?_eq all distinct member, file module member⟩
    once := exports ▸ exportedNames_nodup [] _
    owned := fun name app => by
      rw [exports]
      exact mem_exportedNames.trans (and_iff_right rfl) }

private theorem indexOf_exportsAfter (config : Config)
    (distinct : ((sharedModule :: modules).map Module.app).Nodup) :
    IndexOf config modules (exportsAfter [] (sharedModule :: modules)) where
  text := by
    refine ⟨_, index_emitted config distinct, ?_⟩
    rw [toList_indexText, exportsAfter_shared]
  common := by
    rw [exportsAfter_shared]
    rfl
  length := by
    rw [exportsAfter, List.length_map, ← List.length_map Prod.snd, withEarlier_modules,
      List.length_cons]
  lines before module after split := by
    refine ⟨exportOf before module, ?_, exportOf_lineOf before module⟩
    rw [exportsAfter, split, List.getElem?_map, withEarlier_getElem?]
    rfl
  once := exportedNames_nodup [] _
  owned name app := mem_exportedNames.trans (and_iff_right rfl)
  complete module member name declares := by
    cases owned : owner? (sharedModule :: modules) name with
    | none => exact absurd declares (owner?_eq_none_iff.mp owned module member)
    | some app => exact ⟨app, mem_exportedNames.mpr ⟨rfl, owned⟩⟩
  read legible := readBack legible distinct

private theorem repeatReports_eq (distinct : ((sharedModule :: modules).map Module.app).Nodup) :
    (emissions config modules).filterMap repeatReport? =
      (sharedModule :: modules).flatMap fun module => (repeatedNames module.declarations).map
        fun name => (modulePath config.output.typescriptDir module.app, name) := by
  rw [filterMap_emissions (fun _ _ => rfl) distinct]
  simp only [blockOf_repeatReports]
  conv_rhs => rw [← withEarlier_modules [] (sharedModule :: modules), List.flatMap_map]

/-- The file of a module is emitted in the block of the module. -/
theorem file_emitted (distinct : ((sharedModule :: modules).map Module.app).Nodup)
    (member : module ∈ sharedModule :: modules) :
    .file (modulePath config.output.typescriptDir module.app)
      (fileText (moduleTitle module.app) config.projectName config.version module.imports
        (heldDeclarations module.declarations)) ∈ emissions config modules := by
  rw [emissions_eq config distinct]
  exact List.mem_append_left _ (file_mem_blocks member [])

/-- Three modules: the first declares a name twice, the second shares that name and the
third has no name of its own. -/
def sharingModules : List Module :=
  let item := Declaration.aliasOf "Item" .anyObject ""
  let post := Declaration.aliasOf "Post" .anyObject ""
  [⟨"shop", [item, item], []⟩, ⟨"blog", [item, post], []⟩, ⟨"tags", [post], []⟩]

end ApiScribe.TypeScript
