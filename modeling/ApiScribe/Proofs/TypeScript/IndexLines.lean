import ApiScribe.Proofs.TypeScript.FirstDeclarations
import ApiScribe.Proofs.TypeScript.Ownership

/-! Lines of the index. A module that shares no name with earlier ones is exported as a whole and
any other one by the names that belong to it, so that what the lines export together is each name
once, from the module that owns it. -/
namespace ApiScribe.TypeScript

variable {modules before : List Module} {module : Module} {name app : String}

section Line

private theorem shadowed_eq_nil_iff :
    shadowed before module = [] ↔ ∀ name ∈ module.names, owner? before name = none := by
  rw [shadowed, List.filterMap_eq_nil_iff]
  simp only [Option.map_eq_none_iff, List.mem_eraseDups]

/-- A name is shadowed exactly if the module declares it and an earlier one has it. -/
theorem mem_shadowed {owner : String} :
    (name, owner) ∈ shadowed before module ↔
      name ∈ module.names ∧ owner? before name = some owner := by
  rw [shadowed, List.mem_filterMap]
  constructor
  · rintro ⟨found, member, named⟩
    obtain ⟨held, owned, same⟩ := Option.map_eq_some_iff.mp named
    cases same
    exact ⟨List.mem_eraseDups.mp member, owned⟩
  · rintro ⟨member, owned⟩
    exact ⟨name, List.mem_eraseDups.mpr member, by rw [owned]; rfl⟩

/-- A module shares a name with those before it or none. -/
theorem shares_or_free (before : List Module) (module : Module) :
    (∃ name ∈ module.names, owner? before name ≠ none) ∨
      ∀ name ∈ module.names, owner? before name = none := by
  by_cases free : ∀ name ∈ module.names, owner? before name = none
  · exact .inr free
  · push Not at free
    exact .inl free

private theorem sortedDistinct_nodup (names : List String) : (sortedDistinct names).Nodup := by
  rw [sortedDistinct]
  exact (List.mergeSort_perm _ _).nodup_iff.mpr (eraseDups_nodup names)

/-- The line of a module in the index, after the modules before it. A module without
declarations shares no name and is exported as a whole. -/
structure LineOf (before : List Module) (module : Module) (line : Export) : Prop where
  whole : (∀ name ∈ module.names, owner? before name = none) → line = ⟨module.app, none⟩
  listed : (∃ name ∈ module.names, owner? before name ≠ none) →
    ∃ own, line = ⟨module.app, some own⟩ ∧ own.Nodup ∧
      ∀ name, name ∈ own ↔ name ∈ module.names ∧ owner? before name = none
  absent : line.lines = [] ↔
    module.names ≠ [] ∧ ∀ name ∈ module.names, owner? before name ≠ none

/-- A module that shares no name is exported as a whole. -/
theorem exportOf_whole (free : ∀ name ∈ module.names, owner? before name = none) :
    exportOf before module = ⟨module.app, none⟩ := by
  rw [exportOf, if_pos (List.isEmpty_iff.mpr (shadowed_eq_nil_iff.mpr free))]

/-- The names that are listed for a module which shares names with earlier ones. -/
def ownNames (before : List Module) (module : Module) : List String :=
  sortedDistinct (module.names.eraseDups.filter fun name => (owner? before name).isNone)

/-- The own names of a module are those that no earlier one has. -/
theorem mem_ownNames :
    name ∈ ownNames before module ↔ name ∈ module.names ∧ owner? before name = none := by
  rw [ownNames, mem_sortedDistinct, List.mem_filter, List.mem_eraseDups, Option.isNone_iff_eq_none]

/-- A module that shares a name is exported by the list of its own names. -/
theorem exportOf_listed (shares : ∃ name ∈ module.names, owner? before name ≠ none) :
    exportOf before module = ⟨module.app, some (ownNames before module)⟩ := by
  obtain ⟨name, member, owned⟩ := shares
  have some : ¬ (shadowed before module).isEmpty = true := by
    intro none
    exact owned (shadowed_eq_nil_iff.mp (List.isEmpty_iff.mp none) name member)
  rw [exportOf, if_neg some, ownNames]

private theorem lines_eq_nil_iff {line : Export} : line.lines = [] ↔ line.names = some [] := by
  rw [Export.lines]
  rcases line.names with _ | _ | _ <;> simp

/-- The line written for a module is the one it should have. -/
theorem exportOf_lineOf (before : List Module) (module : Module) :
    LineOf before module (exportOf before module) where
  whole := exportOf_whole
  listed shares :=
    ⟨ownNames before module, exportOf_listed shares, sortedDistinct_nodup _, fun _ => mem_ownNames⟩
  absent := by
    rw [lines_eq_nil_iff]
    rcases shares_or_free before module with shares | free
    · rw [exportOf_listed shares, Option.some.injEq, List.eq_nil_iff_forall_not_mem]
      obtain ⟨name, member, _⟩ := shares
      simp only [mem_ownNames, not_and]
      exact ⟨fun none => ⟨List.ne_nil_of_mem member, none⟩, fun owned => owned.2⟩
    · rw [exportOf_whole free]
      constructor
      · intro none
        cases none
      · rintro ⟨declares, owned⟩
        obtain ⟨name, member⟩ := List.exists_mem_of_ne_nil _ declares
        exact absurd (free name member) (owned name member)

end Line

section Exports

/-- What a line of the index exports of a module: the names that it lists, or else
all names that the file of the module declares. -/
def exportedBy (module : Module) (line : Export) : List String :=
  line.names.getD ((heldDeclarations module.declarations).map Declaration.name)

/-- The names that an index exports, with the modules that it takes them from. -/
def exportedNames (modules : List Module) (exports : List Export) : List (String × String) :=
  (modules.zip exports).flatMap fun found =>
    (exportedBy found.1 found.2).map fun name => (name, found.2.module)

/-- The lines of modules in the index. -/
def exportsAfter (before modules : List Module) : List Export :=
  (withEarlier before modules).map fun found => exportOf found.1 found.2

private theorem exportedBy_exportOf (before : List Module) (module : Module) :
    (exportedBy module (exportOf before module)).Nodup ∧
      ∀ name, name ∈ exportedBy module (exportOf before module) ↔
        name ∈ module.names ∧ owner? before name = none := by
  rcases shares_or_free before module with shares | free
  · rw [exportOf_listed shares]
    exact ⟨sortedDistinct_nodup _, fun _ => mem_ownNames⟩
  · have declared : exportedBy module (exportOf before module) = module.names.eraseDups := by
      rw [exportOf_whole free]
      exact (held_first module.declarations).once
    rw [declared]
    refine ⟨eraseDups_nodup _, fun name => ?_⟩
    rw [List.mem_eraseDups]
    exact ⟨fun member => ⟨member, free name member⟩, And.left⟩

theorem exportedNames_cons (module : Module) (rest : List Module) (line : Export)
    (lines : List Export) :
    exportedNames (module :: rest) (line :: lines) =
      (exportedBy module line).map (fun name => (name, line.module)) ++ exportedNames rest lines :=
  rfl

theorem exportOf_module (before : List Module) (module : Module) :
    (exportOf before module).module = module.app := rfl

/-- Modules after others export what these do not own, each name from its owner. -/
theorem mem_exportedNames :
    (name, app) ∈ exportedNames modules (exportsAfter before modules) ↔
      owner? before name = none ∧ owner? modules name = some app := by
  induction modules generalizing before with
  | nil => simp [exportedNames, owner?]
  | cons module rest ih =>
    have step : exportsAfter before (module :: rest) =
        exportOf before module :: exportsAfter (before ++ [module]) rest := rfl
    rw [step, exportedNames_cons, List.mem_append, ih, exportOf_module, owner?_append_singleton,
      owner?_cons, List.mem_map]
    by_cases declares : name ∈ module.names
    · rw [if_pos declares, if_pos declares]
      constructor
      · rintro (⟨found, member, same⟩ | ⟨free, _⟩)
        · cases same
          exact ⟨((exportedBy_exportOf before module).2 _).mp member |>.2, rfl⟩
        · simp at free
      · rintro ⟨free, owned⟩
        cases owned
        exact .inl ⟨name, ((exportedBy_exportOf before module).2 name).mpr ⟨declares, free⟩, rfl⟩
    · rw [if_neg declares, if_neg declares, Option.or_none]
      constructor
      · rintro (⟨found, member, same⟩ | later)
        · cases same
          exact absurd (((exportedBy_exportOf before module).2 _).mp member).1 declares
        · exact later
      · exact .inr

/-- What a module exports belongs to it, so no later module exports it again. -/
theorem exportedNames_nodup (before modules : List Module) :
    ((exportedNames modules (exportsAfter before modules)).map Prod.fst).Nodup := by
  induction modules generalizing before with
  | nil => exact List.nodup_nil
  | cons module rest ih =>
    have step : exportsAfter before (module :: rest) =
        exportOf before module :: exportsAfter (before ++ [module]) rest := rfl
    obtain ⟨distinct, exported⟩ := exportedBy_exportOf before module
    have names : ((exportedBy module (exportOf before module)).map fun name =>
        (name, (exportOf before module).module)).map Prod.fst =
          exportedBy module (exportOf before module) := by
      rw [List.map_map]
      exact List.map_id _
    rw [step, exportedNames_cons, List.map_append, names]
    refine List.nodup_append.mpr ⟨distinct, ih _, ?_⟩
    rintro name here again later rfl
    obtain ⟨⟨found, app⟩, member, rfl⟩ := List.mem_map.mp later
    have free := (mem_exportedNames.mp member).1
    rw [owner?_append_singleton, if_pos ((exported _).mp here).1] at free
    simp at free

end Exports

end ApiScribe.TypeScript
