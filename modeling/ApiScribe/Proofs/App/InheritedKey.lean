import ApiScribe.Proofs.App.Families

/-! Keys of models that derive from other models. A body that writes no key gets
an `id`, and the body alone decides that before the fields of its bases are put
in front of it. So an inherited key suppresses no `id`, and where it is called
`id` itself it is replaced. -/
namespace ApiScribe
open ApiScribe.Field (find? last? names implicitId declaredByModel ofModelCall? declaresKey)
open Inheritance

namespace Field

/-- The fields that a model body writes. -/
def writtenByModel (declared : Declared) : List Field :=
  declared.definition.block.declarations.filterMap fun (name, call) =>
    ofModelCall? declared declared.definition.block name call

/-- A field that a model body writes as the key of the model. -/
def WritesKey (declared : Declared) (key : Field) : Prop :=
  ∃ written ∈ declared.definition.block.declarations,
    ofModelCall? declared declared.definition.block written.1 written.2 = some key ∧
      declaresKey written.2 = true

instance (declared : Declared) (key : Field) : Decidable (WritesKey declared key) :=
  inferInstanceAs (Decidable (∃ written ∈ _, _ ∧ _))

private theorem mem_writtenByModel (keyed : WritesKey declared key) :
    key ∈ writtenByModel declared := by
  obtain ⟨written, member, made, _⟩ := keyed
  exact List.mem_filterMap.mpr ⟨written, member, made⟩

/-- A body has its written fields, and an `id` before them exactly if it writes
neither a key nor an `id`. -/
theorem declaredByModel_cases (declared : Declared) :
    (((∃ key, WritesKey declared key) ∨ "id" ∈ names (writtenByModel declared)) ∧
        declaredByModel declared = writtenByModel declared) ∨
      ((∀ key, ¬ WritesKey declared key) ∧ "id" ∉ names (writtenByModel declared) ∧
        declaredByModel declared = implicitId :: writtenByModel declared) := by
  have keyed : (declared.definition.block.declarations.any fun (name, call) =>
      (ofModelCall? declared declared.definition.block name call).isSome && declaresKey call) =
        true ↔ ∃ key, WritesKey declared key := by
    simp only [List.any_eq_true, Bool.and_eq_true, Option.isSome_iff_exists, WritesKey]
    constructor
    · rintro ⟨written, member, ⟨key, made⟩, declares⟩
      exact ⟨key, written, member, made, declares⟩
    · rintro ⟨key, written, member, made, declares⟩
      exact ⟨written, member, ⟨key, made⟩, declares⟩
  have named : ((writtenByModel declared).any fun field => field.name == "id") = true ↔
      "id" ∈ names (writtenByModel declared) := by
    simp [names]
  by_cases suppressed : (∃ key, WritesKey declared key) ∨ "id" ∈ names (writtenByModel declared)
  · refine .inl ⟨suppressed, ?_⟩
    rw [← keyed, ← named, ← Bool.or_eq_true] at suppressed
    exact if_pos suppressed
  · refine .inr ⟨fun key keyed => suppressed (.inl ⟨key, keyed⟩),
      fun written => suppressed (.inr written), ?_⟩
    rw [← keyed, ← named, ← Bool.or_eq_true] at suppressed
    exact if_neg suppressed

private theorem declaredByModel_of_written (written : "id" ∈ names (writtenByModel declared)) :
    declaredByModel declared = writtenByModel declared := by
  rcases declaredByModel_cases declared with ⟨_, same⟩ | ⟨_, unwritten, _⟩
  · exact same
  · exact absurd written unwritten

/-- An `id` that a body has and does not write is the implicit one. -/
theorem last?_of_unwritten (unwritten : "id" ∉ names (writtenByModel declared))
    (present : "id" ∈ names (declaredByModel declared)) :
    last? (declaredByModel declared) "id" = some implicitId := by
  rcases declaredByModel_cases declared with ⟨_, same⟩ | ⟨_, _, added⟩
  · rw [same] at present
    exact absurd present unwritten
  · have missing : last? (writtenByModel declared) "id" = none := by
      rw [← last?_isSome_iff] at unwritten
      simpa using unwritten
    rw [added, last?_cons, missing, Option.none_or]
    rfl

private theorem id_of_keyless (keyless : ∀ key, ¬ WritesKey declared key)
    (unwritten : "id" ∉ names (writtenByModel declared)) :
    "id" ∈ names (declaredByModel declared) := by
  rcases declaredByModel_cases declared with ⟨⟨key, keyed⟩ | written, _⟩ | ⟨_, _, added⟩
  · exact absurd keyed (keyless key)
  · exact absurd written unwritten
  · rw [added]
    exact List.mem_cons_self

/-- What a body writes it also has. -/
theorem mem_names_declaredByModel {name : String} (written : name ∈ names (writtenByModel declared)) :
    name ∈ names (declaredByModel declared) := by
  rcases declaredByModel_cases declared with ⟨_, same⟩ | ⟨_, _, added⟩
  · exact same ▸ written
  · exact added ▸ List.mem_cons_of_mem _ written

end Field

namespace App
open ApiScribe.Field (writtenByModel WritesKey)

/-- What the fields of a model are expected to hold of an inherited key: each
`id` is one that a body of the line writes, and the key has its type. -/
structure KeyKept (classes : List Declared) (child : Declared) (key : Field)
    (fields : List Field) : Prop where
  noImplicitId : ∀ found ∈ fields, found.name = "id" →
    ∃ elder, InLine classes elder child ∧ found ∈ writtenByModel elder
  typeKept : ∃ found, find? fields key.name = some found ∧ found.type = key.type

/-- When an inherited key is kept: the body that provides the `id` of the model
writes it, or one of the line writes the same, and the body that provides the
name of the key gives it the type of the key. -/
structure KeyReaches (classes : List Declared) (child : Declared) (key : Field) : Prop where
  idWritten : ∀ source, Provides classes declaredByModel "id" source child →
    "id" ∈ names (writtenByModel source) ∨
      ∃ elder, InLine classes elder child ∧ implicitId ∈ writtenByModel elder
  typeGiven : ∀ source given, Provides classes declaredByModel key.name source child →
    last? (declaredByModel source) key.name = some given → given.type = key.type

private theorem keyKept_iff {classes : List Declared} (acyclic : Acyclic classes)
    (inLine : InLine classes elder child) (keyed : WritesKey elder key) :
    KeyKept classes child key (plain acyclic declaredByModel child) ↔
      KeyReaches classes child key := by
  constructor
  · rintro ⟨noImplicitId, found, foundKey, sameType⟩
    constructor
    · intro source provides
      by_cases written : "id" ∈ names (writtenByModel source)
      · exact .inl written
      · have implicit : find? (plain acyclic declaredByModel child) "id" = some implicitId := by
          rw [find?_plain acyclic provides]
          exact Field.last?_of_unwritten written provides.declares
        exact .inr (noImplicitId implicitId (mem_of_find? implicit) rfl)
    · intro source given provides gives
      rw [find?_plain acyclic provides, gives] at foundKey
      cases foundKey
      exact sameType
  · rintro ⟨idWritten, typeGiven⟩
    constructor
    · intro found member isId
      have foundId : find? (plain acyclic declaredByModel child) "id" = some found :=
        isId ▸ (mem_iff_find? (plain_distinct acyclic declaredByModel child)).mp member
      obtain ⟨source, provides, gives⟩ := (find?_plain_iff acyclic).mp foundId
      by_cases written : "id" ∈ names (writtenByModel source)
      · rw [Field.declaredByModel_of_written written] at gives
        exact ⟨source, provides.inLine, mem_of_last? gives⟩
      · rw [Field.last?_of_unwritten written provides.declares] at gives
        cases gives
        exact (idWritten source provides).resolve_left written
    · have writes : key.name ∈ names (declaredByModel elder) :=
        Field.mem_names_declaredByModel (List.mem_map_of_mem (Field.mem_writtenByModel keyed))
      have present := (mem_names_plain acyclic).mpr ⟨elder, inLine, writes⟩
      obtain ⟨found, foundKey⟩ := Option.isSome_iff_exists.mp (find?_isSome_iff.mpr present)
      obtain ⟨source, provides, gives⟩ := (find?_plain_iff acyclic).mp foundKey
      exact ⟨found, foundKey, typeGiven source found provides gives⟩

section Keys
variable {extra : Config.Extraction} {tree : FileTree} {files : AppFiles}

/-- A model that writes neither a key nor an `id` has the implicit `id`, whatever
key it inherits. An inherited key is kept exactly where it reaches the model. -/
theorem inherited_key_kept_iff
    (distinct : ((modelClasses extra tree files).map Declared.name).Nodup)
    (acyclic : Acyclic (modelClasses extra tree files))
    (member : child ∈ modelClasses extra tree files)
    (listed : entry ∈ (analyze extra tree files).1.models)
    (same : entry.record = child.record)
    (ancestor : Ancestor (modelClasses extra tree files) elder child)
    (keyed : WritesKey elder key) (unwritten : "id" ∉ names (writtenByModel child)) :
    ((∀ own, ¬ WritesKey child own) → find? entry.fields "id" = some implicitId) ∧
      (KeyKept (modelClasses extra tree files) child key entry.fields ↔
        KeyReaches (modelClasses extra tree files) child key) := by
  rw [model_fields distinct acyclic member listed same]
  refine ⟨fun keyless => ?_, keyKept_iff acyclic ancestor.to_reflTransGen keyed⟩
  have present := Field.id_of_keyless keyless unwritten
  rw [find?_plain acyclic (.own present)]
  exact Field.last?_of_unwritten unwritten present

end Keys

/-- A model that writes its key and a model that derives from it. -/
def shopTree : FileTree :=
  ⟨[(["shop"], .directory),
    (["shop", "models.py"], .file (.text
      "class Base(Model):\n  code = CharField(primary_key=True)\n\nclass Child(Base):\n  pass\n"))]⟩

def shopFiles : AppFiles :=
  { name := "shop"
    rootPath := "shop"
    pythonFiles := ["shop/models.py"]
    modelFiles := ["shop/models.py"]
    serializerFiles := []
    viewFiles := []
    urlFiles := [] }

def shopModels : List Declared := modelClasses {} shopTree shopFiles

/-- In the shop a model that writes no key has an `id` that no body writes, though
its base has a key. Lines rank the classes. -/
theorem shop_checked : (shopModels.map Declared.name).Nodup ∧
    (∀ declared ∈ shopModels, ∀ base ∈ parents shopModels declared,
      base.definition.line < declared.definition.line) ∧
    (∀ declared ∈ shopModels, implicitId ∉ writtenByModel declared) ∧
    ∃ elder ∈ shopModels, ∃ child ∈ shopModels,
      elder.name ∈ (parents shopModels child).map Declared.name ∧
      (∃ key ∈ writtenByModel elder, WritesKey elder key) ∧
      "id" ∉ names (writtenByModel child) ∧
      (∀ written ∈ child.definition.block.declarations, ¬ declaresKey written.2 = true) ∧
      ∃ entry ∈ (analyze {} shopTree shopFiles).1.models,
        entry.record = child.record ∧ implicitId ∈ entry.fields := by
  decide +kernel

private theorem shop_acyclic : Acyclic shopModels :=
  acyclic_of_rank (fun declared => declared.definition.line) shop_checked.2.1

theorem shop_child_has_id : ∃ elder child key entry, Ancestor shopModels elder child ∧
    WritesKey elder key ∧ entry ∈ (analyze {} shopTree shopFiles).1.models ∧
    entry.record = child.record ∧ find? entry.fields "id" = some implicitId := by
  obtain ⟨distinct, _, _, elder, elder_mem, child, child_mem, base, ⟨key, _, keyed⟩, unwritten,
    keyless, entry, listed, same, _⟩ := shop_checked
  have ancestor : Ancestor shopModels elder child :=
    .single (isBase_of_name distinct elder_mem base)
  have noKey : ∀ own, ¬ WritesKey child own := by
    rintro own ⟨written, member, _, declares⟩
    exact keyless written member declares
  exact ⟨elder, child, key, entry, ancestor, keyed, listed, same, (inherited_key_kept_iff distinct
    shop_acyclic child_mem listed same ancestor keyed unwritten).1 noKey⟩

/-- The key of the shop is not kept. -/
theorem shop_key_not_kept : (shopModels.map Declared.name).Nodup ∧ Acyclic shopModels ∧
    ∃ elder child key entry, child ∈ shopModels ∧
      entry ∈ (analyze {} shopTree shopFiles).1.models ∧ entry.record = child.record ∧
      Ancestor shopModels elder child ∧ WritesKey elder key ∧
      "id" ∉ names (writtenByModel child) ∧ ¬ KeyKept shopModels child key entry.fields := by
  obtain ⟨distinct, _, nowhere, elder, elder_mem, child, child_mem, base, ⟨key, _, keyed⟩,
    unwritten, _, entry, listed, same, added⟩ := shop_checked
  refine ⟨distinct, shop_acyclic, elder, child, key, entry, child_mem, listed, same,
    .single (isBase_of_name distinct elder_mem base), keyed, unwritten, fun kept => ?_⟩
  obtain ⟨source, inLine, written⟩ := kept.noImplicitId implicitId added rfl
  exact nowhere source (inLine.mem child_mem) written

end App
end ApiScribe
