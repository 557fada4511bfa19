import ApiScribe.Proofs.App.BasePrecedence
import ApiScribe.Proofs.Inheritance.ClassOrder
import ApiScribe.Proofs.Inheritance.Completion
import ApiScribe.Proofs.Schema.Learning

/-! Two readers of bases. A class gets its role through a local class that one of its bases
names, and its fields from the classes that the resolver reads from its bases. The first
reader leaves out the subscript of a base and the second one does not. And the second one
passes over a base that is still being resolved. So a class may have the role of a base
without its fields. -/
namespace ApiScribe.App
open ApiScribe.Field (names)
open Inheritance
open Registry (ofExtraction)

/-- A class is classified through a local class: a base names the class, apart from a
subscript, and the class has been entered with the role. -/
structure ClassifiedThrough (registry : Registry) (role : Role) (child base : Declared) : Prop where
  named : ∃ text ∈ child.bases, baseName text = base.name
  other : base.name ≠ child.name
  foreign : base.name ∉ registry.table role
  entered : (registry.root? base.name).map LocalRoot.role = some role

instance (registry : Registry) (role : Role) (child base : Declared) :
    Decidable (ClassifiedThrough registry role child base) :=
  decidable_of_iff ((∃ text ∈ child.bases, baseName text = base.name) ∧ base.name ≠ child.name ∧
      base.name ∉ registry.table role ∧ (registry.root? base.name).map LocalRoot.role = some role)
    ⟨fun all => ⟨all.1, all.2.1, all.2.2.1, all.2.2.2⟩,
      fun through => ⟨through.1, through.2, through.3, through.4⟩⟩

/-- The fields that an analysis shows for a class. -/
def shownFields? (app : App) (role : Role) (declared : Declared) : Option (List Field) :=
  ((shownIn app role).find? fun entry => entry.record == declared.record).map ClassFields.fields

variable {extra : Config.Extraction} {tree : FileTree} {files : AppFiles} {role : Role}
  {child base declared : Declared}

namespace ClassifiedThrough
variable {registry : Registry}

private theorem told (through : ClassifiedThrough registry role child base) :
    ∃ entry, registry.told? base.name = some entry ∧ entry.role = role := by
  obtain ⟨entry, held, same⟩ := Option.map_eq_some_iff.mp through.entered
  exact ⟨entry, Registry.told?_eq_some_iff.mpr ⟨held, same ▸ through.foreign⟩, same⟩

/-- What a class is classified through gives it the role. -/
theorem has (through : ClassifiedThrough registry role child base) :
    registry.has child role = true := by
  obtain ⟨text, listed, named⟩ := through.named
  obtain ⟨entry, told, same⟩ := through.told
  rw [← named] at told
  have leads : registry.rootOf? child.name role text = some entry.root :=
    Registry.rootOf?_eq_some_iff.mpr (.inr ⟨named ▸ through.other, entry, told, same, rfl⟩)
  exact Registry.has_iff.mpr ⟨text, listed, entry.root, leads⟩

end ClassifiedThrough

/-- A class that has been entered with a role has the role. -/
theorem mem_roleClasses_of_entered
    (distinct : ((declaredClasses tree files).map Declared.name).Nodup)
    (member : declared ∈ declaredClasses tree files)
    (entered : ((registry extra tree files).root? declared.name).map LocalRoot.role = some role) :
    declared ∈ roleClasses extra tree files role := by
  obtain ⟨entry, held, rfl⟩ := Option.map_eq_some_iff.mp entered
  have grown := Registry.register_grown (ofExtraction extra)
    (List.Subset.refl (declaredClasses tree files))
  obtain ⟨found, found_mem, same, has⟩ := grown.has rfl held
  obtain rfl := eq_of_name distinct found_mem member same
  exact List.mem_filter.mpr ⟨member, has⟩

section Edges
variable (extra : Config.Extraction) (tree : FileTree) (files : AppFiles) (role : Role)

/-- The line of a class through the bases that the resolver follows for a role. -/
def Line : Declared → Declared → Prop :=
  FollowedLine (roleClasses extra tree files role)
    (memory (roleClasses extra tree files role) (roleBody extra tree files role))

/-- Some body of the line of a class declares a name. -/
def Written (name : String) (declared : Declared) : Prop :=
  ∃ elder, Line extra tree files role elder declared ∧
    name ∈ names (roleBody extra tree files role elder)

end Edges

private theorem roleClasses_distinct
    (distinct : ((declaredClasses tree files).map Declared.name).Nodup) :
    ((roleClasses extra tree files role).map Declared.name).Nodup :=
  distinct.sublist (List.filter_sublist.map _)

/-- An analysis shows the names that the bodies of the line of a class declare. -/
theorem shownFields?_written (fielded : role ≠ .view)
    (distinct : ((declaredClasses tree files).map Declared.name).Nodup)
    (member : declared ∈ roleClasses extra tree files role) :
    ∃ fields, shownFields? (analyze extra tree files).1 role declared = some fields ∧
      ∀ name, name ∈ names fields ↔ Written extra tree files role name declared := by
  have apart : ((roleClasses extra tree files role).map Declared.name).Nodup :=
    roleClasses_distinct distinct
  obtain ⟨completed, remembered, resolved⟩ :=
    resolve_completed apart (roleBody extra tree files role)
  refine ⟨_, ?_, fun name =>
    mem_names_memorized apart completed member (remembered declared member)⟩
  rw [shownFields?, shownIn_eq_resolve extra tree files fielded, resolved,
    find?_entry apart _ member]
  rfl

/-- A base that the resolver reads is followed, unless it derives from the class. -/
theorem line_of_read (distinct : ((declaredClasses tree files).map Declared.name).Nodup)
    (child_mem : child ∈ roleClasses extra tree files role)
    (base_mem : base ∈ roleClasses extra tree files role) (other : base.name ≠ child.name)
    (read : ∃ text ∈ child.bases, lastSegmentOf text = base.name)
    (apart : ¬ Ancestor (roleClasses extra tree files role) child base) :
    Line extra tree files role base child := by
  have distinctRole : ((roleClasses extra tree files role).map Declared.name).Nodup :=
    roleClasses_distinct distinct
  obtain ⟨text, listed, named⟩ := read
  have isBase : IsBase (roleClasses extra tree files role) base child := by
    have found := (parent?_eq_some_iff distinctRole).mpr ⟨base_mem, named.symm⟩
    exact List.mem_filterMap.mpr ⟨text, listed, localBase?_eq_some_iff.mpr ⟨found, other⟩⟩
  obtain ⟨completed, remembered, _⟩ :=
    resolve_completed distinctRole (roleBody extra tree files role)
  exact .single (followed_of_not_below distinctRole completed child_mem
    (remembered child child_mem) isBase apart)

/-- Without cycles the line of a class consists of all classes above it. -/
theorem written_iff_has (distinct : ((declaredClasses tree files).map Declared.name).Nodup)
    (acyclic : Acyclic (roleClasses extra tree files role))
    (member : declared ∈ roleClasses extra tree files role) (name : String) :
    Written extra tree files role name declared ↔
      Has (roleClasses extra tree files role) (roleBody extra tree files role) name declared := by
  have distinctRole : ((roleClasses extra tree files role).map Declared.name).Nodup :=
    roleClasses_distinct distinct
  obtain ⟨completed, remembered, _⟩ :=
    resolve_completed distinctRole (roleBody extra tree files role)
  simp only [Written, Line, Has,
    followedLine_iff_inLine distinctRole acyclic completed remembered member]

/-- What becomes of the names of a base: a class has them exactly if its own line writes
all names that the line of the base writes. So it does if the resolver reads the base and
the base does not derive from the class. -/
structure NamesPassedOn (extra : Config.Extraction) (tree : FileTree) (files : AppFiles)
    (role : Role) (child base : Declared) (given shown : List Field) : Prop where
  iff_written : names given ⊆ names shown ↔ ∀ name,
    Written extra tree files role name base → Written extra tree files role name child
  iff_has : Acyclic (roleClasses extra tree files role) →
    (names given ⊆ names shown ↔ ∀ name,
      Has (roleClasses extra tree files role) (roleBody extra tree files role) name base →
        Has (roleClasses extra tree files role) (roleBody extra tree files role) name child)
  of_read : (∃ text ∈ child.bases, lastSegmentOf text = base.name) →
    ¬ Ancestor (roleClasses extra tree files role) child base → names given ⊆ names shown

/-- In an application with distinct class names, the names of a local class are passed on
to the classes that are classified through it as far as their lines write them. -/
theorem base_names_passed_on (fielded : role ≠ .view)
    (distinct : ((declaredClasses tree files).map Declared.name).Nodup)
    (child_mem : child ∈ declaredClasses tree files) (base_mem : base ∈ declaredClasses tree files)
    (through : ClassifiedThrough (registry extra tree files) role child base) :
    ∃ given shown, shownFields? (analyze extra tree files).1 role base = some given ∧
      shownFields? (analyze extra tree files).1 role child = some shown ∧
      NamesPassedOn extra tree files role child base given shown := by
  have base_role := mem_roleClasses_of_entered distinct base_mem through.entered
  have child_role : child ∈ roleClasses extra tree files role :=
    List.mem_filter.mpr ⟨child_mem, through.has⟩
  obtain ⟨given, givenShown, givenNames⟩ := shownFields?_written fielded distinct base_role
  obtain ⟨shown, childShown, childNames⟩ := shownFields?_written fielded distinct child_role
  have kept : names given ⊆ names shown ↔ ∀ name,
      Written extra tree files role name base → Written extra tree files role name child := by
    constructor
    · intro included name written
      exact (childNames name).mp (included ((givenNames name).mpr written))
    · intro follows name member
      exact (childNames name).mpr (follows name ((givenNames name).mp member))
  refine ⟨given, shown, givenShown, childShown, kept, fun acyclic => ?_, fun read apart => ?_⟩
  · rw [kept]
    simp only [written_iff_has distinct acyclic base_role,
      written_iff_has distinct acyclic child_role]
  · refine kept.mpr ?_
    rintro name ⟨elder, line, declares⟩
    have followed := line_of_read distinct child_role base_role through.other read apart
    exact ⟨elder, line.trans followed, declares⟩

/-- A serializer with a date and two that derive from it, one of them by a subscript and
one by a dotted name. -/
def noteTree : FileTree :=
  ⟨[(["shop"], .directory),
    (["shop", "serializers.py"], .file (.text
      ("class Base(Serializer):\n  at = DateField()\n\n" ++
        "class Note(Base[str]):\n  pass\n\nclass Mark(common.Base):\n  pass\n")))]⟩

def noteClasses : List Declared := declaredClasses noteTree orderFiles

/-- The names that the analysis shows for a serializer of the notes. -/
def noteNames? (declared : Declared) : Option (List String) :=
  (shownFields? (analyze {} noteTree orderFiles).1 .serializer declared).map names

private theorem note_checked : (noteClasses.map Declared.name).Nodup ∧
    ∃ base ∈ noteClasses, ∃ note ∈ noteClasses, ∃ mark ∈ noteClasses,
      (parents (roleClasses {} noteTree orderFiles .serializer) base).isEmpty ∧
      ClassifiedThrough (registry {} noteTree orderFiles) .serializer note base ∧
      ClassifiedThrough (registry {} noteTree orderFiles) .serializer mark base ∧
      (∃ text ∈ mark.bases, lastSegmentOf text = base.name) ∧
      noteNames? base = some ["at"] ∧ noteNames? note = some [] := by
  decide +kernel

theorem mark_has_names_of_base : (noteClasses.map Declared.name).Nodup ∧
    ∃ base ∈ noteClasses, ∃ mark ∈ noteClasses,
      ClassifiedThrough (registry {} noteTree orderFiles) .serializer mark base ∧
      ∃ given shown,
        shownFields? (analyze {} noteTree orderFiles).1 .serializer base = some given ∧
        shownFields? (analyze {} noteTree orderFiles).1 .serializer mark = some shown ∧
        names given = ["at"] ∧ names given ⊆ names shown := by
  obtain ⟨distinct, base, base_mem, _, _, mark, mark_mem, top, _, through, read, baseNames, _⟩ :=
    note_checked
  obtain ⟨given, shown, givenShown, markShown, passedOn⟩ :=
    base_names_passed_on (by decide) distinct mark_mem base_mem through
  have names_eq : names given = ["at"] := by
    rw [noteNames?, givenShown] at baseNames
    exact Option.some.inj baseNames
  have apart : ¬ Ancestor (roleClasses {} noteTree orderFiles .serializer) mark base := by
    intro below
    obtain ⟨above, _, isBase⟩ := Relation.TransGen.tail'_iff.mp below
    rw [IsBase, List.isEmpty_iff.mp top] at isBase
    cases isBase
  exact ⟨distinct, base, base_mem, mark, mark_mem, through, given, shown, givenShown, markShown,
    names_eq, passedOn.of_read read apart⟩

/-- A subscript is enough for the names to be lost. -/
theorem note_lacks_names_of_base : (noteClasses.map Declared.name).Nodup ∧
    ∃ base ∈ noteClasses, ∃ note ∈ noteClasses,
      ClassifiedThrough (registry {} noteTree orderFiles) .serializer note base ∧
      ∃ given shown,
        shownFields? (analyze {} noteTree orderFiles).1 .serializer base = some given ∧
        shownFields? (analyze {} noteTree orderFiles).1 .serializer note = some shown ∧
        ¬ names given ⊆ names shown := by
  obtain ⟨distinct, base, base_mem, note, note_mem, _, _, _, through, _, _, baseNames, none⟩ :=
    note_checked
  obtain ⟨given, givenShown, givenNames⟩ := Option.map_eq_some_iff.mp baseNames
  obtain ⟨shown, noteShown, noteNames⟩ := Option.map_eq_some_iff.mp none
  refine ⟨distinct, base, base_mem, note, note_mem, through, given, shown, givenShown, noteShown,
    fun included => ?_⟩
  rw [givenNames, noteNames] at included
  cases included List.mem_cons_self

end ApiScribe.App
