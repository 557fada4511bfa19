import ApiScribe.Proofs.App.AddedFields
import ApiScribe.Proofs.Expr.Verbatim
import ApiScribe.Sphinx.Pages

/-! The notes on a field in its table. A cell ends with its line, so notes may hold no line feed.
Help texts are put on one line and every other sentence is made of fixed words, but the default
and the choices are written as they are: the default is the text of the value that some body
declares, and the choices are strings and integers. -/
namespace ApiScribe

variable {text before after separator : String} {texts : List String}

/-! Texts put together. -/

private theorem unbroken_append_iff :
    Unbroken (before ++ after) ↔ Unbroken before ∧ Unbroken after := by
  simp only [Unbroken, String.toList_append, List.mem_append, not_or]

private theorem unbroken_between_iff (front : Unbroken before) (back : Unbroken after) :
    Unbroken (before ++ text ++ after) ↔ Unbroken text := by
  rw [unbroken_append_iff, unbroken_append_iff]
  exact ⟨fun parts => parts.1.2, fun plain => ⟨⟨front, plain⟩, back⟩⟩

private theorem unbroken_intercalate_iff (plain : Unbroken separator) :
    Unbroken (separator.intercalate texts) ↔ ∀ text ∈ texts, Unbroken text := by
  simp only [Unbroken, String.toList_intercalate] at plain ⊢
  induction texts with
  | nil => simp
  | cons first others ih =>
    cases others with
    | nil => simp
    | cons second others =>
      rw [List.map_cons] at ih
      rw [List.map_cons, List.map_cons, List.intercalate_cons_cons, List.forall_mem_cons, ← ih]
      simp only [List.mem_append, not_or, plain, not_false_eq_true, and_true]

private theorem Value.unbroken_display_iff {value : Value} (plain : value.PlainNames) :
    Unbroken value.display ↔ ¬ value.Breaks := by
  rw [Unbroken, display, String.toList_ofList, mem_print_iff plain]

/-! The notes on a field. -/

namespace Sphinx
open Text

private theorem unbroken_code_iff : Unbroken (code text) ↔ Unbroken text :=
  unbroken_between_iff (by decide +kernel) (by decide +kernel)

/-- Help text is put on one line. -/
theorem unbroken_sentence (text : String) : Unbroken (sentence text) := by
  have line : '\n' ∉ joined [' '] (words text.toList) := by
    intro feed
    rcases mem_joined feed with between | ⟨word, listed, inside⟩
    · exact absurd between (by decide)
    · have blank := splitAt_free (List.mem_filter.mp listed).1 _ inside
      cases blank
  rw [sentence]
  split <;> simp [Unbroken, line]

/-- All notes stay on their line exactly if the default and the choices do. -/
theorem unbroken_notes_iff (field : Field) : (∀ note ∈ notes field, Unbroken note) ↔
    (∀ text ∈ field.default, Unbroken text) ∧
      ∀ choice ∈ field.choices, Unbroken choice.value.text := by
  have helpText : ∀ note ∈ field.helpText.toList.map sentence, Unbroken note :=
    List.forall_mem_map.mpr fun text _ => unbroken_sentence text
  have marks (flag : Bool) (mark : String) (plain : Unbroken mark) :
      ∀ note ∈ if flag then [mark] else [], Unbroken note := by
    cases flag <;> simp [plain]
  have length : ∀ note ∈ field.maxLength.toList.map fun length =>
      "Max length " ++ toString length ++ ".", Unbroken note := by
    refine List.forall_mem_map.mpr fun length _ => ?_
    exact (unbroken_between_iff (by decide +kernel) (by decide +kernel)).mpr
      (unbroken_integer length)
  have default : (∀ note ∈ field.default.toList.map fun text => "Default " ++ code text ++ ".",
      Unbroken note) ↔ ∀ text ∈ field.default, Unbroken text := by
    rw [List.forall_mem_map]
    refine forall_congr' fun text => imp_congr Option.mem_toList ?_
    exact (unbroken_between_iff (by decide +kernel) (by decide +kernel)).trans unbroken_code_iff
  have choices : (∀ note ∈ if field.choices.isEmpty then [] else ["Choices: " ++ ", ".intercalate
      (field.choices.map fun choice => code choice.value.text) ++ "."], Unbroken note) ↔
      ∀ choice ∈ field.choices, Unbroken choice.value.text := by
    cases field.choices with
    | nil => simp
    | cons first others =>
      simp only [List.isEmpty_cons, Bool.false_eq_true, if_false, List.forall_mem_singleton]
      rw [unbroken_between_iff (by decide +kernel) (by decide +kernel),
        unbroken_intercalate_iff (by decide +kernel), List.forall_mem_map]
      exact forall₂_congr fun choice _ => unbroken_code_iff
  have readOnly := marks field.readOnly "Read-only." (by decide +kernel)
  have writeOnly := marks field.writeOnly "Write-only." (by decide +kernel)
  have nullable := marks field.nullable "Nullable." (by decide +kernel)
  rw [notes]
  simp only [List.forall_mem_append, default, choices]
  exact ⟨fun all => ⟨all.1.2, all.2⟩, fun both =>
    ⟨⟨⟨⟨⟨⟨helpText, readOnly⟩, writeOnly⟩, nullable⟩, length⟩, both.1⟩, both.2⟩⟩

/-- The last cell in the rows of a field. -/
def lastCell (field : Field) : String := (fieldRows field).getLast (List.cons_ne_nil _ _)

private theorem unbroken_lastCell_iff (field : Field) :
    Unbroken (lastCell field) ↔ ∀ note ∈ notes field, Unbroken note := by
  have cell : lastCell field = "     -" ++
      (if (" ".intercalate (notes field)).isEmpty then "" else " " ++ " ".intercalate (notes field)) :=
    rfl
  have blank : Unbroken " " := by decide +kernel
  rw [cell, unbroken_append_iff, ← unbroken_intercalate_iff blank,
    and_iff_right (by decide +kernel)]
  split
  · next empty =>
    rw [String.isEmpty_iff.mp empty]
  · rw [unbroken_append_iff, and_iff_right blank]

end Sphinx

/-! Defaults. -/

namespace Field
open Source (Block)

variable {classes : List Declared} {declared : Declared} {field : Field} {name : String}
  {call : Call} {models : ModelIndex}

/-- The default of a field is the text of a value that one of the classes declares for a field of
its name, or there is none. -/
structure DefaultFrom (classes : List Declared) (field : Field) (default? : Option Value) :
    Prop where
  shown : field.default = default?.map Value.display
  written : ∀ value ∈ default?, ∃ declared ∈ classes, ∃ call,
    (field.name, call) ∈ declared.definition.block.declarations ∧
      call.named? "default" = some value

/-- All defaults of the fields are such texts. -/
def DefaultsFrom (classes : List Declared) (fields : List Field) : Prop :=
  ∀ field ∈ fields, ∃ default?, DefaultFrom classes field default?

/-- The arguments of a declaration have been read, so their names are plain. -/
theorem plainNames_named? (declares : (name, call) ∈ declared.definition.block.declarations)
    (given : call.named? key = some value) : value.PlainNames := by
  obtain ⟨found, assigned, made⟩ := List.mem_filterMap.mp declares
  obtain ⟨_, called⟩ := Option.ite_none_left_eq_some.mp made
  obtain ⟨_, called, shown⟩ := Option.map_eq_some_iff.mp called
  cases shown
  obtain ⟨text, read⟩ := (Source.legible_ofLines declared.definition.body).values found assigned
  have plain := Expr.plainNames_read text
  rw [← read] at plain
  cases whole : found.value with
  | call callee args named =>
    rw [whole] at plain called
    cases called
    cases plain with
    | call _ _ _ values =>
      obtain ⟨before, after, parts, _⟩ := List.lookup_eq_some_iff.mp given
      have parts : named = before ++ (key, value) :: after := parts
      exact values (key, value) (by simp [parts])
  | _ =>
    rw [whole] at called
    cases called

private theorem plainNames_default (found : DefaultFrom classes field default?) :
    ∀ value ∈ default?, value.PlainNames := by
  intro value given
  obtain ⟨declared, _, call, declares, named⟩ := found.written value given
  exact plainNames_named? declares named

private theorem withChoices_name (field : Field) (choices : List Choice) :
    (field.withChoices choices).name = field.name := by
  rw [withChoices]
  split <;> rfl

private theorem withChoices_default (field : Field) (choices : List Choice) :
    (field.withChoices choices).default = field.default := by
  rw [withChoices]
  split <;> rfl

/-- What a declaration makes has its default from there. -/
theorem defaultFrom_of_call (member : declared ∈ classes)
    (declares : (name, call) ∈ declared.definition.block.declarations) (called : field.name = name)
    (shown : field.default = (call.named? "default").map Value.display) :
    DefaultFrom classes field (call.named? "default") :=
  ⟨shown, fun _ given => ⟨declared, member, call, called ▸ declares, given⟩⟩

private theorem defaultFrom_none (unset : field.default = none) : DefaultFrom classes field none :=
  ⟨unset, nofun⟩

private theorem defaultsFrom_declaredBySerializer (member : declared ∈ classes) :
    DefaultsFrom classes (declaredBySerializer declared) := by
  intro field listed
  obtain ⟨⟨name, call⟩, declares, made⟩ := List.mem_filterMap.mp listed
  obtain ⟨bare, _, rfl⟩ := Option.map_eq_some_iff.mp made
  exact ⟨_, defaultFrom_of_call member declares (withChoices_name _ _) (withChoices_default _ _)⟩

private theorem defaultsFrom_declaredByModel (member : declared ∈ classes) :
    DefaultsFrom classes (declaredByModel declared) := by
  have written : DefaultsFrom classes (declared.definition.block.declarations.filterMap fun entry =>
      ofModelCall? declared declared.definition.block entry.1 entry.2) := by
    intro field listed
    obtain ⟨⟨name, call⟩, declares, made⟩ := List.mem_filterMap.mp listed
    obtain ⟨type, _, rfl⟩ := Option.map_eq_some_iff.mp made
    exact ⟨_, defaultFrom_of_call member declares (withChoices_name _ _) (withChoices_default _ _)⟩
  intro field listed
  rw [declaredByModel] at listed
  split at listed
  · exact written field listed
  · rcases List.mem_cons.mp listed with rfl | later
    · exact ⟨none, defaultFrom_none rfl⟩
    · exact written field later

/-- What `Meta` makes of a name has the default that the model has for it, if any. -/
theorem defaultsFrom_addedByMeta (known : ∀ model ∈ models, DefaultsFrom classes model.2)
    (written : List Field) (options : Block) :
    DefaultsFrom classes (addedByMeta written options models) := by
  intro field listed
  obtain ⟨name, _, rfl⟩ := List.mem_map.mp listed
  have stands := standsFor_selected (metaModel options models) name
  generalize selected (metaModel options models) name = base at stands ⊢
  obtain ⟨_, _, _, same⟩ := (altered_adjusted options base).rest
  rw [same]
  cases stands with
  | ofModel whole called first =>
    obtain ⟨model, indexed, inside⟩ := mem_of_mem_metaModel (whole ▸ List.mem_append_cons_self)
    obtain ⟨default?, found⟩ := known model indexed _ inside
    exact ⟨default?, found.shown, found.written⟩
  | key absent isId => exact ⟨none, defaultFrom_none rfl⟩
  | unknown absent other => exact ⟨none, defaultFrom_none rfl⟩

private theorem defaultsFrom_ofSerializer (known : ∀ model ∈ models, DefaultsFrom classes model.2)
    (member : declared ∈ classes) : DefaultsFrom classes (ofSerializer declared models) := by
  intro field listed
  rw [ofSerializer] at listed
  split at listed
  · rcases List.mem_append.mp listed with written | added
    · exact defaultsFrom_declaredBySerializer member field written
    · exact defaultsFrom_addedByMeta known _ _ field added
  · exact defaultsFrom_declaredBySerializer member field listed

/-- The defaults of a class are from the classes, if those of the models are. -/
theorem defaultsFrom_fields (known : ∀ model ∈ models, DefaultsFrom classes model.2)
    (registry : Registry) (member : declared ∈ classes) :
    DefaultsFrom classes (registry.fields declared models) := by
  intro field listed
  rw [Registry.fields] at listed
  split at listed
  · exact defaultsFrom_declaredByModel member field listed
  · split at listed
    · exact defaultsFrom_ofSerializer known member field listed
    · cases listed

end Field

namespace Sphinx
open ApiScribe.Field (DefaultFrom DefaultsFrom defaultsFrom_fields plainNames_default)

variable {registry : Registry} {classes : List Declared} {models : ModelIndex}

/-- Fields that bodies of the classes write, without the help of an index. -/
def Drawn (registry : Registry) (classes : List Declared) (fields : List Field) : Prop :=
  ∀ field ∈ fields, ∃ declared ∈ classes, field ∈ registry.fields declared []

/-- An index of fields that bodies of the classes write. -/
def Indexed (registry : Registry) (classes : List Declared) (models : ModelIndex) : Prop :=
  ∀ model ∈ models, Drawn registry classes model.2

private theorem drawn_mergeAll {fields added : List Field} (before : Drawn registry classes fields)
    (after : Drawn registry classes added) :
    Drawn registry classes (Inheritance.mergeAll fields added) := fun field member =>
  (Inheritance.mem_of_mem_mergeAll member).elim (before field) (after field)

/-- The models of an application are indexed, as resolution makes no fields of its own. -/
theorem indexed_modelsOf (registry : Registry) (classes : List Declared) :
    Indexed registry classes (App.indexOf (App.modelsOf registry classes)) := by
  have kept : Inheritance.Kept (App.family registry classes .model) (registry.fields · [])
      (Drawn registry classes) fun _ => Drawn registry classes :=
    { start := fun _ member => absurd member List.not_mem_nil
      merged := fun _ _ _ before _ after => drawn_mergeAll before after
      completed := fun declared _ inside before => drawn_mergeAll before fun field own =>
        ⟨declared, List.mem_of_mem_filter inside, own⟩ }
  obtain ⟨table, resolved, filled⟩ := Inheritance.resolve_table kept
  intro model listed
  obtain ⟨entry, member, rfl⟩ := List.mem_map.mp (List.mem_reverse.mp listed)
  rw [App.modelsOf, resolved] at member
  obtain ⟨declared, inside, rfl⟩ := List.mem_map.mp member
  obtain ⟨_, _, _, drawn⟩ := filled declared inside
  exact drawn

/-- The notes on a field stay in their cell exactly if neither its default nor one of its choices
breaks the line: the value that the default was written from says no text with a line feed, and
no choice is such a text. -/
theorem cell_unbroken_iff (indexed : Indexed registry classes models) (declared : Declared)
    (field : Field) (produced : field ∈ registry.fields declared models) :
    ∃ default?, DefaultFrom (declared :: classes) field default? ∧
      (Unbroken (lastCell field) ↔ (∀ value ∈ default?, ¬ value.Breaks) ∧
        ∀ choice ∈ field.choices, Unbroken choice.value.text) := by
  have known : ∀ model ∈ models, DefaultsFrom (declared :: classes) model.2 := by
    intro model listed found inside
    obtain ⟨owner, member, written⟩ := indexed model listed found inside
    exact defaultsFrom_fields (by simp) registry (List.mem_cons_of_mem declared member) found written
  obtain ⟨default?, given⟩ := defaultsFrom_fields known registry List.mem_cons_self field produced
  have plain := plainNames_default given
  refine ⟨default?, given, ?_⟩
  rw [unbroken_lastCell_iff, unbroken_notes_iff, given.shown]
  refine and_congr_left fun _ => ?_
  cases default? with
  | none => simp
  | some value => simpa using Value.unbroken_display_iff (plain value rfl)

/-- A model and a serializer that shows one of its fields, whose help text has two lines. -/
def shelfClasses : List Declared :=
  Declared.ofFiles [
    .ofText "shop/models.py"
      ("class Book(Model):\n" ++
        "  size = CharField(choices=[('s', 'Small')], help_text='''In hands\nor in feet''')\n"),
    .ofText "shop/serializers.py"
      ("class BookSerializer(ModelSerializer):\n" ++
        "  class Meta:\n    model = Book\n    fields = ['size']\n")]

def shelfIndex : ModelIndex := App.indexOf (App.modelsOf (.ofExtraction {}) shelfClasses)

/-- The two lines of help text are one in the table. -/
theorem size_stays_in_cell : ∃ declared ∈ shelfClasses,
    ∃ field ∈ (Registry.ofExtraction {}).fields declared shelfIndex,
      field.helpText = some "In hands\nor in feet" ∧ Unbroken (lastCell field) := by
  obtain ⟨declared, listed, field, produced, text, unset, choices⟩ : ∃ declared ∈ shelfClasses,
      ∃ field ∈ (Registry.ofExtraction {}).fields declared shelfIndex,
        field.helpText = some "In hands\nor in feet" ∧ field.default = none ∧
          ∀ choice ∈ field.choices, Unbroken choice.value.text := by
    decide +kernel
  obtain ⟨default?, given, stays⟩ :=
    cell_unbroken_iff (indexed_modelsOf (.ofExtraction {}) shelfClasses) declared field produced
  have none : default? = none := by simpa [unset] using given.shown.symm
  exact ⟨declared, listed, field, produced, text, stays.mpr ⟨by simp [none], choices⟩⟩

/-- A choice that is written with a line feed breaks the line. -/
theorem choice_breaks_cell : ∃ declared ∈ Declared.ofFiles [.ofText "shop/serializers.py"
      "class ItemSerializer(Serializer):\n  size = ChoiceField(choices=[('a\\nb', 'Both')])\n"],
    ∃ field ∈ (Registry.ofExtraction {}).fields declared [], ¬ Unbroken (lastCell field) := by
  decide +kernel

end Sphinx
end ApiScribe
