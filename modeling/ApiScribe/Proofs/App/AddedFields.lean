import ApiScribe.Proofs.App.ListedFields
import ApiScribe.Proofs.Schema.Consistency

/-! What `Meta` adds to a serializer. The fields that the body declares stay in front as they
are. Behind them stands one field for each name that `Meta` wants, unless the name is excluded
or declared, and such a field differs from what its name stands for only in who writes it. -/
namespace ApiScribe.Field
open Source (Block)

variable {options : Block} {models : ModelIndex} {modelFields : List Field} {field : Field}
  {name : String}

/-! The names that are wanted. -/

/-- The names that `Meta` wants: those that it lists, or all that the model has where it says
so or merely leaves some out. -/
inductive Wants (options : Block) (modelNames : List String) : List String → Prop
  | listed {items : List Value} (set : options.value? "fields" = some (.list items) ∨
      options.value? "fields" = some (.tuple items)) :
      Wants options modelNames (items.filterMap Value.asString?)
  | all (set : options.value? "fields" = some (.str "__all__")) :
      Wants options modelNames modelNames
  | others (unset : options.value? "fields" = none) (excludes : (options.value? "exclude").isSome) :
      Wants options modelNames modelNames
  | nothing (row : ∀ value, options.value? "fields" = some value →
      value.items? = none ∧ ∀ text, value = .str text → text ≠ "__all__")
      (excludes : options.value? "fields" = none → options.value? "exclude" = none) :
      Wants options modelNames []

private theorem wants_selectedNames (options : Block) (modelNames : List String) :
    Wants options modelNames (selectedNames options modelNames) := by
  rw [selectedNames]
  cases set : options.value? "fields" with
  | none =>
    cases excludes : options.value? "exclude" with
    | none => exact .nothing (by simp [set]) fun _ => excludes
    | some value => exact .others set (by rw [excludes]; rfl)
  | some value =>
    have written (none : value.items? = none)
        (other : ∀ text, value = .str text → text ≠ "__all__") : Wants options modelNames [] := by
      refine .nothing (fun found same => ?_) (by simp [set])
      obtain rfl : value = found := Option.some.inj (set.symm.trans same)
      exact ⟨none, other⟩
    cases value with
    | str text =>
      by_cases all : text = "__all__"
      · simp only [if_pos all]
        exact .all (all ▸ set)
      · simp only [if_neg all]
        exact written rfl fun found same => by rwa [← Value.str.inj same]
    | list items => exact .listed (.inl set)
    | tuple items => exact .listed (.inr set)
    | _ => exact written rfl (by simp)

/-- The names of what is added are the wanted ones that are neither excluded nor declared, each
once, where it is wanted first. -/
theorem missingNames_eq (declared exclude wanted : List String) :
    missingNames declared exclude wanted =
      (wanted.filter fun name => name ∉ exclude ∧ name ∉ declared).eraseDups := by
  induction wanted generalizing declared with
  | nil => rfl
  | cons first rest ih =>
    rw [missingNames]
    by_cases passed : first ∈ exclude ∨ first ∈ declared
    · have out : ¬ (first ∉ exclude ∧ first ∉ declared) := fun both => passed.elim both.1 both.2
      rw [if_pos (by simpa using passed), ih, List.filter_cons_of_neg (by simpa using out)]
    · rw [if_neg (by simpa using passed), ih,
        List.filter_cons_of_pos (by simpa [not_or] using passed), List.eraseDups_cons,
        List.filter_filter]
      congr 3
      funext name
      by_cases same : name = first <;> simp [same]

/-! The fields that names stand for. -/

/-- What a name stands for: the first field of the model that has it, or else the key that every
model has, or else a field of unknown type. -/
inductive StandsFor (modelFields : List Field) (name : String) : Field → Prop
  | ofModel {front rest : List Field} {field : Field} (whole : modelFields = front ++ field :: rest)
      (called : field.name = name) (first : name ∉ names front) : StandsFor modelFields name field
  | key (absent : name ∉ names modelFields) (isId : name = "id") :
      StandsFor modelFields name implicitId
  | unknown (absent : name ∉ names modelFields) (other : name ≠ "id") :
      StandsFor modelFields name { name, type := .unknown }

theorem standsFor_selected (modelFields : List Field) (name : String) :
    StandsFor modelFields name (selected modelFields name) := by
  rw [selected, find?]
  cases found : modelFields.find? fun field => field.name == name with
  | some field =>
    obtain ⟨called, front, rest, whole, before⟩ := List.find?_eq_some_iff_append.mp found
    refine .ofModel whole (by simpa using called) fun listed => ?_
    obtain ⟨earlier, member, same⟩ := List.mem_map.mp listed
    simpa [same] using before earlier member
  | none =>
    have absent : name ∉ names modelFields := by
      intro listed
      obtain ⟨field, member, same⟩ := List.mem_map.mp listed
      simpa [same] using List.find?_eq_none.mp found field member
    rw [Option.getD_none]
    split
    · next isId => exact .key absent isId
    · next other => exact .unknown absent other

/-! Who writes a field. -/

/-- Whether `Meta` lists a name among the fields that are only read. -/
def ReadOnlyBy (options : Block) (name : String) : Prop :=
  ∃ value, options.value? "read_only_fields" = some value ∧ name ∈ value.strings

instance (options : Block) (name : String) : Decidable (ReadOnlyBy options name) :=
  inferInstanceAs (Decidable (∃ value ∈ options.value? "read_only_fields", name ∈ value.strings))

/-- The truth value that `extra_kwargs` has for a key of a name. -/
def extraFlag? (options : Block) (name key : String) : Option Bool :=
  ((options.value? "extra_kwargs").bind (Value.entry? name)).bind fun extra =>
    flagEntry? extra key

/-- Whether `Meta` says of a name that it is only read. -/
def SaidReadOnly (options : Block) (name : String) : Prop :=
  ReadOnlyBy options name ∨ extraFlag? options name "read_only" = some true

instance (options : Block) (name : String) : Decidable (SaidReadOnly options name) :=
  inferInstanceAs (Decidable (_ ∨ _))

/-- `field` is `base` as `Meta` alters it. -/
structure Altered (options : Block) (base field : Field) : Prop where
  /-- Nothing changes but who writes the field. -/
  rest : ∃ readOnly writeOnly required, field = { base with readOnly, writeOnly, required }
  /-- What `extra_kwargs` says comes after the list of fields that are only read. -/
  readOnly : field.readOnly = (extraFlag? options base.name "read_only").getD
    (decide (ReadOnlyBy options base.name) || base.readOnly)
  writeOnly : field.writeOnly = (extraFlag? options base.name "write_only").getD base.writeOnly
  required : field.required =
    match extraFlag? options base.name "required" with
    | some required => required && !field.readOnly
    | none => !decide (SaidReadOnly options base.name) && base.required
  /-- A field that is said to be only read and stays so is not required. -/
  unrequired : SaidReadOnly options base.name → field.readOnly = true → field.required = false
  /-- A field that the options do not mention is what it was. -/
  untouched : ¬ ReadOnlyBy options base.name →
    (∀ key ∈ ["read_only", "write_only", "required"], extraFlag? options base.name key = none) →
      field = base

private theorem withReadOnly_marked (field : Field) (listed : Prop) [Decidable listed]
    (entry : Option Bool) :
    (if listed then field.markReadOnly else field).withReadOnly entry =
      { field with
        readOnly := entry.getD (decide listed || field.readOnly)
        required := !decide (listed ∨ entry = some true) && field.required } := by
  by_cases here : listed <;> rcases entry with _ | _ | _ <;>
    simp [here, withReadOnly, markReadOnly]

private theorem withWriteOnly_eq (field : Field) (entry : Option Bool) :
    field.withWriteOnly entry = { field with writeOnly := entry.getD field.writeOnly } := by
  cases entry <;> rfl

private theorem withRequired_eq (field : Field) (entry : Option Bool) :
    field.withRequired entry = { field with
      required := match entry with
        | some required => required && !field.readOnly
        | none => field.required } := by
  cases entry <;> rfl

/-- The options of `Meta` are the list of fields that are only read and then three entries. -/
theorem adjusted_eq (options : Block) (field : Field) :
    field.adjusted options =
      (((if ReadOnlyBy options field.name then field.markReadOnly else field).withReadOnly
        (extraFlag? options field.name "read_only")).withWriteOnly
        (extraFlag? options field.name "write_only")).withRequired
        (extraFlag? options field.name "required") := by
  have listed : (((options.value? "read_only_fields").map Value.strings).getD []).contains
      field.name = decide (ReadOnlyBy options field.name) := by
    cases set : options.value? "read_only_fields" <;> simp [ReadOnlyBy, set]
  have marked : (if ReadOnlyBy options field.name then field.markReadOnly else field).name =
      field.name := by
    split <;> rfl
  simp only [adjusted, listed, decide_eq_true_eq, marked, extraFlag?]
  cases (options.value? "extra_kwargs").bind (Value.entry? field.name) with
  | none => rfl
  | some extra => rfl

theorem altered_adjusted (options : Block) (field : Field) :
    Altered options field (field.adjusted options) := by
  rw [adjusted_eq, withReadOnly_marked, withWriteOnly_eq, withRequired_eq]
  refine ⟨⟨_, _, _, rfl⟩, rfl, rfl, rfl, fun said onlyRead => ?_, fun unlisted unsaid => ?_⟩
  · simp only at onlyRead ⊢
    cases extraFlag? options field.name "required" with
    | none => simp [show _ ∨ _ from said]
    | some required => simp [onlyRead]
  · simp [unlisted, unsaid]

/-! What is added. -/

/-- `added` are the fields that `Meta` adds to declared ones. -/
structure AddedFields (options : Block) (modelFields declared added : List Field) : Prop where
  /-- There is one field for each wanted name that is neither excluded nor declared, in the
  order in which they are wanted. -/
  wanted : ∃ wanted, Wants options (names modelFields) wanted ∧
    names added = (wanted.filter fun name =>
      name ∉ excludedBy options ∧ name ∉ names declared).eraseDups
  /-- Each field is what its name stands for but for who writes it. -/
  altered : ∀ field ∈ added, ∃ base, StandsFor modelFields field.name base ∧
    Altered options base field

private theorem addedFields_addedByMeta (declared : List Field) (options : Block)
    (models : ModelIndex) :
    AddedFields options (metaModel options models) declared
      (addedByMeta declared options models) where
  wanted := by
    refine ⟨_, wants_selectedNames options _, ?_⟩
    rw [← missingNames_eq, addedByMeta, names, List.map_map]
    exact List.map_id'' (madeByMeta_name options models) _
  altered field member := by
    obtain ⟨name, _, rfl⟩ := List.mem_map.mp member
    refine ⟨_, ?_, altered_adjusted options _⟩
    have called := madeByMeta_name options models name
    rw [madeByMeta] at called
    rw [called]
    exact standsFor_selected _ name

/-- A serializer has the fields that its body declares, as they are, and behind them those that
its `Meta` adds. -/
theorem ofSerializer_exact (declared : Declared) (models : ModelIndex) :
    ∃ added, ofSerializer declared models = declaredBySerializer declared ++ added ∧
      match declared.definition.inner? "Meta" with
      | none => added = []
      | some found => AddedFields found.block (metaModel found.block models)
          (declaredBySerializer declared) added := by
  rw [ofSerializer]
  cases declared.definition.inner? "Meta" with
  | none => exact ⟨[], (List.append_nil _).symm, rfl⟩
  | some found => exact ⟨_, rfl, addedFields_addedByMeta _ found.block models⟩

/-- A serializer that declares a field, lists it and lists another one twice. -/
def accountSerializer : Declared where
  file := "users/serializers.py"
  module := .ofLines []
  definition := ⟨"AccountSerializer", ["ModelSerializer"], 1, none, [
    ⟨2, 2, "title = CharField()".toList⟩,
    ⟨3, 2, "class Meta:".toList⟩,
    ⟨4, 4, "fields = ['email', 'title', 'email']".toList⟩,
    ⟨5, 4, "read_only_fields = ['email', 'title']".toList⟩]⟩

/-- The list of fields that are only read does not reach the declared field. -/
example : (ofSerializer accountSerializer []).map
    (fun field => (field.name, field.type, field.readOnly, field.required)) =
      [("title", .string, false, true), ("email", .unknown, true, false)] := by
  decide +kernel

end ApiScribe.Field
