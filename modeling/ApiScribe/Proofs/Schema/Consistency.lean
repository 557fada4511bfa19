import ApiScribe.Schema.Meta

/-! Fields of a class body are consistent, whatever the body says: a field that is
only read is never required, and a field with choices is typed by them and not as
a bare string or integer. `Meta` copies consistent fields of a model, makes others
of its own and changes who writes them; all three keep fields consistent. -/
namespace ApiScribe
open Source (Block)

namespace Field

/-- What holds between the parts of one field. -/
structure Consistent (field : Field) : Prop where
  readOnly : field.readOnly = true → field.required = false
  choices : field.choices ≠ [] → field.type ≠ .string ∧ field.type ≠ .integer

/-- Only fields that are consistent. -/
def AllConsistent (fields : List Field) : Prop := ∀ field ∈ fields, field.Consistent

variable {field : Field} {fields added : List Field} {declared : Declared} {body : Block}
  {name : String} {call : Call}

/-- Choices are set on a field without any, and narrow the two types that may not
have them. -/
theorem withChoices_consistent (field : Field) (choices : List Choice)
    (written : field.readOnly = true → field.required = false) (bare : field.choices = []) :
    (field.withChoices choices).Consistent := by
  rw [withChoices]
  by_cases none : choices.isEmpty = true
  · rw [if_pos none]
    exact ⟨written, fun some => absurd bare some⟩
  · rw [if_neg none]
    refine ⟨written, fun _ => ?_⟩
    by_cases narrowed : field.type = .string ∨ field.type = .integer
    · simp only [if_pos narrowed]
      decide
    · simp only [if_neg narrowed]
      exact not_or.mp narrowed

/-- What is written of a field cannot both make it read-only and require it, as the first rules
the second out. -/
private theorem ofSerializerCall?_consistent
    (made : ofSerializerCall? declared body name call = some field) :
    field.Consistent := by
  obtain ⟨bare, _, rfl⟩ := Option.map_eq_some_iff.mp made
  apply withChoices_consistent
  · intro readOnly
    simp only [withCommon] at readOnly ⊢
    rw [readOnly, Bool.not_true, Bool.and_false]
  · rfl

private theorem ofModelCall?_consistent (made : ofModelCall? declared body name call = some field) :
    field.Consistent := by
  obtain ⟨type, _, rfl⟩ := Option.map_eq_some_iff.mp made
  apply withChoices_consistent
  · intro readOnly
    simp only [withCommon] at readOnly ⊢
    rw [readOnly, Bool.true_or, Bool.true_or, Bool.true_or, Bool.not_true]
  · rfl

private theorem implicitId_consistent : implicitId.Consistent where
  readOnly _ := rfl
  choices some := absurd rfl some

private theorem declaredBySerializer_consistent (declared : Declared) :
    AllConsistent (declaredBySerializer declared) := by
  intro field member
  obtain ⟨_, _, made⟩ := List.mem_filterMap.mp member
  exact ofSerializerCall?_consistent made

private theorem declaredByModel_consistent (declared : Declared) :
    AllConsistent (declaredByModel declared) := by
  intro field member
  have written : ∀ field ∈ declared.definition.block.declarations.filterMap (fun entry =>
      ofModelCall? declared declared.definition.block entry.1 entry.2), field.Consistent := by
    intro field member
    obtain ⟨_, _, made⟩ := List.mem_filterMap.mp member
    exact ofModelCall?_consistent made
  rw [declaredByModel] at member
  split at member
  · exact written field member
  · rcases List.mem_cons.mp member with rfl | later
    · exact implicitId_consistent
    · exact written field later

section Meta
variable {modelFields : List Field} {models : ModelIndex}

/-- A listed field is one of the model or made up, and made up consistently. -/
private theorem selected_consistent (model : AllConsistent modelFields) (name : String) :
    (selected modelFields name).Consistent := by
  rw [selected]
  cases found : find? modelFields name with
  | some field => exact model field (List.mem_of_find?_eq_some found)
  | none =>
    rw [Option.getD_none]
    by_cases isId : name = "id"
    · rw [if_pos isId]
      exact implicitId_consistent
    · rw [if_neg isId]
      exact ⟨fun readOnly => absurd readOnly Bool.false_ne_true, fun some => absurd rfl some⟩

private theorem markReadOnly_consistent (consistent : field.Consistent) :
    field.markReadOnly.Consistent :=
  ⟨fun _ => rfl, consistent.choices⟩

/-- What becomes read-only is no longer required. -/
private theorem withReadOnly_consistent (consistent : field.Consistent) (entry : Option Bool) :
    (field.withReadOnly entry).Consistent := by
  rcases entry with _ | _ | _
  · exact consistent
  · exact ⟨fun readOnly => absurd readOnly Bool.false_ne_true, consistent.choices⟩
  · exact markReadOnly_consistent consistent

private theorem withWriteOnly_consistent (consistent : field.Consistent) (entry : Option Bool) :
    (field.withWriteOnly entry).Consistent := by
  cases entry with
  | none => exact consistent
  | some writeOnly => exact ⟨consistent.readOnly, consistent.choices⟩

/-- This entry comes last and knows whether the field is still only read. -/
theorem withRequired_consistent (consistent : field.Consistent) (entry : Option Bool) :
    (field.withRequired entry).Consistent := by
  cases entry with
  | none => exact consistent
  | some required =>
    refine ⟨fun readOnly => ?_, consistent.choices⟩
    have onlyRead : field.readOnly = true := readOnly
    simp only [withRequired, onlyRead, Bool.not_true, Bool.and_false]

/-- The options are applied one after the other, so each step may rely on the last. -/
private theorem withOptions_consistent (consistent : field.Consistent) (options : Value) :
    (field.withOptions options).Consistent := by
  rw [withOptions]
  apply withRequired_consistent
  apply withWriteOnly_consistent
  exact withReadOnly_consistent consistent _

private theorem adjusted_consistent (consistent : field.Consistent) (options : Block) :
    (field.adjusted options).Consistent := by
  rw [adjusted]
  have marked : (if (((options.value? "read_only_fields").map Value.strings).getD []).contains
      field.name then field.markReadOnly else field).Consistent := by
    split
    · exact markReadOnly_consistent consistent
    · exact consistent
  split
  · exact withOptions_consistent marked _
  · exact marked

/-- The fields of the model that `Meta` names are those of some model. -/
theorem mem_of_mem_metaModel {options : Block} (member : field ∈ metaModel options models) :
    ∃ model ∈ models, field ∈ model.2 := by
  rw [metaModel] at member
  split at member
  · next model _ =>
    cases found : models.lookup (lastSegmentOf model) with
    | none =>
      rw [found] at member
      cases member
    | some fields =>
      rw [found] at member
      obtain ⟨before, after, split, _⟩ := List.lookup_eq_some_iff.mp found
      exact ⟨(lastSegmentOf model, fields), by simp [split], member⟩
  · cases member

/-- The fields of the model were consistent before they were listed. -/
private theorem metaModel_consistent (known : ∀ model ∈ models, AllConsistent model.2)
    (options : Block) :
    AllConsistent (metaModel options models) := by
  intro field member
  obtain ⟨model, listed, inside⟩ := mem_of_mem_metaModel member
  exact known model listed field inside

private theorem addedByMeta_consistent (known : ∀ model ∈ models, AllConsistent model.2)
    (written : List Field) (options : Block) :
    AllConsistent (addedByMeta written options models) := by
  intro field member
  obtain ⟨name, _, rfl⟩ := List.mem_map.mp member
  exact adjusted_consistent (selected_consistent (metaModel_consistent known options) name) options

private theorem ofSerializer_consistent (known : ∀ model ∈ models, AllConsistent model.2)
    (declared : Declared) : AllConsistent (ofSerializer declared models) := by
  intro field member
  rw [ofSerializer] at member
  split at member
  · rcases List.mem_append.mp member with written | added
    · exact declaredBySerializer_consistent declared field written
    · exact addedByMeta_consistent known _ _ field added
  · exact declaredBySerializer_consistent declared field member

end Meta

end Field

/-- The body of a class in any role. -/
theorem Registry.fields_consistent {models : ModelIndex}
    (known : ∀ model ∈ models, Field.AllConsistent model.2) (registry : Registry)
    (declared : Declared) : Field.AllConsistent (registry.fields declared models) := by
  rw [Registry.fields]
  split
  · exact Field.declaredByModel_consistent declared
  · split
    · exact Field.ofSerializer_consistent known declared
    · exact fun _ member => nomatch member

end ApiScribe
