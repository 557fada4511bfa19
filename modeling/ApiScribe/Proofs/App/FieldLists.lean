import ApiScribe.App.Enrichment
import ApiScribe.Proofs.App.Families
import ApiScribe.Proofs.Schema.Consistency

/-! The field lists that an analysis shows, on every graph of bases and for every
content of files: names are distinct and fields are consistent. Bodies give
consistent fields, merging keeps names apart and makes no field of its own, and
enrichment changes texts only. -/
namespace ApiScribe
open ApiScribe.Field (names AllConsistent)

/-- What holds of the fields of a class. -/
structure Field.SoundList (fields : List Field) : Prop where
  distinct : (names fields).Nodup
  consistent : AllConsistent fields

namespace Inheritance
open ApiScribe.Field (SoundList)
variable {classes : List Declared} {own : Declared → List Field} {fields added : List Field}

private theorem soundList_nil : SoundList [] where
  distinct := List.nodup_nil
  consistent _ member := nomatch member

/-- Merging consistent fields keeps a list sound. -/
private theorem soundList_mergeAll (sound : SoundList fields) (consistent : AllConsistent added) :
    SoundList (mergeAll fields added) where
  distinct := mergeAll_distinct sound.distinct
  consistent field member := by
    rcases mem_of_mem_mergeAll member with before | merged
    · exact sound.consistent field before
    · exact consistent field merged

private theorem soundList_kept (consistent : ∀ declared ∈ classes, AllConsistent (own declared)) :
    Kept classes own SoundList fun _ => SoundList where
  start := soundList_nil
  merged _ _ _ partly _ found := soundList_mergeAll partly found.consistent
  completed declared _ member inherited := soundList_mergeAll inherited (consistent declared member)

/-- Resolution gives sound lists wherever bodies give consistent fields. -/
theorem resolve_soundList (consistent : ∀ declared ∈ classes, AllConsistent (own declared)) :
    ∀ entry ∈ resolve classes own, SoundList entry.fields := by
  obtain ⟨table, resolved, filled⟩ := resolve_table (soundList_kept consistent)
  rw [resolved]
  intro entry listed
  obtain ⟨declared, member, rfl⟩ := List.mem_map.mp listed
  obtain ⟨_, _, _, sound⟩ := filled declared member
  exact sound

end Inheritance

namespace App
open ApiScribe.Field (SoundList)

/-- The models and serializers of an application have sound lists of fields. -/
structure SoundFields (app : App) : Prop where
  models : ∀ entry ∈ app.models, SoundList entry.fields
  serializers : ∀ entry ∈ app.serializers, SoundList entry.fields

private theorem indexOf_consistent {models : List ClassFields}
    (sound : ∀ entry ∈ models, SoundList entry.fields) :
    ∀ model ∈ indexOf models, AllConsistent model.2 := by
  intro model member
  obtain ⟨entry, listed, rfl⟩ := List.mem_map.mp (List.mem_reverse.mp member)
  exact (sound entry listed).consistent

/-- The fields of every class that is analyzed form sound lists. -/
private theorem analyze_soundFields (extra : Config.Extraction) (tree : FileTree)
    (files : AppFiles) :
    SoundFields (analyze extra tree files).1 := by
  have models : ∀ entry ∈ (analyze extra tree files).1.models, SoundList entry.fields := by
    rw [analyze_models]
    apply Inheritance.resolve_soundList
    intro declared _
    apply Registry.fields_consistent
    intro model member
    cases member
  refine ⟨models, ?_⟩
  rw [analyze_serializers]
  apply Inheritance.resolve_soundList
  intro declared _
  exact Registry.fields_consistent (indexOf_consistent models) _ declared

end App

namespace Enrichment
open ApiScribe.Field (SoundList)
open App (SoundFields)

/-- What is asked about one by one is related one by one. -/
theorem each_related {α : Type} {ask : Nat → α → Outcome α} {related : α → α → Prop}
    (asks : ∀ asked value, related value (ask asked value).value) (asked : Nat) (values : List α) :
    List.Forall₂ related values (each ask asked values).value := by
  induction values generalizing asked with
  | nil => exact .nil
  | cons value rest ih => exact .cons (asks asked value) (ih _)

/-- Fields that differ in their help texts at most. -/
def SameButText (found enriched : Field) : Prop :=
  ∃ text, enriched = { found with helpText := text }

theorem field_sameButText (client : Client) (serializer : String) (asked : Nat) (found : Field) :
    SameButText found (field client serializer asked found).value := by
  rw [field]
  split
  · exact ⟨found.helpText, rfl⟩
  · split
    · exact ⟨_, rfl⟩
    · exact ⟨found.helpText, rfl⟩

private theorem names_of_sameButText {fields enriched : List Field}
    (same : List.Forall₂ SameButText fields enriched) : names enriched = names fields := by
  induction same with
  | nil => rfl
  | cons here _ ih =>
    obtain ⟨text, rfl⟩ := here
    exact congrArg (List.cons _) ih

/-- Consistency does not depend on texts. -/
private theorem consistent_of_sameButText {fields enriched : List Field}
    (same : List.Forall₂ SameButText fields enriched) (consistent : AllConsistent fields) :
    AllConsistent enriched := by
  induction same with
  | nil => exact consistent
  | cons here _ ih =>
    obtain ⟨first, rest⟩ := List.forall_mem_cons.mp consistent
    obtain ⟨text, rfl⟩ := here
    -- The help text is not among the parts that consistency is about.
    exact List.forall_mem_cons.mpr ⟨⟨first.readOnly, first.choices⟩, ih rest⟩

/-- Classes whose fields differ in their help texts at most. -/
def SameFieldsButText (found enriched : ClassFields) : Prop :=
  List.Forall₂ SameButText found.fields enriched.fields

private theorem serializer_sameFieldsButText (client : Client) (asked : Nat) (found : ClassFields) :
    SameFieldsButText found (serializer client asked found).value :=
  each_related (field_sameButText client found.record.name) asked found.fields

private theorem sound_of_sameFieldsButText {found enriched : List ClassFields}
    (same : List.Forall₂ SameFieldsButText found enriched)
    (sound : ∀ entry ∈ found, SoundList entry.fields) :
    ∀ entry ∈ enriched, SoundList entry.fields := by
  induction same with
  | nil => exact sound
  | cons here _ ih =>
    obtain ⟨first, rest⟩ := List.forall_mem_cons.mp sound
    refine List.forall_mem_cons.mpr ⟨⟨?_, ?_⟩, ih rest⟩
    · rw [names_of_sameButText here]
      exact first.distinct
    · exact consistent_of_sameButText here first.consistent

/-- One enrichment keeps the lists of fields sound, whatever a client answers. -/
theorem enrich_soundFields {found : App} (sound : SoundFields found)
    (config : Config.Assistant) (client : Option Client) (asked : Nat) :
    SoundFields (enrich config client asked found).value := by
  rw [enrich]
  split
  · refine ⟨sound.models, ?_⟩
    exact sound_of_sameFieldsButText (each_related (serializer_sameFieldsButText _) _ _)
      sound.serializers
  · exact sound

/-- An enrichment: the configuration, the client and the questions asked before. -/
abbrev Round := Config.Assistant × Option Client × Nat

/-- An application after a number of enrichments. -/
def enrichAll (found : App) (rounds : List Round) : App :=
  rounds.foldl (fun app round => (enrich round.1 round.2.1 round.2.2 app).value) found

private theorem enrichAll_soundFields {found : App} (sound : SoundFields found)
    (rounds : List Round) :
    SoundFields (enrichAll found rounds) := by
  induction rounds generalizing found with
  | nil => exact sound
  | cons round rest ih => exact ih (enrich_soundFields sound round.1 round.2.1 round.2.2)

/-- Whatever the files of an application hold and however often it is enriched, its
models and serializers have sound lists of fields. -/
theorem analyzed_fields_sound (extra : Config.Extraction) (tree : FileTree) (files : AppFiles)
    (rounds : List Round) :
    SoundFields (enrichAll (App.analyze extra tree files).1 rounds) :=
  enrichAll_soundFields (App.analyze_soundFields extra tree files) rounds

end Enrichment
end ApiScribe
