import ApiScribe.Proofs.App.FieldLists
import ApiScribe.TypeScript.Synthesis

/-! What a client answers reaches texts alone. The declarations of an application are made
from everything but the texts that enrichment may write, so they are the same for every
client, and for none. -/
namespace ApiScribe

/-! Applications without the texts that are asked for. -/

def Field.bare (field : Field) : Field := { field with helpText := none }

def ClassFields.bare (found : ClassFields) : ClassFields :=
  { found with fields := found.fields.map Field.bare }

def Endpoint.bare (endpoint : Endpoint) : Endpoint := { endpoint with description := "" }

/-- An application without the descriptions of its endpoints and the help texts of its
serializer fields. -/
def App.bare (app : App) : App :=
  { app with
    endpoints := app.endpoints.map Endpoint.bare
    serializers := app.serializers.map ClassFields.bare }

namespace TypeScript

variable (resolve? : String → Option KnownSerializer) (index : SerializerIndex) (app : App)

private theorem ofApp_bare : SerializerIndex.ofApp app.bare = SerializerIndex.ofApp app := by
  simp only [SerializerIndex.ofApp, App.bare, List.map_map]
  refine List.map_congr_left fun found _ => ?_
  simp only [Function.comp_apply, ClassFields.bare, List.any_map]
  rfl

/-- No entry of the index depends on a text that may be improved. -/
private theorem ofApps_bare (apps : List App) :
    SerializerIndex.ofApps (apps.map App.bare) = SerializerIndex.ofApps apps := by
  rw [SerializerIndex.ofApps, List.flatMap_map]
  exact congrArg (List.flatMap · apps) (funext ofApp_bare)

private theorem interfaceOf_bare (found : ClassFields) :
    interfaceOf resolve? found.bare = interfaceOf resolve? found := by
  simp only [interfaceOf, ClassFields.bare, List.map_map]
  rfl

private theorem fieldReferences_bare (fields : List Field) :
    fieldReferences resolve? (fields.map Field.bare) = fieldReferences resolve? fields := by
  simp only [fieldReferences, List.filterMap_map]
  rfl

private theorem enumerations_bare (className : String) (fields : List Field) :
    enumerations className (fields.map Field.bare) = enumerations className fields := by
  simp only [enumerations, List.filter_map, List.map_map]
  rfl

/-- Declarations of a serializer are made without a look at texts that may be improved. -/
private theorem serializerDeclarations_bare (found : ClassFields) :
    serializerDeclarations resolve? found.bare = serializerDeclarations resolve? found := by
  have enumerated : enumerations found.bare.record.name found.bare.fields =
      enumerations found.record.name found.fields := enumerations_bare _ _
  rw [serializerDeclarations, interfaceOf_bare, enumerated, serializerDeclarations]

private theorem isShared_bare (function : String) :
    isShared app.bare function = isShared app function := by
  simp only [isShared, App.bare, List.filter_map, List.map_map]
  rfl

private theorem aliasStem_bare (endpoint : Endpoint) :
    aliasStem app.bare endpoint.bare = aliasStem app endpoint := by
  have called : endpoint.bare.handlerFunction = endpoint.handlerFunction := rfl
  rw [aliasStem, called, isShared_bare, aliasStem]
  rfl

/-- Aliases are named and typed without a look at descriptions. -/
private theorem endpointAliases_bare (endpoint : Endpoint) :
    endpointAliases index app.bare endpoint.bare = endpointAliases index app endpoint := by
  rw [endpointAliases, aliasStem_bare, endpointAliases]
  rfl

private theorem aliases_bare :
    app.bare.endpoints.map (endpointAliases index app.bare) =
      app.endpoints.map (endpointAliases index app) := by
  rw [App.bare, List.map_map]
  exact List.map_congr_left fun endpoint _ => endpointAliases_bare index app endpoint

private theorem referencesOf_bare : referencesOf index app.bare = referencesOf index app := by
  rw [referencesOf, aliases_bare, referencesOf]
  congr 1
  simp only [App.bare, List.flatMap_map]
  exact congrArg (List.flatMap · app.serializers)
    (funext fun found => fieldReferences_bare _ found.fields)

private theorem moduleOf_bare : moduleOf index app.bare = moduleOf index app := by
  have declared : app.bare.serializers.flatMap
        (serializerDeclarations (index.resolve? (some app.bare.name))) =
      app.serializers.flatMap (serializerDeclarations (index.resolve? (some app.name))) := by
    simp only [App.bare, List.flatMap_map]
    exact congrArg (List.flatMap · app.serializers) (funext (serializerDeclarations_bare _))
  rw [moduleOf, declared, aliases_bare, referencesOf_bare, moduleOf]
  rfl

/-- Modules are made of what is left of applications without the texts. -/
theorem modulesOf_bare (apps : List App) : modulesOf (apps.map App.bare) = modulesOf apps := by
  rw [modulesOf, ofApps_bare, List.map_map, modulesOf]
  exact List.map_congr_left fun app _ => moduleOf_bare _ app

end TypeScript

namespace Enrichment

/-- What asking leaves as it is, asking one by one leaves as it is. -/
theorem each_map {α β : Type} {ask : Nat → α → Outcome α} {view : α → β}
    (kept : ∀ asked value, view (ask asked value).value = view value) (asked : Nat)
    (values : List α) : (each ask asked values).value.map view = values.map view := by
  induction values generalizing asked with
  | nil => rfl
  | cons value rest ih => rw [each, List.map_cons, kept, ih, List.map_cons]

private theorem endpoint_bare (client : Client) (asked : Nat) (found : Endpoint) :
    (endpoint client asked found).value.bare = found.bare := by
  rw [endpoint]
  split <;> rfl

private theorem field_bare (client : Client) (serializer : String) (asked : Nat) (found : Field) :
    (field client serializer asked found).value.bare = found.bare := by
  obtain ⟨text, same⟩ := field_sameButText client serializer asked found
  rw [same]
  rfl

private theorem serializer_bare (client : Client) (asked : Nat) (found : ClassFields) :
    (serializer client asked found).value.bare = found.bare := by
  rw [serializer, ClassFields.bare, ClassFields.bare,
    each_map (field_bare client found.record.name)]

theorem enrich_bare (config : Config.Assistant) (client : Option Client) (asked : Nat)
    (found : App) : (enrich config client asked found).value.bare = found.bare := by
  rw [enrich]
  split
  · rw [app, App.bare, App.bare, each_map (endpoint_bare _), each_map (serializer_bare _)]
  · rfl

/-- Where a field had a help text, it still has that one. -/
def KeepsHelp (found enriched : App) : Prop :=
  List.Forall₂ (fun before after : ClassFields =>
    List.Forall₂ (fun field now : Field =>
      field.helpText.isSome → now.helpText = field.helpText) before.fields after.fields)
    found.serializers enriched.serializers

private theorem field_help (client : Client) (serializer : String) (asked : Nat) (found : Field)
    (helped : found.helpText.isSome) :
    (field client serializer asked found).value.helpText = found.helpText := by
  rw [field, if_pos helped]

/-- A help text that is there stays. -/
private theorem enrich_keepsHelp (config : Config.Assistant) (client : Option Client) (asked : Nat)
    (found : App) : KeepsHelp found (enrich config client asked found).value := by
  rw [enrich]
  split
  · next client _ =>
    exact each_related (fun asked before =>
      each_related (field_help client before.record.name) asked before.fields) _ _
  · refine List.forall₂_same.mpr fun before _ => List.forall₂_same.mpr fun field _ _ => rfl

/-- The applications of a run, each enriched after those before it. -/
def enriched (config : Config.Assistant) (client : Option Client) (apps : List App) : List App :=
  (each (enrich config client) 0 apps).value

/-- Two enrichments of the same applications agree on everything but the descriptions of
endpoints and the help texts of serializer fields that had none. -/
structure Agree (found first second : List App) : Prop where
  bare : first.map App.bare = second.map App.bare
  helpOfFirst : List.Forall₂ KeepsHelp found first
  helpOfSecond : List.Forall₂ KeepsHelp found second

/-- Whatever two clients answer, the types are the same, and the applications differ in the
texts that were asked for at most. -/
theorem types_independent_of_answers (config : Config.Assistant)
    (first second : Option Client) (apps : List App) :
    TypeScript.modulesOf (enriched config first apps) =
        TypeScript.modulesOf (enriched config second apps) ∧
      Agree apps (enriched config first apps) (enriched config second apps) := by
  have bare (client : Option Client) :
      (enriched config client apps).map App.bare = apps.map App.bare :=
    each_map (enrich_bare config client) 0 apps
  have same : (enriched config first apps).map App.bare =
      (enriched config second apps).map App.bare := (bare first).trans (bare second).symm
  refine ⟨?_, same, each_related (enrich_keepsHelp config first) 0 apps,
    each_related (enrich_keepsHelp config second) 0 apps⟩
  rw [← TypeScript.modulesOf_bare, same, TypeScript.modulesOf_bare]

end Enrichment
end ApiScribe
