import ApiScribe.App.Inheritance
import Mathlib.Data.List.Nodup

/-! A list of fields is read by name. Merging changes what is found under the
merged names only, keeps names apart, and of several fields of one name lets the
last one count. -/
namespace ApiScribe

/-- The last field of a name, which counts where a name is declared again. -/
def Field.last? (fields : List Field) (name : String) : Option Field :=
  Field.find? fields.reverse name

namespace Inheritance
open ApiScribe.Field (find? last? names)

variable {fields added : List Field} {field : Field} {name : String}

private theorem find?_cons (field : Field) (rest : List Field) (name : String) :
    find? (field :: rest) name = if field.name = name then some field else find? rest name := by
  by_cases same : field.name = name <;> simp [find?, same]

private theorem find?_append (first second : List Field) (name : String) :
    find? (first ++ second) name = (find? first name).or (find? second name) := by
  simp [find?]

/-- What is found under a name has that name. -/
theorem name_of_find? (found : find? fields name = some field) : field.name = name := by
  simpa using List.find?_some found

theorem mem_of_find? (found : find? fields name = some field) : field ∈ fields :=
  List.mem_of_find?_eq_some found

theorem find?_isSome_iff : (find? fields name).isSome ↔ name ∈ names fields := by
  simp [find?, names]

theorem last?_isSome_iff : (last? fields name).isSome ↔ name ∈ names fields := by
  simp [last?, find?_isSome_iff, names]

theorem mem_of_last? (found : last? fields name = some field) : field ∈ fields :=
  List.mem_reverse.mp (mem_of_find? found)

/-- The later of two lists is asked first. -/
theorem last?_append (first second : List Field) (name : String) :
    last? (first ++ second) name = (last? second name).or (last? first name) := by
  rw [last?, List.reverse_append, find?_append]
  rfl

theorem last?_cons (field : Field) (rest : List Field) (name : String) :
    last? (field :: rest) name =
      (last? rest name).or (if field.name = name then some field else none) := by
  rw [last?, List.reverse_cons, find?_append, find?_cons]
  rfl

/-- Where names are distinct, a field is in a list exactly if it is found there. -/
theorem mem_iff_find? (distinct : (names fields).Nodup) :
    field ∈ fields ↔ find? fields field.name = some field := by
  refine ⟨fun member => ?_, mem_of_find?⟩
  induction fields with
  | nil => cases member
  | cons first rest ih =>
    obtain ⟨fresh, restDistinct⟩ := List.nodup_cons.mp distinct
    rw [find?_cons]
    rcases List.mem_cons.mp member with rfl | later
    · simp
    · have other : first.name ≠ field.name := fun same =>
        fresh (same ▸ List.mem_map_of_mem later)
      rw [if_neg other]
      exact ih restDistinct later

/-- With distinct names there is one field of a name, so the first is the last. -/
theorem last?_eq_find? (distinct : (names fields).Nodup) (name : String) :
    last? fields name = find? fields name := by
  have reversed : (names fields.reverse).Nodup := by
    rw [names, List.map_reverse]
    exact List.nodup_reverse.mpr distinct
  cases found : find? fields name with
  | none =>
    have absent : ¬ (last? fields name).isSome := by
      rw [last?_isSome_iff, ← find?_isSome_iff, found]
      simp
    simpa using absent
  | some field =>
    have member := List.mem_reverse.mpr (mem_of_find? found)
    rw [← name_of_find? found]
    exact (mem_iff_find? reversed).mp member

private theorem find?_merge (fields : List Field) (field : Field) (name : String) :
    find? (merge fields field) name =
      if field.name = name then some field else find? fields name := by
  induction fields with
  | nil => rw [merge, find?_cons]
  | cons old rest ih =>
    rw [merge]
    by_cases same : old.name = field.name
    · rw [if_pos same, find?_cons, find?_cons, same]
      split <;> rfl
    · rw [if_neg same, find?_cons, find?_cons, ih]
      by_cases sought : field.name = name
      · rw [if_neg (fun eq => same (eq.trans sought.symm)), if_pos sought, if_pos sought]
      · rw [if_neg sought, if_neg sought]

/-- After a merge, each merged name has its last field, and other names have
what they had. -/
theorem find?_mergeAll (fields added : List Field) (name : String) :
    find? (mergeAll fields added) name = (last? added name).or (find? fields name) := by
  induction added generalizing fields with
  | nil => rfl
  | cons field rest ih =>
    have step : mergeAll fields (field :: rest) = mergeAll (merge fields field) rest := rfl
    rw [step, ih, find?_merge, last?_cons, Option.or_assoc]
    split <;> rfl

/-- Merging drops no name and brings none but the merged ones. -/
theorem mem_names_mergeAll :
    name ∈ names (mergeAll fields added) ↔ name ∈ names fields ∨ name ∈ names added := by
  rw [← find?_isSome_iff, find?_mergeAll, Option.isSome_or, Bool.or_eq_true,
    last?_isSome_iff, find?_isSome_iff]
  exact or_comm

theorem names_cons (field : Field) (rest : List Field) :
    names (field :: rest) = field.name :: names rest := rfl

private theorem names_merge (fields : List Field) (field : Field) :
    names (merge fields field) =
      if field.name ∈ names fields then names fields else names fields ++ [field.name] := by
  induction fields with
  | nil => rfl
  | cons old rest ih =>
    rw [merge, names_cons]
    by_cases same : old.name = field.name
    · rw [if_pos same, if_pos (by simp [same]), names_cons, same]
    · rw [if_neg same, names_cons, ih]
      by_cases merged : field.name ∈ names rest
      · rw [if_pos merged, if_pos (List.mem_cons_of_mem _ merged)]
      · rw [if_neg merged, if_neg (by simp [merged, Ne.symm same]), List.cons_append]

/-- A merged field takes the place of its namesake, so no name comes twice. -/
theorem merge_distinct (distinct : (names fields).Nodup) :
    (names (merge fields field)).Nodup := by
  rw [names_merge]
  split
  · exact distinct
  · rename_i fresh
    exact List.nodup_append.mpr ⟨distinct, by simp, by
      rintro name member _ last rfl
      exact fresh (List.mem_singleton.mp last ▸ member)⟩

/-- Names stay apart through any number of merges, even where the merged fields repeat a name. -/
theorem mergeAll_distinct (distinct : (names fields).Nodup) :
    (names (mergeAll fields added)).Nodup := by
  induction added generalizing fields with
  | nil => exact distinct
  | cons field rest ih => exact ih (merge_distinct distinct)

/-- Merging makes no field of its own. -/
theorem mem_of_mem_merge (member : found ∈ merge fields field) :
    found = field ∨ found ∈ fields := by
  induction fields with
  | nil => exact .inl (List.mem_singleton.mp member)
  | cons old rest ih =>
    rw [merge] at member
    split at member
    · rcases List.mem_cons.mp member with same | later
      · exact .inl same
      · exact .inr (List.mem_cons_of_mem _ later)
    · rcases List.mem_cons.mp member with same | later
      · exact .inr (List.mem_cons.mpr (.inl same))
      · exact (ih later).imp id (List.mem_cons_of_mem _)

/-- Merging makes no field up: each was in one of the two lists. -/
theorem mem_of_mem_mergeAll (member : found ∈ mergeAll fields added) :
    found ∈ fields ∨ found ∈ added := by
  induction added generalizing fields with
  | nil => exact .inl member
  | cons field rest ih =>
    have step : mergeAll fields (field :: rest) = mergeAll (merge fields field) rest := rfl
    rw [step] at member
    rcases ih member with merged | later
    · rcases mem_of_mem_merge merged with rfl | before
      · exact .inr List.mem_cons_self
      · exact .inl before
    · exact .inr (List.mem_cons_of_mem _ later)

end Inheritance
end ApiScribe
