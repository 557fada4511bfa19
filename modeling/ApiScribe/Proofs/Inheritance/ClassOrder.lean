import ApiScribe.Proofs.Inheritance.Resolution
import ApiScribe.Schema.Declaration

/-! Resolution computes the recursive definition of inheritance, which knows no
memory, no visits and no order of classes. A base is found by its name alone, so
listing the classes in another order lists the same results in that order. -/
namespace ApiScribe.Inheritance
open ApiScribe.Field (names)

/-- A field in the place of the one of its name, or at the end if there is none. -/
def place (fields : List Field) (field : Field) : List Field :=
  if field.name ∈ names fields then
    fields.map fun old => if old.name = field.name then field else old
  else fields ++ [field]

/-- Fields put into a list one after the other. -/
def placeAll (fields added : List Field) : List Field := added.foldl place fields

/-- Fields of classes that obey the recursive definition: a class has what its
local bases have, base by base, and then what its own body has. -/
def FollowsBases (classes : List Declared) (own fields : Declared → List Field) : Prop :=
  ∀ declared ∈ classes, fields declared =
    placeAll ((parents classes declared).foldl (fun found base => placeAll found (fields base)) [])
      (own declared)

variable {classes permuted : List Declared} {own given : Declared → List Field}
  {fields added : List Field} {field : Field} {declared base : Declared}

/-- In a list without repeated names only one field can be replaced. -/
theorem place_eq_merge (distinct : (names fields).Nodup) :
    place fields field = merge fields field := by
  induction fields with
  | nil => rfl
  | cons old rest ih =>
    obtain ⟨fresh, restDistinct⟩ := List.nodup_cons.mp distinct
    have ih := ih restDistinct
    rw [place, names_cons, List.map_cons, merge]
    by_cases same : old.name = field.name
    · have unchanged : ∀ later ∈ rest,
          (if later.name = field.name then field else later) = later := by
        intro later member
        apply if_neg
        intro again
        exact fresh (same.trans again.symm ▸ List.mem_map_of_mem member)
      have others : rest.map (fun old => if old.name = field.name then field else old) = rest := by
        rw [List.map_congr_left unchanged, List.map_id']
      rw [if_pos (List.mem_cons.mpr (.inl same.symm)), if_pos same, if_pos same, others]
    · rw [if_neg same, if_neg same, ← ih, place]
      by_cases member : field.name ∈ names rest
      · rw [if_pos (List.mem_cons_of_mem _ member), if_pos member]
      · have absent : field.name ∉ old.name :: names rest := by
          intro present
          rcases List.mem_cons.mp present with equal | later
          · exact same equal.symm
          · exact member later
        rw [if_neg absent, if_neg member, List.cons_append]

private theorem placeAll_eq_mergeAll (distinct : (names fields).Nodup) :
    placeAll fields added = mergeAll fields added := by
  induction added generalizing fields with
  | nil => rfl
  | cons first rest ih =>
    have step : placeAll fields (first :: rest) = placeAll (place fields first) rest := rfl
    rw [step, place_eq_merge distinct]
    exact ih (merge_distinct distinct)

private theorem placeBases_eq_mergeBases {bases : List Declared} (distinct : (names fields).Nodup) :
    bases.foldl (fun found base => placeAll found (given base)) fields =
      mergeBases given fields bases := by
  induction bases generalizing fields with
  | nil => rfl
  | cons base rest ih =>
    rw [List.foldl_cons, placeAll_eq_mergeAll distinct]
    exact ih (mergeAll_distinct distinct)

/-- Placing and merging describe one recursion, as it starts from an empty list. -/
theorem placed_eq_merged (classes : List Declared) (own given : Declared → List Field)
    (declared : Declared) :
    placeAll ((parents classes declared).foldl (fun found base => placeAll found (given base)) [])
        (own declared) =
      mergeAll (mergeBases given [] (parents classes declared)) (own declared) := by
  have start : (names ([] : List Field)).Nodup := List.nodup_nil
  rw [placeBases_eq_mergeBases start]
  exact placeAll_eq_mergeAll (mergeBases_distinct start)

/-- Plain recursion obeys the recursive definition. -/
theorem plain_followsBases (acyclic : Acyclic classes) (own : Declared → List Field) :
    FollowsBases classes own (plain acyclic own) := by
  intro declared _
  rw [placed_eq_merged]
  exact plain_eq acyclic own declared

/-- The recursive definition leaves no choice: bases come before the classes that
derive from them. -/
theorem FollowsBases.eq_plain (follows : FollowsBases classes own given)
    (acyclic : Acyclic classes) (member : declared ∈ classes) :
    given declared = plain acyclic own declared := by
  induction declared using (isBase_wellFounded acyclic).induction with
  | _ declared ih =>
    have bases : mergeBases given [] (parents classes declared) =
        mergeBases (plain acyclic own) [] (parents classes declared) := by
      apply List.foldl_ext
      intro merged base isBase
      rw [ih base isBase (isBase_mem isBase).1]
    rw [follows declared member, placed_eq_merged, bases, ← plain_eq]

/-- Where names are distinct, a base names the one class that is called like it. -/
theorem parent?_eq_some_iff (distinct : (classes.map Declared.name).Nodup) :
    parent? classes text = some base ↔ base ∈ classes ∧ base.name = lastSegmentOf text := by
  constructor
  · intro found
    exact ⟨parent?_mem found, by simpa using List.find?_some found⟩
  · rintro ⟨member, named⟩
    cases found : parent? classes text with
    | none =>
      have missing := List.find?_eq_none.mp found base (List.mem_reverse.mpr member)
      exact absurd (by simpa using named) missing
    | some other =>
      have sameName : other.name = base.name := by
        rw [named]
        simpa using List.find?_some found
      rw [eq_of_name distinct (parent?_mem found) member sameName]

private theorem parent?_of_perm (distinct : (classes.map Declared.name).Nodup)
    (perm : permuted.Perm classes) (text : String) :
    parent? permuted text = parent? classes text := by
  have permDistinct : (permuted.map Declared.name).Nodup := (perm.map _).nodup_iff.mpr distinct
  apply Option.ext
  intro base
  rw [parent?_eq_some_iff permDistinct, parent?_eq_some_iff distinct, perm.mem_iff]

/-- The local bases of a class do not depend on the order of classes. -/
theorem parents_of_perm (distinct : (classes.map Declared.name).Nodup)
    (perm : permuted.Perm classes) (declared : Declared) :
    parents permuted declared = parents classes declared := by
  have same : localBase? permuted declared = localBase? classes declared := by
    funext text
    rw [localBase?, localBase?, parent?_of_perm distinct perm]
  rw [parents, parents, same]

private theorem acyclic_of_perm (distinct : (classes.map Declared.name).Nodup)
    (perm : permuted.Perm classes) (acyclic : Acyclic classes) : Acyclic permuted := by
  have same : IsBase permuted = IsBase classes := by
    funext base declared
    rw [IsBase, IsBase, parents_of_perm distinct perm]
  intro declared member
  rw [Ancestor, same]
  exact acyclic declared (perm.mem_iff.mp member)

private theorem followsBases_of_perm (distinct : (classes.map Declared.name).Nodup)
    (perm : permuted.Perm classes) (follows : FollowsBases classes own given) :
    FollowsBases permuted own given := by
  intro declared member
  rw [parents_of_perm distinct perm]
  exact follows declared (perm.mem_iff.mp member)

/-- The recursive definition has a solution, and resolution gives every class
what any solution gives it, in whatever order the classes are listed. -/
theorem resolve_follows_bases (distinct : (classes.map Declared.name).Nodup)
    (acyclic : Acyclic classes) (own : Declared → List Field) :
    (∃ fields, FollowsBases classes own fields) ∧
      ∀ fields, FollowsBases classes own fields →
        resolve classes own = classes.map (fun declared => ⟨declared.record, fields declared⟩) ∧
        ∀ permuted, permuted.Perm classes →
          resolve permuted own = permuted.map (fun declared => ⟨declared.record, fields declared⟩) ∧
          (resolve permuted own).Perm (resolve classes own) := by
  refine ⟨⟨_, plain_followsBases acyclic own⟩, fun fields follows => ?_⟩
  have resolved : ∀ permuted, permuted.Perm classes →
      resolve permuted own = permuted.map fun declared => ⟨declared.record, fields declared⟩ := by
    intro permuted perm
    have permDistinct : (permuted.map Declared.name).Nodup := (perm.map _).nodup_iff.mpr distinct
    have permAcyclic := acyclic_of_perm distinct perm acyclic
    rw [resolve_eq_plain permDistinct permAcyclic]
    apply List.map_congr_left
    intro declared member
    rw [(followsBases_of_perm distinct perm follows).eq_plain permAcyclic member]
  refine ⟨resolved classes (.refl _), fun permuted perm => ⟨resolved permuted perm, ?_⟩⟩
  rw [resolved permuted perm, resolved classes (.refl _)]
  exact perm.map _

/-- Serializers of which two share a base and a fourth one derives from both. -/
def diamond : List Declared :=
  Declared.ofFiles
    [.ofText "shop/serializers.py"
      "class A(Serializer):\n  at = DateField()\n\nclass B(A):\n  id = UUIDField()\n\nclass C(A):\n  at = TimeField()\n\nclass D(B, C):\n  sum = FloatField()\n"]

/-- Lines rank the classes of the diamond, and the last one has all fields once. -/
theorem diamond_checked : (diamond.map Declared.name).Nodup ∧
    (∀ declared ∈ diamond, ∀ base ∈ parents diamond declared,
      base.definition.line < declared.definition.line) ∧
    (resolve diamond Field.declaredBySerializer).getLast?.map (names ·.fields) =
      some ["at", "id", "sum"] := by
  decide +kernel

theorem diamond_reversed : (diamond.map Declared.name).Nodup ∧ Acyclic diamond ∧
    (resolve diamond.reverse Field.declaredBySerializer).Perm
      (resolve diamond Field.declaredBySerializer) := by
  obtain ⟨distinct, ranked, _⟩ := diamond_checked
  have acyclic : Acyclic diamond :=
    acyclic_of_rank (fun declared => declared.definition.line) ranked
  obtain ⟨⟨fields, follows⟩, resolved⟩ :=
    resolve_follows_bases distinct acyclic Field.declaredBySerializer
  obtain ⟨_, reordered⟩ := resolved fields follows
  exact ⟨distinct, acyclic, (reordered _ diamond.reverse_perm).2⟩

end ApiScribe.Inheritance
