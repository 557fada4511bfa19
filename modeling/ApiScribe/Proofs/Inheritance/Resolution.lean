import ApiScribe.Proofs.Inheritance.Lineage
import ApiScribe.Proofs.NameLists

/-! What resolution remembers. For every graph of bases there is one list of
fields for each name, which all classes of that name get, and whatever merging
keeps holds of it. Where names are distinct and no class derives from itself,
the list is that of plain recursion. -/
namespace ApiScribe.Inheritance
open ApiScribe.Field (find? last? names)
open Relation

variable {classes : List Declared} {own : Declared → List Field} {memo : Memo}
  {declared : Declared}

/-- Nothing that was remembered is changed. -/
def Extends (before after : Memo) : Prop :=
  ∀ name fields, before.lookup name = some fields → after.lookup name = some fields

theorem Extends.trans (first : Extends before middle) (second : Extends middle after) :
    Extends before after :=
  fun name fields known => second name fields (first name fields known)

/-- What is remembered under a name holds of some class of that name. -/
def Remembers (classes : List Declared) (Holds : Declared → List Field → Prop) (memo : Memo) :
    Prop :=
  ∀ name fields, memo.lookup name = some fields →
    ∃ declared ∈ classes, declared.name = name ∧ Holds declared fields

theorem extends_cons (fresh : memo.lookup name = none) (extended : Extends memo after) :
    Extends memo ((name, fields) :: after) := by
  intro other found known
  have different : other ≠ name := by
    rintro rfl
    rw [fresh] at known
    cases known
  rw [lookup_cons, if_neg different]
  exact extended other found known

private theorem remembers_cons {Holds : Declared → List Field → Prop} (member : declared ∈ classes)
    (holds : Holds declared fields) (remembers : Remembers classes Holds memo) :
    Remembers classes Holds ((declared.name, fields) :: memo) := by
  intro name found known
  rw [lookup_cons] at known
  split at known
  · rename_i same
    cases known
    exact ⟨declared, member, same.symm, holds⟩
  · exact remembers name found known

/-- What is kept while the fields of a class are put together. `Partial` holds of
what its bases have given so far and `Holds` of the fields of a class. -/
structure Kept (classes : List Declared) (own : Declared → List Field)
    (Partial : List Field → Prop) (Holds : Declared → List Field → Prop) : Prop where
  start : Partial []
  merged : ∀ fields base found, Partial fields → base ∈ classes → Holds base found →
    Partial (mergeAll fields found)
  completed : ∀ declared inherited, declared ∈ classes → Partial inherited →
    Holds declared (mergeAll inherited (own declared))

section Invariants
variable {Partial : List Field → Prop} {Holds : Declared → List Field → Prop}

/-- A result for a class that keeps what is remembered. -/
def Sound (classes : List Declared) (Holds : Declared → List Field → Prop) (memo : Memo)
    (declared : Declared) (result : List Field × Memo) : Prop :=
  (∃ found ∈ classes, found.name = declared.name ∧ Holds found result.1) ∧
    Remembers classes Holds result.2 ∧ Extends memo result.2

section Steps
variable {visitBase : Memo → Declared → List Field × Memo} {inside : List String}
  {fields : List Field} {text : String} {rest : List String}

/-- A base is passed over that names no class or one that is being resolved. -/
theorem inherit_passed (passed : ∀ parent, parent? classes text = some parent →
    parent.name ∈ inside) :
    inherit classes visitBase inside (fields, memo) (text :: rest) =
      inherit classes visitBase inside (fields, memo) rest := by
  rw [inherit]
  cases named : parent? classes text with
  | none => rfl
  | some parent => exact if_pos (List.contains_iff_mem.mpr (passed parent named))

/-- A base that is not open is visited, and its fields are merged. -/
theorem inherit_visited (named : parent? classes text = some parent)
    (fresh : parent.name ∉ inside) :
    inherit classes visitBase inside (fields, memo) (text :: rest) =
      inherit classes visitBase inside
        (mergeAll fields (visitBase memo parent).1, (visitBase memo parent).2) rest := by
  rw [inherit, named]
  exact if_neg fun opened => fresh (List.contains_iff_mem.mp opened)

end Steps

private theorem inherit_kept (kept : Kept classes own Partial Holds)
    {visitBase : Memo → Declared → List Field × Memo}
    (visits : ∀ memo base, base ∈ classes → Remembers classes Holds memo →
      Sound classes Holds memo base (visitBase memo base))
    (inside bases : List String) (holds : Partial fields) (remembers : Remembers classes Holds memo) :
    let result := inherit classes visitBase inside (fields, memo) bases
    Partial result.1 ∧ Remembers classes Holds result.2 ∧ Extends memo result.2 := by
  induction bases generalizing fields memo with
  | nil => exact ⟨holds, remembers, fun _ _ known => known⟩
  | cons base rest ih =>
    by_cases passed : ∀ parent, parent? classes base = some parent → parent.name ∈ inside
    · rw [inherit_passed passed]
      exact ih holds remembers
    · obtain ⟨parent, named, fresh⟩ : ∃ parent, parent? classes base = some parent ∧
          parent.name ∉ inside := by simpa using passed
      rw [inherit_visited named fresh]
      obtain ⟨⟨found, member, _, foundHolds⟩, visited, extended⟩ :=
        visits memo parent (parent?_mem named) remembers
      obtain ⟨partly, later, extendedLater⟩ :=
        ih (kept.merged _ _ _ holds member foundHolds) visited
      exact ⟨partly, later, extended.trans extendedLater⟩

/-- Visiting a class keeps every invariant, on any graph of bases and with any
bound on the depth. -/
theorem visit_kept (kept : Kept classes own Partial Holds) (fuel : Nat) (resolving : List String)
    (member : declared ∈ classes) (remembers : Remembers classes Holds memo) :
    Sound classes Holds memo declared (visit classes own fuel resolving memo declared) := by
  induction fuel generalizing resolving memo declared with
  | zero =>
    exact ⟨⟨declared, member, rfl, kept.completed _ _ member kept.start⟩, remembers,
      fun _ _ known => known⟩
  | succ fuel ih =>
    rw [visit]
    cases known : memo.lookup declared.name with
    | some fields => exact ⟨remembers _ _ known, remembers, fun _ _ known => known⟩
    | none =>
      obtain ⟨partly, visited, extended⟩ := inherit_kept kept
        (fun memo base member remembers => ih (declared.name :: resolving) member remembers)
        (declared.name :: resolving) declared.bases kept.start remembers
      have holds := kept.completed _ _ member partly
      exact ⟨⟨declared, member, rfl, holds⟩, remembers_cons member holds visited,
        extends_cons known extended⟩

/-- A visited class is remembered. -/
theorem visit_remembered (classes : List Declared) (own : Declared → List Field) (fuel : Nat)
    (resolving : List String) (memo : Memo) (declared : Declared) :
    (visit classes own (fuel + 1) resolving memo declared).2.lookup declared.name =
      some (visit classes own (fuel + 1) resolving memo declared).1 := by
  rw [visit]
  cases known : memo.lookup declared.name with
  | some fields => exact known
  | none => exact (lookup_cons ..).trans (if_pos rfl)

private theorem resolveFrom_table (kept : Kept classes own Partial Holds)
    (family : List Declared) (inside : ∀ declared ∈ family, declared ∈ classes)
    (remembers : Remembers classes Holds memo) :
    ∃ final, Extends memo final ∧ Remembers classes Holds final ∧
      (∀ declared ∈ family, (final.lookup declared.name).isSome) ∧
      resolveFrom classes own memo family = family.map fun declared =>
        ⟨declared.record, (final.lookup declared.name).getD []⟩ := by
  induction family generalizing memo with
  | nil => exact ⟨memo, fun _ _ known => known, remembers, by simp, rfl⟩
  | cons first rest ih =>
    obtain ⟨_, visited, extended⟩ :=
      visit_kept kept (classes.length + 1) [] (inside first List.mem_cons_self) remembers
    obtain ⟨final, extendedLater, remembered, complete, resolved⟩ :=
      ih (fun declared member => inside declared (List.mem_cons_of_mem _ member)) visited
    have settled := extendedLater _ _ (visit_remembered classes own classes.length [] memo first)
    refine ⟨final, extended.trans extendedLater, remembered, ?_, ?_⟩
    · intro declared member
      rcases List.mem_cons.mp member with rfl | later
      · rw [settled]
        rfl
      · exact complete declared later
    · have step : resolveFrom classes own memo (first :: rest) =
          ⟨first.record, (visit classes own (classes.length + 1) [] memo first).1⟩ ::
            resolveFrom classes own (visit classes own (classes.length + 1) [] memo first).2 rest :=
        rfl
      rw [step, resolved, List.map_cons, settled]
      rfl

/-- On every graph of bases there is one list of fields for each name. It was put
together for a class of that name, and all classes of that name get it. -/
theorem resolve_table (kept : Kept classes own Partial Holds) :
    ∃ table : String → List Field,
      resolve classes own = classes.map (fun declared => ⟨declared.record, table declared.name⟩) ∧
      ∀ declared ∈ classes, ∃ found ∈ classes,
        found.name = declared.name ∧ Holds found (table declared.name) := by
  have nothing : Remembers classes Holds [] := by
    intro name fields known
    cases known
  obtain ⟨final, _, remembered, complete, resolved⟩ :=
    resolveFrom_table kept classes (fun _ member => member) nothing
  refine ⟨fun name => (final.lookup name).getD [], resolved, fun declared member => ?_⟩
  obtain ⟨fields, known⟩ := Option.isSome_iff_exists.mp (complete declared member)
  obtain ⟨found, inside, named, holds⟩ := remembered _ _ known
  exact ⟨found, inside, named, by simpa [known] using holds⟩

end Invariants

/-- Classes with distinct names are told apart by them. -/
theorem eq_of_name (distinct : (classes.map Declared.name).Nodup) (first : declared ∈ classes)
    (second : other ∈ classes) (same : declared.name = other.name) : declared = other :=
  List.inj_on_of_nodup_map distinct first second same

theorem isBase_of_name (distinct : (classes.map Declared.name).Nodup) (member : base ∈ classes)
    (named : base.name ∈ (parents classes declared).map Declared.name) :
    IsBase classes base declared := by
  obtain ⟨parent, isBase, same⟩ := List.mem_map.mp named
  obtain rfl := eq_of_name distinct (isBase_mem isBase).1 member same
  exact isBase

/-- The names that are being resolved while a class is visited: each once, and
each of a class that derives from it. -/
structure Opened (classes : List Declared) (resolving : List String) (declared : Declared) :
    Prop where
  once : resolving.Nodup
  below : ∀ name ∈ resolving, ∃ heir ∈ classes, heir.name = name ∧ Ancestor classes declared heir

/-- No more classes can be open at a time than there are. -/
theorem opened_length (opened : Opened classes resolving declared) :
    resolving.length ≤ classes.length := by
  have inside : resolving ⊆ classes.map Declared.name := by
    intro name member
    obtain ⟨heir, heir_mem, same, _⟩ := opened.below name member
    exact same ▸ List.mem_map_of_mem heir_mem
  simpa using (List.subperm_of_subset opened.once inside).length_le

/-- A base is passed over only if it is the class itself, as any other name that
is being resolved would close a cycle. -/
theorem passed_over_iff (distinct : (classes.map Declared.name).Nodup)
    (acyclic : Acyclic classes) (opened : Opened classes resolving declared)
    (named : parent? classes text = some parent) (mentioned : text ∈ declared.bases) :
    parent.name ∈ declared.name :: resolving ↔ parent.name = declared.name := by
  refine ⟨fun inside => ?_, fun same => same ▸ List.mem_cons_self⟩
  rcases List.mem_cons.mp inside with same | opened_above
  · exact same
  · by_contra other
    obtain ⟨heir, heir_mem, same, above⟩ := opened.below _ opened_above
    have isBase : IsBase classes parent declared :=
      List.mem_filterMap.mpr ⟨text, mentioned, by simp [localBase?, named, other]⟩
    obtain rfl := eq_of_name distinct heir_mem (parent?_mem named) same
    exact acyclic heir heir_mem (.head isBase above)

/-- Without cycles a class is not being resolved when it is reached. -/
theorem not_open_of_acyclic (distinct : (classes.map Declared.name).Nodup)
    (acyclic : Acyclic classes) (opened : Opened classes resolving declared)
    (member : declared ∈ classes) : declared.name ∉ resolving := by
  intro again
  obtain ⟨heir, heir_mem, same, above⟩ := opened.below _ again
  obtain rfl := eq_of_name distinct heir_mem member same
  exact acyclic heir heir_mem above

/-- The names that are open stay in order when a base is visited. -/
theorem opened_base (opened : Opened classes resolving declared)
    (closed : declared.name ∉ resolving) (member : declared ∈ classes)
    (isBase : IsBase classes base declared) :
    Opened classes (declared.name :: resolving) base where
  once := List.nodup_cons.mpr ⟨closed, opened.once⟩
  below name inside := by
    rcases List.mem_cons.mp inside with rfl | later
    · exact ⟨declared, member, rfl, .single isBase⟩
    · obtain ⟨heir, heir_mem, same, above⟩ := opened.below name later
      exact ⟨heir, heir_mem, same, .head isBase above⟩

/-- What is remembered are the fields of plain recursion. -/
def Faithful (acyclic : Acyclic classes) (own : Declared → List Field) (memo : Memo) : Prop :=
  Remembers classes (fun declared fields => fields = plain acyclic own declared) memo

private theorem inherit_plain (acyclic : Acyclic classes) (inside : List String)
    {visitBase : Memo → Declared → List Field × Memo}
    (visits : ∀ memo base, IsBase classes base declared → Faithful acyclic own memo →
      (visitBase memo base).1 = plain acyclic own base ∧
        Faithful acyclic own (visitBase memo base).2)
    (passes : ∀ text ∈ declared.bases, ∀ parent, parent? classes text = some parent →
      (parent.name ∈ inside ↔ parent.name = declared.name))
    (bases : List String) (mentioned : ∀ text ∈ bases, text ∈ declared.bases)
    (fields : List Field) (faithful : Faithful acyclic own memo) :
    (inherit classes visitBase inside (fields, memo) bases).1 =
        mergeBases (plain acyclic own) fields (bases.filterMap (localBase? classes declared)) ∧
      Faithful acyclic own (inherit classes visitBase inside (fields, memo) bases).2 := by
  induction bases generalizing fields memo with
  | nil => exact ⟨rfl, faithful⟩
  | cons text rest ih =>
    have later : ∀ text ∈ rest, text ∈ declared.bases :=
      fun text member => mentioned text (List.mem_cons_of_mem _ member)
    have here := mentioned text List.mem_cons_self
    cases taken : localBase? classes declared text with
    | none =>
      have itself := localBase?_eq_none_iff.mp taken
      rw [List.filterMap_cons_none taken, inherit_passed fun parent named =>
        (passes text here parent named).mpr (itself parent named)]
      exact ih later fields faithful
    | some parent =>
      obtain ⟨named, other⟩ := localBase?_eq_some_iff.mp taken
      have isBase : IsBase classes parent declared := List.mem_filterMap.mpr ⟨text, here, taken⟩
      obtain ⟨found, visited⟩ := visits memo parent isBase faithful
      rw [List.filterMap_cons_some taken,
        inherit_visited named fun opened => other ((passes text here parent named).mp opened), found]
      exact ih later _ visited

/-- Visiting a class with memory gives what plain recursion gives. The names that
are being resolved belong to different classes, so the bound is never reached. -/
theorem visit_plain (distinct : (classes.map Declared.name).Nodup) (acyclic : Acyclic classes)
    (fuel : Nat) (opened : Opened classes resolving declared) (member : declared ∈ classes)
    (faithful : Faithful acyclic own memo) (enough : classes.length < fuel + resolving.length) :
    (visit classes own fuel resolving memo declared).1 = plain acyclic own declared ∧
      Faithful acyclic own (visit classes own fuel resolving memo declared).2 := by
  induction fuel generalizing resolving memo declared with
  | zero =>
    have bound := opened_length opened
    omega
  | succ fuel ih =>
    rw [visit]
    cases known : memo.lookup declared.name with
    | some fields =>
      obtain ⟨found, found_mem, same, exactly⟩ := faithful _ _ known
      obtain rfl := eq_of_name distinct found_mem member same
      exact ⟨exactly, faithful⟩
    | none =>
      have closed := not_open_of_acyclic distinct acyclic opened member
      obtain ⟨inherited, visited⟩ := inherit_plain acyclic (declared.name :: resolving)
        (fun memo base isBase faithful => ih (opened_base opened closed member isBase)
          (isBase_mem isBase).1 faithful (by simp only [List.length_cons]; omega))
        (fun text here parent named => passed_over_iff distinct acyclic opened named here)
        declared.bases (fun _ here => here) [] faithful
      have completed : mergeAll (inherit classes
          (visit classes own fuel (declared.name :: resolving)) (declared.name :: resolving)
          ([], memo) declared.bases).1 (own declared) = plain acyclic own declared := by
        rw [inherited, plain_eq]
        rfl
      exact ⟨completed, remembers_cons member completed visited⟩

private theorem resolveFrom_plain (distinct : (classes.map Declared.name).Nodup)
    (acyclic : Acyclic classes) (family : List Declared)
    (inside : ∀ declared ∈ family, declared ∈ classes) (faithful : Faithful acyclic own memo) :
    resolveFrom classes own memo family =
      family.map fun declared => ⟨declared.record, plain acyclic own declared⟩ := by
  induction family generalizing memo with
  | nil => rfl
  | cons first rest ih =>
    have opened : Opened classes [] first := ⟨List.nodup_nil, by simp⟩
    obtain ⟨found, visited⟩ := visit_plain distinct acyclic (classes.length + 1) opened
      (inside first List.mem_cons_self) faithful (by simp)
    have step : resolveFrom classes own memo (first :: rest) =
        ⟨first.record, (visit classes own (classes.length + 1) [] memo first).1⟩ ::
          resolveFrom classes own (visit classes own (classes.length + 1) [] memo first).2 rest :=
      rfl
    rw [step, found, List.map_cons,
      ih (fun declared member => inside declared (List.mem_cons_of_mem _ member)) visited]

/-- Resolution is plain recursion over the local bases of each class. -/
theorem resolve_eq_plain (distinct : (classes.map Declared.name).Nodup)
    (acyclic : Acyclic classes) :
    resolve classes own =
      classes.map fun declared => ⟨declared.record, plain acyclic own declared⟩ := by
  have nothing : Faithful acyclic own [] := by
    intro name fields known
    cases known
  exact resolveFrom_plain distinct acyclic classes (fun _ member => member) nothing

/-- The entry of a class has the fields that plain recursion gives to the class. -/
theorem entry_fields (distinct : (classes.map Declared.name).Nodup) (acyclic : Acyclic classes)
    (member : declared ∈ classes) (listed : entry ∈ resolve classes own)
    (same : entry.record = declared.record) : entry.fields = plain acyclic own declared := by
  rw [resolve_eq_plain distinct acyclic] at listed
  obtain ⟨found, found_mem, rfl⟩ := List.mem_map.mp listed
  have sameName : found.name = declared.name := congrArg ClassRecord.name same
  obtain rfl := eq_of_name distinct found_mem member sameName
  rfl

end ApiScribe.Inheritance
