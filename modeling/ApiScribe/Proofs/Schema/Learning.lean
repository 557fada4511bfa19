import ApiScribe.Proofs.Schema.Registration

/-! What a class learns when it is registered. It asks its bases role by role, and the
first answer counts: a framework base, or what is told of a local class. One base alone
decides, so a registry that tells less but has kept this answer teaches the same. -/
namespace ApiScribe.Registry

variable {registry other start : Registry} {declared : Declared} {role : Role}
  {classes permuted : List Declared} {name base : String} {entries : List LocalRoot}
  {entry found : LocalRoot}

/-- The registry with other entries. -/
def knowing (registry : Registry) (entries : List LocalRoot) : Registry :=
  { registry with roots := entries }

@[simp] theorem knowing_roots : (registry.knowing entries).roots = entries := rfl

@[simp] theorem knowing_table : (registry.knowing entries).table = registry.table := by
  funext role
  cases role <;> rfl

/-- What a base of this name tells of a local class. In a role where the name is that of
a framework base it tells of that one instead. -/
def told? (registry : Registry) (name : String) : Option LocalRoot :=
  (registry.root? name).filter fun entry => !(registry.table entry.role).contains name

/-- A name tells of a local class if an entry is held under it and it is no framework base in the
role of the entry. -/
theorem told?_eq_some_iff : registry.told? name = some entry ↔
    registry.root? name = some entry ∧ name ∉ registry.table entry.role := by
  simp [told?, Option.filter_eq_some_iff]

theorem root?_name (held : registry.root? name = some entry) : entry.name = name := by
  simpa using List.find?_some held

theorem root?_mem (held : registry.root? name = some entry) : entry ∈ registry.roots :=
  List.mem_of_find?_eq_some held

/-- What a name is told to be depends on the root held under it and on the tables. -/
theorem told?_congr (same : registry.root? name = other.root? name)
    (tables : registry.table = other.table) : registry.told? name = other.told? name := by
  rw [told?, told?, same, tables]

/-- A base leads to the framework base that it names or else to what is told of another
local class. -/
theorem rootOf?_eq_some_iff {owner root : String} :
    registry.rootOf? owner role base = some root ↔
      (baseName base ∈ registry.table role ∧ root = baseName base) ∨
        baseName base ≠ owner ∧ ∃ entry, registry.told? (baseName base) = some entry ∧
          entry.role = role ∧ entry.root = root := by
  rw [rootOf?]
  by_cases framework : baseName base ∈ registry.table role
  · rw [if_pos (by simpa using framework), Option.some.injEq]
    constructor
    · rintro rfl
      exact .inl ⟨framework, rfl⟩
    · rintro (⟨_, same⟩ | ⟨_, entry, told, rfl, _⟩)
      · exact same.symm
      · exact absurd framework (told?_eq_some_iff.mp told).2
  · rw [if_neg (by simpa using framework)]
    constructor
    · intro leads
      split at leads
      · next entry held =>
        split at leads
        · next kept =>
          cases leads
          exact .inr ⟨kept.2, entry, told?_eq_some_iff.mpr ⟨held, kept.1 ▸ framework⟩, kept.1, rfl⟩
        · cases leads
      · cases leads
    · rintro (⟨listed, _⟩ | ⟨foreign, entry, told, same, rfl⟩)
      · exact absurd listed framework
      · rw [(told?_eq_some_iff.mp told).1]
        exact if_pos ⟨same, foreign⟩

/-! What a class learns. -/

/-- What a class asks: its bases in each role, in the order of roles. -/
def questions (declared : Declared) : List (Role × String) :=
  Role.inOrder.flatMap fun role => declared.bases.map (role, ·)

/-- What a class learns from one base in one role. -/
def answer? (registry : Registry) (declared : Declared) (question : Role × String) :
    Option LocalRoot :=
  (registry.rootOf? declared.name question.1 question.2).map (⟨declared.name, question.1, ·⟩)

/-- A class learns the first answer that it gets. -/
theorem learn?_eq (registry : Registry) (declared : Declared) :
    registry.learn? declared = (questions declared).findSome? (registry.answer? declared) := by
  rw [learn?, questions]
  induction Role.inOrder with
  | nil => rfl
  | cons role roles ih =>
    rw [List.findSome?_cons, List.flatMap_cons, List.findSome?_append, List.findSome?_map, ← ih,
      rootBase?, List.map_findSome?]
    have composed : registry.answer? declared ∘ (role, ·) =
        Option.map (⟨declared.name, role, ·⟩) ∘ registry.rootOf? declared.name role := rfl
    rw [composed]
    cases List.findSome? _ declared.bases <;> rfl

/-- An answer comes from a framework base or from what is told of another local class. -/
theorem answer?_eq_some_iff {question : Role × String} :
    registry.answer? declared question = some found ↔
      (baseName question.2 ∈ registry.table question.1 ∧
          found = ⟨declared.name, question.1, baseName question.2⟩) ∨
        baseName question.2 ≠ declared.name ∧ ∃ entry,
          registry.told? (baseName question.2) = some entry ∧ entry.role = question.1 ∧
            found = ⟨declared.name, entry.role, entry.root⟩ := by
  simp only [answer?, Option.map_eq_some_iff, rootOf?_eq_some_iff]
  constructor
  · rintro ⟨root, ⟨listed, rfl⟩ | ⟨foreign, entry, told, same, rfl⟩, rfl⟩
    · exact .inl ⟨listed, rfl⟩
    · exact .inr ⟨foreign, entry, told, same, by rw [same]⟩
  · rintro (⟨listed, rfl⟩ | ⟨foreign, entry, told, same, rfl⟩)
    · exact ⟨_, .inl ⟨listed, rfl⟩, rfl⟩
    · exact ⟨_, .inr ⟨foreign, entry, told, same, rfl⟩, by rw [same]⟩

private theorem mem_questions {question : Role × String} (asked : question ∈ questions declared) :
    question.2 ∈ declared.bases := by
  obtain ⟨role, _, asked⟩ := List.mem_flatMap.mp asked
  obtain ⟨base, listed, rfl⟩ := List.mem_map.mp asked
  exact listed

/-- One registry tells nothing that another one does not tell as well. -/
structure Less (other registry : Registry) : Prop where
  table : other.table = registry.table
  told : ∀ name entry, other.told? name = some entry → registry.told? name = some entry

private theorem Less.rootOf? {owner root : String} (less : Less other registry)
    (leads : other.rootOf? owner role base = some root) :
    registry.rootOf? owner role base = some root := by
  rw [rootOf?_eq_some_iff] at leads ⊢
  rw [← less.table]
  exact leads.imp id fun ⟨foreign, entry, told, same⟩ =>
    ⟨foreign, entry, less.told _ entry told, same⟩

private theorem Less.answer? {question : Role × String} (less : Less other registry)
    (answered : other.answer? declared question = some found) :
    registry.answer? declared question = some found := by
  obtain ⟨root, leads, rfl⟩ := Option.map_eq_some_iff.mp answered
  exact Option.map_eq_some_iff.mpr ⟨root, less.rootOf? leads, rfl⟩

/-- The answer that counts also counts where less is told, as long as it is given there. -/
theorem decisive_answer (learned : registry.learn? declared = some found) :
    ∃ question, question.2 ∈ declared.bases ∧ registry.answer? declared question = some found ∧
      ∀ other, Less other registry → other.answer? declared question = some found →
        other.learn? declared = some found := by
  rw [learn?_eq] at learned
  obtain ⟨earlier, question, later, split, answered, silent⟩ :=
    List.findSome?_eq_some_iff.mp learned
  have asked : question ∈ questions declared := by simp [split]
  refine ⟨question, mem_questions asked, answered, fun other less kept => ?_⟩
  rw [learn?_eq]
  refine List.findSome?_eq_some_iff.mpr ⟨earlier, question, later, split, kept, ?_⟩
  intro before asked
  by_contra given
  obtain ⟨entry, given⟩ := Option.ne_none_iff_exists'.mp given
  have answered := less.answer? given
  rw [silent before asked] at answered
  cases answered

private theorem findSome?_of_more {α β : Type} {less more : α → Option β} {items : List α}
    {found : β} (first : items.findSome? less = some found)
    (kept : ∀ item given, less item = some given → more item = some given)
    (alike : ∀ item given, more item = some given → less item = some given ∨ given = found) :
    items.findSome? more = some found := by
  induction items with
  | nil => cases first
  | cons item rest ih =>
    rw [List.findSome?_cons] at first ⊢
    cases given : more item with
    | some value =>
      rcases alike item value given with same | rfl
      · simpa [same] using first
      · rfl
    | none =>
      cases before : less item with
      | some value =>
        rw [kept item value before] at given
        cases given
      | none =>
        rw [before] at first
        exact ih first

/-- Further answers change nothing if all of them say what has been learned. -/
theorem learn?_of_more (less : Less other registry)
    (learned : other.learn? declared = some found)
    (alike : ∀ question given, registry.answer? declared question = some given →
      other.answer? declared question = some given ∨ given = found) :
    registry.learn? declared = some found := by
  rw [learn?_eq] at learned ⊢
  exact findSome?_of_more learned (fun _ _ => less.answer?) alike

/-- A class is learned as soon as one of its bases answers in one of the roles. -/
theorem learn?_isSome_of_answer {question : Role × String} (asked : question.2 ∈ declared.bases)
    (answered : (registry.answer? declared question).isSome) :
    (registry.learn? declared).isSome := by
  rw [learn?_eq, List.findSome?_isSome_iff]
  refine ⟨question, List.mem_flatMap.mpr ⟨question.1, ?_, ?_⟩, answered⟩
  · cases question.1 <;> decide
  · exact List.mem_map_of_mem asked

/-- What is learned of a class is held under its own name. -/
theorem learn?_name (learned : registry.learn? declared = some found) :
    found.name = declared.name := by
  obtain ⟨question, _, answered, _⟩ := decisive_answer learned
  rcases answer?_eq_some_iff.mp answered with ⟨_, rfl⟩ | ⟨_, _, _, _, rfl⟩ <;> rfl

/-! How entries are made. -/

/-- Registries that learn classes one after the other, each of them by a new entry. -/
inductive Grown (start : Registry) (classes : List Declared) : Registry → Prop where
  | start : Grown start classes start
  | entered {registry : Registry} {declared : Declared} {entry : LocalRoot}
      (grown : Grown start classes registry) (member : declared ∈ classes)
      (unknown : registry.root? declared.name = none)
      (learned : registry.learn? declared = some entry) :
      Grown start classes (registry.knowing (registry.roots ++ [entry]))

private theorem learn_eq (registry : Registry) (declared : Declared) :
    registry.learn declared = registry ∨ ∃ entry, registry.root? declared.name = none ∧
      registry.learn? declared = some entry ∧
      registry.learn declared = registry.knowing (registry.roots ++ [entry]) := by
  rw [learn]
  split
  · exact .inl rfl
  · next unknown =>
    split
    · next entry learned => exact .inr ⟨entry, by simpa using unknown, learned, rfl⟩
    · exact .inl rfl

/-- A class that was unknown is entered behind the others. -/
theorem learn_of_learn? (unknown : registry.root? declared.name = none)
    (learned : registry.learn? declared = some entry) :
    registry.learn declared = registry.knowing (registry.roots ++ [entry]) := by
  simp [learn, unknown, learned, knowing]

private theorem Grown.learn (grown : Grown start classes registry) (member : declared ∈ classes) :
    Grown start classes (registry.learn declared) := by
  obtain same | ⟨entry, unknown, learned, added⟩ := learn_eq registry declared
  · rwa [same]
  · rw [added]
    exact .entered grown member unknown learned

private theorem Grown.pass (grown : Grown start classes registry) (included : permuted ⊆ classes) :
    Grown start classes (registry.pass permuted) := by
  induction permuted generalizing registry with
  | nil => exact grown
  | cons first rest ih =>
    obtain ⟨member, below⟩ := List.cons_subset.mp included
    exact ih (grown.learn member) below

private theorem Grown.passes (grown : Grown start classes registry) (included : permuted ⊆ classes)
    (rounds : Nat) : Grown start classes (passes permuted rounds registry) := by
  induction rounds generalizing registry with
  | zero => exact grown
  | succ rounds ih => exact ih (grown.pass included)

/-- Registering classes grows a registry by what is learned of them, in whatever order they
come. -/
theorem register_grown (start : Registry) (included : permuted ⊆ classes) :
    Grown start classes (start.register permuted) :=
  Grown.passes .start included _

/-- Growing leaves the tables of known bases alone. -/
theorem Grown.table (grown : Grown start classes registry) : start.table = registry.table := by
  induction grown with
  | start => rfl
  | entered _ _ _ _ ih => rw [ih, knowing_table]

/-- An entry for an unknown name is found under that name and changes no other. -/
theorem root?_entered (unknown : registry.root? entry.name = none) :
    (registry.knowing (registry.roots ++ [entry])).root? name =
      if entry.name = name then some entry else registry.root? name := by
  rw [root?, knowing_roots, List.find?_append]
  by_cases same : entry.name = name
  · rw [if_pos same, ← same]
    rw [root?] at unknown
    simp [unknown]
  · rw [if_neg same, List.find?_cons_of_neg (by simpa using same), List.find?_nil, Option.or_none]
    rfl

/-- A registry that grew from a bare one holds every name once. -/
theorem Grown.distinct (bare : start.roots = []) (grown : Grown start classes registry) :
    (registry.roots.map LocalRoot.name).Nodup := by
  induction grown with
  | start => simp [bare]
  | @entered registry declared entry _ _ unknown learned ih =>
    have unnamed : entry.name ∉ registry.roots.map LocalRoot.name := by
      rw [← root?_isSome_iff, learn?_name learned, unknown]
      exact Bool.false_ne_true
    rw [knowing_roots, List.map_append]
    exact List.nodup_append.mpr ⟨ih, List.nodup_singleton _, fun other listed last here same =>
      unnamed (List.mem_singleton.mp here ▸ same ▸ listed)⟩

/-- A bare registry tells of nothing. -/
theorem told?_bare (bare : registry.roots = []) : registry.told? name = none := by
  simp [told?, root?, bare]

/-- A bare registry tells less than any other with its tables. -/
theorem less_of_bare (bare : start.roots = []) (tables : start.table = registry.table) :
    Less start registry where
  table := tables
  told name entry told := by
    rw [told?_bare bare] at told
    cases told

/-- A registry that tells of one class alone. -/
theorem less_of_told (tables : start.table = registry.table)
    (told : registry.told? name = some entry) : Less (start.knowing [entry]) registry where
  table := knowing_table.trans tables
  told other found alone := by
    have held := (told?_eq_some_iff.mp alone).1
    have same : found = entry := by simpa using root?_mem held
    subst same
    rw [← root?_name held, root?_name (told?_eq_some_iff.mp told).1]
    exact told

/-! What entries are good for. -/

private theorem less_entered (unknown : registry.root? entry.name = none) :
    Less registry (registry.knowing (registry.roots ++ [entry])) where
  table := knowing_table.symm
  told name found told := by
    have other : entry.name ≠ name := by
      rintro rfl
      rw [(told?_eq_some_iff.mp told).1] at unknown
      cases unknown
    rwa [told?_congr ((root?_entered unknown).trans (if_neg other)) knowing_table]

/-- A class has a role exactly if one of its bases leads to a framework base in it. -/
theorem has_iff : registry.has declared role = true ↔
    ∃ base ∈ declared.bases, ∃ root, registry.rootOf? declared.name role base = some root := by
  rw [has, rootBase?, List.findSome?_isSome_iff]
  simp only [Option.isSome_iff_exists]

/-- The framework base that is entered for a name is one that a base of some class of the
name leads to. -/
theorem Grown.leads (bare : start.roots = []) (grown : Grown start classes registry)
    (held : registry.root? name = some entry) :
    ∃ declared ∈ classes, declared.name = name ∧ ∃ base ∈ declared.bases,
      registry.rootOf? declared.name entry.role base = some entry.root := by
  induction grown with
  | start => simp [root?, bare] at held
  | @entered registry declared added grown member unknown learned ih =>
    have named := learn?_name learned
    rw [← named] at unknown
    have less := less_entered unknown
    rw [root?_entered unknown] at held
    split at held
    · next here =>
      cases held
      obtain ⟨question, asked, answered, _⟩ := decisive_answer learned
      obtain ⟨root, leads, rfl⟩ := Option.map_eq_some_iff.mp answered
      exact ⟨declared, member, here, question.2, asked, less.rootOf? leads⟩
    · obtain ⟨found, found_mem, same, base, asked, leads⟩ := ih held
      exact ⟨found, found_mem, same, base, asked, less.rootOf? leads⟩

/-- What is entered for a name is the role of a class of the name. -/
theorem Grown.has (bare : start.roots = []) (grown : Grown start classes registry)
    (held : registry.root? name = some entry) :
    ∃ declared ∈ classes, declared.name = name ∧ registry.has declared entry.role = true := by
  obtain ⟨declared, member, same, base, asked, leads⟩ := grown.leads bare held
  exact ⟨declared, member, same, has_iff.mpr ⟨base, asked, _, leads⟩⟩

end ApiScribe.Registry
