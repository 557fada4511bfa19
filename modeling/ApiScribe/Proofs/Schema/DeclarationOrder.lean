import ApiScribe.Proofs.Schema.Learning
import Mathlib.Data.List.Perm.Subperm

/-! The order of declarations. A class is entered as soon as one of its bases leads to a
framework base, and its entry is never revised. So the order shows where a class has
several bases: it is without effect exactly if no local class would teach something else
on its own than what is told of the class in the end. One direction follows the entries
as they are made; the other one declares the classes of one root first. -/
namespace ApiScribe.Registry

variable {start registry other before after : Registry} {declared : Declared} {role : Role}
  {classes permuted front rest : List Declared} {name base : String} {entry found : LocalRoot}

/-! Where the order does not matter. -/

/-- What a class may learn when it has heard of one local class at most. -/
def MayLearn (start final : Registry) (declared : Declared) (found : LocalRoot) : Prop :=
  start.learn? declared = some found ∨
    ∃ entry ∈ final.roots, (start.knowing [entry]).learn? declared = some found

/-- Whatever a class may learn comes to the same for the classes that name it as a base. -/
def OneOrigin (start : Registry) (classes : List Declared) : Prop :=
  ∀ declared ∈ classes, ∀ found, MayLearn start (start.register classes) declared found →
    ∀ base, baseName base = declared.name →
      (start.knowing [found]).told? declared.name = (start.register classes).told? declared.name

/-- What is learned is what might have been learned from one local class. -/
theorem mayLearn_of_learn? (bare : start.roots = []) (tables : start.table = registry.table)
    (same : ∀ base, (registry.root? (baseName base)).isSome →
      registry.told? (baseName base) = before.told? (baseName base))
    (learned : registry.learn? declared = some found) : MayLearn start before declared found := by
  obtain ⟨question, _, answered, counts⟩ := decisive_answer learned
  rcases answer?_eq_some_iff.mp answered with ⟨listed, shape⟩ | ⟨foreign, entry, told, role, shape⟩
  · refine .inl (counts start (less_of_bare bare tables) ?_)
    exact answer?_eq_some_iff.mpr (.inl ⟨tables ▸ listed, shape⟩)
  · have held := (told?_eq_some_iff.mp told).1
    have kept := same _ (Option.isSome_of_eq_some held)
    rw [told] at kept
    refine .inr ⟨entry, root?_mem (told?_eq_some_iff.mp kept.symm).1, ?_⟩
    refine counts _ (less_of_told tables told) (answer?_eq_some_iff.mpr (.inr ?_))
    refine ⟨foreign, entry, told?_eq_some_iff.mpr ⟨?_, ?_⟩, role, shape⟩
    · simpa [root?] using root?_name held
    · rw [knowing_table, tables]
      exact (told?_eq_some_iff.mp told).2

/-- Classes with one origin are told of alike, whenever they have been entered. -/
theorem told?_of_grown (bare : start.roots = []) (origin : OneOrigin start classes)
    (grown : Grown start classes registry) (known : (registry.root? (baseName base)).isSome) :
    registry.told? (baseName base) = (start.register classes).told? (baseName base) := by
  induction grown generalizing base with
  | start => simp [root?, bare] at known
  | @entered registry declared entry grown member unknown learned ih =>
    have named := learn?_name learned
    rw [← named] at unknown
    rw [root?_entered unknown] at known
    by_cases here : entry.name = baseName base
    · have may := mayLearn_of_learn? bare grown.table (fun base => ih) learned
      rw [← here, named, ← origin declared member entry may base (here.symm.trans named)]
      refine told?_congr ?_ (by rw [knowing_table, knowing_table, grown.table])
      rw [root?_entered unknown, ← named, if_pos rfl]
      simp [root?]
    · rw [if_neg here] at known
      rw [← ih known]
      refine told?_congr ?_ knowing_table
      rw [root?_entered unknown, if_neg here]

/-- A registry that has nothing to learn about classes any more. -/
def Finished (classes : List Declared) (registry : Registry) : Prop :=
  ∀ declared ∈ classes, (registry.learn? declared).isSome → (registry.root? declared.name).isSome

private theorem register_finished (start : Registry) (included : classes ⊆ permuted) :
    Finished classes (start.register permuted) := by
  intro declared member learned
  by_contra unknown
  have roleless : ∀ role, (start.register permuted).has declared role = false := by
    intro role
    by_contra has
    exact unknown ((register_closes start permuted).entered declared (included member) role
      (by simpa using has))
  rw [learn?_eq_none_iff.mpr roleless] at learned
  cases learned

private theorem answer?_table {question : Role × String} (tables : registry.table = other.table)
    (listed : baseName question.2 ∈ registry.table question.1) :
    (other.answer? declared question).isSome := by
  rw [tables] at listed
  exact Option.isSome_of_eq_some (answer?_eq_some_iff.mpr (.inl ⟨listed, rfl⟩))

private theorem answer?_told {question : Role × String}
    (foreign : baseName question.2 ≠ declared.name)
    (told : other.told? (baseName question.2) = some entry) (same : entry.role = question.1) :
    (other.answer? declared question).isSome :=
  Option.isSome_of_eq_some (answer?_eq_some_iff.mpr (.inr ⟨foreign, entry, told, same, rfl⟩))

/-- With one origin, what is ever told of a class is entered wherever registration ends. -/
theorem known_of_told (bare : start.roots = []) (origin : OneOrigin start classes)
    (grown : Grown start classes registry) (ended : Grown start classes other)
    (finished : Finished classes other) (told : registry.told? (baseName base) = some entry) :
    (other.root? (baseName base)).isSome := by
  induction grown generalizing base entry with
  | start =>
    rw [told?_bare bare] at told
    cases told
  | @entered registry declared added grown member unknown learned ih =>
    have named := learn?_name learned
    rw [← named] at unknown
    by_cases here : added.name = baseName base
    · obtain ⟨question, listed, answered, _⟩ := decisive_answer learned
      rw [← here, named]
      refine finished declared member (learn?_isSome_of_answer listed ?_)
      rcases answer?_eq_some_iff.mp answered with ⟨framework, _⟩ | ⟨foreign, heard, told, role, _⟩
      · exact answer?_table (grown.table.symm.trans ended.table) framework
      · have held := (told?_eq_some_iff.mp told).1
        have kept := told?_of_grown bare origin grown (Option.isSome_of_eq_some held)
        have again := told?_of_grown bare origin ended (ih told)
        exact answer?_told foreign (again.trans (kept.symm.trans told)) role
    · refine @ih _ entry (Eq.trans (told?_congr ?_ knowing_table.symm) told)
      rw [root?_entered unknown, if_neg here]

/-- Classes with one origin are told of alike after every registration. -/
theorem told?_of_perm (bare : start.roots = []) (origin : OneOrigin start classes)
    (perm : permuted.Perm classes) :
    (start.register permuted).told? (baseName base) =
      (start.register classes).told? (baseName base) := by
  have ended := register_grown start perm.subset
  cases told : (start.register classes).told? (baseName base) with
  | some entry =>
    have known := known_of_told bare origin (register_grown start (List.Subset.refl classes)) ended
      (register_finished start perm.symm.subset) told
    rw [told?_of_grown bare origin ended known, told]
  | none =>
    by_cases known : ((start.register permuted).root? (baseName base)).isSome
    · rw [told?_of_grown bare origin ended known, told]
    · simp only [Option.not_isSome_iff_eq_none] at known
      simp [told?, known]

/-! Where it does. -/

private theorem Gains.root? (gains : Gains before after) (held : before.root? name = some entry) :
    after.root? name = some entry := by
  obtain ⟨more, longer⟩ := gains.roots
  rw [Registry.root?] at held
  rw [Registry.root?, ← longer, List.find?_append, held]
  rfl

private theorem Gains.told? (gains : Gains before after) (known : (before.root? name).isSome) :
    after.told? name = before.told? name := by
  obtain ⟨entry, held⟩ := Option.isSome_iff_exists.mp known
  exact told?_congr ((gains.root? held).trans held.symm) gains.table

/-- Registration begins with a pass over the classes that are declared first. -/
theorem register_gains (registry : Registry) (front rest : List Declared) :
    Gains (registry.pass front) (registry.register (front ++ rest)) := by
  have whole : registry.pass (front ++ rest) = (registry.pass front).pass rest :=
    List.foldl_append
  rw [register]
  cases count : (front ++ rest).length with
  | zero =>
    obtain ⟨rfl, rfl⟩ := List.append_eq_nil_iff.mp (List.length_eq_zero_iff.mp count)
    exact .refl registry
  | succ rounds =>
    have first := pass_gains (registry.pass front) rest
    rw [← whole] at first
    exact first.trans (passes_gains _ _ rounds)

private theorem pass_append (registry : Registry) (front : List Declared) (declared : Declared) :
    registry.pass (front ++ [declared]) = (registry.pass front).learn declared := by
  simp [pass]

/-- The same is told of every class in whatever order the classes are declared. -/
def Settled (start : Registry) (classes : List Declared) : Prop :=
  ∀ permuted, permuted.Perm classes → ∀ base,
    (start.register permuted).told? (baseName base) =
      (start.register classes).told? (baseName base)

/-- Then the first pass over a part of the classes tells it already. -/
theorem Settled.told?_front (settled : Settled start classes)
    (distinct : (front.map Declared.name).Nodup) (included : front ⊆ classes)
    (known : ((start.pass front).root? (baseName base)).isSome) :
    (start.pass front).told? (baseName base) =
      (start.register classes).told? (baseName base) := by
  obtain ⟨part, same, sublist⟩ := List.subperm_of_subset distinct.of_map included
  obtain ⟨rest, split⟩ := sublist.exists_perm_append
  have perm : (front ++ rest).Perm classes := ((same.symm.append_right rest).trans split.symm)
  rw [← settled (front ++ rest) perm base]
  exact ((register_gains start front rest).told? known).symm

/-- Whether an entry is of a role and a framework base. -/
def isOf (role : Role) (root : String) (entry : LocalRoot) : Bool :=
  entry.role == role && entry.root == root

/-- The classes that a registry has entered alike, declared before all others: the first
pass enters them. -/
structure Front (start registry : Registry) (classes : List Declared) (role : Role) (root : String)
    (front : List Declared) : Prop where
  included : front ⊆ classes
  names : front.map Declared.name = (registry.roots.filter (isOf role root)).map LocalRoot.name
  entered : (start.pass front).roots.map LocalRoot.name = front.map Declared.name

section Front
variable {root : String}

private theorem Front.known_iff (alike : Front start registry classes role root front) :
    ((start.pass front).root? name).isSome ↔ name ∈ front.map Declared.name := by
  rw [root?_isSome_iff, alike.entered]

private theorem Front.sublist (alike : Front start registry classes role root front) :
    (front.map Declared.name).Sublist (registry.roots.map LocalRoot.name) :=
  alike.names ▸ List.filter_sublist.map _

private theorem root?_of_mem (distinct : (registry.roots.map LocalRoot.name).Nodup)
    (listed : entry ∈ registry.roots) : registry.root? entry.name = some entry := by
  have known := root?_isSome_iff.mpr (List.mem_map_of_mem listed)
  obtain ⟨other, held⟩ := Option.isSome_iff_exists.mp known
  rw [held, List.inj_on_of_nodup_map distinct (root?_mem held) listed (root?_name held)]

/-- A class in front has an entry of the role and the framework base. -/
theorem Front.held (alike : Front start registry classes role root front)
    (distinct : (registry.roots.map LocalRoot.name).Nodup)
    (listed : name ∈ front.map Declared.name) :
    registry.root? name = some ⟨name, role, root⟩ := by
  rw [alike.names] at listed
  obtain ⟨own, kept, rfl⟩ := List.mem_map.mp listed
  obtain ⟨ownListed, same⟩ := List.mem_filter.mp kept
  simp only [isOf, Bool.and_eq_true, beq_iff_eq] at same
  rw [root?_of_mem distinct ownListed, ← same.1, ← same.2]

private theorem Front.listed (alike : Front start registry classes role root front)
    (member : entry ∈ registry.roots) (same : isOf role root entry = true) :
    entry.name ∈ front.map Declared.name :=
  alike.names ▸ List.mem_map_of_mem (List.mem_filter.mpr ⟨member, same⟩)

end Front

/-- A class that is entered like those in front learns something behind them. -/
theorem Settled.learns_behind {root : String} (settled : Settled start classes)
    (bare : start.roots = []) (grown : Grown start classes registry)
    (within : Gains registry (start.register classes))
    (before : Front start registry classes role root front)
    (learned : registry.learn? declared = some entry) (alike : isOf role root entry = true) :
    ((start.pass front).learn? declared).isSome := by
  obtain ⟨question, asked, answered, _⟩ := decisive_answer learned
  refine learn?_isSome_of_answer asked ?_
  rcases answer?_eq_some_iff.mp answered with ⟨listed, _⟩ | ⟨foreign, heard, told, same, shape⟩
  · exact answer?_table (grown.table.symm.trans (pass_gains start front).table.symm) listed
  · -- The class that was heard of says the same, so it stands in front as well.
    have held := (told?_eq_some_iff.mp told).1
    have known : ((start.pass front).root? (baseName question.2)).isSome := by
      rw [before.known_iff, ← root?_name held]
      exact before.listed (root?_mem held) (by simpa [isOf, shape] using alike)
    have distinct := before.sublist.nodup (grown.distinct bare)
    have kept := settled.told?_front distinct before.included known
    rw [within.told? (Option.isSome_of_eq_some held), told] at kept
    exact answer?_told foreign kept same

/-- The classes that are entered alike can be declared before all others. The first pass
enters them, as each of them has its entry from a framework base or from one of them. -/
theorem Settled.exists_front (settled : Settled start classes) (bare : start.roots = [])
    (grown : Grown start classes registry) (within : Gains registry (start.register classes))
    (role : Role) (root : String) :
    ∃ front, Front start registry classes role root front := by
  induction grown with
  | start => exact ⟨[], ⟨List.nil_subset _, by simp [bare], by simp [bare, pass]⟩⟩
  | @entered registry declared entry grown member unknown learned ih =>
    have named := learn?_name learned
    have earlier : Gains registry (registry.knowing (registry.roots ++ [entry])) :=
      ⟨List.prefix_append _ _, knowing_table⟩
    obtain ⟨front, before⟩ := ih (earlier.trans within)
    by_cases alike : isOf role root entry
    · have fresh : (start.pass front).root? declared.name = none := by
        rw [← Option.not_isSome_iff_eq_none, before.known_iff]
        intro listed
        have held := root?_isSome_iff.mpr (before.sublist.subset listed)
        rw [unknown] at held
        cases held
      have answers := settled.learns_behind bare grown (earlier.trans within) before learned alike
      obtain ⟨added, gained⟩ := Option.isSome_iff_exists.mp answers
      have included : front ++ [declared] ⊆ classes :=
        List.append_subset.mpr ⟨before.included, by simpa using member⟩
      refine ⟨front ++ [declared], included, ?_, ?_⟩
      · simp [before.names, alike, named]
      · rw [pass_append, learn_of_learn? fresh gained, knowing_roots, List.map_append,
          before.entered, List.map_append, List.map_singleton, List.map_singleton,
          learn?_name gained]
    · exact ⟨front, before.included, by simp [before.names, alike], before.entered⟩

private theorem root?_alone : (registry.knowing [entry]).root? entry.name = some entry := by
  simp [root?]

private theorem told?_alone (told : (registry.knowing [entry]).told? name = some found) :
    found = entry ∧ entry.name = name := by
  have held := (told?_eq_some_iff.mp told).1
  have same : found = entry := by simpa using root?_mem held
  exact ⟨same, same ▸ root?_name held⟩

/-- What a class learns behind other classes is told of it in the end. -/
theorem Settled.told?_learned (settled : Settled start classes) (included : front ⊆ classes)
    (distinct : (front.map Declared.name).Nodup) (member : declared ∈ classes)
    (fresh : declared.name ∉ front.map Declared.name)
    (unknown : (start.pass front).root? declared.name = none)
    (learned : (start.pass front).learn? declared = some found)
    (named : baseName base = declared.name) :
    (start.knowing [found]).told? declared.name =
      (start.register classes).told? declared.name := by
  have foundName := learn?_name learned
  have more : front ++ [declared] ⊆ classes :=
    List.append_subset.mpr ⟨included, by simpa using member⟩
  have apart : ((front ++ [declared]).map Declared.name).Nodup := by
    rw [List.map_append]
    exact List.nodup_append.mpr ⟨distinct, List.nodup_singleton _,
      fun other listed last here same => fresh (List.mem_singleton.mp here ▸ same ▸ listed)⟩
  have holds : (start.pass (front ++ [declared])).root? declared.name = some found := by
    rw [pass_append, learn_of_learn? unknown learned, root?_entered (foundName ▸ unknown),
      if_pos foundName]
  have known : ((start.pass (front ++ [declared])).root? (baseName base)).isSome := by
    rw [named, holds]
    rfl
  have kept := settled.told?_front apart more known
  rw [← named, ← kept, named]
  refine told?_congr ?_ ?_
  · rw [holds, ← foundName, root?_alone]
  · rw [knowing_table, (pass_gains start _).table]

/-- What is told of the classes in front is what they have in common. -/
theorem Settled.tells_front {root : String} (settled : Settled start classes)
    (alike : Front start (start.register classes) classes role root front)
    (distinct : ((start.register classes).roots.map LocalRoot.name).Nodup)
    (told : (start.pass front).told? (baseName base) = some entry) :
    entry.role = role ∧ entry.root = root := by
  have known := Option.isSome_of_eq_some (told?_eq_some_iff.mp told).1
  have final := settled.told?_front (alike.sublist.nodup distinct) alike.included known
  rw [told] at final
  have held := alike.held distinct (alike.known_iff.mp known)
  rw [(told?_eq_some_iff.mp final.symm).1] at held
  cases held
  exact ⟨rfl, rfl⟩

/-- What a class learns of one class alone is told of it in the end: it also learns it
behind all classes that say the same as that one. -/
theorem Settled.told?_heard {heard : LocalRoot} (settled : Settled start classes)
    (bare : start.roots = []) (member : declared ∈ classes)
    (listed : heard ∈ (start.register classes).roots)
    (learned : (start.knowing [heard]).learn? declared = some found)
    (told : (start.knowing [heard]).told? heard.name = some heard)
    (asked : ∃ base, baseName base = heard.name)
    (shape : found = ⟨declared.name, heard.role, heard.root⟩)
    (named : baseName base = declared.name) :
    (start.knowing [found]).told? declared.name =
      (start.register classes).told? declared.name := by
  have grown := register_grown start (List.Subset.refl classes)
  have distinct := grown.distinct bare
  obtain ⟨front, alike⟩ := settled.exists_front bare grown (.refl _) heard.role heard.root
  by_cases again : declared.name ∈ front.map Declared.name
  · -- The class is entered with what it has learned.
    refine told?_congr ?_ (knowing_table.trans grown.table)
    rw [alike.held distinct again, ← shape]
    exact (congrArg _ (learn?_name learned).symm).trans root?_alone
  · have unknown : (start.pass front).root? declared.name = none := by
      rw [← Option.not_isSome_iff_eq_none, alike.known_iff]
      exact again
    have tables : (start.knowing [heard]).table = (start.pass front).table :=
      knowing_table.trans (pass_gains start front).table.symm
    have less : Less (start.knowing [heard]) (start.pass front) := by
      refine @less_of_told _ _ heard.name _ (pass_gains start front).table.symm ?_
      obtain ⟨base, heardName⟩ := asked
      have known : ((start.pass front).root? (baseName base)).isSome := by
        rw [alike.known_iff, heardName]
        exact alike.listed listed (by simp [isOf])
      rw [← heardName, settled.told?_front (alike.sublist.nodup distinct) alike.included known,
        heardName]
      refine told?_eq_some_iff.mpr ⟨root?_of_mem distinct listed, ?_⟩
      rw [← grown.table, ← knowing_table]
      exact (told?_eq_some_iff.mp told).2
    refine settled.told?_learned alike.included (alike.sublist.nodup distinct) member again unknown
      (learn?_of_more less learned ?_) named
    intro question given answered
    rcases answer?_eq_some_iff.mp answered with ⟨framework, same⟩ | ⟨_, other, here, _, same⟩
    · exact .inl (answer?_eq_some_iff.mpr (.inl ⟨tables ▸ framework, same⟩))
    · obtain ⟨role, root⟩ := settled.tells_front alike distinct here
      exact .inr (by rw [same, shape, role, root])

private theorem Settled.oneOrigin (settled : Settled start classes) (bare : start.roots = []) :
    OneOrigin start classes := by
  intro declared member found may base named
  have direct : start.learn? declared = some found →
      (start.knowing [found]).told? declared.name =
        (start.register classes).told? declared.name := by
    intro learned
    have unknown : (start.pass []).root? declared.name = none := by simp [pass, root?, bare]
    exact settled.told?_learned (List.nil_subset _) List.nodup_nil member List.not_mem_nil unknown
      learned named
  rcases may with learned | ⟨entry, listed, learned⟩
  · exact direct learned
  · obtain ⟨question, _, answered, counts⟩ := decisive_answer learned
    have tables : start.table = (start.knowing [entry]).table := knowing_table.symm
    rcases answer?_eq_some_iff.mp answered with ⟨framework, shape⟩ | ⟨_, heard, told, _, shape⟩
    · refine direct (counts start (less_of_bare bare tables) ?_)
      exact answer?_eq_some_iff.mpr (.inl ⟨tables ▸ framework, shape⟩)
    · obtain ⟨rfl, heardName⟩ := told?_alone told
      exact settled.told?_heard bare member listed learned (heardName ▸ told)
        ⟨question.2, heardName.symm⟩ shape named

/-! What can be seen of it. -/

private theorem rootBase?_congr (tables : registry.table = other.table)
    (same : ∀ base, registry.told? (baseName base) = other.told? (baseName base))
    (declared : Declared) (role : Role) :
    registry.rootBase? declared role = other.rootBase? declared role := by
  have leads : registry.rootOf? declared.name role = other.rootOf? declared.name role := by
    funext base
    apply Option.ext
    intro root
    rw [rootOf?_eq_some_iff, rootOf?_eq_some_iff, tables, same]
  rw [rootBase?, rootBase?, leads]

/-- A class of which nothing is known but its name and its bases. -/
def headed (name : String) (bases : List String) : Declared :=
  ⟨"", ⟨[], [], [], [], []⟩, ⟨name, bases, 0, none, []⟩⟩

private theorem rootBase?_headed (registry : Registry) (name base : String) (role : Role) :
    registry.rootBase? (headed name [base]) role = registry.rootOf? name role base := by
  show [base].findSome? (registry.rootOf? name role) = _
  cases leads : registry.rootOf? name role base <;> simp [leads]

/-- Classes that have one base tell registries apart. -/
theorem told?_of_rootBase? (tables : registry.table = other.table)
    (same : ∀ declared role, registry.rootBase? declared role = other.rootBase? declared role)
    (told : registry.told? (baseName base) = some entry) :
    other.told? (baseName base) = some entry := by
  obtain ⟨name, foreign⟩ : ∃ name, baseName base ≠ name := by
    by_cases blank : baseName base = ""
    · exact ⟨"_", by simp [blank]⟩
    · exact ⟨"", blank⟩
  have leads : registry.rootOf? name entry.role base = some entry.root :=
    rootOf?_eq_some_iff.mpr (.inr ⟨foreign, entry, told, rfl, rfl⟩)
  rw [← rootBase?_headed, same, rootBase?_headed, rootOf?_eq_some_iff, ← tables] at leads
  obtain ⟨held, hidden⟩ := told?_eq_some_iff.mp told
  rcases leads with ⟨framework, _⟩ | ⟨_, found, again, sameRole, sameRoot⟩
  · exact absurd framework hidden
  · have sameName : found.name = entry.name :=
      (root?_name (told?_eq_some_iff.mp again).1).trans (root?_name held).symm
    rw [again, Option.some.injEq]
    cases found
    cases entry
    simp_all

private theorem settled_iff : Settled start classes ↔
    ∀ permuted, permuted.Perm classes → ∀ declared role,
      (start.register permuted).rootBase? declared role =
        (start.register classes).rootBase? declared role := by
  have tables : ∀ permuted, (start.register permuted).table = (start.register classes).table :=
    fun permuted =>
      (passes_gains start permuted _).table.trans (passes_gains start classes _).table.symm
  constructor
  · intro settled permuted perm
    exact rootBase?_congr (tables permuted) (settled permuted perm)
  · intro same permuted perm base
    apply Option.ext
    intro entry
    exact ⟨told?_of_rootBase? (tables permuted) (same permuted perm),
      told?_of_rootBase? (tables permuted).symm fun declared role =>
        (same permuted perm declared role).symm⟩

/-- In whatever order classes are declared, registration answers alike for every class in
every role, exactly if they have one origin each. -/
theorem declaration_order_irrelevant_iff (extra : Config.Extraction) (classes : List Declared) :
    (∀ permuted, permuted.Perm classes → ∀ declared role,
        ((ofExtraction extra).register permuted).rootBase? declared role =
          ((ofExtraction extra).register classes).rootBase? declared role) ↔
      OneOrigin (ofExtraction extra) classes := by
  have bare : (ofExtraction extra).roots = [] := rfl
  rw [← settled_iff]
  exact ⟨fun settled => settled.oneOrigin bare,
    fun origin _ perm _ => told?_of_perm bare origin perm⟩

/-- A shop is a view by a framework base, and a model if the ledger is known before it. -/
def shopClasses : List Declared :=
  [headed "Shop" ["Ledger", "APIView"], headed "Ledger" ["Model"], headed "Branch" ["Shop"]]

/-- The chain of bases that leads from the branch over the shop and the ledger to a model
is followed only if the ledger is declared before the shop. -/
theorem branch_role_by_order : (shopClasses.map Declared.name).Nodup ∧
    ∃ permuted, permuted.Perm shopClasses ∧ ∃ branch ∈ shopClasses,
      ((ofExtraction {}).register permuted).rootBase? branch .model = some "Model" ∧
        ((ofExtraction {}).register shopClasses).rootBase? branch .model = none := by
  refine ⟨by decide, [headed "Ledger" ["Model"], headed "Shop" ["Ledger", "APIView"],
    headed "Branch" ["Shop"]], .swap _ _ _, headed "Branch" ["Shop"], by simp [shopClasses], ?_⟩
  decide +kernel

end ApiScribe.Registry
