import ApiScribe.Schema.Registry
import Mathlib.Data.Finset.Card
import Mathlib.Data.List.Nodup

/-! Registration of local classes. What is learned about a name is a role with a framework
base of that role, to which a chain of registered classes leads; this holds over any
number of registrations, since learning only adds entries. A registration is a loop of
passes that ends with one that learns nothing: every pass before it enters the name of a
class that had no entry, and there are no more names than classes. -/
namespace ApiScribe.Registry

/-! What a registry knows. -/

/-- A chain of known classes. Each of them has a base that is called like the next one,
and the last one has a base that is called like the framework base. -/
inductive Leads (known : List Declared) : String → String → Prop where
  | direct {declared : Declared} {base : String} (member : declared ∈ known)
    (listed : base ∈ declared.bases) : Leads known declared.name (baseName base)
  | through {declared : Declared} {base root : String} (member : declared ∈ known)
    (listed : base ∈ declared.bases) (next : Leads known (baseName base) root) :
    Leads known declared.name root

variable {registry before between after : Registry} {declared : Declared} {role : Role}
  {classes known more : List Declared} {name root : String}

private theorem Leads.mono (included : known ⊆ more) (leads : Leads known name root) :
    Leads more name root := by
  induction leads with
  | direct member listed => exact .direct (included member) listed
  | through member listed _ ih => exact .through (included member) listed ih

/-- A registry holds at most one entry for a name, and what it holds is justified by the
classes that it was told of. -/
structure Sound (known : List Declared) (registry : Registry) : Prop where
  distinct : (registry.roots.map LocalRoot.name).Nodup
  framework : ∀ entry ∈ registry.roots, entry.root ∈ registry.table entry.role
  leads : ∀ entry ∈ registry.roots, Leads known entry.name entry.root

private theorem Sound.mono (included : known ⊆ more) (sound : Sound known registry) :
    Sound more registry where
  distinct := sound.distinct
  framework := sound.framework
  leads entry member := (sound.leads entry member).mono included

private theorem sound_ofExtraction (extra : Config.Extraction) : Sound [] (ofExtraction extra) where
  distinct := List.nodup_nil
  framework _ member := nomatch member
  leads _ member := nomatch member

theorem root?_isSome_iff :
    (registry.root? name).isSome ↔ name ∈ registry.roots.map LocalRoot.name := by
  rw [root?, List.find?_isSome]
  simp

/-- The base that gives a class its role is a framework base or a local class that has
the role from one. -/
theorem rootBase?_cases (found : registry.rootBase? declared role = some root) :
    ∃ base ∈ declared.bases,
      (baseName base = root ∧ root ∈ registry.table role) ∨
        ∃ entry ∈ registry.roots, entry.name = baseName base ∧ entry.role = role ∧
          entry.root = root := by
  obtain ⟨base, listed, leads⟩ := List.exists_of_findSome?_eq_some found
  refine ⟨base, listed, ?_⟩
  rw [rootOf?] at leads
  split at leads
  · next framework =>
    cases leads
    exact .inl ⟨rfl, by simpa using framework⟩
  · split at leads
    · next entry held =>
      split at leads
      · next same =>
        cases leads
        have named := List.find?_some held
        exact .inr ⟨entry, List.mem_of_find?_eq_some held, by simpa using named, same.1, rfl⟩
      · cases leads
    · cases leads

private theorem Sound.rootBase? (sound : Sound known registry) (member : declared ∈ known)
    (found : registry.rootBase? declared role = some root) :
    root ∈ registry.table role ∧ Leads known declared.name root := by
  obtain ⟨base, listed, ⟨rfl, framework⟩ | ⟨entry, held, named, rfl, rfl⟩⟩ := rootBase?_cases found
  · exact ⟨framework, .direct member listed⟩
  · exact ⟨sound.framework entry held, .through member listed (named ▸ sound.leads entry held)⟩

/-- Nothing is learned exactly of the classes that have no role. -/
theorem learn?_eq_none_iff :
    registry.learn? declared = none ↔ ∀ role, registry.has declared role = false := by
  simp only [learn?, List.findSome?_eq_none_iff, Option.map_eq_none_iff, has,
    Option.isSome_eq_false_iff, Option.isNone_iff_eq_none]
  exact ⟨fun none role => none role (by cases role <;> decide), fun none role _ => none role⟩

/-- Learning a class changes nothing or adds an entry for its name, which had none. -/
theorem learn_cases (registry : Registry) (declared : Declared) :
    (registry.learn declared = registry ∧
        ((registry.root? declared.name).isSome ∨ ∀ role, registry.has declared role = false)) ∨
      ∃ role root, registry.root? declared.name = none ∧
        registry.rootBase? declared role = some root ∧
        registry.learn declared =
          { registry with roots := registry.roots ++ [⟨declared.name, role, root⟩] } := by
  rw [learn]
  split
  · next held => exact .inl ⟨rfl, .inl held⟩
  · next fresh =>
    split
    · next entry learned =>
      obtain ⟨role, _, answered⟩ := List.exists_of_findSome?_eq_some learned
      obtain ⟨root, found, rfl⟩ := Option.map_eq_some_iff.mp answered
      exact .inr ⟨role, root, by simpa using fresh, found, rfl⟩
    · next none => exact .inl ⟨rfl, .inr (learn?_eq_none_iff.mp none)⟩

private theorem Sound.learn (sound : Sound known registry) (member : declared ∈ known) :
    Sound known (registry.learn declared) := by
  obtain ⟨same, _⟩ | ⟨role, root, fresh, found, added⟩ := learn_cases registry declared
  · rwa [same]
  · obtain ⟨framework, leads⟩ := sound.rootBase? member found
    have unnamed : declared.name ∉ registry.roots.map LocalRoot.name := by
      rw [← root?_isSome_iff, fresh]
      exact Bool.false_ne_true
    rw [added]
    refine ⟨?_, ?_, ?_⟩
    · rw [List.map_append]
      refine List.nodup_append.mpr ⟨sound.distinct, List.nodup_singleton _, ?_⟩
      intro other listed last here same
      rw [same, List.mem_singleton.mp here] at listed
      exact unnamed listed
    · intro entry listed
      rcases List.mem_append.mp listed with earlier | last
      · exact sound.framework entry earlier
      · cases List.mem_singleton.mp last
        exact framework
    · intro entry listed
      rcases List.mem_append.mp listed with earlier | last
      · exact sound.leads entry earlier
      · cases List.mem_singleton.mp last
        exact leads

private theorem Sound.pass (sound : Sound known registry) (included : classes ⊆ known) :
    Sound known (registry.pass classes) := by
  induction classes generalizing registry with
  | nil => exact sound
  | cons first rest ih =>
    obtain ⟨member, below⟩ := List.cons_subset.mp included
    exact ih (sound.learn member) below

private theorem Sound.passes (sound : Sound known registry) (included : classes ⊆ known)
    (rounds : Nat) : Sound known (passes classes rounds registry) := by
  induction rounds generalizing registry with
  | zero => exact sound
  | succ rounds ih => exact ih (sound.pass included)

/-! How a registration ends. -/

/-- A registry with further entries. -/
structure Gains (before after : Registry) : Prop where
  roots : before.roots <+: after.roots
  table : after.table = before.table

theorem Gains.refl (registry : Registry) : Gains registry registry := ⟨List.prefix_rfl, rfl⟩

theorem Gains.trans (first : Gains before between) (second : Gains between after) :
    Gains before after :=
  ⟨first.roots.trans second.roots, second.table.trans first.table⟩

private theorem Gains.root?_isSome (gains : Gains before after)
    (held : (before.root? name).isSome) :
    (after.root? name).isSome := by
  rw [root?_isSome_iff] at held ⊢
  exact (gains.roots.sublist.map _).subset held

private theorem learn_gains (registry : Registry) (declared : Declared) :
    Gains registry (registry.learn declared) := by
  obtain ⟨same, _⟩ | ⟨role, root, _, _, added⟩ := learn_cases registry declared
  · rw [same]
    exact .refl registry
  · rw [added]
    exact ⟨List.prefix_append _ _, funext fun role => by cases role <;> rfl⟩

/-- A pass over the classes enters some and forgets none. -/
theorem pass_gains (registry : Registry) (classes : List Declared) :
    Gains registry (registry.pass classes) := by
  induction classes generalizing registry with
  | nil => exact .refl registry
  | cons first rest ih => exact (learn_gains registry first).trans (ih (registry.learn first))

/-- Any number of passes enter some and forget none. -/
theorem passes_gains (registry : Registry) (classes : List Declared) (rounds : Nat) :
    Gains registry (passes classes rounds registry) := by
  induction rounds generalizing registry with
  | zero => exact .refl registry
  | succ rounds ih => exact (pass_gains registry classes).trans (ih (registry.pass classes))

/-- A pass that changes something enters the name of one of its classes. -/
theorem pass_learns (changed : registry.pass classes ≠ registry) :
    ∃ declared ∈ classes, registry.root? declared.name = none ∧
      ((registry.pass classes).root? declared.name).isSome := by
  induction classes generalizing registry with
  | nil => exact absurd rfl changed
  | cons first rest ih =>
    have split : registry.pass (first :: rest) = (registry.learn first).pass rest := rfl
    obtain ⟨same, _⟩ | ⟨role, root, fresh, _, added⟩ := learn_cases registry first
    · rw [split, same] at changed ⊢
      obtain ⟨declared, member, learned⟩ := ih changed
      exact ⟨declared, List.mem_cons_of_mem _ member, learned⟩
    · refine ⟨first, List.mem_cons_self, fresh, ?_⟩
      rw [split]
      refine (pass_gains (registry.learn first) rest).root?_isSome ?_
      rw [root?_isSome_iff, added]
      simp

/-- After a pass that changes nothing no class can be learned any more. -/
theorem learn_of_pass_fixed (fixed : registry.pass classes = registry)
    (member : declared ∈ classes) : registry.learn declared = registry := by
  induction classes with
  | nil => cases member
  | cons first rest ih =>
    have split : registry.pass (first :: rest) = (registry.learn first).pass rest := rfl
    have kept : registry.learn first = registry := by
      obtain ⟨same, _⟩ | ⟨role, root, fresh, _, added⟩ := learn_cases registry first
      · exact same
      · -- An entry that was added here would still be there after the pass.
        have longer := (pass_gains (registry.learn first) rest).roots.length_le
        rw [← split, fixed, added, List.length_append] at longer
        exact absurd longer (Nat.not_succ_le_self _)
    rw [split, kept] at fixed
    rcases List.mem_cons.mp member with rfl | later
    · exact kept
    · exact ih fixed later

/-- The names of classes that have no entry. -/
def unknownNames (classes : List Declared) (registry : Registry) : Finset String :=
  (classes.map Declared.name).toFinset.filter fun name => registry.root? name = none

private theorem unknownNames_card_le (classes : List Declared) (registry : Registry) :
    (unknownNames classes registry).card ≤ classes.length := by
  calc (unknownNames classes registry).card
      ≤ (classes.map Declared.name).toFinset.card := Finset.card_filter_le _ _
    _ ≤ (classes.map Declared.name).length := List.toFinset_card_le _
    _ = classes.length := List.length_map _

private theorem unknownNames_pass (changed : registry.pass classes ≠ registry) :
    (unknownNames classes (registry.pass classes)).card < (unknownNames classes registry).card := by
  obtain ⟨declared, member, fresh, learned⟩ := pass_learns changed
  refine Finset.card_lt_card ⟨fun name unknown => ?_, fun included => ?_⟩
  · obtain ⟨listed, absent⟩ := Finset.mem_filter.mp unknown
    refine Finset.mem_filter.mpr ⟨listed, ?_⟩
    cases held : registry.root? name with
    | none => rfl
    | some entry =>
      have kept : ((registry.pass classes).root? name).isSome :=
        (pass_gains registry classes).root?_isSome (by rw [held]; rfl)
      rw [absent] at kept
      cases kept
  · have unknown : declared.name ∈ unknownNames classes registry := Finset.mem_filter.mpr
      ⟨List.mem_toFinset.mpr (List.mem_map_of_mem member), fresh⟩
    have absent := (Finset.mem_filter.mp (included unknown)).2
    rw [absent] at learned
    cases learned

/-- Passes over classes until one of them learns nothing. -/
inductive Loop (classes : List Declared) : Registry → Registry → Prop where
  | ended {found : Registry} (fixed : found.pass classes = found) : Loop classes found found
  | again {found final : Registry} (learned : found.pass classes ≠ found)
    (rest : Loop classes (found.pass classes) final) : Loop classes found final

private theorem Loop.fixed (loop : Loop classes before after) : after.pass classes = after := by
  induction loop with
  | ended fixed => exact fixed
  | again _ _ ih => exact ih

private theorem passes_of_fixed (fixed : registry.pass classes = registry) (rounds : Nat) :
    passes classes rounds registry = registry := by
  induction rounds with
  | zero => rfl
  | succ rounds ih => rw [passes, fixed, ih]

/-- As many passes as there are names without an entry are enough to end the loop. -/
theorem loop_passes {rounds : Nat} (enough : (unknownNames classes registry).card ≤ rounds) :
    Loop classes registry (passes classes rounds registry) := by
  induction rounds generalizing registry with
  | zero =>
    refine .ended (Classical.byContradiction fun changed => ?_)
    have fewer := unknownNames_pass changed
    omega
  | succ rounds ih =>
    by_cases fixed : registry.pass classes = registry
    · rw [passes_of_fixed fixed]
      exact .ended fixed
    · have fewer := unknownNames_pass fixed
      exact .again fixed (ih (by omega))

private theorem loop_register (registry : Registry) (classes : List Declared) :
    Loop classes registry (registry.register classes) :=
  loop_passes (unknownNames_card_le classes registry)

/-! Registrations one after the other. -/

/-- What is known after a number of registrations. -/
def registered (extra : Config.Extraction) (calls : List (List Declared)) : Registry :=
  calls.foldl register (ofExtraction extra)

private theorem Sound.register (sound : Sound known registry) (classes : List Declared) :
    Sound (known ++ classes) (registry.register classes) :=
  (sound.mono (List.subset_append_left _ _)).passes (List.subset_append_right _ _) _

private theorem registered_concat (extra : Config.Extraction) (calls : List (List Declared))
    (classes : List Declared) :
    registered extra (calls ++ [classes]) = (registered extra calls).register classes := by
  simp [registered]

private theorem registered_gains (extra : Config.Extraction) (calls : List (List Declared)) :
    Gains (ofExtraction extra) (registered extra calls) := by
  induction calls using List.reverseRecOn with
  | nil => exact .refl _
  | append_singleton calls classes ih =>
    rw [registered_concat]
    exact ih.trans (passes_gains _ classes _)

private theorem registered_sound (extra : Config.Extraction) (calls : List (List Declared)) :
    Sound calls.flatten (registered extra calls) := by
  induction calls using List.reverseRecOn with
  | nil => exact sound_ofExtraction extra
  | append_singleton calls classes ih =>
    rw [registered_concat, List.flatten_append, List.flatten_singleton]
    exact ih.register classes

/-- What one registration does: it ends, it enters every class that has a role by then,
and it leaves nothing for another one of the same classes. -/
structure Closes (classes : List Declared) (before after : Registry) : Prop where
  loop : Loop classes before after
  entered : ∀ declared ∈ classes, ∀ role, after.has declared role = true →
    (after.root? declared.name).isSome
  repeated : after.register classes = after

/-- Registering ends with every class entered that has a role. -/
theorem register_closes (registry : Registry) (classes : List Declared) :
    Closes classes registry (registry.register classes) := by
  have loop := loop_register registry classes
  refine ⟨loop, fun declared member role has => ?_, passes_of_fixed loop.fixed _⟩
  have fixed := learn_of_pass_fixed loop.fixed member
  obtain ⟨_, known | roleless⟩ | ⟨_, _, _, _, added⟩ :=
    learn_cases (registry.register classes) declared
  · exact known
  · rw [roleless role] at has
    cases has
  · have longer := congrArg (fun found => found.roots.length) (fixed.symm.trans added)
    simp at longer

/-- Whatever has been registered, the framework bases are the configured ones, every entry
has one of its role and a chain of registered classes that leads there, and the next
registration ends, closed under the roles that it has come to know. -/
theorem registration_sound_and_closed (extra : Config.Extraction)
    (calls : List (List Declared)) :
    (registered extra calls).table = (ofExtraction extra).table ∧
      Sound calls.flatten (registered extra calls) ∧
      ∀ classes, Closes classes (registered extra calls)
        ((registered extra calls).register classes) :=
  ⟨(registered_gains extra calls).table, registered_sound extra calls, register_closes _⟩

end ApiScribe.Registry
