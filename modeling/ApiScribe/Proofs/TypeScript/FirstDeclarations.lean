import ApiScribe.TypeScript.Files

/-! A declaration file holds the first declaration of each name. What comes up again
is left out and reported, once for every time that it does. -/
namespace ApiScribe.TypeScript

variable {declarations : List Declaration} {seen : List String} {name : String}

/-- The declarations that the file of a list holds. -/
def heldDeclarations (declarations : List Declaration) : List Declaration :=
  (firstDeclarations [] declarations).1

/-- The names that are reported because they come up again. -/
def repeatedNames (declarations : List Declaration) : List String :=
  (firstDeclarations [] declarations).2

private theorem firstDeclarations_known {first : Declaration} {rest : List Declaration}
    (known : first.name ∈ seen) :
    firstDeclarations seen (first :: rest) =
      ((firstDeclarations seen rest).1, first.name :: (firstDeclarations seen rest).2) := by
  rw [firstDeclarations, if_pos (by simpa using known)]

private theorem firstDeclarations_fresh {first : Declaration} {rest : List Declaration}
    (fresh : first.name ∉ seen) :
    firstDeclarations seen (first :: rest) =
      (first :: (firstDeclarations (first.name :: seen) rest).1,
        (firstDeclarations (first.name :: seen) rest).2) := by
  rw [firstDeclarations, if_neg (by simpa using fresh)]

private theorem firstDeclarations_sublist (seen : List String) (declarations : List Declaration) :
    (firstDeclarations seen declarations).1.Sublist declarations := by
  induction declarations generalizing seen with
  | nil => exact List.nil_sublist []
  | cons first rest ih =>
    by_cases known : first.name ∈ seen
    · rw [firstDeclarations_known known]
      exact (ih seen).cons first
    · rw [firstDeclarations_fresh known]
      exact (ih _).cons_cons first

/-- The names of what is held are the names that were not seen before, each once. -/
theorem firstDeclarations_names (seen : List String) (declarations : List Declaration) :
    (firstDeclarations seen declarations).1.map Declaration.name =
      ((declarations.map Declaration.name).filter (!seen.contains ·)).eraseDups := by
  induction declarations generalizing seen with
  | nil => rfl
  | cons first rest ih =>
    rw [List.map_cons]
    by_cases known : first.name ∈ seen
    · rw [firstDeclarations_known known, List.filter_cons_of_neg (by simpa using known)]
      exact ih seen
    · rw [firstDeclarations_fresh known, List.filter_cons_of_pos (by simpa using known),
        List.eraseDups_cons, List.map_cons, ih, List.filter_filter]
      congr 3
      funext name
      by_cases same : name = first.name <;> simp [same]

/-- A name that was not seen before is found where it is declared first. -/
theorem firstDeclarations_find? (fresh : name ∉ seen) (declarations : List Declaration) :
    (firstDeclarations seen declarations).1.find? (·.name == name) =
      declarations.find? (·.name == name) := by
  induction declarations generalizing seen with
  | nil => rfl
  | cons first rest ih =>
    by_cases known : first.name ∈ seen
    · have other : first.name ≠ name := by
        rintro rfl
        exact fresh known
      rw [firstDeclarations_known known, List.find?_cons_of_neg (by simpa using other)]
      exact ih fresh
    · rw [firstDeclarations_fresh known]
      by_cases same : first.name = name
      · rw [List.find?_cons_of_pos (by simpa using same),
          List.find?_cons_of_pos (by simpa using same)]
      · rw [List.find?_cons_of_neg (by simpa using same),
          List.find?_cons_of_neg (by simpa using same)]
        apply ih
        intro later
        rcases List.mem_cons.mp later with equal | before
        · exact same equal.symm
        · exact fresh before

/-- A name is reported for every declaration of it but the first one, which stands
before the list if the name was seen. -/
theorem firstDeclarations_count (seen : List String) (declarations : List Declaration)
    (name : String) :
    (firstDeclarations seen declarations).2.count name =
      (declarations.map Declaration.name).count name - if name ∈ seen then 0 else 1 := by
  induction declarations generalizing seen with
  | nil => simp [firstDeclarations]
  | cons first rest ih =>
    rw [List.map_cons]
    by_cases known : first.name ∈ seen
    · rw [firstDeclarations_known known]
      by_cases same : first.name = name
      · subst same
        rw [List.count_cons_self, List.count_cons_self, ih, if_pos known]
        rfl
      · rw [List.count_cons_of_ne same, List.count_cons_of_ne same]
        exact ih seen
    · rw [firstDeclarations_fresh known]
      by_cases same : first.name = name
      · subst same
        rw [List.count_cons_self, ih, if_pos List.mem_cons_self, if_neg known]
        rfl
      · rw [List.count_cons_of_ne same, ih]
        have sameSeen : name ∈ first.name :: seen ↔ name ∈ seen := by
          simp [Ne.symm same]
        simp only [sameSeen]

/-- What a declaration file makes of the declarations of a module. -/
structure HoldsFirst (declarations held : List Declaration) (reported : List String) : Prop where
  order : held.Sublist declarations
  once : held.map Declaration.name = (declarations.map Declaration.name).eraseDups
  first : ∀ name, held.find? (·.name == name) = declarations.find? (·.name == name)
  reports : ∀ name, reported.count name = (declarations.map Declaration.name).count name - 1

theorem held_first (declarations : List Declaration) :
    HoldsFirst declarations (heldDeclarations declarations) (repeatedNames declarations) where
  order := firstDeclarations_sublist [] declarations
  once := by
    have unseen : (declarations.map Declaration.name).filter (!([] : List String).contains ·) =
        declarations.map Declaration.name :=
      List.filter_eq_self.mpr fun name _ => rfl
    rw [heldDeclarations, firstDeclarations_names, unseen]
  first name := firstDeclarations_find? List.not_mem_nil declarations
  reports name := by
    rw [repeatedNames, firstDeclarations_count, if_neg List.not_mem_nil]

end ApiScribe.TypeScript
