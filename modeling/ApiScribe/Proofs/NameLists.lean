import Mathlib.Data.List.Nodup

/-! Lists of names: what stands under a name in a list of entries, and a list without
its repetitions. -/
namespace ApiScribe

/-- The entry that was added last counts. -/
theorem lookup_cons {α : Type} (name other : String) (value : α) (entries : List (String × α)) :
    List.lookup name ((other, value) :: entries) =
      if name = other then some value else entries.lookup name := by
  rw [List.lookup_cons]
  by_cases same : name = other
  · rw [if_pos same, beq_iff_eq.mpr same]
  · rw [if_neg same, beq_false_of_ne same]

/-- The rest of a list is filtered before its own repetitions go, so the induction is
on the length. -/
theorem eraseDups_nodup {α : Type} [BEq α] [LawfulBEq α] (items : List α) :
    items.eraseDups.Nodup := by
  induction bound : items.length using Nat.strongRecOn generalizing items with
  | _ length shorter =>
    cases items with
    | nil => exact List.nodup_nil
    | cons first rest =>
      have below : (rest.filter fun item => !item == first).length < length := by
        have filtered := List.length_filter_le (fun item => !item == first) rest
        rw [List.length_cons] at bound
        omega
      rw [List.eraseDups_cons]
      refine List.nodup_cons.mpr ⟨fun again => ?_, shorter _ below _ rfl⟩
      simpa using (List.mem_filter.mp (List.mem_eraseDups.mp again)).2

end ApiScribe
