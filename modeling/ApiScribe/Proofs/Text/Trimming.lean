import ApiScribe.Proofs.Text.OneLine

/-! Trimming of texts that go on. What a text shows keeps its place when more is put
behind it, so that trimmed texts tell where the continuations of one text part. -/
namespace ApiScribe.Text

variable {c d : Char} {text front rest more : List Char}

/-- A text that shows something. -/
def Shown (text : List Char) : Prop := ∃ c ∈ text, isBlank c = false

/-- A text that shows nothing. -/
def Blank (text : List Char) : Prop := ∀ c ∈ text, isBlank c = true

instance (text : List Char) : Decidable (Blank text) :=
  List.decidableBAll (isBlank · = true) text

theorem blank_or_shown (text : List Char) : Blank text ∨ Shown text := by
  by_cases all : Blank text
  · exact .inl all
  · right
    simp only [Blank, not_forall] at all
    obtain ⟨c, member, solid⟩ := all
    exact ⟨c, member, by simpa using solid⟩

theorem Shown.not_blank (shown : Shown text) : ¬ Blank text := by
  obtain ⟨c, member, solid⟩ := shown
  intro blank
  rw [blank c member] at solid
  cases solid

theorem Shown.append (shown : Shown text) (more : List Char) : Shown (text ++ more) := by
  obtain ⟨c, member, solid⟩ := shown
  exact ⟨c, List.mem_append_left more member, solid⟩

theorem shown_cons (solid : isBlank c = false) (rest : List Char) : Shown (c :: rest) :=
  ⟨c, List.mem_cons_self, solid⟩

private theorem trimStart_of_blank (blank : Blank text) : trimStart text = [] :=
  List.dropWhile_eq_nil_iff.mpr blank

private theorem trimEnd_of_blank (blank : Blank text) : trimEnd text = [] := by
  rw [trimEnd, List.dropWhile_eq_nil_iff.mpr fun c member => blank c (List.mem_reverse.mp member)]
  rfl

theorem trim_of_blank (blank : Blank text) : trim text = [] := by
  rw [trim, trimStart_of_blank blank]
  rfl

/-- What stands behind a text is trimmed by itself, unless nothing of it is left. -/
theorem trimEnd_append (front rest : List Char) :
    trimEnd (front ++ rest) =
      if trimEnd rest = [] then trimEnd front else front ++ trimEnd rest := by
  rw [trimEnd, List.reverse_append, List.dropWhile_append]
  by_cases none : rest.reverse.dropWhile isBlank = []
  · simp [trimEnd, none]
  · simp [trimEnd, none]

/-- A text loses none of its last characters if it shows something there. -/
theorem trimEnd_shown (shown : Shown rest) (front : List Char) :
    ∃ back, back ≠ [] ∧ back <+: rest ∧ trimEnd (front ++ rest) = front ++ back := by
  have some : trimEnd rest ≠ [] := by
    intro none
    rw [trimEnd, List.reverse_eq_nil_iff, List.dropWhile_eq_nil_iff] at none
    exact shown.not_blank fun c member => none c (List.mem_reverse.mpr member)
  exact ⟨trimEnd rest, some, trimEnd_begins rest, by rw [trimEnd_append, if_neg some]⟩

/-- A text that shows something is not trimmed to nothing. -/
theorem trim_ne_nil (shown : Shown text) : trim text ≠ [] := by
  obtain ⟨c, member, solid⟩ := shown
  exact List.ne_nil_of_mem (mem_trim solid member)

/-- The blanks that a text begins with are the same ones whatever follows, once it shows
something. -/
theorem trimStart_shown (shown : Shown text) :
    ∃ start, ∀ rest, trimStart (text ++ rest) = start ++ rest := by
  have some : ¬ (text.dropWhile isBlank).isEmpty = true := by
    rw [List.isEmpty_iff, List.dropWhile_eq_nil_iff]
    exact shown.not_blank
  refine ⟨text.dropWhile isBlank, fun rest => ?_⟩
  rw [trimStart, List.dropWhile_append, if_neg some]

/-- Blanks behind a text make no difference. -/
theorem trim_append_blank (blank : Blank more) (text : List Char) :
    trim (text ++ more) = trim text := by
  rcases blank_or_shown text with none | shown
  · have all : Blank (text ++ more) := fun c member =>
      (List.mem_append.mp member).elim (none c) (blank c)
    rw [trim_of_blank all, trim_of_blank none]
  · obtain ⟨start, same⟩ := trimStart_shown shown
    have alone := same []
    rw [List.append_nil, List.append_nil] at alone
    rw [trim, trim, same, alone, trimEnd_append, if_pos (trimEnd_of_blank blank)]

/-- A longer text is trimmed to the same only if nothing but blanks was added. -/
theorem blank_of_trim_append (shown : Shown text) (same : trim (text ++ more) = trim text) :
    Blank more := by
  refine (blank_or_shown more).resolve_right fun shows => ?_
  obtain ⟨start, starts⟩ := trimStart_shown shown
  obtain ⟨back, some, _, kept⟩ := trimEnd_shown shows start
  have alone := starts []
  rw [List.append_nil, List.append_nil] at alone
  rw [trim, trim, starts, alone, kept] at same
  have shorter := (trimEnd_begins start).length_le
  have longer := congrArg List.length same
  have room := List.length_pos_iff.mpr some
  rw [List.length_append] at longer
  omega

private theorem first_of_trim_append (shown : Shown text) (shows : Shown (c :: rest))
    (same : trim (text ++ c :: rest) = trim (text ++ d :: more)) : c = d := by
  obtain ⟨start, starts⟩ := trimStart_shown shown
  obtain ⟨back, some, ⟨cut, begins⟩, kept⟩ := trimEnd_shown shows start
  obtain ⟨first, others, rfl⟩ := List.exists_cons_of_ne_nil some
  obtain ⟨lost, whole⟩ := trimEnd_begins (start ++ d :: more)
  rw [trim, trim, starts, starts, kept] at same
  rw [← same, List.append_assoc, List.append_cancel_left_eq] at whole
  exact (List.cons.inj begins).1.symm.trans (List.cons.inj whole).1

/-- Two continuations of a text that part with their first characters show nothing if
they are trimmed to the same. -/
theorem blank_of_trim_eq (shown : Shown text) (apart : c ≠ d)
    (same : trim (text ++ c :: rest) = trim (text ++ d :: more)) :
    Blank (c :: rest) ∧ Blank (d :: more) :=
  ⟨(blank_or_shown _).resolve_right fun shows => apart (first_of_trim_append shown shows same),
    (blank_or_shown _).resolve_right fun shows =>
      apart (first_of_trim_append shown shows same.symm).symm⟩

/-- Blanks can be taken out of a text before it is trimmed. -/
theorem trim_filter {keep : Char → Bool} (blanks : ∀ c, keep c = false → isBlank c = true)
    (text : List Char) : trim (text.filter keep) = (trim text).filter keep := by
  have start (text : List Char) :
      (text.filter keep).dropWhile isBlank = (text.dropWhile isBlank).filter keep := by
    induction text with
    | nil => rfl
    | cons c rest ih =>
      by_cases blank : isBlank c = true
      · rw [List.dropWhile_cons_of_pos blank, ← ih, List.filter_cons]
        split
        · exact List.dropWhile_cons_of_pos blank
        · rfl
      · have kept : keep c = true := by
          by_contra dropped
          exact blank (blanks c (by simpa using dropped))
        rw [List.filter_cons_of_pos kept, List.dropWhile_cons_of_neg blank,
          List.dropWhile_cons_of_neg blank, List.filter_cons_of_pos kept]
  rw [trim, trim, trimStart, trimStart, start, trimEnd, trimEnd, ← List.filter_reverse, start,
    List.filter_reverse]

end ApiScribe.Text
