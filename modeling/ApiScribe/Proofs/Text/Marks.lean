import ApiScribe.Text.Cut
import Mathlib.Data.List.Chain
import Mathlib.Data.List.Infix

/-! Marks and lines of texts that are put together. A mark does not reach across a character
that it does not hold, so a text that is joined by line feeds holds a mark only where one of
its segments does, and its lines are the lines of the segments. What was put at an end of a
text can be dropped again. -/
namespace ApiScribe.Text

variable {c : Char} {mark text rest : List Char} {segments : List (List Char)}

/-- A mark stands on one side of a character that it does not hold. -/
theorem infix_append_cons_iff (free : c ∉ mark) (front rest : List Char) :
    mark <:+: front ++ c :: rest ↔ mark <:+: front ∨ mark <:+: rest := by
  constructor
  · rintro ⟨before, after, whole⟩
    rw [List.append_assoc] at whole
    rcases List.append_eq_append_iff.mp whole with ⟨more, rfl, across⟩ | ⟨more, rfl, behind⟩
    · -- The mark begins before the character, so that it ends there as well.
      rcases List.append_eq_append_iff.mp across with ⟨inside, rfl, _⟩ | ⟨beyond, rfl, held⟩
      · exact .inl ⟨before, inside, by simp⟩
      · cases beyond with
        | nil => exact .inl ⟨before, [], by simp⟩
        | cons first others =>
          obtain ⟨rfl, _⟩ := List.cons.inj held
          exact absurd (List.mem_append_right more List.mem_cons_self) free
    · cases more with
      | cons first others =>
        obtain ⟨_, rfl⟩ := List.cons.inj behind
        exact .inr ⟨others, after, by simp⟩
      | nil =>
        cases mark with
        | nil => exact .inl List.nil_infix
        | cons first others =>
          obtain ⟨rfl, _⟩ := List.cons.inj behind
          exact absurd List.mem_cons_self free
  · rintro (here | there)
    · exact here.trans (List.prefix_append front _).isInfix
    · exact there.trans ((List.suffix_cons c rest).trans (List.suffix_append front _)).isInfix

/-- A character stands nowhere twice in a row if it never is its own neighbour. -/
theorem not_doubled_iff (c : Char) (text : List Char) :
    ¬ [c, c] <:+: text ↔ text.IsChain fun left right => ¬ (left = c ∧ right = c) := by
  rw [List.isChain_iff_forall_rel_of_append_cons_cons]
  constructor
  · rintro single a b front back rfl ⟨rfl, rfl⟩
    exact single ⟨front, back, by simp⟩
  · rintro apart ⟨front, back, whole⟩
    exact apart (by rw [← whole, List.append_assoc]; rfl) ⟨rfl, rfl⟩

/-- A joined text holds a mark where one of its segments does. -/
theorem infix_joined_iff (free : c ∉ mark) (some : segments ≠ []) :
    mark <:+: joined [c] segments ↔ ∃ segment ∈ segments, mark <:+: segment := by
  induction segments with
  | nil => exact absurd rfl some
  | cons first others ih =>
    cases others with
    | nil => simp [joined]
    | cons second others =>
      rw [joined_cons_cons, List.append_assoc, List.singleton_append,
        infix_append_cons_iff free, ih (List.cons_ne_nil _ _)]
      simp only [List.exists_mem_cons_iff]

/-- What is added to the last segment is added to the whole text. -/
theorem joined_concat_append (separator : List Char) (front : List (List Char))
    (last more : List Char) :
    joined separator (front ++ [last ++ more]) = joined separator (front ++ [last]) ++ more := by
  cases front with
  | nil => rfl
  | cons first others =>
    rw [joined_append (List.cons_ne_nil _ _) (List.cons_ne_nil _ _),
      joined_append (List.cons_ne_nil _ _) (List.cons_ne_nil _ _), joined, joined]
    simp only [List.append_assoc]

/-- The lines of a joined text are those of its segments. -/
theorem splitAt_joined_flatMap (some : segments ≠ []) :
    splitAt (· == c) (joined [c] segments) = segments.flatMap (splitAt (· == c)) := by
  induction segments with
  | nil => exact absurd rfl some
  | cons first others ih =>
    cases others with
    | nil => simp [joined]
    | cons second others =>
      rw [joined_cons_cons, List.append_assoc, List.singleton_append,
        splitAt_append (by simp), ih (List.cons_ne_nil _ _)]
      rfl

/-- Where two texts meet, the last line of the one and the first of the other are one line. -/
theorem splitAt_append_meet {separator : Char → Bool} {front others : List (List Char)}
    {last first : List Char} (above : splitAt separator text = front ++ [last])
    (below : splitAt separator rest = first :: others) :
    splitAt separator (text ++ rest) = front ++ (last ++ first) :: others := by
  induction text generalizing front last with
  | nil =>
    have whole : [[]] = front ++ [last] := above
    cases front with
    | nil =>
      cases whole
      exact below
    | cons line lines => cases lines <;> cases whole
  | cons d text ih =>
    rw [splitAt] at above
    rw [List.cons_append, splitAt]
    split at above
    · next separates =>
      rw [if_pos separates]
      cases front with
      | nil => exact absurd (List.cons.inj above).2 (splitAt_ne_nil separator text)
      | cons line lines =>
        obtain ⟨rfl, remaining⟩ := List.cons.inj above
        rw [ih remaining]
        rfl
    · next inside =>
      rw [if_neg inside]
      split at above
      · next none => exact absurd none (splitAt_ne_nil separator text)
      · next line lines whole =>
        cases front with
        | nil =>
          obtain ⟨rfl, rfl⟩ := List.cons.inj above
          have whole : splitAt separator text = [] ++ [line] := whole
          rw [ih whole]
          rfl
        | cons line' lines' =>
          obtain ⟨rfl, rfl⟩ := List.cons.inj above
          have whole : splitAt separator text = (line :: lines') ++ [last] := whole
          rw [ih whole]
          rfl

/-- The first line of a text begins it, and each further one stands in it. -/
theorem splitAt_within {separator : Char → Bool} {first : List Char} {others : List (List Char)}
    (whole : splitAt separator text = first :: others) :
    first <+: text ∧ ∀ segment ∈ others, segment <:+: text := by
  induction text generalizing first others with
  | nil =>
    cases whole
    exact ⟨List.prefix_rfl, List.forall_mem_nil _⟩
  | cons c rest ih =>
    obtain ⟨line, lines, below⟩ := List.exists_cons_of_ne_nil (splitAt_ne_nil separator rest)
    obtain ⟨begins, inside⟩ := ih below
    have later : ∀ segment ∈ lines, segment <:+: c :: rest := fun segment member =>
      List.infix_cons (inside segment member)
    rw [splitAt, below] at whole
    split at whole
    · cases whole
      exact ⟨List.nil_prefix, List.forall_mem_cons.mpr ⟨List.infix_cons begins.isInfix, later⟩⟩
    · cases whole
      exact ⟨List.cons_prefix_cons.mpr ⟨rfl, begins⟩, later⟩

/-- A line of a text stands in it. -/
theorem infix_of_mem_splitAt {separator : Char → Bool} {segment : List Char}
    (member : segment ∈ splitAt separator text) : segment <:+: text := by
  obtain ⟨first, others, whole⟩ := List.exists_cons_of_ne_nil (splitAt_ne_nil separator text)
  obtain ⟨begins, inside⟩ := splitAt_within whole
  rw [whole] at member
  rcases List.mem_cons.mp member with rfl | later
  · exact begins.isInfix
  · exact inside segment later

/-- Strings are put together as their characters are. -/
theorem toList_intercalate_joined (separator : String) (texts : List String) :
    (separator.intercalate texts).toList = joined separator.toList (texts.map String.toList) := by
  rw [String.toList_intercalate]
  induction texts with
  | nil => rfl
  | cons first others ih =>
    cases others with
    | nil => simp [joined]
    | cons second others =>
      rw [List.map_cons] at ih
      rw [List.map_cons, List.map_cons, List.intercalate_cons_cons, joined_cons_cons, ih]

theorem dropHead?_append (head rest : List Char) : dropHead? head (head ++ rest) = some rest := by
  rw [dropHead?, if_pos (by simp), List.drop_left]

theorem dropTail?_append (front tail : List Char) :
    dropTail? tail (front ++ tail) = some front := by
  rw [dropTail?, List.reverse_append, dropHead?_append]
  simp

/-- A text is cut at the first of a character, and not before. -/
theorem cutAt?_free (free : c ∉ text) (rest : List Char) :
    cutAt? [c] (text ++ c :: rest) = some (text, rest) := by
  induction text with
  | nil => simp [cutAt?, dropHead?]
  | cons d more ih =>
    simp only [List.mem_cons, not_or] at free
    obtain ⟨other, below⟩ := free
    have uncut : dropHead? [c] (d :: (more ++ c :: rest)) = none := by
      simp [dropHead?, other]
    rw [List.cons_append, cutAt?, uncut, ih below]
    rfl

end ApiScribe.Text
