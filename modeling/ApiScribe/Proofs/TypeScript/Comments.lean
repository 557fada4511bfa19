import ApiScribe.Proofs.Text.Marks
import ApiScribe.Proofs.Text.OneLine
import ApiScribe.Proofs.Text.Trimming
import ApiScribe.TypeScript.Text

/-! Comments above declarations. A comment is put together from texts below its first line, and
nothing of them gets out of it if none holds the mark that ends comments and all their lines
begin with a star. The lines of a description are guarded for that, so that a declaration stands
right behind its comment whatever its description says. -/
namespace ApiScribe.TypeScript
open Text

variable {text line : List Char} {texts : List (List Char)}

/-- The mark that ends a comment. -/
def closer : List Char := ['*', '/']

/-- How every line of a comment begins but the first one. -/
def starred : List Char := [' ', '*']

/-- A text that is one comment, which ends on a line of its own. -/
structure Comment (text : List Char) : Prop where
  opens : (splitAt (· == '\n') text).head? = some "/**".toList
  ends : (splitAt (· == '\n') text).getLast? = some " */".toList
  /-- The mark that ends comments stands at the end and nowhere before. -/
  once : ∃ inside, text = inside ++ closer ∧ ¬ closer <:+: inside ++ ['*']
  lines : ∀ line ∈ (splitAt (· == '\n') text).tail, starred <+: line

/-- A text that can stand in a comment below its first line. -/
structure Contained (text : List Char) : Prop where
  unclosed : ¬ closer <:+: text
  lines : ∀ line ∈ splitAt (· == '\n') text, starred <+: line

/-- Texts one below the other in a comment. -/
def commentOf (texts : List (List Char)) : List Char :=
  joined ['\n'] ("/**".toList :: texts ++ [" */".toList])

private theorem closer_unbroken : '\n' ∉ closer := by decide

private theorem splitAt_commentOf (texts : List (List Char)) :
    splitAt (· == '\n') (commentOf texts) =
      "/**".toList :: texts.flatMap (splitAt (· == '\n')) ++ [" */".toList] := by
  rw [commentOf, splitAt_joined_flatMap (by simp)]
  simp [splitAt]

/-- The mark at the end of a comment is its only one if no text in it holds one. -/
theorem once_commentOf_iff :
    (∃ inside, commentOf texts = inside ++ closer ∧ ¬ closer <:+: inside ++ ['*']) ↔
      ∀ text ∈ texts, ¬ closer <:+: text := by
  have whole : commentOf texts =
      joined ['\n'] (("/**".toList :: texts) ++ [[' ']]) ++ closer :=
    joined_concat_append ['\n'] ("/**".toList :: texts) [' '] closer
  have starting : joined ['\n'] (("/**".toList :: texts) ++ [[' ']]) ++ ['*'] =
      joined ['\n'] (("/**".toList :: texts) ++ [starred]) :=
    (joined_concat_append ['\n'] ("/**".toList :: texts) [' '] ['*']).symm
  have held : closer <:+: joined ['\n'] (("/**".toList :: texts) ++ [starred]) ↔
      ∃ text ∈ texts, closer <:+: text := by
    rw [infix_joined_iff closer_unbroken (by simp)]
    have first : ¬ closer <:+: "/**".toList := by decide
    have last : ¬ closer <:+: starred := by decide
    simp only [List.cons_append, List.exists_mem_cons_iff, List.mem_append, List.mem_singleton,
      or_and_right, exists_or, exists_eq_left, first, last, false_or, or_false]
  constructor
  · rintro ⟨inside, same, once⟩ text member here
    obtain rfl := List.append_cancel_right (whole.symm.trans same)
    apply once
    rw [starting, held]
    exact ⟨text, member, here⟩
  · intro free
    refine ⟨_, whole, ?_⟩
    rw [starting, held]
    rintro ⟨text, member, here⟩
    exact free text member here

/-- A comment is put together of texts that can stand in one. -/
theorem comment_commentOf_iff : Comment (commentOf texts) ↔ ∀ text ∈ texts, Contained text := by
  constructor
  · intro comment text member
    refine ⟨once_commentOf_iff.mp comment.once text member, fun line listed => ?_⟩
    apply comment.lines
    rw [splitAt_commentOf]
    exact List.mem_append_left _ (List.mem_flatMap.mpr ⟨text, member, listed⟩)
  · intro contained
    refine ⟨?_, ?_, once_commentOf_iff.mpr fun text member => (contained text member).unclosed, ?_⟩
    · rw [splitAt_commentOf]
      rfl
    · rw [splitAt_commentOf]
      exact List.getLast?_concat
    · rw [splitAt_commentOf]
      intro line listed
      rcases List.mem_append.mp listed with inside | last
      · obtain ⟨text, member, within⟩ := List.mem_flatMap.mp inside
        exact (contained text member).lines line within
      · rw [List.mem_singleton.mp last]
        decide

/-! Lines of a description. -/

private theorem head?_guardLine (line : List Char) : (guardLine line).head? = line.head? := by
  fun_cases guardLine line <;> rfl

/-- A guarded line does not end a comment. -/
theorem guardLine_open (line : List Char) : ¬ closer <:+: guardLine line := by
  fun_induction guardLine line with
  | case1 rest ih => simpa [closer, List.infix_cons_iff] using ih
  | case2 c rest plain ih =>
    intro here
    rcases List.infix_cons_iff.mp here with begins | later
    · -- The mark would be made of the first two characters, and these were in the line.
      obtain ⟨star, slash⟩ := List.cons_prefix_cons.mp begins
      have second : (guardLine rest).head? = some '/' := by
        obtain ⟨more, whole⟩ := slash
        rw [← whole]
        rfl
      rw [head?_guardLine] at second
      obtain ⟨more, rfl⟩ := List.head?_eq_some_iff.mp second
      exact plain more star.symm rfl
    · exact ih later
  | case3 => decide

private theorem guardLine_unbroken (unbroken : '\n' ∉ line) : '\n' ∉ guardLine line := by
  fun_induction guardLine line with
  | case1 rest ih =>
    simp only [List.mem_cons, not_or] at unbroken ⊢
    exact ⟨unbroken.1, by decide, unbroken.2.1, ih unbroken.2.2⟩
  | case2 c rest _ ih =>
    simp only [List.mem_cons, not_or] at unbroken ⊢
    exact ⟨unbroken.1, ih unbroken.2⟩
  | case3 => exact unbroken

/-- A line of a comment is its beginning with the guarded line behind it. -/
theorem toList_commentLine (line : List Char) :
    (commentLine line).toList = starred ∨
      (commentLine line).toList = starred ++ ' ' :: guardLine (trimEnd line) := by
  rw [commentLine]
  split
  · exact .inl rfl
  · next c rest guarded =>
    right
    rw [guarded, String.toList_ofList]
    rfl

private theorem contained_commentLine (unbroken : '\n' ∉ line) :
    Contained (commentLine line).toList := by
  have guarded : '\n' ∉ guardLine (trimEnd line) :=
    guardLine_unbroken fun feed => unbroken ((trimEnd_begins line).subset feed)
  have alone {text : List Char} (free : '\n' ∉ text) (begins : starred <+: text) :
      ∀ line ∈ splitAt (· == '\n') text, starred <+: line := by
    intro line listed
    have whole : splitAt (· == '\n') text = [text] :=
      splitAt_of_none fun c member => beq_false_of_ne (ne_of_mem_of_not_mem member free)
    rw [whole, List.mem_singleton] at listed
    rwa [listed]
  rcases toList_commentLine line with empty | written
  · rw [empty]
    exact ⟨by decide, alone (by decide) List.prefix_rfl⟩
  · rw [written]
    refine ⟨fun here => ?_, alone (by simp [starred, guarded]) (List.prefix_append _ _)⟩
    rw [infix_append_cons_iff (by decide)] at here
    rcases here with front | behind
    · exact absurd front (by decide)
    · exact guardLine_open _ behind

/-! Declarations. -/

/-- A description that shows something. -/
def Described (description : Option String) : Prop := ∃ text ∈ description, Shown text.toList

/-- The comment of a description as a text. -/
def commentText (description : Option String) : List Char :=
  joined ['\n'] ((docComment description).map String.toList)

private theorem docComment_of_blank {description : Option String}
    (blank : ¬ Described description) :
    docComment description = [] := by
  have nothing : trim (description.getD "").toList = [] := by
    cases description with
    | none => rfl
    | some text =>
      apply trim_of_blank
      exact (blank_or_shown text.toList).resolve_right fun shown => blank ⟨text, rfl, shown⟩
  rw [docComment, nothing]

private theorem comment_commentText {description : Option String}
    (described : Described description) :
    docComment description ≠ [] ∧ Comment (commentText description) := by
  obtain ⟨text, rfl, shown⟩ := described
  obtain ⟨c, rest, whole⟩ := List.exists_cons_of_ne_nil (trim_ne_nil shown)
  have written : docComment (some text) =
      "/**" :: (lines (c :: rest)).map commentLine ++ [" */"] := by
    rw [docComment, Option.getD_some, whole]
  have made : commentText (some text) =
      commentOf ((lines (c :: rest)).map fun line => (commentLine line).toList) := by
    rw [commentText, written, commentOf]
    simp [Function.comp_def]
  refine ⟨by simp [written], ?_⟩
  rw [made, comment_commentOf_iff]
  intro line member
  obtain ⟨source, listed, rfl⟩ := List.mem_map.mp member
  exact contained_commentLine (lines_unbroken listed)

/-- Lines with their line ends are the lines joined and one more line end. -/
theorem toList_unlines {written : List String} (some : written ≠ []) :
    (unlines written).toList = joined ['\n'] (written.map String.toList) ++ ['\n'] := by
  induction written with
  | nil => exact absurd rfl some
  | cons first others ih =>
    have step : (unlines (first :: others)).toList =
        first.toList ++ '\n' :: (unlines others).toList := by
      simp [unlines, String.toList_join]
    rw [step]
    cases others with
    | nil => simp [unlines, joined]
    | cons second rest =>
      rw [ih (List.cons_ne_nil _ _)]
      simp [joined_cons_cons]

theorem toList_unlines_append (front rest : List String) :
    (unlines (front ++ rest)).toList = (unlines front).toList ++ (unlines rest).toList := by
  simp [unlines, String.toList_join]

namespace Declaration

/-- A declaration without its description. -/
def bare (declaration : Declaration) : Declaration := { declaration with description := none }

theorem toList_bare (declaration : Declaration) :
    declaration.bare.text.toList = (unlines declaration.bodyLines).toList := rfl

/-- What is declared is exported, so that its text begins with that word. -/
theorem export_bare (declaration : Declaration) :
    "export ".toList <+: declaration.bare.text.toList := by
  have begins : ∃ more others, declaration.bodyLines = ("export " ++ more) :: others := by
    rw [bodyLines]
    split
    · exact ⟨"interface " ++ _, _, by simp only [String.append_assoc]; rfl⟩
    · exact ⟨"enum " ++ _, _, by simp only [String.append_assoc]; rfl⟩
    · exact ⟨"type " ++ _, _, by simp only [String.append_assoc]; rfl⟩
  obtain ⟨more, others, whole⟩ := begins
  rw [toList_bare, whole]
  exact ⟨more.toList ++ '\n' :: (unlines others).toList, by simp [unlines, String.toList_join]⟩

/-- A declaration with a description stands right behind a comment that it cannot get out of;
one without any stands alone. -/
theorem text_commented (declaration : Declaration) :
    "export ".toList <+: declaration.bare.text.toList ∧
      ((¬ Described declaration.description ∧ docComment declaration.description = [] ∧
          declaration.text = declaration.bare.text) ∨
        (Described declaration.description ∧ Comment (commentText declaration.description) ∧
          declaration.text.toList =
            commentText declaration.description ++ '\n' :: declaration.bare.text.toList)) := by
  refine ⟨declaration.export_bare, ?_⟩
  by_cases described : Described declaration.description
  · right
    obtain ⟨some, comment⟩ := comment_commentText described
    refine ⟨described, comment, ?_⟩
    rw [text, toList_unlines_append, toList_unlines some, toList_bare, List.append_assoc]
    rfl
  · left
    have nothing := docComment_of_blank described
    refine ⟨described, nothing, ?_⟩
    rw [text, nothing]
    rfl

example : docComment (some "A product.\n\nSold **/ online. ") =
    ["/**", " * A product.", " *", " * Sold **\\/ online.", " */"] := by
  decide +kernel

end Declaration
end ApiScribe.TypeScript
