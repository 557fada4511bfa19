import ApiScribe.Proofs.TypeScript.Comments
import ApiScribe.TypeScript.Files
import Mathlib.Data.List.Forall2

/-! Headers of declaration files. Each file begins with a comment that names the project, its
version and, in the file of a module, the application. These texts are not guarded like those of
a description, so the comment ends where it should exactly if each of them stays in it. -/
namespace ApiScribe.TypeScript
open Text

variable {text more front rest : List Char} {c : Char} {config : Config} {owners : Owners}
  {modules : List Module}

/-- A text that stays in a comment when it is written behind the beginning of a line of it: it
does not end the comment, and each further line of it begins with a star. -/
structure Confined (text : List Char) : Prop where
  unclosed : ¬ closer <:+: text
  lines : ∀ line ∈ (splitAt (· == '\n') text).tail, starred <+: line

instance (text : List Char) : Decidable (Confined text) :=
  decidable_of_iff (¬ closer <:+: text ∧ ∀ line ∈ (splitAt (· == '\n') text).tail, starred <+: line)
    ⟨fun ⟨unclosed, lines⟩ => ⟨unclosed, lines⟩, fun confined => ⟨confined.unclosed, confined.lines⟩⟩

/-- The header of the file of a module. -/
def fileHeader (config : Config) (title : String) : List Char :=
  commentOf [(" * " ++ title).toList,
    (" * Generated for " ++ config.projectName ++ " " ++ config.version).toList]

/-- The header of the index. -/
def indexHeader (config : Config) : List Char :=
  commentOf [(" * " ++ config.projectName ++ " API types").toList,
    (" * Version " ++ config.version).toList]

/-- The headers of all files, in the order in which the files are written. -/
def headers (config : Config) (modules : List Module) : List (List Char) :=
  fileHeader config "Common API Types" ::
    modules.map (fun module => fileHeader config (moduleTitle module.app)) ++ [indexHeader config]

/-- The texts of emitted files. -/
def fileTexts (emissions : List Emission) : List String :=
  emissions.filterMap fun
    | .file _ text => some text
    | .problem _ _ => none

/-- A file begins with its header. -/
def BeginsWith (header : List Char) (text : String) : Prop := header ++ ['\n'] <+: text.toList

/-- A file begins with its header, and the header is one comment: what first ends a comment in
the file is the last line of its header. -/
def Headed (header : List Char) (text : String) : Prop :=
  Comment header ∧ BeginsWith header text

/-! What stays in a comment. -/

private theorem splitAt_parts (text : List Char) :
    ∃ first others, splitAt (· == '\n') text = first :: others :=
  List.exists_cons_of_ne_nil (splitAt_ne_nil _ text)

/-- Behind the beginning of a line of a comment. -/
theorem contained_behind_iff (begins : starred <+: front) (unbroken : '\n' ∉ front)
    (unclosed : ¬ closer <:+: front) : Contained (front ++ ' ' :: text) ↔ Confined text := by
  obtain ⟨first, others, whole⟩ := splitAt_parts text
  have alone : splitAt (· == '\n') (front ++ [' ']) = [] ++ [front ++ [' ']] := by
    apply splitAt_of_none
    intro d member
    apply beq_false_of_ne
    rintro rfl
    simp [unbroken] at member
  have lines : splitAt (· == '\n') (front ++ ' ' :: text) = (front ++ ' ' :: first) :: others := by
    have met := splitAt_append_meet alone whole
    simpa using met
  have marks : closer <:+: front ++ ' ' :: text ↔ closer <:+: text :=
    (infix_append_cons_iff (by decide) front text).trans (or_iff_right unclosed)
  constructor
  · intro contained
    refine ⟨fun here => contained.unclosed (marks.mpr here), fun line listed => ?_⟩
    apply contained.lines
    rw [whole] at listed
    rw [lines]
    exact List.mem_cons_of_mem _ listed
  · intro confined
    refine ⟨fun here => confined.unclosed (marks.mp here), fun line listed => ?_⟩
    rw [lines] at listed
    rcases List.mem_cons.mp listed with rfl | later
    · exact begins.trans (List.prefix_append front _)
    · apply confined.lines
      rwa [whole]

/-- The further lines of two texts with a blank between them: where the first text has further
lines, the last one of them goes on with the first line of the second text. -/
theorem tail_splitAt_spaced (text more : List Char) :
    ((splitAt (· == '\n') text).tail = [] ∧
        (splitAt (· == '\n') (text ++ ' ' :: more)).tail = (splitAt (· == '\n') more).tail) ∨
      ∃ lines last first, (splitAt (· == '\n') more).head? = some first ∧
        (splitAt (· == '\n') text).tail = lines ++ [last] ∧
        (splitAt (· == '\n') (text ++ ' ' :: more)).tail =
          lines ++ (last ++ ' ' :: first) :: (splitAt (· == '\n') more).tail := by
  obtain ⟨first, others, below⟩ := splitAt_parts more
  have spaced : splitAt (· == '\n') (' ' :: more) = (' ' :: first) :: others := by
    rw [splitAt, if_neg (by decide), below]
  obtain ⟨front, last, above⟩ : ∃ front last, splitAt (· == '\n') text = front ++ [last] := by
    rcases List.eq_nil_or_concat (splitAt (· == '\n') text) with none | ⟨front, last, whole⟩
    · exact absurd none (splitAt_ne_nil _ text)
    · exact ⟨front, last, by rw [whole, List.concat_eq_append]⟩
  have met := splitAt_append_meet above spaced
  rw [above, met, below]
  cases front with
  | nil => exact .inl ⟨rfl, rfl⟩
  | cons line lines => exact .inr ⟨lines, last, first, rfl, rfl, rfl⟩

/-- Two texts with a blank between them stay in a comment if each of them does. -/
theorem confined_append (before : Confined text) (behind : Confined more) :
    Confined (text ++ ' ' :: more) := by
  refine ⟨fun here => ?_, fun line listed => ?_⟩
  · rw [infix_append_cons_iff (by decide)] at here
    exact here.elim before.unclosed behind.unclosed
  · rcases tail_splitAt_spaced text more with ⟨_, same⟩ | ⟨lines, last, first, _, above, same⟩
    · exact behind.lines line (same ▸ listed)
    · have upper : ∀ line ∈ lines ++ [last], starred <+: line := above ▸ before.lines
      rw [same] at listed
      rcases List.mem_append.mp listed with inside | later
      · exact upper line (List.mem_append_left _ inside)
      · rcases List.mem_cons.mp later with rfl | below
        · exact (upper last (by simp)).trans (List.prefix_append last _)
        · exact behind.lines line below

/-- What a line begins with does not change by a word behind a blank, unless a star begins it. -/
theorem starred_of_spaced {last : List Char} (other : more.head? ≠ some '*')
    (begins : starred <+: last ++ ' ' :: more) : starred <+: last := by
  match last with
  | [] =>
    obtain ⟨_, rest, star⟩ := List.cons_prefix_cons.mp begins
    exact absurd (by rw [← star]; rfl) other
  | [d] =>
    obtain ⟨_, star⟩ := List.cons_prefix_cons.mp begins
    exact absurd (List.cons_prefix_cons.mp star).1 (by decide)
  | d :: e :: others =>
    obtain ⟨rfl, star⟩ := List.cons_prefix_cons.mp begins
    obtain ⟨rfl, _⟩ := List.cons_prefix_cons.mp star
    exact List.prefix_append [' ', '*'] others

/-- A fixed word behind a text does not change whether the text stays in a comment. -/
theorem confined_before_iff (unbroken : '\n' ∉ more) (other : more.head? ≠ some '*')
    (unclosed : ¬ closer <:+: more) : Confined (text ++ ' ' :: more) ↔ Confined text := by
  have whole : splitAt (· == '\n') more = [more] :=
    splitAt_of_none fun c member => beq_false_of_ne (ne_of_mem_of_not_mem member unbroken)
  constructor
  · intro confined
    refine ⟨fun here => confined.unclosed ?_, fun line listed => ?_⟩
    · exact here.trans (List.prefix_append text _).isInfix
    · rcases tail_splitAt_spaced text more with ⟨none, _⟩ | ⟨lines, last, first, word, above, same⟩
      · rw [none] at listed
        cases listed
      · obtain rfl : more = first := by simpa [whole] using word
        have each : ∀ line ∈ lines ++ (last ++ ' ' :: more) :: (splitAt (· == '\n') more).tail,
            starred <+: line := same ▸ confined.lines
        rw [above] at listed
        rcases List.mem_append.mp listed with inside | final
        · exact each line (List.mem_append_left _ inside)
        · rw [List.mem_singleton.mp final]
          exact starred_of_spaced other (each _ (by simp))
  · intro confined
    apply confined_append confined
    refine ⟨unclosed, fun line listed => ?_⟩
    rw [whole] at listed
    cases listed

/-! Headers. -/

theorem comment_fileHeader_iff (config : Config) (title : String) :
    Comment (fileHeader config title) ↔ Confined title.toList ∧
      Confined (config.projectName.toList ++ ' ' :: config.version.toList) := by
  have generated : (" * Generated for " ++ config.projectName ++ " " ++ config.version).toList =
      " * Generated for".toList ++ ' ' :: (config.projectName.toList ++ ' ' :: config.version.toList) := by
    simp
  have titled : (" * " ++ title).toList = starred ++ ' ' :: title.toList := by
    simp [starred]
  rw [fileHeader, comment_commentOf_iff, generated, titled, List.forall_mem_cons,
    List.forall_mem_cons, contained_behind_iff (by decide) (by decide) (by decide),
    contained_behind_iff (by decide) (by decide) (by decide)]
  exact and_congr_right' (and_iff_left (List.forall_mem_nil _))

theorem comment_indexHeader_iff (config : Config) :
    Comment (indexHeader config) ↔
      Confined config.projectName.toList ∧ Confined config.version.toList := by
  have named : (" * " ++ config.projectName ++ " API types").toList =
      starred ++ ' ' :: (config.projectName.toList ++ ' ' :: "API types".toList) := by
    simp [starred]
  have versioned : (" * Version " ++ config.version).toList =
      " * Version".toList ++ ' ' :: config.version.toList := by
    simp
  rw [indexHeader, comment_commentOf_iff, named, versioned, List.forall_mem_cons,
    List.forall_mem_cons, contained_behind_iff (by decide) (by decide) (by decide),
    contained_behind_iff (by decide) (by decide) (by decide),
    confined_before_iff (by decide) (by decide) (by decide)]
  exact and_congr_right' (and_iff_left (List.forall_mem_nil _))

private theorem confined_moduleTitle_iff (app : String) :
    Confined (moduleTitle app).toList ↔ Confined (Naming.title app.toList) := by
  have title : (moduleTitle app).toList = Naming.title app.toList ++ ' ' :: "API Types".toList := by
    simp [moduleTitle]
  rw [title]
  exact confined_before_iff (by decide) (by decide) (by decide)

/-- All headers are comments exactly if the configured texts and the titles stay in them. -/
theorem comment_headers_iff (config : Config) (modules : List Module) :
    (∀ header ∈ headers config modules, Comment header) ↔
      Confined config.projectName.toList ∧ Confined config.version.toList ∧
        ∀ module ∈ modules, Confined (Naming.title module.app.toList) := by
  have common : Confined "Common API Types".toList := by decide
  simp only [headers, List.cons_append, List.forall_mem_cons, List.forall_mem_append,
    List.forall_mem_map, comment_fileHeader_iff, comment_indexHeader_iff,
    confined_moduleTitle_iff]
  constructor
  · rintro ⟨_, titles, ⟨project, version⟩, _⟩
    exact ⟨project, version, fun module member => (titles module member).1⟩
  · rintro ⟨project, version, titles⟩
    have both := confined_append project version
    exact ⟨⟨common, both⟩, fun module member => ⟨titles module member, both⟩,
      ⟨project, version⟩, List.forall_mem_nil _⟩

/-! Files. -/

private theorem fileTexts_append (first second : List Emission) :
    fileTexts (first ++ second) = fileTexts first ++ fileTexts second :=
  List.filterMap_append

private theorem fileTexts_problems (found : List α) (problem : α → Emission)
    (silent : ∀ name, fileTexts [problem name] = []) : fileTexts (found.map problem) = [] := by
  induction found with
  | nil => rfl
  | cons name rest ih =>
    have step := fileTexts_append [problem name] (rest.map problem)
    rw [silent, ih] at step
    exact step

/-- The lines of a comment are the beginning of the lines of a file. -/
theorem beginsWith_unlines (texts : List String) (rest : String) :
    BeginsWith (commentOf (texts.map String.toList)) (unlines ("/**" :: texts ++ [" */"]) ++ rest) := by
  have lines : "/**".toList :: texts.map String.toList ++ [" */".toList] =
      ("/**" :: texts ++ [" */"]).map String.toList := by
    simp
  rw [BeginsWith, commentOf, lines, String.toList_append, toList_unlines (by simp)]
  exact List.prefix_append _ _

private theorem beginsWith_fileText (config : Config) (title : String) (imports : List Import)
    (declarations : List Declaration) :
    BeginsWith (fileHeader config title)
      (fileText title config.projectName config.version imports declarations) := by
  rw [fileText, String.append_assoc]
  exact beginsWith_unlines
    [" * " ++ title, " * Generated for " ++ config.projectName ++ " " ++ config.version] _

private theorem beginsWith_indexText (config : Config) (exports : List Export) :
    BeginsWith (indexHeader config) (indexText config.projectName config.version exports) := by
  let named := [" * " ++ config.projectName ++ " API types", " * Version " ++ config.version]
  have whole : indexText config.projectName config.version exports =
      unlines ("/**" :: named ++ [" */"]) ++
        unlines (["", "export * from './" ++ commonModule ++ "';"] ++
          exports.flatMap Export.lines) := by
    apply String.toList_inj.mp
    rw [String.toList_append, ← toList_unlines_append]
    rfl
  rw [whole]
  exact beginsWith_unlines named _

private theorem fileTexts_fileEmissions (config : Config) (title app : String)
    (imports : List Import) (declarations : List Declaration) :
    ∃ held, fileTexts (fileEmissions config title app imports declarations) =
      [fileText title config.projectName config.version imports held] := by
  rw [fileEmissions, fileTexts_append, fileTexts_problems _ _ fun _ => rfl]
  exact ⟨_, rfl⟩

private theorem headed_moduleEmissions (config : Config) (owners : Owners) (modules : List Module) :
    List.Forall₂ BeginsWith (modules.map fun module => fileHeader config (moduleTitle module.app))
      (fileTexts (moduleEmissions config owners modules).1) := by
  induction modules generalizing owners with
  | nil => exact .nil
  | cons module rest ih =>
    obtain ⟨held, whole⟩ := fileTexts_fileEmissions config (moduleTitle module.app) module.app
      module.imports module.declarations
    rw [moduleEmissions, fileTexts_append, fileTexts_append, whole,
      fileTexts_problems _ _ fun _ => rfl]
    exact .cons (beginsWith_fileText config _ module.imports held) (ih _)

/-- Every file begins with the header that is its own. -/
theorem beginsWith_emissions (config : Config) (modules : List Module) :
    List.Forall₂ BeginsWith (headers config modules) (fileTexts (emissions config modules)) := by
  obtain ⟨held, whole⟩ :=
    fileTexts_fileEmissions config "Common API Types" commonModule [] commonDeclarations
  rw [emissions, fileTexts_append, fileTexts_append, whole]
  refine .cons (beginsWith_fileText config _ [] held) ?_
  refine List.rel_append (headed_moduleEmissions config _ modules) ?_
  exact .cons (beginsWith_indexText config _) .nil

/-- The headers of all files end where they should exactly if nothing that they name gets out of
a comment: neither the name of the project nor its version nor the title of an application. -/
theorem headers_closed_iff (config : Config) (modules : List Module) :
    List.Forall₂ Headed (headers config modules) (fileTexts (emissions config modules)) ↔
      Confined config.projectName.toList ∧ Confined config.version.toList ∧
        ∀ module ∈ modules, Confined (Naming.title module.app.toList) := by
  rw [← comment_headers_iff]
  exact (List.forall₂_and_left _ _).trans (and_iff_left (beginsWith_emissions config modules))

/-- A project whose name ends a comment. -/
def slashedConfig : Config := { projectName := "Shop */ API" }

theorem slashed_name_ends_header :
    ¬ List.Forall₂ Headed (headers slashedConfig [])
        (fileTexts (emissions slashedConfig [])) := by
  intro headed
  have index : Comment (indexHeader slashedConfig) :=
    (List.forall₂_and_left _ _).mp headed |>.1 _ (by simp [headers])
  have named := ((comment_indexHeader_iff slashedConfig).mp index).1
  exact absurd named (by decide)

end ApiScribe.TypeScript
