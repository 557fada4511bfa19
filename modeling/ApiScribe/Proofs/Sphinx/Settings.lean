import ApiScribe.Proofs.Source.Assignments
import ApiScribe.Proofs.Source.Lines
import ApiScribe.Source.File
import ApiScribe.Sphinx.Pages

/-! The settings of the documentation builder as a source file. A string is written
as one literal on one line, the reader of expressions gives it back, and the file
as a whole is read as assignments of the strings that the configuration holds. -/
namespace ApiScribe.Sphinx
open Text ApiScribe.Expr ApiScribe.Source

variable {value inside front rest : List Char} {name : String}

/-! One literal. -/

/-- What stands between the quotes of a setting. -/
def escaped (value : List Char) : List Char := value.flatMap escapeSetting

private theorem settingText_eq (value : List Char) :
    settingText value = between (escaped value) := rfl

private theorem escaped_cons (c : Char) (rest : List Char) :
    escaped (c :: rest) = escapeSetting c ++ escaped rest := rfl

/-- A character is written behind a backslash, under a letter that is read as that
character, or as it is. -/
theorem escapeSetting_cases (c : Char) :
    (∃ d, escapeSetting c = ['\\', d] ∧ d ≠ '\n' ∧ d ≠ '\r' ∧
        ∀ rest, unescape ('\\' :: d :: rest) = c :: unescape rest) ∨
      (escapeSetting c = [c] ∧ c ≠ '\\' ∧ c ≠ '\'' ∧ c ≠ '\n' ∧ c ≠ '\r') := by
  by_cases marked : c = '\\' ∨ c = '\'' ∨ c = '\n' ∨ c = '\r' ∨ c = '\t'
  · left
    rcases marked with rfl | rfl | rfl | rfl | rfl
    · exact ⟨'\\', rfl, by decide, by decide, fun rest => by rw [unescape]⟩
    · exact ⟨'\'', rfl, by decide, by decide, fun rest => by rw [unescape]⟩
    · exact ⟨'n', rfl, by decide, by decide, fun rest => by rw [unescape]⟩
    · exact ⟨'r', rfl, by decide, by decide, fun rest => by rw [unescape]⟩
    · exact ⟨'t', rfl, by decide, by decide, fun rest => by rw [unescape]⟩
  · right
    simp only [not_or] at marked
    obtain ⟨slash, quote, feed, carriage, tab⟩ := marked
    refine ⟨?_, slash, quote, feed, carriage⟩
    rw [escapeSetting, if_neg slash, if_neg quote, if_neg feed, if_neg carriage, if_neg tab]

private theorem inside_escaped (value : List Char) : Inside (escaped value) := by
  induction value with
  | nil => exact .nil
  | cons c rest ih =>
    rw [escaped_cons]
    rcases escapeSetting_cases c with ⟨d, written, _⟩ | ⟨written, slash, quote, feed, _⟩
    · rw [written]
      exact .escaped d ih
    · rw [written]
      exact .plain slash quote feed ih

private theorem unescape_escaped (value : List Char) : unescape (escaped value) = value := by
  induction value with
  | nil => rfl
  | cons c rest ih =>
    rw [escaped_cons]
    rcases escapeSetting_cases c with ⟨d, written, _, _, back⟩ | ⟨written, slash, _⟩
    · rw [written]
      exact (back (escaped rest)).trans (by rw [ih])
    · rw [written]
      exact (unescape_plain slash (escaped rest)).trans (by rw [ih])

private theorem escaped_oneLine (value : List Char) :
    '\n' ∉ escaped value ∧ '\r' ∉ escaped value := by
  induction value with
  | nil => exact ⟨List.not_mem_nil, List.not_mem_nil⟩
  | cons c rest ih =>
    rw [escaped_cons]
    rcases escapeSetting_cases c with ⟨d, written, feed, carriage, _⟩ |
      ⟨written, _, _, feed, carriage⟩
    · simp [written, ih, Ne.symm feed, Ne.symm carriage]
    · simp [written, ih, Ne.symm feed, Ne.symm carriage]

private theorem settingText_oneLine (value : List Char) :
    '\n' ∉ settingText value ∧ '\r' ∉ settingText value := by
  simp [settingText_eq, between, escaped_oneLine]

/-- The reader gives back the string that a literal was written for. -/
theorem read_settingText (value : List Char) :
    read (settingText value) = .str (String.ofList value) := by
  have string := (inside_escaped value).readString?
  rw [unescape_escaped] at string
  have constant : readConstant? (between (escaped value)) = some (.str (String.ofList value)) := by
    rw [readConstant?, string]
  rw [settingText_eq, read_eq, shape_constant (tight_between (escaped value)) constant]
  rfl

/-! One line. -/

/-- Ordinary characters with a literal behind them are one logical line. -/
theorem lines_literalLine (number : Nat) (ordinary : ∀ c ∈ front, Draft.Ordinary c)
    (tight : Tight (front ++ between inside)) (inner : Inside inside) (oneLine : '\n' ∉ inside)
    (rest : List Char) :
    (Draft.blank number 0).lines (front ++ between inside ++ '\n' :: rest) =
      ⟨number, 0, front ++ between inside⟩ ::
        (Draft.blank (number + 1) (column (rest.takeWhile isIndent))).lines
          (rest.dropWhile isIndent) := by
  have free : ('\n' :: rest).head? ≠ some '\'' := by simp
  have still : (between inside).count '\n' = 0 := by
    rw [List.count_eq_zero]
    simp [between, oneLine]
  let draft := (((Draft.blank number 0).push front).push (between inside)).advance (between inside)
  have read : (Draft.blank number 0).lines (front ++ between inside ++ '\n' :: rest) =
      draft.lines ('\n' :: rest) := by
    rw [List.append_assoc, Draft.lines_pushed ordinary, between_append,
      Draft.lines_literal (by decide), inner.literalTail free]
    rfl
  have held : draft.chars = front ++ between inside := by simp [draft]
  have reached : draft.current = number := by
    simp [draft, Draft.push, Draft.advance, Draft.blank, still]
  rw [read, Draft.lines_feed rfl, Draft.finish_tight (held ▸ tight), held, reached]
  rfl

/-! The whole file. -/

/-- The lines below the three settings, which are the same for every configuration. -/
def closing : List String :=
  ["release = version", "",
    "extensions = [", "    'sphinx.ext.autodoc',", "    'sphinx.ext.viewcode',", "]", "",
    "templates_path = ['_templates']",
    "exclude_patterns = ['_build', 'Thumbs.db', '.DS_Store']", "",
    "html_theme = 'alabaster'", "html_title = project + ' ' + release"]

/-- What is read of the closing lines. -/
def closingLines : List Line := (Draft.blank 6 0).lines (unlines closing).toList

/-- No closing line is indented or decorates, or sets one of the three names again. -/
theorem closingLines_apart : ∀ line ∈ closingLines, line.indent = 0 ∧ line.isDecorator = false ∧
    ∀ found ∈ assignment? line, found.target ∉ ["project", "author", "version"] := by
  -- The kernel is slow at turning text into characters, so that this comes first.
  simp only [closingLines, closing, toList_unlines_cons, toList_unlines_nil, String.reduceToList,
    List.cons_append, List.nil_append]
  decide +kernel

/-- The line of a setting. -/
def settingLine (number : Nat) (name value : String) : Line :=
  ⟨number, 0, name.toList ++ " = ".toList ++ settingText value.toList⟩

/-- What the line of a setting is read as. -/
def settingAssignment (number : Nat) (name value : String) : Assignment :=
  ⟨name, .str value, String.ofList (trim (settingText value.toList)), false, number⟩

private theorem assignment?_settingLine (settable : Settable name) (number : Nat) (value : String) :
    assignment? (settingLine number name value) = some (settingAssignment number name value) := by
  have assigned : readAssignment? (settingLine number name value) =
      some (settingAssignment number name value) := by
    rw [settingLine, readAssignment?_plain settable, read_settingText, String.ofList_toList]
    rfl
  have other := unopened_plain settable ('=' :: ' ' :: settingText value.toList)
  have behind : name.toList ++ ' ' :: '=' :: ' ' :: settingText value.toList =
      (settingLine number name value).text := by
    simp [settingLine]
  rw [behind] at other
  rw [assignment?, kind_assignment other assigned]

/-- A page whose first line is not indented. -/
structure Flush (lines : List String) : Prop where
  taken : (unlines lines).toList.takeWhile isIndent = []
  dropped : (unlines lines).toList.dropWhile isIndent = (unlines lines).toList

private theorem flush_closing : Flush closing := by
  constructor
  · rw [closing, toList_unlines_cons]
    rfl
  · rw [closing, toList_unlines_cons]
    rfl

private theorem flush_setting (settable : Settable name) (value : String) (others : List String) :
    Flush (setting name value :: others) := by
  obtain ⟨c, first, solid⟩ := (named_of_isDottedName settable.dotted).tight.first
  obtain ⟨more, shown⟩ := List.head?_eq_some_iff.mp first
  have unindented : ¬ isIndent c = true := by
    intro indent
    simp only [isIndent, Bool.or_eq_true, beq_iff_eq] at indent
    rcases indent with (rfl | rfl) | rfl <;> cases solid
  constructor <;> simp [toList_unlines_cons, setting, shown, unindented]

/-- A character of a name is kept as it is. -/
theorem ordinary_of_isNameChar {c : Char} (named : isNameChar c = true) : Draft.Ordinary c := by
  have unmarked : ['#', '\\', '\r', '\n'].any isNameChar = false := by decide
  obtain ⟨unquoted, unopened, unclosed, other⟩ := quiet_of_isNameChar named unmarked
  simp only [List.mem_cons, not_or] at other
  obtain ⟨uncommented, solid, carriage, feed, _⟩ := other
  exact ⟨uncommented, unquoted, unopened, unclosed, solid, carriage, feed⟩

/-- The line of a setting is read as it was written. -/
theorem lines_setting (number : Nat) (settable : Settable name) (value : String)
    {others : List String} (next : Flush others) :
    (Draft.blank number 0).lines (unlines (setting name value :: others)).toList =
      settingLine number name value :: (Draft.blank (number + 1) 0).lines (unlines others).toList := by
  have named := named_of_isDottedName settable.dotted
  have front : ∀ c ∈ name.toList ++ " = ".toList, Draft.Ordinary c := by
    refine List.forall_mem_append.mpr ⟨fun c member => ?_, ?_⟩
    · exact ordinary_of_isNameChar (named.chars c member)
    · have signs : Draft.Ordinary ' ' ∧ Draft.Ordinary '=' ∧ Draft.Ordinary ' ' := by decide
      simpa using signs
  have tight : Tight (name.toList ++ " = ".toList ++ between (escaped value.toList)) := by
    rw [List.append_assoc]
    exact named.tight.append (tight_between _) _
  have read := lines_literalLine number front tight (inside_escaped _) (escaped_oneLine _).1
    (unlines others).toList
  rw [next.taken, next.dropped] at read
  rw [toList_unlines_cons, setting]
  simp only [String.toList_append, String.toList_ofList]
  exact read

/-- The comment above the settings and the empty line below it hold no statement. -/
theorem lines_headed {settings : List String} (flush : Flush settings) :
    Source.lines (unlines ("# Configuration file for the Sphinx documentation builder." :: "" ::
      settings)).toList = (Draft.blank 3 0).lines (unlines settings).toList := by
  have free : '\n' ∉ " Configuration file for the Sphinx documentation builder.".toList := by
    decide
  have oneLine : ∀ c ∈ " Configuration file for the Sphinx documentation builder.".toList,
      decide (c ≠ '\n') = true :=
    fun c member => decide_eq_true fun same => free (same ▸ member)
  have shown : (unlines ("# Configuration file for the Sphinx documentation builder." :: "" ::
      settings)).toList = '#' ::
        (" Configuration file for the Sphinx documentation builder.".toList ++
          '\n' :: '\n' :: (unlines settings).toList) := by
    simp [toList_unlines_cons]
  rw [shown, Source.lines, List.takeWhile_cons_of_neg (by decide),
    List.dropWhile_cons_of_neg (by decide), Draft.lines_comment,
    List.dropWhile_append_of_pos oneLine, List.dropWhile_cons_of_neg (by decide),
    Draft.lines_feed rfl, List.takeWhile_cons_of_neg (by decide),
    List.dropWhile_cons_of_neg (by decide), Draft.lines_feed rfl, flush.taken, flush.dropped]
  rfl

private theorem settable_project : Settable "project" :=
  ⟨by decide +kernel, by decide +kernel, by decide +kernel, by decide +kernel⟩

private theorem settable_author : Settable "author" :=
  ⟨by decide +kernel, by decide +kernel, by decide +kernel, by decide +kernel⟩

private theorem settable_version : Settable "version" :=
  ⟨by decide +kernel, by decide +kernel, by decide +kernel, by decide +kernel⟩

/-- The settings are read as the three lines and the closing ones. -/
theorem lines_settingsPage (config : Config) :
    Source.lines (settingsPage config).toList =
      settingLine 3 "project" config.projectName :: settingLine 4 "author" config.author ::
        settingLine 5 "version" config.version :: closingLines := by
  have version := flush_setting settable_version config.version closing
  have author := flush_setting settable_author config.author
    (setting "version" config.version :: closing)
  have project := flush_setting settable_project config.projectName
    (setting "author" config.author :: setting "version" config.version :: closing)
  have headed := lines_headed project
  rw [lines_setting 3 settable_project config.projectName author,
    lines_setting 4 settable_author config.author version,
    lines_setting 5 settable_version config.version flush_closing] at headed
  exact headed

/-- The assignments of the settings: the three strings, then those of the closing lines. -/
theorem assignments_settingsPage (config : Config) (path : String) :
    (File.ofText path (settingsPage config)).block.assignments =
      settingAssignment 3 "project" config.projectName ::
        settingAssignment 4 "author" config.author ::
          settingAssignment 5 "version" config.version ::
            closingLines.filterMap assignment? := by
  have flat : ∀ line ∈ Source.lines (settingsPage config).toList, line.indent = 0 := by
    rw [lines_settingsPage]
    simp only [List.forall_mem_cons]
    exact ⟨rfl, rfl, rfl, fun line member => (closingLines_apart line member).1⟩
  have plain : ∀ line ∈ Source.lines (settingsPage config).toList,
      line.isDecorator = false := by
    rw [lines_settingsPage]
    simp only [List.forall_mem_cons]
    exact ⟨rfl, rfl, rfl, fun line member => (closingLines_apart line member).2.1⟩
  have project := assignment?_settingLine settable_project 3 config.projectName
  have author := assignment?_settingLine settable_author 4 config.author
  have version := assignment?_settingLine settable_version 5 config.version
  calc (File.ofText path (settingsPage config)).block.assignments
      = (Source.lines (settingsPage config).toList).filterMap assignment? :=
        assignments_flat flat plain
    _ = _ := by
      rw [lines_settingsPage, List.filterMap_cons_some project,
        List.filterMap_cons_some author, List.filterMap_cons_some version]

/-- The closing lines leave the three names alone. -/
theorem closing_target {found : Assignment} (member : found ∈ closingLines.filterMap assignment?) :
    found.target ∉ ["project", "author", "version"] := by
  obtain ⟨line, listed, assigned⟩ := List.mem_filterMap.mp member
  exact (closingLines_apart line listed).2.2 found assigned

/-- A string is written into the settings as one literal on one line, which the reader
gives back, and the settings as a whole are read with the name of the project, its author
and its version as the configuration has them, whatever characters these hold. -/
theorem settings_faithful (config : Config) (apps : List App) :
    (∀ value, '\n' ∉ settingText value ∧ '\r' ∉ settingText value ∧
        read (settingText value) = .str (String.ofList value)) ∧
      .file (Path.join config.output.sphinxDir "conf.py") (settingsPage config) ∈
        emissions config apps ∧
      ∀ path,
        let block := (File.ofText path (settingsPage config)).block
        block.value? "project" = some (.str config.projectName) ∧
          block.value? "author" = some (.str config.author) ∧
          block.value? "version" = some (.str config.version) := by
  refine ⟨fun value => ?_, List.mem_append_right _ List.mem_cons_self, fun path => ?_⟩
  · exact ⟨(settingText_oneLine value).1, (settingText_oneLine value).2, read_settingText value⟩
  · have assigned := assignments_settingsPage config path
    refine ⟨?_, ?_, ?_⟩
    · refine Block.value?_last (assigned.trans (List.nil_append _).symm) rfl fun other later => ?_
      simp only [List.mem_cons] at later
      rcases later with rfl | rfl | later
      · simp [settingAssignment]
      · simp [settingAssignment]
      · exact fun same => closing_target later (by simp [same, settingAssignment])
    · refine Block.value?_last (assigned.trans List.singleton_append.symm) rfl fun other later => ?_
      simp only [List.mem_cons] at later
      rcases later with rfl | later
      · simp [settingAssignment]
      · exact fun same => closing_target later (by simp [same, settingAssignment])
    · have split : (File.ofText path (settingsPage config)).block.assignments =
          [settingAssignment 3 "project" config.projectName,
            settingAssignment 4 "author" config.author] ++
            settingAssignment 5 "version" config.version ::
              closingLines.filterMap assignment? := assigned
      refine Block.value?_last split rfl fun other later => ?_
      exact fun same => closing_target later (by simp [same, settingAssignment])

end ApiScribe.Sphinx
