import ApiScribe.Proofs.TypeScript.Ownership
import ApiScribe.Proofs.TypeScript.Statements

/-! What is read off rendered files. The index says of each module what its line exports, and the
file of a module declares what was rendered into it, name by name, provided that the names are
words and that no text in the files ends a line, a quotation or a comment before its time. -/
namespace ApiScribe.TypeScript
open Text

variable {config : Config} {modules : List Module} {module : Module} {text rest : List Char}
  {names : List (List Char)}

/-! Exports. -/

namespace Export

/-- What the line of a module in the index says. A module without a line says nothing. -/
def statement? (line : Export) : Option Statement :=
  match line.names with
  | none => some (.exportAll line.module)
  | some [] => none
  | some names => some (.exportNames names line.module)

/-- A line of the index that can be read: its module can be quoted and its names are words. -/
structure Legible (line : Export) : Prop where
  quotable : Quotable line.module.toList
  words : ∀ names ∈ line.names, ∀ name ∈ names, Word name.toList

private theorem text_whole (module : String) :
    ("export * from " ++ ("'./" ++ module ++ "';")).toList =
      "export ".toList ++ '*' :: (sourceText module).toList := by
  simp [sourceText]

private theorem text_listed (names : List String) (module : String) :
    ("export \x7b " ++ ", ".intercalate names ++ " \x7d from " ++
        ("'./" ++ module ++ "';")).toList =
      "export ".toList ++ '{' ::
        (' ' :: joined ", ".toList (names.map String.toList) ++ [' '] ++
          '}' :: (sourceText module).toList) := by
  rw [← toList_intercalate_joined]
  simp [sourceText]

/-- A line of the index is one plain line at most, which says what the module exports. -/
theorem lines_read {line : Export} (legible : line.Legible) :
    (∀ text ∈ line.lines, PlainLine text.toList) ∧
      line.lines.filterMap (fun text => TypeScript.statement? text.toList) =
        line.statement?.toList := by
  obtain ⟨module, names⟩ := line
  have source : SingleLine (sourceText module).toList := by
    rw [sourceText, String.toList_append, String.toList_append, singleLine_append_iff,
      singleLine_append_iff]
    exact ⟨⟨by decide, legible.quotable.singleLine⟩, by decide⟩
  have plain {more : List Char} (single : SingleLine more) : PlainLine ("export ".toList ++ more) :=
    ⟨singleLine_append_iff.mpr ⟨by decide, single⟩, by simp⟩
  rcases names with _ | _ | ⟨first, others⟩
  case none =>
    have read := statement?_exportAll legible.quotable
    have single : SingleLine ('*' :: (sourceText module).toList) :=
      List.forall_mem_cons.mpr ⟨by decide, source⟩
    rw [lines]
    simp only [List.forall_mem_singleton, List.filterMap_cons, List.filterMap_nil, text_whole, read]
    exact ⟨plain single, rfl⟩
  case some.nil => exact ⟨List.forall_mem_nil _, rfl⟩
  case some.cons =>
    have words : ∀ name ∈ (first :: others).map String.toList, Word name :=
      List.forall_mem_map.mpr (legible.words _ rfl)
    have read := statement?_exportNames legible.quotable words (by simp)
    rw [lines]
    simp only [List.forall_mem_singleton, List.filterMap_cons, List.filterMap_nil, text_listed,
      read]
    refine ⟨plain ?_, by simp [statement?, Function.comp_def]⟩
    have single : SingleLine (joined ", ".toList ((first :: others).map String.toList)) :=
      singleLine_joined (by decide) fun name member => (words name member).singleLine
    have braced (listed : List Char) (single : SingleLine listed) :
        SingleLine ('{' :: (' ' :: listed ++ [' '] ++ '}' :: (sourceText module).toList)) := by
      generalize (sourceText module).toList = behind at source ⊢
      have front : SingleLine (' ' :: listed ++ [' ']) :=
        singleLine_append_iff.mpr ⟨List.forall_mem_cons.mpr ⟨by decide, single⟩, by decide⟩
      have back : SingleLine ('}' :: behind) := List.forall_mem_cons.mpr ⟨by decide, source⟩
      exact List.forall_mem_cons.mpr ⟨by decide, singleLine_append_iff.mpr ⟨front, back⟩⟩
    exact braced _ single

end Export

/-! Declarations. -/

private theorem singleLine_parameterText {parameters : List String}
    (single : ∀ parameter ∈ parameters, SingleLine parameter.toList) :
    SingleLine (parameterText parameters).toList := by
  rw [parameterText]
  split
  · decide
  · rw [String.toList_append, String.toList_append, singleLine_append_iff, singleLine_append_iff]
    exact ⟨⟨by decide, singleLine_intercalate single⟩, by decide⟩

/-- A name ends where its parameters begin, or what follows them. -/
theorem parameterText_stops (parameters : List String) {more : List Char}
    (stops : ∀ c ∈ more.head?, isWordPart c = false) :
    ∀ c ∈ ((parameterText parameters).toList ++ more).head?, isWordPart c = false := by
  rw [parameterText]
  split
  · exact stops
  · intro c head
    obtain rfl : '<' = c := by simpa using head
    decide

private theorem silent_propertyLine {property : Property} (name : SingleLine property.name.toList)
    (expression : SingleLine property.expression.toList) :
    Silent (propertyLine property).toList := by
  simp only [propertyLine, String.toList_append]
  apply silent_indented
  · simp only [singleLine_append_iff]
    refine ⟨⟨⟨⟨?_, name⟩, ?_⟩, expression⟩, by decide⟩
    all_goals split <;> decide
  · split <;> rfl

private theorem silent_memberLine {member : Property} (name : SingleLine member.name.toList)
    (expression : SingleLine member.expression.toList) : Silent (memberLine member).toList := by
  simp only [memberLine, String.toList_append]
  apply silent_indented
  · simp only [singleLine_append_iff]
    exact ⟨⟨⟨⟨by decide, name⟩, by decide⟩, expression⟩, by decide⟩
  · rfl

namespace Declaration

/-- What a declaration is written with beside its name. -/
def texts (declaration : Declaration) : List String :=
  declaration.parameters ++
    declaration.properties.flatMap (fun property => [property.name, property.expression]) ++
    match declaration.body with
    | .synonym expression => expression.toList
    | _ => []

/-- A declaration that can be read: its name is a word and no text in it ends a line. -/
structure Legible (declaration : Declaration) : Prop where
  word : Word declaration.name.toList
  single : ∀ text ∈ declaration.texts, SingleLine text.toList

instance (declaration : Declaration) : Decidable declaration.Legible :=
  decidable_of_iff
    (Word declaration.name.toList ∧ ∀ text ∈ declaration.texts, SingleLine text.toList)
    ⟨fun ⟨word, single⟩ => ⟨word, single⟩, fun legible => ⟨legible.word, legible.single⟩⟩

/-- The first line of a declaration names it. -/
private theorem headLine_read {declaration : Declaration} (legible : declaration.Legible)
    (keyword line : String) {more : List Char} (known : keyword ∈ ["interface ", "enum ", "type "])
    (whole : line.toList =
      "export ".toList ++ (keyword.toList ++ (declaration.name.toList ++ more)))
    (single : SingleLine more) (stops : ∀ c ∈ more.head?, isWordPart c = false) :
    PlainLine line.toList ∧ statement? line.toList = some (.declaration true declaration.name) := by
  rw [whole, statement?_declaration legible.word known stops, String.ofList_toList]
  refine ⟨⟨?_, by simp⟩, rfl⟩
  simp only [singleLine_append_iff]
  refine ⟨by decide, ?_, legible.word.singleLine, single⟩
  simp only [List.mem_cons, List.not_mem_nil, or_false] at known
  rcases known with rfl | rfl | rfl <;> decide

/-- Of the lines of a declaration only the first is a statement. -/
theorem bodyLines_read {declaration : Declaration} (legible : declaration.Legible) :
    (∀ line ∈ declaration.bodyLines, PlainLine line.toList) ∧
      declaration.bodyLines.filterMap (fun line => statement? line.toList) =
        [.declaration true declaration.name] := by
  have parameters : SingleLine (parameterText declaration.parameters).toList :=
    singleLine_parameterText fun parameter member =>
      legible.single parameter (by simp [texts, member])
  have inside : ∀ property ∈ declaration.properties,
      SingleLine property.name.toList ∧ SingleLine property.expression.toList := by
    intro property member
    have listed : ∀ text ∈ [property.name, property.expression], text ∈ declaration.texts :=
      fun text written => List.mem_append_left _
        (List.mem_append_right _ (List.mem_flatMap.mpr ⟨property, member, written⟩))
    exact ⟨legible.single _ (listed _ (by simp)), legible.single _ (listed _ (by simp))⟩
  have brace : Silent "\x7d".toList := ⟨by decide, by decide⟩
  have opening : SingleLine " \x7b".toList := by decide
  obtain ⟨name, body, listed, description⟩ := declaration
  cases body with
  | interface properties =>
    obtain ⟨plain, read⟩ := headLine_read legible "interface "
      ("export interface " ++ (name ++ parameterText listed) ++ " \x7b") (by simp) (by simp)
      (singleLine_append_iff.mpr ⟨parameters, opening⟩)
      (parameterText_stops listed (by simp; decide))
    have silent : ∀ line ∈ properties.map propertyLine, Silent line.toList :=
      List.forall_mem_map.mpr fun property member =>
        silent_propertyLine (inside property member).1 (inside property member).2
    exact silent_below plain read
      (List.forall_mem_append.mpr ⟨silent, List.forall_mem_singleton.mpr brace⟩)
  | enumeration members =>
    obtain ⟨plain, read⟩ := headLine_read legible "enum " ("export enum " ++ name ++ " \x7b")
      (by simp) (by simp) opening (by simp; decide)
    have silent : ∀ line ∈ members.map memberLine, Silent line.toList :=
      List.forall_mem_map.mpr fun member listed =>
        silent_memberLine (inside member listed).1 (inside member listed).2
    exact silent_below plain read
      (List.forall_mem_append.mpr ⟨silent, List.forall_mem_singleton.mpr brace⟩)
  | synonym expression =>
    have single : SingleLine (expression.getD "none").toList := by
      cases expression with
      | none => decide
      | some text => exact legible.single text (by simp [texts])
    have ending : SingleLine (" = ".toList ++ ((expression.getD "none").toList ++ ";".toList)) := by
      rw [singleLine_append_iff, singleLine_append_iff]
      exact ⟨by decide, single, by decide⟩
    obtain ⟨plain, read⟩ := headLine_read legible "type "
      ("export type " ++ (name ++ parameterText listed) ++ " = " ++
        expression.getD "none" ++ ";") (by simp) (by simp)
      (singleLine_append_iff.mpr ⟨parameters, ending⟩)
      (parameterText_stops listed (by simp; decide))
    exact silent_below plain read (List.forall_mem_nil _)

/-- A declaration is read below its comment. -/
theorem text_read {declaration : Declaration} (legible : declaration.Legible) (rest : List Char) :
    statements (declaration.text.toList ++ rest) =
      .declaration true declaration.name :: statements rest := by
  obtain ⟨plain, read⟩ := bodyLines_read legible
  have bare : statements (declaration.bare.text.toList ++ rest) =
      .declaration true declaration.name :: statements rest := by
    rw [toList_bare, statements_unlines plain, read]
    rfl
  obtain ⟨-, ⟨-, -, same⟩ | ⟨-, comment, whole⟩⟩ := declaration.text_commented
  · rw [same, bare]
  · rw [whole, List.append_assoc, List.cons_append, statements_comment comment, bare]

/-- A declaration ends with a mark and a line end. -/
private theorem text_ends (declaration : Declaration) :
    ∃ front c, declaration.text.toList = front ++ [c, '\n'] ∧ isBlank c = false := by
  obtain ⟨above, last, front, c, whole, ends, solid⟩ : ∃ above last front c,
      declaration.bodyLines = above ++ [last] ∧ last.toList = front ++ [c] ∧ isBlank c = false := by
    rw [bodyLines]
    split
    · exact ⟨_, "\x7d", [], '}', rfl, rfl, by decide⟩
    · exact ⟨_, "\x7d", [], '}', rfl, rfl, by decide⟩
    · exact ⟨[], _, _, ';', rfl, String.toList_append, by decide⟩
  refine ⟨(unlines (docComment declaration.description ++ above)).toList ++ front, c, ?_, solid⟩
  rw [text, whole, ← List.append_assoc, toList_unlines_append, toList_unlines_cons, ends]
  simp

/-- What is cut off for a file is put back with the line end. -/
theorem toList_block (declaration : Declaration) :
    declaration.block.toList ++ ['\n'] = declaration.text.toList := by
  obtain ⟨front, c, whole, solid⟩ := declaration.text_ends
  have reversed : (front ++ [c, '\n']).reverse = '\n' :: c :: front.reverse := by simp
  have trimmed : trimEnd (front ++ [c, '\n']) = front ++ [c] := by
    rw [trimEnd, reversed, List.dropWhile_cons_of_pos (by decide),
      List.dropWhile_cons_of_neg (by simp [solid]), List.reverse_cons, List.reverse_reverse]
  rw [block, String.toList_ofList, whole, trimmed, List.append_assoc]
  rfl

end Declaration

/-! Files. -/

/-- What stands between the header of a file and its declarations. -/
def importText (imports : List Import) : String :=
  if imports.isEmpty then "" else unlines ("" :: imports.map importLine)

/-- A file is its header, its imports and its declarations with an empty line above each. -/
theorem toList_fileText (config : Config) (title : String) (imports : List Import)
    (declarations : List Declaration) :
    (fileText title config.projectName config.version imports declarations).toList =
      fileHeader config title ++ '\n' :: ((importText imports).toList ++
        declarations.flatMap fun declaration => '\n' :: declaration.text.toList) := by
  have blocks : (unlines (declarations.flatMap fun declaration => ["", declaration.block])).toList =
      declarations.flatMap fun declaration => '\n' :: declaration.text.toList := by
    induction declarations with
    | nil => rfl
    | cons first rest ih =>
      rw [List.flatMap_cons, List.flatMap_cons, toList_unlines_append, ih, toList_unlines_cons,
        toList_unlines_cons, ← first.toList_block, List.append_assoc]
      rfl
  rw [fileText, String.toList_append, String.toList_append, blocks, toList_unlines (by simp)]
  simp [fileHeader, commentOf, importText]

/-- The index is its header and below an empty line the lines of the modules. -/
theorem toList_indexText (config : Config) (exports : List Export) :
    (indexText config.projectName config.version exports).toList =
      indexHeader config ++ '\n' :: '\n' ::
        (unlines ((⟨commonModule, none⟩ :: exports).flatMap Export.lines)).toList := by
  have common : "export * from './" ++ commonModule ++ "';" =
      "export * from " ++ ("'./" ++ commonModule ++ "';") := by decide
  have lines : (⟨commonModule, none⟩ :: exports).flatMap Export.lines =
      ("export * from './" ++ commonModule ++ "';") :: exports.flatMap Export.lines := by
    rw [common]
    rfl
  rw [indexText, lines, toList_unlines_append, toList_unlines_cons]
  simp [indexHeader, commentOf, joined]

private theorem silent_importLine {found : Import} (module : SingleLine found.module.toList)
    (names : ∀ name ∈ found.names, SingleLine name.toList) : Silent (importLine found).toList := by
  have whole : (importLine found).toList = "import type \x7b ".toList ++
      ((", ".intercalate found.names).toList ++ (" \x7d from './".toList ++
        (found.module.toList ++ "';".toList))) := by
    have written : importLine found = "import type \x7b " ++ ", ".intercalate found.names ++
        " \x7d from './" ++ found.module ++ "';" := rfl
    simp only [written, String.toList_append, List.append_assoc]
  have single : SingleLine (importLine found).toList := by
    simp only [whole, singleLine_append_iff]
    exact ⟨by decide, singleLine_intercalate names, by decide, module, by decide⟩
  rw [whole] at single ⊢
  exact ⟨⟨single, by simp⟩, rfl⟩

private theorem statements_feed (rest : List Char) : statements ('\n' :: rest) = statements rest :=
  @statements_line [] (by decide) rest

/-- Imports are no statements. -/
private theorem statements_importText {imports : List Import}
    (single : ∀ found ∈ imports, SingleLine found.module.toList ∧
      ∀ name ∈ found.names, SingleLine name.toList) (rest : List Char) :
    statements ((importText imports).toList ++ rest) = statements rest := by
  rw [importText]
  split
  · rfl
  · have silent : ∀ line ∈ imports.map importLine, Silent line.toList :=
      List.forall_mem_map.mpr fun found member =>
        silent_importLine (single found member).1 (single found member).2
    rw [toList_unlines_cons, List.append_assoc, List.cons_append]
    show statements ('\n' :: _) = _
    rw [statements_feed, statements_unlines fun line member => (silent line member).plain,
      nothing_said silent, List.nil_append]

/-- What is read off the file of declarations: one statement for each of them. -/
theorem statements_fileText {config : Config} {title : String} {imports : List Import}
    {declarations : List Declaration} (header : Comment (fileHeader config title))
    (imported : ∀ found ∈ imports, SingleLine found.module.toList ∧
      ∀ name ∈ found.names, SingleLine name.toList)
    (legible : ∀ declaration ∈ declarations, declaration.Legible) :
    statements (fileText title config.projectName config.version imports declarations).toList =
      declarations.map fun declaration => .declaration true declaration.name := by
  rw [toList_fileText, statements_comment header, statements_importText imported]
  induction declarations with
  | nil => exact statements_nil
  | cons first rest ih =>
    obtain ⟨here, below⟩ := List.forall_mem_cons.mp legible
    rw [List.flatMap_cons, List.cons_append, statements_feed, Declaration.text_read here, ih below,
      List.map_cons]

/-- What is read off the index: one statement for each of its lines. -/
theorem statements_indexText {config : Config} {exports : List Export}
    (header : Comment (indexHeader config))
    (legible : ∀ line ∈ ⟨commonModule, none⟩ :: exports, line.Legible) :
    statements (indexText config.projectName config.version exports).toList =
      (⟨commonModule, none⟩ :: exports).filterMap Export.statement? := by
  have plain : ∀ text ∈ (⟨commonModule, none⟩ :: exports).flatMap Export.lines,
      PlainLine text.toList := by
    intro text member
    obtain ⟨line, listed, inside⟩ := List.mem_flatMap.mp member
    exact (Export.lines_read (legible line listed)).1 text inside
  rw [toList_indexText, statements_comment header, statements_feed,
    ← List.append_nil (unlines _).toList, statements_unlines plain, statements_nil, List.append_nil,
    List.filterMap_flatMap, List.filterMap_eq_flatMap_toList]
  exact List.flatMap_congr fun line listed => (Export.lines_read (legible line listed)).2

/-- What a comment holds is not read. -/
example : statements ("/*\nexport * from './a';\n*/\nexport \x7b B, C \x7d from './d';\n" ++
    "type E = F;").toList = [.exportNames ["B", "C"] "d", .declaration false "E"] := by
  decide +kernel

/-! Names that are read. -/

/-- The names that a text declares for other modules. -/
def declaredNames (text : List Char) : List String :=
  (statements text).filterMap fun
    | .declaration true name => some name
    | _ => none

/-- The names that a statement exports, with the modules that it takes them from. A name is
exported if the module declares it. -/
def Statement.exported (declares : String → List String) : Statement → List (String × String)
  | .exportAll module => (declares module).map fun name => (name, module)
  | .exportNames names module =>
    (names.filter (declares module).contains).map fun name => (name, module)
  | .declaration .. => []

/-- The text of the declaration file of a module. The index, which is written last, is none. -/
def moduleText? (config : Config) (modules : List Module) (app : String) : Option String :=
  (emissions config modules).dropLast.findSome? fun
    | .file path text =>
      if path = modulePath config.output.typescriptDir app then some text else none
    | .problem .. => none

/-- What the index exports, as it is read off its text and those of the modules that it names. -/
def readExports (config : Config) (modules : List Module) : List (String × String) :=
  match (emissions config modules).getLast? with
  | some (.file _ text) =>
    (statements text.toList).flatMap (Statement.exported fun app =>
      ((moduleText? config modules app).map (declaredNames ·.toList)).getD [])
  | _ => []

/-- A module whose file can be read: it is called like a file that can be quoted, and nothing of
its title, imports and declarations ends a comment or a line. -/
structure Module.Legible (module : Module) : Prop where
  quotable : Quotable module.app.toList
  plain : '/' ∉ module.app.toList
  title : Confined (moduleTitle module.app).toList
  imports : ∀ found ∈ module.imports, SingleLine found.module.toList ∧
    ∀ name ∈ found.names, SingleLine name.toList
  declarations : ∀ declaration ∈ module.declarations, declaration.Legible

instance (module : Module) : Decidable module.Legible :=
  decidable_of_iff (Quotable module.app.toList ∧ '/' ∉ module.app.toList ∧
      Confined (moduleTitle module.app).toList ∧
      (∀ found ∈ module.imports, SingleLine found.module.toList ∧
        ∀ name ∈ found.names, SingleLine name.toList) ∧
      ∀ declaration ∈ module.declarations, declaration.Legible)
    ⟨fun ⟨quotable, plain, title, imports, declarations⟩ =>
        ⟨quotable, plain, title, imports, declarations⟩,
      fun legible => ⟨legible.quotable, legible.plain, legible.title, legible.imports,
        legible.declarations⟩⟩

/-- Modules whose files and index can be read. -/
structure Legible (config : Config) (modules : List Module) : Prop where
  project : Confined config.projectName.toList
  version : Confined config.version.toList
  modules : ∀ module ∈ modules, module.Legible

theorem legible_sharedModule : sharedModule.Legible := by decide +kernel

end ApiScribe.TypeScript
