import ApiScribe.Proofs.App.FieldLists
import ApiScribe.Proofs.Expr.Constants
import ApiScribe.Proofs.Text.OneLine
import ApiScribe.Proofs.Web.Endpoints

/-! Every endpoint has a description, and it is one line: the first paragraph of a docstring
or a sentence made of names. Docstrings begin with no blank wherever they stand, and the
names that sentences are made of come from heads of functions and from dotted names, which
hold no line feed. Answers of a client are cut to one line before they are used. -/
namespace ApiScribe
open Text
open Source hiding lines
open ApiScribe.Expr (Tight read shape isDottedName)

/-! Docstrings. -/

/-- A docstring that neither begins nor ends with a blank, or none at all. -/
def TightText (docstring : Option String) : Prop := ∀ text ∈ docstring, Tight text.toList

private theorem Source.tight_cleanDocstring? {raw text : List Char}
    (cleaned : cleanDocstring? raw = some text) : Tight text := by
  rw [cleanDocstring?] at cleaned
  split at cleaned
  · cases cleaned
  · simp only at cleaned
    split at cleaned
    · cases cleaned
    · next whole =>
      cases cleaned
      rw [← whole]
      exact tight_trim (by rw [whole]; exact List.cons_ne_nil _ _)

/-- A docstring is trimmed, and a blank one is left out. -/
private theorem Source.tight_docstring? (body : List Line) : TightText (docstring? body) := by
  intro text written
  cases body with
  | nil => cases written
  | cons first rest =>
    obtain ⟨cleaned, read, rfl⟩ := Option.map_eq_some_iff.mp written
    obtain ⟨raw, _, clean⟩ := Option.bind_eq_some_iff.mp read
    rw [String.toList_ofList]
    exact tight_cleanDocstring? clean

/-- The first paragraph of a docstring makes one line. -/
theorem oneLine_summary? {docstring : Option String} {text : String} (tight : TightText docstring)
    (summary : summary? docstring = some text) : OneLine text.toList := by
  obtain ⟨found, written, shortened⟩ := Option.bind_eq_some_iff.mp summary
  obtain ⟨c, head, solid⟩ := (tight found written).first
  obtain ⟨rest, whole⟩ := List.head?_eq_some_iff.mp head
  have other : dropHead? ['\n', '\n'] (c :: rest) = none := by
    have feed : '\n' ≠ c := by
      rintro rfl
      cases solid
    exact if_neg (by simp [feed])
  have paragraph : ∃ more, text.toList = joined [' '] ((lines (c :: more)).map trim) := by
    rw [whole] at shortened
    cases cut : cutAt? ['\n', '\n'] (c :: rest) with
    | none =>
      simp only [cut] at shortened
      have same := (Option.ite_none_left_eq_some.mp shortened).2
      exact ⟨rest, by rw [← Option.some.inj same, String.toList_ofList]⟩
    | some parts =>
      obtain ⟨more, begins⟩ := cutAt?_begin other cut
      simp only [cut, begins] at shortened
      have same := (Option.ite_none_left_eq_some.mp shortened).2
      exact ⟨more, by rw [← Option.some.inj same, String.toList_ofList]⟩
  obtain ⟨more, same⟩ := paragraph
  rw [same]
  exact oneLine_paragraph solid more

/-! Names. -/

/-- A name without a line feed in it. -/
def Unbroken (name : String) : Prop := '\n' ∉ name.toList

instance (name : String) : Decidable (Unbroken name) :=
  inferInstanceAs (Decidable ('\n' ∉ name.toList))

namespace Expr

private theorem bracketShape?_ne_name (text : List Char) (dotted : String) :
    bracketShape? text ≠ some (.atom (.name dotted)) := by
  intro bracket
  rw [bracketShape?] at bracket
  split at bracket
  · cases bracket
  · rw [groupShape] at bracket
    grind
  · next inside _ _ =>
    cases dict : (splitTopLevel ',' inside).mapM (cutTopLevel? ':') <;>
      simp [dictShape?, dict] at bracket
  · cases bracket

/-- What is read as a name is a dotted name as a whole. -/
theorem isDottedName_of_shape {text : List Char} (named : shape text = .atom (.name dotted)) :
    isDottedName dotted.toList = true := by
  rw [shape, trimmedShape] at named
  split at named
  · cases named
  split at named
  · next value constant =>
    cases named
    cases isConstant_of_readConstant? constant
  · cases bracket : bracketShape? (trim text) with
    | some found =>
      rw [bracket, Option.getD_some] at named
      exact absurd (named ▸ bracket) (bracketShape?_ne_name _ dotted)
    | none =>
      rw [bracket, Option.getD_none, namedShape] at named
      split at named
      · next whole =>
        cases named
        rwa [String.toList_ofList]
      · split at named <;> cases named

/-- What is read as a name is spelled like one. -/
private theorem isDottedName_of_read (text : List Char) (named : read text = .name dotted) :
    isDottedName dotted.toList = true := by
  rw [read_eq] at named
  cases whole : shape text with
  | atom value =>
    rw [whole] at named
    cases named
    exact isDottedName_of_shape whole
  | group inside =>
    rw [whole] at named
    exact isDottedName_of_read inside named
  | list items => simp [whole, Shape.value] at named
  | tuple items => simp [whole, Shape.value] at named
  | dict entries => simp [whole, Shape.value] at named
  | call callee args named' => simp [whole, Shape.value] at named
termination_by text.length
decreasing_by
  exact shape_parts_length (by simp [whole, Shape.parts])

end Expr

namespace Source
variable {found : FunctionDef}

private theorem unbroken_cutName? {text rest : List Char}
    (cut : cutName? text = some (name, rest)) :
    Unbroken name := by
  cases text with
  | nil => cases cut
  | cons c others =>
    obtain ⟨letter, same⟩ := Option.ite_none_right_eq_some.mp cut
    cases same
    rw [Unbroken, String.toList_ofList, List.mem_cons, not_or]
    refine ⟨?_, fun member => ?_⟩
    · rintro rfl
      cases letter
    · exact absurd (List.all_eq_true.mp List.all_takeWhile _ member) (by decide)

/-- A function whose name and docstring can stand in a line. -/
structure FunctionDef.Legible (found : FunctionDef) : Prop where
  name : Unbroken found.name
  docstring : TightText found.docstring

/-- A block whose functions can be described and whose values have been read. -/
structure Block.Legible (block : Block) : Prop where
  functions : ∀ found ∈ block.functions, found.Legible
  values : ∀ found ∈ block.assignments, ∃ text, found.value = read text

private theorem legible_readFunction? {statement : Statement}
    (function : readFunction? statement = some found) : found.Legible := by
  obtain ⟨name, head, rfl⟩ := Option.map_eq_some_iff.mp function
  refine ⟨?_, tight_docstring? _⟩
  simp only [readFunctionName?] at head
  split at head
  · next _ rest cut =>
    cases head
    obtain ⟨_, _, named⟩ := Option.bind_eq_some_iff.mp cut
    exact unbroken_cutName? named
  · cases head

private theorem read_readAssignment? {line : Line} {found : Assignment}
    (assignment : readAssignment? line = some found) : ∃ text, found.value = read text := by
  have kept := (Option.ite_none_left_eq_some.mp assignment).2
  split at kept
  · cases kept
  · next left right _ =>
    have named := (Option.ite_none_left_eq_some.mp kept).2
    obtain ⟨target, _, rfl⟩ := Option.map_eq_some_iff.mp named
    exact ⟨right, rfl⟩

private theorem readFunction?_of_kind {statement : Statement}
    (kind : statement.kind = .function found) :
    readFunction? statement = some found := by
  simp only [Statement.kind] at kind
  split at kind
  · cases read : readClass? statement <;> simp [read] at kind
  split at kind
  · cases read : readFunction? statement <;> simp [read] at kind
    rw [kind]
  split at kind
  · cases kind
  · cases read : readAssignment? statement.head <;> simp [read] at kind

private theorem readAssignment?_of_kind {statement : Statement} {found : Assignment}
    (kind : statement.kind = .assignment found) : readAssignment? statement.head = some found := by
  simp only [Statement.kind] at kind
  split at kind
  · cases read : readClass? statement <;> simp [read] at kind
  split at kind
  · cases read : readFunction? statement <;> simp [read] at kind
  split at kind
  · cases kind
  · cases read : readAssignment? statement.head <;> simp [read] at kind
    rw [kind]

/-- Every block of source lines is legible, whatever stands in it. -/
theorem legible_ofLines (lines : List Line) : (Block.ofLines lines).Legible where
  functions found member := by
    obtain ⟨kind, listed, here⟩ := List.mem_filterMap.mp member
    obtain ⟨statement, _, rfl⟩ := List.mem_map.mp listed
    split at here
    · next same =>
      cases here
      exact legible_readFunction? (readFunction?_of_kind same)
    · cases here
  values found member := by
    obtain ⟨kind, listed, here⟩ := List.mem_filterMap.mp member
    obtain ⟨statement, _, rfl⟩ := List.mem_map.mp listed
    split at here
    · next same =>
      cases here
      exact read_readAssignment? (readAssignment?_of_kind same)
    · cases here

private theorem Block.Legible.value {block : Block} {value : Value} (legible : block.Legible)
    (set : block.value? target = some value) : ∃ text, value = read text := by
  obtain ⟨found, assigned, rfl⟩ := Option.map_eq_some_iff.mp set
  exact legible.values found (List.mem_reverse.mp (List.mem_of_find?_eq_some assigned))

private theorem Block.Legible.function {block : Block} (legible : block.Legible)
    (defined : block.function? name = some found) : found.Legible :=
  legible.functions found (List.mem_of_find?_eq_some defined)

end Source

/-! Views. -/

namespace HttpMethod

private theorem oneLine_name (method : HttpMethod) : OneLine method.name.toList := by
  cases method <;> decide +kernel

/-- What an endpoint does is told on one line. -/
theorem oneLine_describe (method : HttpMethod) (action : String) (unbroken : Unbroken subject) :
    OneLine (method.describe action subject).toList := by
  rw [describe.eq_def]
  split <;> simp only [String.toList_append]
  case h_7 => exact ((oneLine_name method).append (by decide +kernel)).append unbroken
  -- The sentences about standard actions have the subject in the middle.
  all_goals exact (OneLine.append (by decide +kernel) unbroken).append (by decide +kernel)

end HttpMethod

namespace View
variable {view : View} {body : Block} {endpoint : Endpoint} {model : String}

/-- What descriptions need of an action. -/
def LegibleAction (action : Action) : Prop := Unbroken action.name ∧ TightText action.docstring

/-- A view of which everything that descriptions are made of can stand in a line. -/
structure Legible (view : View) : Prop where
  subject : Unbroken view.subject
  handlers : ∀ handler ∈ view.handlers, TightText handler.docstring
  actions : ∀ action ∈ view.actions, LegibleAction action

private theorem isWordChar_of_nameChain {segments : List (List Char)} {word : List Char}
    (member : word ∈ nameChain segments) : ∀ c ∈ word, isWordChar c = true := by
  induction segments with
  | nil => cases member
  | cons segment rest ih =>
    have begun : ∀ c ∈ segment.takeWhile isWordChar, isWordChar c = true :=
      List.all_eq_true.mp List.all_takeWhile
    simp only [nameChain] at member
    split at member
    · cases member
    split at member
    · rcases List.mem_cons.mp member with rfl | later
      · exact begun
      · exact ih later
    · rwa [List.mem_singleton.mp member]

private theorem mem_of_managerOwner? {words : List (List Char)} {owner : List Char}
    (owns : managerOwner? words = some owner) : owner ∈ words := by
  fun_induction managerOwner? words with
  | case1 first next rest ih =>
    rcases Option.or_eq_some_iff.mp owns with later | ⟨_, here⟩
    · exact List.mem_cons_of_mem first (ih later)
    · obtain ⟨_, same⟩ := Option.ite_none_right_eq_some.mp here
      exact Option.some.inj same ▸ List.mem_cons_self
  | case2 => cases owns

private theorem unbroken_querysetModel? {text : String} (read : querysetModel? text = some model) :
    Unbroken model := by
  obtain ⟨owner, owns, rfl⟩ := Option.map_eq_some_iff.mp read
  rw [Unbroken, String.toList_ofList]
  intro feed
  exact absurd (isWordChar_of_nameChain (mem_of_managerOwner? owns) _ feed) (by decide)

private theorem unbroken_assignedName? (legible : body.Legible)
    (assigned : assignedName? body target = some model) : Unbroken model := by
  obtain ⟨dotted, named, rfl⟩ := Option.map_eq_some_iff.mp assigned
  obtain ⟨value, set, whole⟩ := Option.bind_eq_some_iff.mp named
  obtain ⟨text, rfl⟩ := legible.value set
  have same : read text = .name dotted := by
    cases shown : read text <;> simp_all [Value.asName?]
  have chars := Expr.named_of_isDottedName (Expr.isDottedName_of_read text same)
  rw [Unbroken, lastSegmentOf, String.toList_ofList, lastSegment, List.mem_reverse]
  intro feed
  have inside := List.mem_reverse.mp ((List.takeWhile_subset _) feed)
  exact absurd (chars.chars _ inside) (by decide)

/-- The model of a view is named in its source, on one line. -/
private theorem unbroken_modelOf? (legible : body.Legible) (found : modelOf? body = some model) :
    Unbroken model := by
  rcases Option.or_eq_some_iff.mp found with queryset | ⟨_, assigned⟩
  · obtain ⟨_, _, read⟩ := Option.bind_eq_some_iff.mp queryset
    exact unbroken_querysetModel? read
  · exact unbroken_assignedName? legible assigned

private theorem tight_definedHandlers (legible : body.Legible) (covered : List HttpMethod) :
    ∀ handler ∈ definedHandlers body covered, TightText handler.docstring := by
  intro handler member
  obtain ⟨method, _, made⟩ := List.mem_filterMap.mp member
  obtain ⟨found, defined, rfl⟩ := Option.map_eq_some_iff.mp made
  exact (legible.function defined).docstring

private theorem tight_genericHandlers (legible : body.Legible)
    (table : List (HttpMethod × String)) :
    ∀ handler ∈ genericHandlers table body, TightText handler.docstring := by
  intro handler member
  rcases List.mem_append.mp member with provided | defined
  · obtain ⟨⟨method, action⟩, _, rfl⟩ := List.mem_map.mp provided
    intro text written
    obtain ⟨found, code, documented⟩ := Option.bind_eq_some_iff.mp written
    rcases Option.or_eq_some_iff.mp code with byAction | ⟨_, byMethod⟩
    · exact (legible.function byAction).docstring text documented
    · exact (legible.function byMethod).docstring text documented
  · exact tight_definedHandlers legible _ handler defined

private theorem legible_ownStandardActions (legible : body.Legible) (bases : List String)
    (root : String) :
    ∀ action ∈ ownStandardActions bases root body, LegibleAction action := by
  intro action member
  obtain ⟨standard, listed, rfl⟩ := List.mem_map.mp member
  have names : ∀ standard ∈ standardActions, '\n' ∉ standard.name.toList := by decide +kernel
  refine ⟨names standard (List.mem_filter.mp listed).1, fun text written => ?_⟩
  obtain ⟨found, defined, documented⟩ := Option.bind_eq_some_iff.mp written
  exact (legible.function defined).docstring text documented

private theorem legible_customAction? (legible : body.Legible) (file : String) :
    ∀ custom ∈ body.functions.filterMap (customAction? file), LegibleAction custom.1 := by
  intro custom member
  obtain ⟨found, defined, made⟩ := List.mem_filterMap.mp member
  obtain ⟨decorator, _, rfl⟩ := Option.map_eq_some_iff.mp made
  have sound := legible.functions found defined
  exact ⟨sound.name, sound.docstring⟩

/-- Every class makes a legible view, since its body is a block of source lines. -/
theorem legible_ofClass (declared : Declared) (root : String) :
    (ofClass declared root).1.Legible := by
  have legible := legible_ofLines declared.definition.body
  have kind : kindOf root ≠ .function := by
    rw [kindOf]
    split
    · exact ViewKind.noConfusion
    · split <;> exact ViewKind.noConfusion
  refine ⟨?_, fun handler member => ?_, fun action member => ?_⟩
  · rw [subject]
    cases model : (ofClass declared root).1.model with
    | some found => exact unbroken_modelOf? legible model
    | none =>
      simp only
      rw [if_neg (show (ofClass declared root).1.kind ≠ .function from kind), Unbroken]
      decide +kernel
  · simp only [ofClass] at member
    split at member
    · exact tight_definedHandlers legible [] handler member
    · exact tight_genericHandlers legible _ handler member
    · cases member
  · simp only [ofClass] at member
    split at member
    · rcases List.mem_append.mp member with standard | custom
      · exact legible_ownStandardActions legible _ _ action standard
      · obtain ⟨made, listed, rfl⟩ := List.mem_map.mp custom
        exact legible_customAction? legible _ made listed
    · cases member

private theorem legible_ofFunction? {file : File} {found : FunctionDef} (sound : found.Legible)
    (made : ofFunction? file found = some result) : result.1.Legible := by
  obtain ⟨decorator, _, rfl⟩ := Option.map_eq_some_iff.mp made
  refine ⟨sound.name, fun handler member => ?_, fun action member => ?_⟩
  · obtain ⟨method, _, rfl⟩ := List.mem_map.mp member
    exact sound.docstring
  · cases member

/-- Views found in legible files are legible. -/
private theorem legible_ofFiles {files : List File} (legible : ∀ file ∈ files, file.block.Legible)
    (registry : Registry) : ∀ view ∈ (ofFiles registry files).1, view.Legible := by
  intro view member
  obtain ⟨declared, _, root, _, rfl⟩ | ⟨file, inside, function, defined, _, made, rfl⟩ :=
    mem_ofFiles.mp member
  · exact legible_ofClass declared root
  · exact legible_ofFunction? ((legible file inside).functions function defined) made

/-! Endpoints. -/

/-- The summary of a docstring is one line, and so is what stands in for it. -/
theorem oneLine_summary_getD {docstring : Option String} {otherwise : String}
    (tight : TightText docstring) (line : OneLine otherwise.toList) :
    OneLine ((summary? docstring).getD otherwise).toList := by
  cases summary : summary? docstring with
  | some text => exact oneLine_summary? tight summary
  | none => exact line

private theorem oneLine_handlerEndpoints (legible : view.Legible)
    (member : endpoint ∈ view.handlerEndpoints path) : OneLine endpoint.description.toList := by
  obtain ⟨handler, listed, rfl⟩ := List.mem_map.mp member
  exact oneLine_summary_getD (legible.handlers handler listed)
    (handler.method.oneLine_describe _ legible.subject)

private theorem oneLine_actionEndpoints (legible : view.Legible)
    (member : endpoint ∈ view.actions.flatMap (view.actionEndpoints path)) :
    OneLine endpoint.description.toList := by
  obtain ⟨action, listed, made⟩ := List.mem_flatMap.mp member
  obtain ⟨method, _, rfl⟩ := List.mem_map.mp made
  obtain ⟨name, docstring⟩ := legible.actions action listed
  refine oneLine_summary_getD docstring ?_
  split
  · rw [String.toList_append]
    exact OneLine.append (by decide +kernel) name
  · exact method.oneLine_describe _ legible.subject

private theorem oneLine_mappedEndpoints (legible : view.Legible)
    (member : endpoint ∈ view.mappedEndpoints path mapping) :
    OneLine endpoint.description.toList := by
  obtain ⟨⟨verb, name⟩, _, made⟩ := List.mem_filterMap.mp member
  obtain ⟨method, _, rfl⟩ := Option.map_eq_some_iff.mp made
  refine oneLine_summary_getD (fun text written => ?_) (method.oneLine_describe _ legible.subject)
  obtain ⟨action, found, documented⟩ := Option.bind_eq_some_iff.mp written
  exact (legible.actions action (List.mem_of_find?_eq_some found)).2 text documented

/-- Whatever a legible view is bound to is described on one line. -/
theorem oneLine_bindings {routes : List Route} (legible : view.Legible)
    (member : endpoint ∈ view.bindings routes) : OneLine endpoint.description.toList := by
  rw [bindings] at member
  split at member
  · rw [ownEndpoints] at member
    split at member
    · exact oneLine_actionEndpoints legible member
    · exact oneLine_handlerEndpoints legible member
  · obtain ⟨route, _, listed⟩ := List.mem_flatMap.mp member
    rw [routedEndpoints] at listed
    split at listed <;> split at listed
    · exact oneLine_actionEndpoints legible listed
    · cases listed
    · exact oneLine_mappedEndpoints legible listed
    · exact oneLine_handlerEndpoints legible listed

end View

namespace Endpoint

/-- Endpoints that are each described on one line. -/
def Described (endpoints : List Endpoint) : Prop :=
  ∀ endpoint ∈ endpoints, OneLine endpoint.description.toList

private theorem described_ofFiles (registry : Registry) (sources : List (String × String)) :
    Described (ofFiles registry (sources.map fun source => .ofText source.1 source.2)).1 := by
  have legible : ∀ file ∈ sources.map fun source => File.ofText source.1 source.2,
      file.block.Legible := by
    intro file member
    obtain ⟨source, _, rfl⟩ := List.mem_map.mp member
    exact legible_ofLines _
  intro endpoint listed
  obtain ⟨view, bound, first⟩ := mem_ofViews.mp listed
  exact View.oneLine_bindings (View.legible_ofFiles legible registry view
    (List.mem_of_find?_eq_some bound)) (List.mem_of_find?_eq_some first)

end Endpoint

/-! Answers. -/

namespace Enrichment
open Endpoint (Described)

/-- What is left of an answer is part of one of its lines. -/
theorem oneLine_cleanAnswer {answer : String} (some : cleanAnswer answer ≠ "") :
    OneLine (cleanAnswer answer).toList := by
  rw [cleanAnswer] at some ⊢
  generalize chosen : ((lines answer.toList).map trim).find? (fun line => !line.isEmpty) = found
    at some ⊢
  have unbroken : '\n' ∉ found.getD [] := by
    cases found with
    | none => exact List.not_mem_nil
    | some line =>
      obtain ⟨raw, listed, rfl⟩ := List.mem_map.mp (List.mem_of_find?_eq_some chosen)
      exact fun feed => lines_unbroken listed (trim_subset raw feed)
  simp only [String.toList_ofList] at some ⊢
  constructor
  · have tight := tight_trim fun blank => some (congrArg String.ofList blank)
    obtain ⟨c, head, solid⟩ := tight.first
    exact ⟨c, List.mem_of_mem_head? head, solid⟩
  · intro feed
    have unwrapped := List.mem_reverse.mp (trim_subset _ feed)
    have line := List.mem_reverse.mp (List.dropWhile_subset isWrapper unwrapped)
    exact unbroken (List.dropWhile_subset isWrapper line)

/-- An answer that is used is one line, whatever the client said. -/
theorem oneLine_answer? {client : Client} {number : Nat} {text : String}
    (answered : answer? client number = some text) : OneLine text.toList := by
  obtain ⟨answer, _, usable⟩ := Option.bind_eq_some_iff.mp answered
  obtain ⟨something, same⟩ := Option.ite_none_left_eq_some.mp usable
  rw [← Option.some.inj same]
  exact oneLine_cleanAnswer fun blank => something (by rw [blank]; rfl)

private theorem described_each (client : Client) (asked : Nat) {endpoints : List Endpoint}
    (described : Described endpoints) :
    Described (each (endpoint client) asked endpoints).value := by
  induction endpoints generalizing asked with
  | nil => exact described
  | cons found rest ih =>
    obtain ⟨line, others⟩ := List.forall_mem_cons.mp described
    refine List.forall_mem_cons.mpr ⟨?_, ih _ others⟩
    rw [endpoint]
    split
    · next answered => exact oneLine_answer? answered
    · exact line

/-- A description is replaced only by a cleaned answer, which is one line. -/
private theorem described_enrich (config : Config.Assistant) (client : Option Client) (asked : Nat)
    {found : App} (described : Described found.endpoints) :
    Described (enrich config client asked found).value.endpoints := by
  rw [enrich]
  split
  · exact described_each _ asked described
  · exact described

private theorem described_enrichAll (rounds : List Round) {found : App}
    (described : Described found.endpoints) : Described (enrichAll found rounds).endpoints := by
  induction rounds generalizing found with
  | nil => exact described
  | cons round rest ih => exact ih (described_enrich round.1 round.2.1 round.2.2 described)

/-- The endpoints of source texts are described on one line each, at first and after any
number of enrichments of an application that has them. -/
theorem endpoints_described (registry : Registry) (sources : List (String × String))
    (app : App) (rounds : List Round) :
    let endpoints :=
      (Endpoint.ofFiles registry (sources.map fun source => .ofText source.1 source.2)).1
    Described endpoints ∧
      Described (enrichAll { app with endpoints := endpoints } rounds).endpoints :=
  ⟨Endpoint.described_ofFiles registry sources,
    described_enrichAll rounds (Endpoint.described_ofFiles registry sources)⟩

end Enrichment
end ApiScribe
