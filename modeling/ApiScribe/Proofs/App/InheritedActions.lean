import ApiScribe.Proofs.App.Families
import ApiScribe.Proofs.Schema.Learning
import ApiScribe.Proofs.Web.Endpoints

/-! Standard actions of a viewset whose only base is another viewset of the application. Of
the three sources of standard actions only the framework base is looked up through local
classes. Mixins and functions count for the class that has them alone, so a class lacks what
they give to its base unless it gets the same action in some other way. -/
namespace ApiScribe
open Source (File)
open Inheritance (eq_of_name)

namespace View
variable {registry : Registry} {files : List File} {declared : Declared} {root action : String}

/-- A class adds a standard action to those of its framework base, by a mixin among its
bases or by a function in its body. -/
def Adds (declared : Declared) (action : String) : Prop :=
  (∃ base ∈ declared.bases, action ∈ mixinActions (lastSegmentOf base)) ∨
    ∃ found ∈ declared.definition.block.functions, found.name = action

instance (declared : Declared) (action : String) : Decidable (Adds declared action) :=
  inferInstanceAs (Decidable (
    (∃ base ∈ declared.bases, action ∈ mixinActions (lastSegmentOf base)) ∨
      ∃ found ∈ declared.definition.block.functions, found.name = action))

/-- A class that comes from a framework base has a standard action from it or adds it. -/
def Provides (declared : Declared) (root action : String) : Prop :=
  action ∈ baseActions root ∨ Adds declared action

instance (declared : Declared) (root action : String) : Decidable (Provides declared root action) :=
  inferInstanceAs (Decidable (action ∈ baseActions root ∨ Adds declared action))

/-- Some viewset of a name is listed with a standard action. -/
def Reports (views : List View) (name action : String) : Prop :=
  ∃ view ∈ views, view.kind = .viewSet ∧ view.name = name ∧
    ∃ found ∈ view.actions, found.custom = false ∧ found.name = action

private theorem contains_iff_provides :
    (baseActions root ++ declared.bases.flatMap (fun base => mixinActions (lastSegmentOf base)) ++
      declared.definition.block.functions.map Source.FunctionDef.name).contains action = true ↔
        Provides declared root action := by
  simp [Provides, Adds]

private theorem customAction?_custom {file : String} {found : Source.FunctionDef}
    (made : customAction? file found = some result) : result.1.custom = true := by
  obtain ⟨_, _, rfl⟩ := Option.map_eq_some_iff.mp made
  rfl

/-- The standard actions of a viewset are those that its class provides. -/
theorem standard_ofClass_iff (viewSet : kindOf root = .viewSet) :
    (∃ found ∈ (ofClass declared root).1.actions, found.custom = false ∧ found.name = action) ↔
      action ∈ standardActions.map StandardAction.name ∧ Provides declared root action := by
  have actions : (ofClass declared root).1.actions =
      ownStandardActions declared.bases root declared.definition.block ++
        (declared.definition.block.functions.filterMap
          (customAction? declared.file)).map (·.1) := by
    simp only [ofClass, if_pos viewSet]
  rw [actions]
  constructor
  · rintro ⟨found, listed, standard, rfl⟩
    rcases List.mem_append.mp listed with own | custom
    · obtain ⟨action, available, rfl⟩ := List.mem_map.mp own
      obtain ⟨listed, provided⟩ := List.mem_filter.mp available
      exact ⟨List.mem_map_of_mem listed, contains_iff_provides.mp provided⟩
    · obtain ⟨_, made, rfl⟩ := List.mem_map.mp custom
      obtain ⟨_, _, made⟩ := List.mem_filterMap.mp made
      rw [customAction?_custom made] at standard
      cases standard
  · rintro ⟨listed, provided⟩
    obtain ⟨standard, standard_mem, rfl⟩ := List.mem_map.mp listed
    refine ⟨_, List.mem_append_left _ (List.mem_map.mpr ⟨standard, ?_, rfl⟩), rfl, rfl⟩
    exact List.mem_filter.mpr ⟨standard_mem, contains_iff_provides.mpr provided⟩

/-- What is listed for a viewset, if no other view class has its name. -/
theorem reports_iff
    (distinct : ((App.family registry (Declared.ofFiles files) .view).map Declared.name).Nodup)
    (member : declared ∈ Declared.ofFiles files)
    (leads : registry.rootBase? declared .view = some root) (viewSet : kindOf root = .viewSet) :
    Reports (ofFiles registry files).1 declared.name action ↔
      action ∈ standardActions.map StandardAction.name ∧ Provides declared root action := by
  rw [← standard_ofClass_iff viewSet]
  constructor
  · rintro ⟨view, listed, kind, named, given⟩
    obtain ⟨found, among, foundRoot, foundLeads, rfl⟩ | ⟨_, _, _, _, _, made, rfl⟩ :=
      mem_ofFiles.mp listed
    · have inFamily : ∀ {other otherRoot}, other ∈ Declared.ofFiles files →
          registry.rootBase? other .view = some otherRoot →
          other ∈ App.family registry (Declared.ofFiles files) .view :=
        fun inside found => List.mem_filter.mpr ⟨inside, Option.isSome_of_eq_some found⟩
      obtain rfl := eq_of_name distinct (inFamily among foundLeads) (inFamily member leads) named
      rw [leads] at foundLeads
      cases foundLeads
      exact given
    · obtain ⟨_, _, rfl⟩ := Option.map_eq_some_iff.mp made
      cases kind
  · intro given
    exact ⟨_, mem_ofFiles.mpr (.inl ⟨declared, member, root, leads, rfl⟩), viewSet, rfl, given⟩

end View

namespace App
open View (Adds Provides Reports standardActions baseActions)

section
variable (extra : Config.Extraction) (tree : FileTree) (files : AppFiles)

/-- The files of an application that can be read. -/
def readFiles : List File := readable ((roleFiles files).map (readFile tree))

/-- The classes in the view and URL files of an application. -/
def routeClasses : List Declared := Declared.ofFiles (routeFiles files (readFiles tree files))

/-- The view classes of an application. -/
def viewClasses : List Declared :=
  family (registry extra tree files) (Declared.ofFiles (readFiles tree files)) .view

/-- A class in the view and URL files that is a viewset by the framework base it comes from. -/
structure IsViewSet (declared : Declared) (root : String) : Prop where
  member : declared ∈ routeClasses tree files
  leads : (registry extra tree files).rootBase? declared .view = some root
  viewSet : View.kindOf root = .viewSet

/-- Every standard action that the analysis shows for the one class it also shows for the
other. -/
def PassedOn (base child : Declared) : Prop :=
  ∀ action, Reports (analyze extra tree files).1.views base.name action →
    Reports (analyze extra tree files).1.views child.name action

end

variable {extra : Config.Extraction} {tree : FileTree} {files : AppFiles}
  {child base declared : Declared} {text root childRoot baseRoot : String}

private theorem ofFiles_filter_sublist (keep : File → Bool) (parsed : List File) :
    (Declared.ofFiles (parsed.filter keep)).Sublist (Declared.ofFiles parsed) :=
  List.filter_sublist.flatMap _

/-- What the analysis shows for a viewset. -/
theorem reports_analyze_iff (distinct : ((viewClasses extra tree files).map Declared.name).Nodup)
    (found : IsViewSet extra tree files declared root) (action : String) :
    Reports (analyze extra tree files).1.views declared.name action ↔
      action ∈ standardActions.map View.StandardAction.name ∧ Provides declared root action :=
  View.reports_iff (distinct.sublist (((ofFiles_filter_sublist _ _).filter _).map _))
    found.member found.leads found.viewSet

private theorem passedOn_iff (distinct : ((viewClasses extra tree files).map Declared.name).Nodup)
    (baseSet : IsViewSet extra tree files base baseRoot)
    (childSet : IsViewSet extra tree files child childRoot) :
    PassedOn extra tree files base child ↔ ∀ action ∈ standardActions.map View.StandardAction.name,
      Provides base baseRoot action → Provides child childRoot action := by
  simp only [PassedOn, reports_analyze_iff distinct baseSet, reports_analyze_iff distinct childSet]
  constructor
  · exact fun passed action standard provides => (passed action ⟨standard, provides⟩).2
  · exact fun passed action ⟨standard, provides⟩ => ⟨standard, passed action standard provides⟩

/-- A class with one base comes from the framework base that this base is called like or
else from one that the local class of that name leads to. -/
theorem childRoot_cases (distinct : ((viewClasses extra tree files).map Declared.name).Nodup)
    (registered : base ∈ declaredClasses tree files) (only : child.bases = [text])
    (named : baseName text = base.name)
    (baseLeads : (registry extra tree files).has base .view = true)
    (leads : (registry extra tree files).rootBase? child .view = some childRoot) :
    base.name ∈ (registry extra tree files).viewBases ∧ childRoot = base.name ∨
      ∃ above ∈ base.bases,
        (registry extra tree files).rootOf? base.name .view above = some childRoot := by
  rw [Registry.rootBase?, only, List.findSome?_singleton, Registry.rootOf?_eq_some_iff,
    named] at leads
  rcases leads with ⟨framework, same⟩ | ⟨_, entry, told, role, rfl⟩
  · exact .inl ⟨framework, same⟩
  · have grown := Registry.register_grown (.ofExtraction extra)
      (List.Subset.refl (declaredClasses tree files))
    have held := (Registry.told?_eq_some_iff.mp told).1
    obtain ⟨found, member, sameName, above, listed, aboveLeads⟩ := grown.leads rfl held
    rw [role] at aboveLeads
    have inside : ∀ {other}, other ∈ declaredClasses tree files →
        (registry extra tree files).has other .view = true → other ∈ viewClasses extra tree files :=
      fun among has => List.mem_filter.mpr ⟨(ofFiles_filter_sublist _ _).subset among, has⟩
    have has := Registry.has_iff.mpr ⟨above, listed, _, aboveLeads⟩
    obtain rfl := eq_of_name distinct (inside member has) (inside registered baseLeads) sameName
    exact .inr ⟨above, listed, aboveLeads⟩

/-- What becomes of the standard actions of a viewset: they are passed on to a class that
has it as its only base exactly if that class provides them as well. The class comes from
the framework base that the viewset is called like, or from one that the viewset leads to.
If it leads to one only, the actions passed on are those of this one, so all that matters
are the actions that the viewset adds. -/
structure ActionsPassedOn (extra : Config.Extraction) (tree : FileTree) (files : AppFiles)
    (base child : Declared) (baseRoot childRoot : String) : Prop where
  iff_provides : PassedOn extra tree files base child ↔
    ∀ action ∈ standardActions.map View.StandardAction.name,
      Provides base baseRoot action → Provides child childRoot action
  childRoot : base.name ∈ (registry extra tree files).viewBases ∧ childRoot = base.name ∨
    ∃ above ∈ base.bases,
      (registry extra tree files).rootOf? base.name .view above = some childRoot
  iff_adds : base.name ∉ (registry extra tree files).viewBases →
    (∀ above ∈ base.bases, ∀ root,
      (registry extra tree files).rootOf? base.name .view above = some root → root = baseRoot) →
    (PassedOn extra tree files base child ↔
      ∀ action ∈ standardActions.map View.StandardAction.name, Adds base action →
        action ∈ baseActions baseRoot ∨ Adds child action)

/-- In an application whose view classes have distinct names, the standard actions of a
registered viewset are passed on to a viewset with no other base as far as the latter comes
from a framework base that has them or adds them itself. -/
theorem base_actions_passed_on
    (distinct : ((viewClasses extra tree files).map Declared.name).Nodup)
    (registered : base ∈ declaredClasses tree files) (only : child.bases = [text])
    (named : baseName text = base.name) (baseSet : IsViewSet extra tree files base baseRoot)
    (childSet : IsViewSet extra tree files child childRoot) :
    ActionsPassedOn extra tree files base child baseRoot childRoot := by
  have origin := childRoot_cases distinct registered only named
    (Option.isSome_of_eq_some baseSet.leads) childSet.leads
  have passed := passedOn_iff distinct baseSet childSet
  refine ⟨passed, origin, fun foreign single => ?_⟩
  obtain ⟨above, listed, leads⟩ := origin.resolve_left fun framework => foreign framework.1
  obtain rfl := single above listed childRoot leads
  rw [passed]
  constructor
  · exact fun all action standard adds => all action standard (.inr adds)
  · rintro all action standard (given | adds)
    · exact .inl given
    · exact all action standard adds

def viewsFiles : AppFiles :=
  { name := "shop"
    rootPath := "shop"
    pythonFiles := ["shop/views.py"]
    modelFiles := []
    serializerFiles := []
    viewFiles := ["shop/views.py"]
    urlFiles := [] }

/-- A shop with its views in one file. -/
def viewsTree (text : String) : FileTree :=
  ⟨[(["shop"], .directory), (["shop", "views.py"], .file (.text text))]⟩

/-- The file with the views is also the one with the registered classes. -/
theorem views_declaredClasses (tree : FileTree) :
    declaredClasses tree viewsFiles = routeClasses tree viewsFiles := rfl

/-- A viewset with the actions of its framework base, and one that derives from it. -/
def postTree : FileTree :=
  viewsTree "class Base(ReadOnlyModelViewSet):\n  pass\n\nclass Post(Base):\n  pass\n"

private theorem post_checked : ((viewClasses {} postTree viewsFiles).map Declared.name).Nodup ∧
    ∃ base ∈ routeClasses postTree viewsFiles, ∃ child ∈ routeClasses postTree viewsFiles,
      child.bases = ["Base"] ∧ baseName "Base" = base.name ∧
      (registry {} postTree viewsFiles).rootBase? base .view = some "ReadOnlyModelViewSet" ∧
      (registry {} postTree viewsFiles).rootBase? child .view = some "ReadOnlyModelViewSet" ∧
      base.name ∉ (registry {} postTree viewsFiles).viewBases ∧
      (∀ above ∈ base.bases, (registry {} postTree viewsFiles).rootOf? base.name .view above =
        some "ReadOnlyModelViewSet") ∧
      ∀ action ∈ standardActions.map View.StandardAction.name, ¬ Adds base action := by
  decide +kernel

theorem post_has_actions_of_base : ((viewClasses {} postTree viewsFiles).map Declared.name).Nodup ∧
    ∃ base ∈ declaredClasses postTree viewsFiles, ∃ child, child.bases = ["Base"] ∧
      baseName "Base" = base.name ∧
      IsViewSet {} postTree viewsFiles base "ReadOnlyModelViewSet" ∧
      IsViewSet {} postTree viewsFiles child "ReadOnlyModelViewSet" ∧
      Reports (analyze {} postTree viewsFiles).1.views base.name "list" ∧
      PassedOn {} postTree viewsFiles base child := by
  obtain ⟨distinct, base, base_mem, child, child_mem, only, named, baseLeads, childLeads, foreign,
    single, bare⟩ := post_checked
  have baseSet : IsViewSet {} postTree viewsFiles base "ReadOnlyModelViewSet" :=
    ⟨base_mem, baseLeads, by decide⟩
  have childSet : IsViewSet {} postTree viewsFiles child "ReadOnlyModelViewSet" :=
    ⟨child_mem, childLeads, by decide⟩
  have registered := (views_declaredClasses postTree).symm ▸ base_mem
  have passedOn := base_actions_passed_on distinct registered only named baseSet childSet
  refine ⟨distinct, base, registered, child, only, named, baseSet, childSet,
    (reports_analyze_iff distinct baseSet "list").mpr ⟨by decide, .inl (by decide)⟩, ?_⟩
  refine (passedOn.iff_adds foreign fun above listed root leads => ?_).mpr
    fun action standard adds => absurd adds (bare action standard)
  rw [single above listed] at leads
  exact (Option.some.inj leads).symm

/-- A viewset with the action of a mixin, and one that derives from it. -/
def shelfTree : FileTree :=
  viewsTree "class Base(ListModelMixin, GenericViewSet):\n  pass\n\nclass Shelf(Base):\n  pass\n"

private theorem shelf_checked : ((viewClasses {} shelfTree viewsFiles).map Declared.name).Nodup ∧
    ∃ base ∈ routeClasses shelfTree viewsFiles, ∃ child ∈ routeClasses shelfTree viewsFiles,
      child.bases = ["Base"] ∧ baseName "Base" = base.name ∧
      (registry {} shelfTree viewsFiles).rootBase? base .view = some "GenericViewSet" ∧
      (registry {} shelfTree viewsFiles).rootBase? child .view = some "GenericViewSet" ∧
      Adds base "list" ∧ ¬ Provides child "GenericViewSet" "list" := by
  decide +kernel

/-- The one that derives from it has not got the action. -/
theorem shelf_lacks_action_of_base :
    ((viewClasses {} shelfTree viewsFiles).map Declared.name).Nodup ∧
      ∃ base ∈ declaredClasses shelfTree viewsFiles, ∃ child, child.bases = ["Base"] ∧
        baseName "Base" = base.name ∧ IsViewSet {} shelfTree viewsFiles base "GenericViewSet" ∧
        IsViewSet {} shelfTree viewsFiles child "GenericViewSet" ∧
        Reports (analyze {} shelfTree viewsFiles).1.views base.name "list" ∧
        ¬ Reports (analyze {} shelfTree viewsFiles).1.views child.name "list" := by
  obtain ⟨distinct, base, base_mem, child, child_mem, only, named, baseLeads, childLeads, adds,
    lacks⟩ := shelf_checked
  have baseSet : IsViewSet {} shelfTree viewsFiles base "GenericViewSet" :=
    ⟨base_mem, baseLeads, by decide⟩
  have childSet : IsViewSet {} shelfTree viewsFiles child "GenericViewSet" :=
    ⟨child_mem, childLeads, by decide⟩
  refine ⟨distinct, base, (views_declaredClasses shelfTree).symm ▸ base_mem, child, only, named,
    baseSet, childSet, ?_, ?_⟩
  · exact (reports_analyze_iff distinct baseSet "list").mpr ⟨by decide, .inr adds⟩
  · exact fun shown => lacks ((reports_analyze_iff distinct childSet "list").mp shown).2

end App
end ApiScribe
