import ApiScribe.Proofs.NameLists
import ApiScribe.Proofs.TypeScript.Files
import ApiScribe.Proofs.TypeScript.References

/-! Aliases of a handler that serves several methods. The name of an alias tells
the handler and not the method, while its right-hand side depends on the method,
so a handler can contradict itself. Such a clash is not resolved: both aliases
are declared and the renderer reports the name. -/
namespace ApiScribe.TypeScript

/-- The serializer that the requests and responses of an endpoint are made from. -/
def targetOf (index : SerializerIndex) (app : App) (endpoint : Endpoint) :
    Option KnownSerializer :=
  endpoint.serializerClass.bind (index.resolve? (some app.name))

/-- What a payload is written as: the variant of a writable serializer. -/
def payloadText (target : Option KnownSerializer) (variantName : String → String) : String :=
  match target with
  | some known => if known.writable then variantName known.interface else "Record<string, any>"
  | none => "Record<string, any>"

/-- What is sent with a method. -/
def sentText? (target : Option KnownSerializer) : HttpMethod → Option String
  | .post => some (payloadText target Declaration.creationName)
  | .put | .patch => some (payloadText target Declaration.updateName)
  | .get | .delete => none

/-- What a handler gives back for a method: nothing when it deletes, a page when
it lists, else the object. -/
def givenText (target : Option KnownSerializer) (function : String) : HttpMethod → String
  | .delete => "void"
  | .get => match target with
    | some known => if function = "list" then pageOf known.interface else known.interface
    | none => "Record<string, any>"
  | .post | .put | .patch => match target with
    | some known => known.interface
    | none => "Record<string, any>"

private theorem text_name (text : String) : (TypeExpr.name text).text = text := by
  rw [TypeExpr.text, TypeExpr.chars, String.ofList_toList]

private theorem responseOf_text (target : Option KnownSerializer) (endpoint : Endpoint) :
    (responseOf target endpoint).1.text =
      givenText target endpoint.handlerFunction endpoint.method := by
  cases target with
  | none => cases method : endpoint.method <;>
      simp [responseOf, method, givenText, TypeExpr.anyObject, text_name]
  | some known =>
    by_cases deletes : endpoint.method = .delete
    · simp [responseOf, deletes, givenText, text_name]
    · cases method : endpoint.method <;> by_cases lists : endpoint.handlerFunction = "list" <;>
        simp_all [responseOf, givenText, text_name, pageOf]

private theorem requestOf?_text (target : Option KnownSerializer) (method : HttpMethod) :
    (requestOf? target method).map (fun request => request.1.text) = sentText? target method := by
  cases target with
  | none => cases method <;>
      simp [requestOf?, sentText?, payloadText, TypeExpr.anyObject, text_name]
  | some known => cases method <;> cases writable : known.writable <;>
      simp [requestOf?, sentText?, payloadText, writable, TypeExpr.anyObject, text_name]

/-- An alias of an endpoint, by its name and its right-hand side. -/
def AliasReads (index : SerializerIndex) (app : App) (endpoint : Endpoint) (name : String)
    (body : Body) : Prop :=
  ∃ found ∈ (endpointAliases index app endpoint).1, found.name = name ∧ found.body = body

instance (index : SerializerIndex) (app : App) (endpoint : Endpoint) (name : String)
    (body : Body) : Decidable (AliasReads index app endpoint name body) :=
  inferInstanceAs (Decidable (∃ found ∈ (endpointAliases index app endpoint).1,
    found.name = name ∧ found.body = body))

theorem aliasReads_iff :
    AliasReads index app endpoint name body ↔
      (name = aliasStem app endpoint ++ "Response" ∧
        body = .synonym (some (givenText (targetOf index app endpoint) endpoint.handlerFunction
          endpoint.method))) ∨
      ∃ text ∈ sentText? (targetOf index app endpoint) endpoint.method,
        name = aliasStem app endpoint ++ "Request" ∧ body = .synonym (some text) := by
  rw [← responseOf_text, ← requestOf?_text, AliasReads, endpointAliases, targetOf]
  cases requestOf? (endpoint.serializerClass.bind (index.resolve? (some app.name)))
      endpoint.method with
  | none => simp [Declaration.aliasOf, eq_comm]
  | some request => simp [Declaration.aliasOf, eq_comm, or_comm]

/-- A module declares two aliases of one name with different right-hand sides,
one for each of two endpoints. -/
def Clash (index : SerializerIndex) (app : App) (left right : Endpoint) : Prop :=
  ∃ first ∈ (moduleOf index app).declarations, ∃ second ∈ (moduleOf index app).declarations,
    first.name = second.name ∧ first.body ≠ second.body ∧
      AliasReads index app left first.name first.body ∧
      AliasReads index app right second.name second.body

instance (index : SerializerIndex) (app : App) (left right : Endpoint) :
    Decidable (Clash index app left right) :=
  inferInstanceAs (Decidable (∃ first ∈ (moduleOf index app).declarations,
    ∃ second ∈ (moduleOf index app).declarations,
      first.name = second.name ∧ first.body ≠ second.body ∧
        AliasReads index app left first.name first.body ∧
        AliasReads index app right second.name second.body))

/-- Two endpoints of a handler give back different things or are sent different
things. -/
def Disagree (index : SerializerIndex) (app : App) (left right : Endpoint) : Prop :=
  givenText (targetOf index app left) left.handlerFunction left.method ≠
      givenText (targetOf index app right) right.handlerFunction right.method ∨
    ∃ text ∈ sentText? (targetOf index app left) left.method,
      ∃ other ∈ sentText? (targetOf index app right) right.method, text ≠ other

theorem response_ne_request (stem other : String) :
    stem ++ "Response" ≠ other ++ "Request" := by
  intro same
  have last := congrArg (fun text => text.toList.getLast?) same
  simp at last

/-- Two endpoints have aliases of one name that say different things exactly when
they name their aliases alike and disagree. -/
theorem reads_differ_iff :
    (∃ name body other, AliasReads index app left name body ∧
      AliasReads index app right name other ∧ body ≠ other) ↔
      aliasStem app left = aliasStem app right ∧ Disagree index app left right := by
  simp only [aliasReads_iff]
  constructor
  · rintro ⟨name, body, other, ⟨named, rfl⟩ | ⟨text, sent, named, rfl⟩,
      ⟨otherNamed, rfl⟩ | ⟨otherText, otherSent, otherNamed, rfl⟩, different⟩
    · exact ⟨(String.append_left_inj _).mp (named.symm.trans otherNamed),
        .inl fun same => different (congrArg (Body.synonym ∘ some) same)⟩
    · exact absurd (named.symm.trans otherNamed) (response_ne_request _ _)
    · exact absurd (otherNamed.symm.trans named) (response_ne_request _ _)
    · exact ⟨(String.append_left_inj _).mp (named.symm.trans otherNamed),
        .inr ⟨text, sent, otherText, otherSent,
          fun same => different (congrArg (Body.synonym ∘ some) same)⟩⟩
  · rintro ⟨sameStem, given | ⟨text, sent, other, otherSent, different⟩⟩
    · exact ⟨_, _, _, .inl ⟨rfl, rfl⟩, .inl ⟨sameStem ▸ rfl, rfl⟩, by simpa using given⟩
    · exact ⟨_, _, _, .inr ⟨text, sent, rfl, rfl⟩, .inr ⟨other, otherSent, sameStem ▸ rfl, rfl⟩,
        by simpa using different⟩

/-- No alias is lost: what it says is declared, by itself or by an earlier one. -/
theorem withoutRepeats_covers (listed : found ∈ aliases) (latest : List (String × Body)) :
    (∃ kept ∈ withoutRepeats latest aliases, kept.name = found.name ∧ kept.body = found.body) ∨
      latest.lookup found.name = some found.body := by
  induction aliases generalizing latest with
  | nil => cases listed
  | cons first rest ih =>
    rw [withoutRepeats]
    by_cases said : latest.lookup first.name = some first.body
    · rw [if_pos said]
      rcases List.mem_cons.mp listed with rfl | later
      · exact .inr said
      · exact ih later latest
    · rw [if_neg said]
      rcases List.mem_cons.mp listed with rfl | later
      · exact .inl ⟨found, List.mem_cons_self, rfl, rfl⟩
      · rcases ih later ((first.name, first.body) :: latest) with ⟨kept, member, same⟩ | known
        · exact .inl ⟨kept, List.mem_cons_of_mem _ member, same⟩
        · rw [lookup_cons] at known
          split at known
          · rename_i same
            exact .inl ⟨first, List.mem_cons_self, same.symm, Option.some.inj known⟩
          · exact .inr known

theorem declares_alias (member : endpoint ∈ app.endpoints)
    (reads : AliasReads index app endpoint name body) :
    ∃ declaration ∈ (moduleOf index app).declarations,
      declaration.name = name ∧ declaration.body = body := by
  obtain ⟨found, listed, rfl, rfl⟩ := reads
  have all : found ∈ (app.endpoints.map (endpointAliases index app)).flatMap (·.1) :=
    List.mem_flatMap.mpr ⟨_, List.mem_map_of_mem member, listed⟩
  rcases withoutRepeats_covers all [] with ⟨kept, declared, same⟩ | known
  · exact ⟨kept, List.mem_append_right _ declared, same⟩
  · cases known

/-- Two endpoints clash where they share a stem and disagree on what it stands for. -/
private theorem clash_iff (leftMember : left ∈ app.endpoints)
    (rightMember : right ∈ app.endpoints) :
    Clash index app left right ↔
      aliasStem app left = aliasStem app right ∧ Disagree index app left right := by
  rw [← reads_differ_iff]
  constructor
  · rintro ⟨first, _, second, _, named, different, reads, otherReads⟩
    exact ⟨first.name, first.body, second.body, reads, named ▸ otherReads, different⟩
  · rintro ⟨name, body, other, reads, otherReads, different⟩
    obtain ⟨first, declared, rfl, rfl⟩ := declares_alias leftMember reads
    obtain ⟨second, otherDeclared, named, rfl⟩ := declares_alias rightMember otherReads
    exact ⟨first, declared, second, otherDeclared, named.symm, different, reads, named ▸ otherReads⟩

private theorem Clash.repeats (clash : Clash index app left right) :
    ¬ ((moduleOf index app).declarations.map Declaration.name).Nodup := by
  obtain ⟨first, firstListed, second, secondListed, named, different, _⟩ := clash
  intro distinct
  have same := List.inj_on_of_nodup_map distinct firstListed secondListed named
  exact different (congrArg Declaration.body same)

/-- Aliases of one name say the same. -/
def Coherent (aliases : List Declaration) : Prop :=
  aliases.Pairwise fun first second => first.name = second.name → first.body = second.body

/-- What is remembered under the name of an alias is what the alias says. -/
def Remembered (latest : List (String × Body)) (aliases : List Declaration) : Prop :=
  ∀ found ∈ aliases, ∀ body ∈ latest.lookup found.name, body = found.body

private theorem Remembered.cons {first : Declaration} (remembered : Remembered latest rest)
    (agrees : ∀ found ∈ rest, first.name = found.name → first.body = found.body) :
    Remembered ((first.name, first.body) :: latest) rest := by
  intro found member body held
  rw [lookup_cons] at held
  split at held
  · rename_i same
    cases held
    exact agrees found member same.symm
  · exact remembered found member body held

/-- Coherent aliases are declared once, and not again if they are remembered. -/
theorem withoutRepeats_distinct {aliases : List Declaration} {latest : List (String × Body)}
    (coherent : Coherent aliases) (remembered : Remembered latest aliases) :
    ((withoutRepeats latest aliases).map Declaration.name).Nodup ∧
      ∀ kept ∈ withoutRepeats latest aliases, latest.lookup kept.name = none := by
  induction aliases generalizing latest with
  | nil => simp [withoutRepeats]
  | cons first rest ih =>
    obtain ⟨agrees, coherent⟩ := List.pairwise_cons.mp coherent
    obtain ⟨firstRemembered, remembered⟩ := List.forall_mem_cons.mp remembered
    rw [withoutRepeats]
    by_cases said : latest.lookup first.name = some first.body
    · rw [if_pos said]
      exact ih coherent remembered
    · rw [if_neg said]
      have fresh : latest.lookup first.name = none :=
        Option.eq_none_iff_forall_not_mem.mpr fun body held =>
          said (firstRemembered body held ▸ held)
      -- The pass goes on with `first` in memory, so it keeps no other alias of that name.
      obtain ⟨distinct, absent⟩ := ih coherent (Remembered.cons remembered agrees)
      have apart : ∀ kept ∈ withoutRepeats ((first.name, first.body) :: latest) rest,
          kept.name ≠ first.name ∧ latest.lookup kept.name = none := by
        intro kept member
        have none := absent kept member
        rw [lookup_cons] at none
        split at none
        · cases none
        · exact ⟨‹_›, none⟩
      constructor
      · rw [List.map_cons, List.nodup_cons]
        refine ⟨fun repeated => ?_, distinct⟩
        obtain ⟨kept, member, same⟩ := List.mem_map.mp repeated
        exact (apart kept member).1 same
      · exact List.forall_mem_cons.mpr ⟨fresh, fun kept member => (apart kept member).2⟩

private theorem Disagree.symm (disagree : Disagree index app left right) :
    Disagree index app right left := by
  rcases disagree with given | ⟨text, sent, other, otherSent, different⟩
  · exact .inl given.symm
  · exact .inr ⟨other, otherSent, text, sent, different.symm⟩

private theorem Disagree.irrefl : ¬ Disagree index app endpoint endpoint := by
  rintro (given | ⟨text, sent, other, otherSent, different⟩)
  · exact given rfl
  · rw [Option.mem_def] at sent otherSent
    exact different (Option.some.inj (sent.symm.trans otherSent))

/-- An application with two endpoints of another one and nothing else to declare. -/
def pairAlone (app : App) (left right : Endpoint) : App :=
  { app with serializers := [], endpoints := [left, right] }

private theorem aliasStem_eq (sameClass : left.handlerClass = right.handlerClass)
    (sameFunction : left.handlerFunction = right.handlerFunction) (app : App) :
    aliasStem app left = aliasStem app right := by
  have function : isFunction app left = isFunction app right := by
    simp only [isFunction, sameClass, sameFunction]
  rw [aliasStem, aliasStem, function, sameClass, sameFunction]

/-- A module of aliases repeats a name exactly when two of its endpoints clash. -/
theorem aliases_distinct_iff (only : app.serializers = []) :
    ((moduleOf index app).declarations.map Declaration.name).Nodup ↔
      ∀ left ∈ app.endpoints, ∀ right ∈ app.endpoints, ¬ Clash index app left right := by
  refine ⟨fun distinct _ _ _ _ clash => clash.repeats distinct, fun agree => ?_⟩
  have coherent : Coherent ((app.endpoints.map (endpointAliases index app)).flatMap (·.1)) := by
    refine List.pairwise_of_forall_mem_list fun first firstListed second secondListed named => ?_
    obtain ⟨_, mapped, listed⟩ := List.mem_flatMap.mp firstListed
    obtain ⟨left, leftMember, rfl⟩ := List.mem_map.mp mapped
    obtain ⟨_, otherMapped, otherListed⟩ := List.mem_flatMap.mp secondListed
    obtain ⟨right, rightMember, rfl⟩ := List.mem_map.mp otherMapped
    by_contra different
    refine agree left leftMember right rightMember ?_
    exact (clash_iff leftMember rightMember).mpr (reads_differ_iff.mp
      ⟨first.name, first.body, second.body, ⟨first, listed, rfl, rfl⟩,
        ⟨second, otherListed, named.symm, rfl⟩, different⟩)
  have declarations : (moduleOf index app).declarations =
      withoutRepeats [] ((app.endpoints.map (endpointAliases index app)).flatMap (·.1)) := by
    rw [moduleOf, only, List.flatMap_nil, List.nil_append]
  rw [declarations]
  exact (withoutRepeats_distinct coherent fun _ _ _ held => by cases held).1

/-- What two endpoints of a handler disagree about is all that a module of the
two can repeat a name for. -/
theorem pairAlone_repeats_iff (sameClass : left.handlerClass = right.handlerClass)
    (sameFunction : left.handlerFunction = right.handlerFunction) :
    ¬ ((moduleOf index (pairAlone app left right)).declarations.map Declaration.name).Nodup ↔
      Disagree index app left right := by
  have sameStem := aliasStem_eq sameClass sameFunction (pairAlone app left right)
  have members : left ∈ (pairAlone app left right).endpoints ∧
      right ∈ (pairAlone app left right).endpoints := by simp [pairAlone]
  rw [aliases_distinct_iff rfl]
  constructor
  · intro clashing
    by_contra agree
    refine clashing fun one oneMember other otherMember clash => ?_
    have disagree := ((clash_iff oneMember otherMember).mp clash).2
    simp only [pairAlone, List.mem_cons, List.not_mem_nil, or_false] at oneMember otherMember
    rcases oneMember with rfl | rfl <;> rcases otherMember with rfl | rfl
    · exact Disagree.irrefl disagree
    · exact agree disagree
    · exact agree disagree.symm
    · exact Disagree.irrefl disagree
  · intro disagree agree
    exact agree left members.1 right members.2
      ((clash_iff members.1 members.2).mpr ⟨sameStem, disagree⟩)

/-- The methods under which a handler with one serializer contradicts itself, in
one order: it deletes under the one and gives something back under the other,
it gives a page under the one and an object under the other, or it creates
under the one and updates under the other. -/
inductive Contradicts (target : Option KnownSerializer) (function : String) :
    HttpMethod → HttpMethod → Prop where
  | deletes (kept : method ≠ .delete) (typed : givenText target function method ≠ "void") :
      Contradicts target function .delete method
  | pages (served : target = some known) (lists : function = "list")
      (sends : method = .post ∨ method = .put ∨ method = .patch) :
      Contradicts target function .get method
  | payloads (served : target = some known) (writable : known.writable = true)
      (updates : method = .put ∨ method = .patch) : Contradicts target function .post method

private theorem pageOf_ne (interface : String) : pageOf interface ≠ interface := by
  intro same
  have length := congrArg String.length same
  have opening : (pageName ++ "<").length = 18 := by decide
  rw [pageOf, String.length_append, String.length_append, opening] at length
  omega

private theorem creationName_ne_updateName (interface : String) :
    Declaration.creationName interface ≠ Declaration.updateName interface := by
  intro same
  exact absurd (String.append_left_inj interface |>.mp same) (by decide)

section
variable {target : Option KnownSerializer} {function : String} {method left right : HttpMethod}

private theorem givenText_none (kept : method ≠ .delete) :
    givenText none function method = "Record<string, any>" := by
  cases method <;> first | rfl | exact absurd rfl kept

private theorem givenText_object (kept : method ≠ .delete)
    (single : method ≠ .get ∨ function ≠ "list") :
    givenText (some known) function method = known.interface := by
  cases method with
  | get => exact if_neg (single.resolve_left fun same => same rfl)
  | delete => exact absurd rfl kept
  | _ => rfl

private theorem givenText_page : givenText (some known) "list" .get = pageOf known.interface := rfl

/-- What is given back differs under two methods only where they contradict each other. -/
private theorem contradicts_of_given_ne
    (different : givenText target function left ≠ givenText target function right) :
    Contradicts target function left right ∨ Contradicts target function right left := by
  by_cases leftDeletes : left = .delete
  · subst leftDeletes
    exact .inl (.deletes (fun same => different (same ▸ rfl)) different.symm)
  by_cases rightDeletes : right = .delete
  · subst rightDeletes
    exact .inr (.deletes (fun same => different (same ▸ rfl)) different)
  cases target with
  | none => exact absurd (givenText_none leftDeletes) (givenText_none rightDeletes ▸ different)
  | some known =>
    by_cases lists : function = "list"
    · subst lists
      have sends {method : HttpMethod} (kept : method ≠ .delete) (single : method ≠ .get) :
          method = .post ∨ method = .put ∨ method = .patch := by
        cases method <;> simp_all
      by_cases leftGets : left = .get
      · subst leftGets
        have rightSends := sends rightDeletes fun same => different (same ▸ rfl)
        exact .inl (.pages rfl rfl rightSends)
      · by_cases rightGets : right = .get
        · subst rightGets
          exact .inr (.pages rfl rfl (sends leftDeletes leftGets))
        · rw [givenText_object leftDeletes (.inl leftGets),
            givenText_object rightDeletes (.inl rightGets)] at different
          exact absurd rfl different
    · rw [givenText_object leftDeletes (.inr lists), givenText_object rightDeletes (.inr lists)]
        at different
      exact absurd rfl different

private theorem payloadText_ne
    (different : payloadText target Declaration.creationName ≠
      payloadText target Declaration.updateName) :
    ∃ known, target = some known ∧ known.writable = true := by
  cases target with
  | none => exact absurd rfl different
  | some known =>
    cases writable : known.writable with
    | true => exact ⟨known, rfl, writable⟩
    | false => simp [payloadText, writable] at different

/-- Something is sent by a creation or by an update, each with its own payload. -/
private theorem sent_cases (sent : sentText? target method = some text) :
    (method = .post ∧ text = payloadText target Declaration.creationName) ∨
      ((method = .put ∨ method = .patch) ∧ text = payloadText target Declaration.updateName) := by
  cases method with
  | get | delete => cases sent
  | post => exact .inl ⟨rfl, (Option.some.inj sent).symm⟩
  | put => exact .inr ⟨.inl rfl, (Option.some.inj sent).symm⟩
  | patch => exact .inr ⟨.inr rfl, (Option.some.inj sent).symm⟩

private theorem contradicts_of_sent_ne (sent : sentText? target left = some text)
    (otherSent : sentText? target right = some other) (different : text ≠ other) :
    Contradicts target function left right ∨ Contradicts target function right left := by
  rcases sent_cases sent with ⟨rfl, rfl⟩ | ⟨updates, rfl⟩ <;>
    rcases sent_cases otherSent with ⟨rfl, rfl⟩ | ⟨otherUpdates, rfl⟩
  · exact absurd rfl different
  · obtain ⟨known, served, writable⟩ := payloadText_ne different
    exact .inl (.payloads served writable otherUpdates)
  · obtain ⟨known, served, writable⟩ := payloadText_ne different.symm
    exact .inr (.payloads served writable updates)
  · exact absurd rfl different

private theorem differs_of_contradicts (found : Contradicts target function left right) :
    givenText target function left ≠ givenText target function right ∨
      ∃ text ∈ sentText? target left, ∃ other ∈ sentText? target right, text ≠ other := by
  cases found with
  | deletes kept typed => exact .inl typed.symm
  | pages served lists sends =>
    subst served lists
    left
    rw [givenText_page]
    rcases sends with rfl | rfl | rfl <;> exact pageOf_ne _
  | payloads served writable updates =>
    subst served
    right
    rcases updates with rfl | rfl <;>
      refine ⟨_, rfl, _, rfl, ?_⟩ <;>
      simpa [payloadText, writable] using creationName_ne_updateName _

/-- Endpoints of one function and one target disagree where their methods contradict each
other. -/
private theorem disagree_of_contradicts {left right : Endpoint}
    (sameFunction : left.handlerFunction = right.handlerFunction)
    (sameTarget : targetOf index app left = targetOf index app right)
    (found : Contradicts (targetOf index app left) left.handlerFunction left.method
      right.method) : Disagree index app left right := by
  rw [Disagree, ← sameTarget, ← sameFunction]
  exact differs_of_contradicts found

/-- Endpoints of a handler with one serializer disagree exactly under
contradicting methods. -/
theorem disagree_iff_contradicts {left right : Endpoint}
    (sameFunction : left.handlerFunction = right.handlerFunction)
    (sameTarget : targetOf index app left = targetOf index app right) :
    Disagree index app left right ↔
      Contradicts (targetOf index app left) left.handlerFunction left.method right.method ∨
        Contradicts (targetOf index app left) left.handlerFunction right.method left.method := by
  constructor
  · intro disagree
    rw [Disagree, ← sameTarget, ← sameFunction] at disagree
    rcases disagree with given | ⟨text, sent, other, otherSent, different⟩
    · exact contradicts_of_given_ne given
    · exact contradicts_of_sent_ne sent otherSent different
  · rintro (found | found)
    · exact disagree_of_contradicts sameFunction sameTarget found
    · rw [sameTarget, sameFunction] at found
      exact (disagree_of_contradicts sameFunction.symm sameTarget.symm found).symm

end

/-- Two endpoints of one handler clash in their module exactly when they give
back or are sent different things; with one serializer that is a matter of their
methods. This is also when a module with nothing but the two makes the renderer
report a repeated name, and a module with a clash always makes it report one. -/
theorem handler_clash_iff {app : App} {left right : Endpoint} (index : SerializerIndex)
    (leftMember : left ∈ app.endpoints) (rightMember : right ∈ app.endpoints)
    (sameClass : left.handlerClass = right.handlerClass)
    (sameFunction : left.handlerFunction = right.handlerFunction) :
    (Clash index app left right ↔ Disagree index app left right) ∧
      (targetOf index app left = targetOf index app right →
        (Disagree index app left right ↔
          Contradicts (targetOf index app left) left.handlerFunction left.method right.method ∨
          Contradicts (targetOf index app left) left.handlerFunction right.method left.method)) ∧
      (∀ config, (∃ emission ∈ emissions config [moduleOf index (pairAlone app left right)],
        ReportsRepeat emission) ↔ Disagree index app left right) ∧
      (Clash index app left right → ∀ config modules, moduleOf index app ∈ modules →
        ∃ emission ∈ emissions config modules, ReportsRepeat emission) := by
  have sameStem := aliasStem_eq sameClass sameFunction app
  refine ⟨(clash_iff leftMember rightMember).trans (and_iff_right sameStem),
    disagree_iff_contradicts sameFunction, fun config => ?_, fun clash config modules member => ?_⟩
  · rw [emissions_report_iff, ← pairAlone_repeats_iff sameClass sameFunction]
    simp
  · exact emissions_report_iff.mpr ⟨_, member, clash.repeats⟩

/-- An endpoint of the function that keeps the items of a shop. -/
def storing (method : HttpMethod) : Endpoint :=
  { path := "/item/", method, handlerClass := "views", handlerFunction := "item"
    description := "", serializerClass := some "ItemSerializer", permissionClasses := [] }

/-- A shop whose items are created and updated by one function. -/
def storingApp : App :=
  { name := "shop", rootPath := "shop", pythonFileCount := 2, usesRestFramework := true
    models := [], views := [], endpoints := [storing .post, storing .put, storing .patch]
    serializers := [⟨⟨"ItemSerializer", "shop/serializers.py", 1, ["Serializer"], none⟩,
      [{ name := "title", type := .string }]⟩] }

/-- Creating an item and updating it clash, the two ways to update it do not. -/
theorem item_updates_agree :
    (storing .post ∈ storingApp.endpoints ∧ storing .put ∈ storingApp.endpoints ∧
      storing .patch ∈ storingApp.endpoints) ∧
      Clash (.ofApps [storingApp]) storingApp (storing .post) (storing .put) ∧
      ¬ Clash (.ofApps [storingApp]) storingApp (storing .put) (storing .patch) ∧
      ¬ ∃ emission ∈ emissions {}
        [moduleOf (.ofApps [storingApp]) (pairAlone storingApp (storing .put) (storing .patch))],
        ReportsRepeat emission := by
  have served : targetOf (.ofApps [storingApp]) storingApp (storing .post) =
      some ⟨"ItemSerializer", "shop", "Item", true⟩ := by decide
  have members : storing .post ∈ storingApp.endpoints ∧ storing .put ∈ storingApp.endpoints ∧
      storing .patch ∈ storingApp.endpoints := by decide
  obtain ⟨created, updated, patched⟩ := members
  obtain ⟨clash, contradict, _⟩ :=
    handler_clash_iff (.ofApps [storingApp]) created updated rfl rfl
  obtain ⟨agree, same, alone, _⟩ :=
    handler_clash_iff (.ofApps [storingApp]) updated patched rfl rfl
  have disagree : ¬ Disagree (.ofApps [storingApp]) storingApp (storing .put) (storing .patch) := by
    rw [same rfl]
    rintro (found | found) <;> cases found
  refine ⟨⟨created, updated, patched⟩, clash.mpr ((contradict rfl).mpr (.inl ?_)), agree.not.mpr disagree,
    (alone {}).not.mpr disagree⟩
  exact .payloads served rfl (.inl rfl)

/-- A shop whose items are read and deleted by one function. -/
def itemTree : FileTree :=
  ⟨[(["shop"], .directory),
    (["shop", "views.py"], .file (.text
      "@api_view(['GET', 'DELETE'])\ndef item(request):\n  pass\n"))]⟩

def itemFiles : AppFiles :=
  { name := "shop"
    rootPath := "shop"
    pythonFiles := ["shop/views.py"]
    modelFiles := []
    serializerFiles := []
    viewFiles := ["shop/views.py"]
    urlFiles := [] }

def itemApp : App := (App.analyze {} itemTree itemFiles).1

/-- The function of the shop gives an object for the one method and nothing for the other. -/
theorem item_function_clashes : ∃ left ∈ itemApp.endpoints, ∃ right ∈ itemApp.endpoints,
    left.handlerClass = right.handlerClass ∧ left.handlerFunction = right.handlerFunction ∧
      left.method ≠ right.method ∧ Clash (.ofApps [itemApp]) itemApp left right ∧
      ∃ emission ∈ emissions {} [moduleOf (.ofApps [itemApp]) itemApp],
        ReportsRepeat emission := by
  decide +kernel

end ApiScribe.TypeScript
