import ApiScribe.Proofs.TypeScript.Aliases

/-! Aliases that come up again. Only the last right-hand side of each name is remembered
while the aliases of the endpoints are declared, so what a name says is not repeated as long
as it stays the same, but it is when another right-hand side stood in between. -/
namespace ApiScribe.TypeScript

/-- What an alias says: its name and its right-hand side. -/
def Declaration.said (declaration : Declaration) : String × Body :=
  (declaration.name, declaration.body)

variable {aliases : List Declaration} {latest : List (String × Body)} {name : String}
  {body other : Body} {index : SerializerIndex} {app : App}

/-! What is kept of a list of aliases. -/

private theorem withoutRepeats_said {first : Declaration} {rest : List Declaration}
    (known : latest.lookup first.name = some first.body) :
    withoutRepeats latest (first :: rest) = withoutRepeats latest rest := by
  rw [withoutRepeats, if_pos known]

private theorem withoutRepeats_new {first : Declaration} {rest : List Declaration}
    (fresh : latest.lookup first.name ≠ some first.body) :
    withoutRepeats latest (first :: rest) =
      first :: withoutRepeats ((first.name, first.body) :: latest) rest := by
  rw [withoutRepeats, if_neg fresh]

private theorem withoutRepeats_sublist (latest : List (String × Body))
    (aliases : List Declaration) :
    (withoutRepeats latest aliases).Sublist aliases := by
  induction aliases generalizing latest with
  | nil => exact List.nil_sublist []
  | cons first rest ih =>
    by_cases known : latest.lookup first.name = some first.body
    · rw [withoutRepeats_said known]
      exact (ih latest).cons first
    · rw [withoutRepeats_new known]
      exact (ih _).cons_cons first

/-- What is remembered of a name is kept again only behind something else. -/
theorem other_between (known : latest.lookup name = some body)
    (again : (name, body) ∈ (withoutRepeats latest aliases).map Declaration.said) :
    ∃ other, other ≠ body ∧ [(name, other), (name, body)].Sublist
      ((withoutRepeats latest aliases).map Declaration.said) := by
  induction aliases generalizing latest with
  | nil => cases again
  | cons first rest ih =>
    by_cases said : latest.lookup first.name = some first.body
    · rw [withoutRepeats_said said] at again ⊢
      exact ih known again
    · rw [withoutRepeats_new said, List.map_cons] at again ⊢
      by_cases same : first.name = name
      · -- The first alias of the name is new, so it says something else.
        have different : first.body ≠ body := fun equal => said (same ▸ equal ▸ known)
        have later := (List.mem_cons.mp again).resolve_left fun here =>
          different (congrArg Prod.snd here).symm
        refine ⟨first.body, different, ?_⟩
        have here : first.said = (name, first.body) := by rw [Declaration.said, same]
        rw [here]
        exact (List.singleton_sublist.mpr later).cons_cons _
      · have later := (List.mem_cons.mp again).resolve_left fun here =>
          same (congrArg Prod.fst here).symm
        have kept : List.lookup name ((first.name, first.body) :: latest) = some body := by
          rw [lookup_cons, if_neg (Ne.symm same), known]
        obtain ⟨other, different, sublist⟩ := ih kept later
        exact ⟨other, different, sublist.cons _⟩

/-- Right-hand sides of one name that change from each to the next are all kept, but for the
first one if it is remembered. -/
theorem changes_kept (latest : List (String × Body)) {bodies : List Body}
    (changes : bodies.IsChain (· ≠ ·))
    (listed : (bodies.map (name, ·)).Sublist (aliases.map Declaration.said)) :
    (bodies.tail.map (name, ·)).Sublist
        ((withoutRepeats latest aliases).map Declaration.said) ∧
      (latest.lookup name ≠ bodies.head? →
        (bodies.map (name, ·)).Sublist
          ((withoutRepeats latest aliases).map Declaration.said)) := by
  induction aliases generalizing latest bodies with
  | nil =>
    have none : bodies = [] := by simpa using listed
    subst none
    exact ⟨List.nil_sublist _, fun _ => List.nil_sublist _⟩
  | cons first rest ih =>
    cases bodies with
    | nil => exact ⟨List.nil_sublist _, fun _ => List.nil_sublist _⟩
    | cons body more =>
      have changed : some body ≠ more.head? := by
        cases more with
        | nil => simp
        | cons next others => simpa using (List.isChain_cons_cons.mp changes).1
      rw [List.map_cons, List.map_cons] at listed
      by_cases said : latest.lookup first.name = some first.body
      · rw [withoutRepeats_said said]
        rcases List.cons_sublist_cons'.mp listed with later | ⟨here, later⟩
        · exact ih latest changes later
        · have known : latest.lookup name = some body := by
            rw [Declaration.said, Prod.mk.injEq] at here
            rw [here.1, here.2, said]
          exact ⟨(ih latest changes.of_cons later).2 (known ▸ changed),
            fun fresh => absurd known fresh⟩
      · rw [withoutRepeats_new said, List.map_cons]
        rcases List.cons_sublist_cons'.mp listed with later | ⟨here, later⟩
        · have below := ih ((first.name, first.body) :: latest) changes later
          refine ⟨below.1.cons _, fun fresh => ?_⟩
          by_cases same : first.name = name
          · by_cases equal : first.body = body
            · have head : first.said = (name, body) := by rw [Declaration.said, same, equal]
              rw [head]
              exact below.1.cons_cons _
            · refine (below.2 ?_).cons _
              rw [lookup_cons, if_pos same.symm]
              simpa using equal
          · refine (below.2 ?_).cons _
            rwa [lookup_cons, if_neg (Ne.symm same)]
        · have kept := (ih ((first.name, first.body) :: latest) changes.of_cons later).2 <| by
            rw [Declaration.said, Prod.mk.injEq] at here
            rw [lookup_cons, if_pos here.1, ← here.2]
            exact changed
          rw [← here]
          exact ⟨kept.cons _, fun _ => kept.cons_cons _⟩

/-- What is said comes back: one right-hand side, another one and the first one again. -/
def ComesBack (said : List (String × Body)) : Prop :=
  ∃ name body other, other ≠ body ∧ [(name, body), (name, other), (name, body)].Sublist said

private theorem ComesBack.mono {said more : List (String × Body)} (sublist : said.Sublist more)
    (back : ComesBack said) : ComesBack more := by
  obtain ⟨name, body, other, different, listed⟩ := back
  exact ⟨name, body, other, different, listed.trans sublist⟩

/-- What is kept twice has something else in between. -/
theorem comesBack_of_twice
    (twice : ¬ ((withoutRepeats latest aliases).map Declaration.said).Nodup) :
    ComesBack ((withoutRepeats latest aliases).map Declaration.said) := by
  induction aliases generalizing latest with
  | nil => exact absurd List.nodup_nil twice
  | cons first rest ih =>
    by_cases said : latest.lookup first.name = some first.body
    · rw [withoutRepeats_said said] at twice ⊢
      exact ih twice
    · rw [withoutRepeats_new said, List.map_cons] at twice ⊢
      by_cases again : first.said ∈
          (withoutRepeats ((first.name, first.body) :: latest) rest).map Declaration.said
      · have known : List.lookup first.name ((first.name, first.body) :: latest) =
            some first.body := by rw [lookup_cons, if_pos rfl]
        obtain ⟨other, different, listed⟩ := other_between known again
        exact ⟨first.name, first.body, other, different, listed.cons_cons _⟩
      · have below := ih fun distinct => twice (List.nodup_cons.mpr ⟨again, distinct⟩)
        exact below.mono (List.sublist_cons_self _ _)

/-- Every alias is kept once exactly if none comes back. -/
theorem kept_once_iff (aliases : List Declaration) :
    ((withoutRepeats [] aliases).map Declaration.said).Nodup ↔
      ¬ ComesBack (aliases.map Declaration.said) := by
  constructor
  · rintro distinct ⟨name, body, other, different, listed⟩
    have changes : [body, other, body].IsChain (· ≠ ·) := by
      simp [different, different.symm]
    have kept := (changes_kept [] changes listed).2 (by simp)
    have twice := distinct.sublist kept
    simp at twice
  · intro steady
    by_contra twice
    exact steady ((comesBack_of_twice twice).mono ((withoutRepeats_sublist [] aliases).map _))

/-! Aliases of endpoints. -/

/-- Whether a declaration is an alias. -/
def Declaration.isAlias (declaration : Declaration) : Bool :=
  match declaration.body with
  | .synonym _ => true
  | _ => false

/-- The aliases that the module of an application declares. -/
def declaredAliases (index : SerializerIndex) (app : App) : List Declaration :=
  (moduleOf index app).declarations.filter Declaration.isAlias

private theorem serializerDeclarations_not_alias {resolve? : String → Option KnownSerializer}
    {found : ClassFields} {declaration : Declaration}
    (listed : declaration ∈ serializerDeclarations resolve? found) :
    declaration.isAlias = false := by
  rw [serializerDeclarations, List.cons_append, List.mem_cons, List.mem_append] at listed
  rcases listed with rfl | variant | choices
  · rfl
  · rw [Declaration.variants, interfaceOf] at variant
    simp only at variant
    split at variant
    · cases variant
    · simp only [List.mem_cons, List.not_mem_nil, or_false] at variant
      rcases variant with rfl | rfl <;> rfl
  · obtain ⟨field, _, rfl⟩ := List.mem_map.mp choices
    rfl

private theorem endpointAliases_isAlias {endpoint : Endpoint} {declaration : Declaration}
    (listed : declaration ∈ (endpointAliases index app endpoint).1) :
    declaration.isAlias = true := by
  rw [Declaration.isAlias]
  rcases aliasReads_iff.mp ⟨declaration, listed, rfl, rfl⟩ with ⟨_, body⟩ | ⟨_, _, _, body⟩ <;>
    rw [body]

/-- The aliases of a module are those of the endpoints. -/
theorem declaredAliases_eq (index : SerializerIndex) (app : App) :
    declaredAliases index app =
      withoutRepeats [] ((app.endpoints.map (endpointAliases index app)).flatMap (·.1)) := by
  have none : (app.serializers.flatMap
      (serializerDeclarations (index.resolve? (some app.name)))).filter
        Declaration.isAlias = [] := by
    rw [List.filter_eq_nil_iff]
    intro declaration listed
    obtain ⟨found, _, inside⟩ := List.mem_flatMap.mp listed
    simp [serializerDeclarations_not_alias inside]
  rw [declaredAliases, moduleOf, List.filter_append, none, List.nil_append, List.filter_eq_self]
  intro declaration kept
  have listed := (withoutRepeats_sublist [] _).subset kept
  obtain ⟨_, mapped, inside⟩ := List.mem_flatMap.mp listed
  obtain ⟨endpoint, _, rfl⟩ := List.mem_map.mp mapped
  exact endpointAliases_isAlias inside

/-- The aliases of one endpoint have different names. -/
theorem endpointAliases_names (index : SerializerIndex) (app : App) (endpoint : Endpoint) :
    ((endpointAliases index app endpoint).1.map Declaration.name).Nodup := by
  simp only [endpointAliases]
  split
  · exact List.nodup_singleton _
  · simp [Declaration.aliasOf]

/-- What is said by the aliases of endpoints. -/
def saidOf (index : SerializerIndex) (app : App) (endpoints : List Endpoint) :
    List (String × Body) :=
  ((endpoints.map (endpointAliases index app)).flatMap (·.1)).map Declaration.said

private theorem saidOf_cons (index : SerializerIndex) (app : App) (first : Endpoint)
    (rest : List Endpoint) : saidOf index app (first :: rest) =
      (endpointAliases index app first).1.map Declaration.said ++ saidOf index app rest := by
  rw [saidOf, List.map_cons, List.flatMap_cons, List.map_append, saidOf]

private theorem aliasReads_iff_said {endpoint : Endpoint} :
    AliasReads index app endpoint name body ↔
    (name, body) ∈ (endpointAliases index app endpoint).1.map Declaration.said := by
  simp [AliasReads, Declaration.said]

/-- An endpoint says one thing at most under a name. -/
theorem said_by_one {endpoint : Endpoint} {bodies : List Body}
    (listed : (bodies.map (name, ·)).Sublist
      ((endpointAliases index app endpoint).1.map Declaration.said)) :
    bodies = [] ∨ ∃ body, bodies = [body] ∧ AliasReads index app endpoint name body := by
  cases bodies with
  | nil => exact .inl rfl
  | cons body others =>
    have reads : AliasReads index app endpoint name body :=
      aliasReads_iff_said.mpr (listed.subset List.mem_cons_self)
    cases others with
    | nil => exact .inr ⟨body, rfl, reads⟩
    | cons second others =>
      have names := listed.map Prod.fst
      rw [List.map_map, List.map_map] at names
      have distinct := (endpointAliases_names index app endpoint).sublist names
      simp at distinct

/-- Endpoints that stand one after the other say things of one name one after the other, and
what is said so comes from as many endpoints. -/
theorem said_sublist_iff {endpoints : List Endpoint} {bodies : List Body} :
    (bodies.map (name, ·)).Sublist (saidOf index app endpoints) ↔
      ∃ chosen, chosen.Sublist endpoints ∧
        List.Forall₂ (fun body endpoint => AliasReads index app endpoint name body)
          bodies chosen := by
  constructor
  · intro listed
    induction endpoints generalizing bodies with
    | nil =>
      have none : bodies = [] := by simpa [saidOf] using listed
      subst none
      exact ⟨[], List.nil_sublist _, .nil⟩
    | cons endpoint rest ih =>
      rw [saidOf_cons] at listed
      obtain ⟨own, later, split, ownListed, laterListed⟩ := List.sublist_append_iff.mp listed
      obtain ⟨here, below, rfl, rfl, rfl⟩ := List.map_eq_append_iff.mp split
      obtain ⟨chosen, sublist, related⟩ := ih laterListed
      rcases said_by_one ownListed with rfl | ⟨body, rfl, reads⟩
      · exact ⟨chosen, sublist.cons endpoint, related⟩
      · exact ⟨endpoint :: chosen, sublist.cons_cons endpoint, .cons reads related⟩
  · rintro ⟨chosen, sublist, related⟩
    induction sublist generalizing bodies with
    | slnil =>
      cases related
      exact List.nil_sublist _
    | cons endpoint _ ih =>
      rw [saidOf_cons]
      exact (ih related).trans (List.sublist_append_right _ _)
    | cons_cons endpoint _ ih =>
      rw [saidOf_cons]
      cases related with
      | cons reads below =>
        have own := List.singleton_sublist.mpr (aliasReads_iff_said.mp reads)
        exact own.append (ih below)

/-! What the endpoints of a handler give back and are sent. -/

section
variable (index : SerializerIndex) (app : App)

/-- What an endpoint gives back. -/
def givenBy (endpoint : Endpoint) : String :=
  givenText (targetOf index app endpoint) endpoint.handlerFunction endpoint.method

/-- What an endpoint is sent. -/
def sentTo? (endpoint : Endpoint) : Option String :=
  sentText? (targetOf index app endpoint) endpoint.method

/-- The first and the last of three endpoints give back or are sent the same thing and the
one between them something else. -/
def TurnsBack (first between last : Endpoint) : Prop :=
  givenBy index app first = givenBy index app last ∧
      givenBy index app between ≠ givenBy index app first ∨
    ∃ text other, sentTo? index app first = some text ∧ sentTo? index app between = some other ∧
      sentTo? index app last = some text ∧ other ≠ text

end

section
variable {stem : String} {endpoint first between last : Endpoint}

private theorem aliasReads_response : AliasReads index app endpoint (stem ++ "Response") body ↔
    stem = aliasStem app endpoint ∧ body = .synonym (some (givenBy index app endpoint)) := by
  rw [aliasReads_iff, String.append_left_inj]
  exact or_iff_left fun ⟨_, _, same, _⟩ => response_ne_request _ _ same

private theorem aliasReads_request : AliasReads index app endpoint (stem ++ "Request") body ↔
    stem = aliasStem app endpoint ∧
      ∃ text, sentTo? index app endpoint = some text ∧ body = .synonym (some text) := by
  rw [aliasReads_iff, or_iff_right fun given => response_ne_request _ _ given.1.symm]
  constructor
  · rintro ⟨text, sent, same, rfl⟩
    exact ⟨(String.append_left_inj _).mp same, text, sent, rfl⟩
  · rintro ⟨rfl, text, sent, rfl⟩
    exact ⟨text, sent, rfl, rfl⟩

/-- Three endpoints say one thing under a name, then something else and then the first thing
again exactly if their aliases are named alike and they turn back. -/
theorem reads_again_iff :
    (∃ name body other, other ≠ body ∧ AliasReads index app first name body ∧
        AliasReads index app between name other ∧ AliasReads index app last name body) ↔
      aliasStem app first = aliasStem app between ∧ aliasStem app first = aliasStem app last ∧
        TurnsBack index app first between last := by
  constructor
  · rintro ⟨name, body, other, different, reads, readsOther, readsAgain⟩
    rcases aliasReads_iff.mp reads with ⟨rfl, _⟩ | ⟨_, _, rfl, _⟩
    · obtain ⟨_, rfl⟩ := aliasReads_response.mp reads
      obtain ⟨between_same, rfl⟩ := aliasReads_response.mp readsOther
      obtain ⟨last_same, given⟩ := aliasReads_response.mp readsAgain
      refine ⟨between_same, last_same, .inl ⟨by simpa using given, ?_⟩⟩
      exact fun same => different (by rw [same])
    · obtain ⟨_, text, sent, rfl⟩ := aliasReads_request.mp reads
      obtain ⟨between_same, otherText, otherSent, rfl⟩ := aliasReads_request.mp readsOther
      obtain ⟨last_same, again, againSent, equal⟩ := aliasReads_request.mp readsAgain
      cases equal
      refine ⟨between_same, last_same, .inr ⟨text, otherText, sent, otherSent, againSent, ?_⟩⟩
      exact fun same => different (by rw [same])
  · rintro ⟨between_same, last_same, ⟨given, different⟩ | ⟨text, other, sent, otherSent,
      again, different⟩⟩
    · exact ⟨_, _, _, by simpa using different, aliasReads_response.mpr ⟨rfl, rfl⟩,
        aliasReads_response.mpr ⟨between_same, rfl⟩,
        aliasReads_response.mpr ⟨last_same, by rw [given]⟩⟩
    · exact ⟨_, .synonym (some text), .synonym (some other), by simpa using different,
        aliasReads_request.mpr ⟨rfl, text, sent, rfl⟩,
        aliasReads_request.mpr ⟨between_same, other, otherSent, rfl⟩,
        aliasReads_request.mpr ⟨last_same, text, again, rfl⟩⟩

end

/-- A module declares each alias once exactly if no three endpoints of its application, in
their order, turn back under one name: what the first gives back or is sent and the last
again, while the one between them says something else. -/
theorem aliases_said_once_iff (index : SerializerIndex) (app : App) :
    ((declaredAliases index app).map Declaration.said).Nodup ↔
      ∀ first between last, [first, between, last].Sublist app.endpoints →
        aliasStem app first = aliasStem app between → aliasStem app first = aliasStem app last →
          ¬ TurnsBack index app first between last := by
  rw [declaredAliases_eq, kept_once_iff]
  constructor
  · intro steady first between last sublist between_same last_same turns
    obtain ⟨name, body, other, different, reads, readsOther, readsAgain⟩ :=
      reads_again_iff.mpr ⟨between_same, last_same, turns⟩
    have listed : ([body, other, body].map (name, ·)).Sublist (saidOf index app app.endpoints) :=
      said_sublist_iff.mpr ⟨_, sublist, .cons reads (.cons readsOther (.cons readsAgain .nil))⟩
    exact steady ⟨name, body, other, different, listed⟩
  · rintro straight ⟨name, body, other, different, listed⟩
    have shape : ([body, other, body].map (name, ·)).Sublist (saidOf index app app.endpoints) :=
      listed
    obtain ⟨chosen, sublist, related⟩ := said_sublist_iff.mp shape
    cases related with
    | cons reads related => cases related with
      | cons readsOther related => cases related with
        | cons readsAgain related =>
          cases related
          obtain ⟨between_same, last_same, turns⟩ :=
            reads_again_iff.mp ⟨name, body, other, different, reads, readsOther, readsAgain⟩
          exact straight _ _ _ sublist between_same last_same turns

/-- A shop that has one function for its items, routed at two paths. -/
def itemView : View :=
  { name := "item", file := "shop/views.py", line := 2, kind := .function, handlerClass := "views"
    docstring := none, serializerClass := none, model := none, permissionClasses := []
    handlers := [⟨.get, "item", none⟩, ⟨.delete, "item", none⟩], actions := [] }

def itemEndpoint (method : HttpMethod) (path : String) : Endpoint :=
  { path, method, handlerClass := "views", handlerFunction := "item" }

def itemUrlsApp : App :=
  { name := "shop", rootPath := "shop", pythonFileCount := 2, usesRestFramework := false
    models := [], serializers := [], views := [itemView]
    endpoints := [itemEndpoint .get "/item/", itemEndpoint .delete "/item/",
      itemEndpoint .get "/items/", itemEndpoint .delete "/items/"] }

/-- The function gives back an object, nothing, an object again and nothing again, and its
module declares each of the two aliases twice. -/
theorem item_aliases_repeated :
    ¬ ((declaredAliases (.ofApps [itemUrlsApp]) itemUrlsApp).map Declaration.said).Nodup := by
  decide

end ApiScribe.TypeScript
