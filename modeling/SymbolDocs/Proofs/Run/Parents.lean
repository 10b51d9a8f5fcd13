import SymbolDocs.Proofs.Naming.Exports
import SymbolDocs.Proofs.Run.Contents

/-!
# Owners are built before their members

A doclet is structural if no tag says where it belongs, so that only the open scopes can give it an owner. The open
scopes of a file belong to doclets that were built before (`ScopeStack.OwnedBy`): each doclet that opens one is in the
file already, and the end of the file closes all. So in files of structural doclets every owner is the longname of an
earlier doclet of the same file, or that of symbols without name (`Pipeline.parseFiles_parentsEarlier`).
-/

namespace SymbolDocs

open SymbolDocs.Text SymbolDocs.Naming SymbolDocs.NamePath

variable {dict : Dictionary} {stack stack' : ScopeStack} {d d₀ : Doclet} {ds : List Doclet} {owner : String}

/-! ## Doclets before they get their place -/

/-- The doclet of a comment and a construct as it is before it gets its place. -/
def draft (dict : Dictionary) (comment : Option String) (context : SourceContext) : Except Obstacle Doclet :=
  let shell := Doclet.ofContext comment context
  if allBlank shell.comment then .ok (shell.complete [] context)
  else (applyComment dict context.location shell.comment shell).2.map fun (tags, d) => d.complete tags context

/-- Building a doclet gives its draft a place. -/
theorem build_snd (dict : Dictionary) (stack : ScopeStack) (comment : Option String) (context : SourceContext)
    (event : ScopeEvent) :
    (build dict stack comment context event).2 = (draft dict comment context).bind (·.settle dict stack event) := by
  unfold build draft
  dsimp only
  split
  · rfl
  · cases (applyComment dict context.location (Doclet.ofContext comment context).comment
      (Doclet.ofContext comment context)).2 <;> rfl

theorem Doclet.eq_place_of_settle {event : ScopeEvent} (h : d₀.settle dict stack event = .ok (d, stack')) :
    d = d₀.place dict stack ∧ stack' = stack.afterDoclet dict d event := by
  unfold Doclet.settle Doclet.resolve at h
  split at h
  · next d' hd' =>
    cases h
    split at hd' <;> cases hd'
    exact ⟨rfl, rfl⟩
  · cases h

/-! ## Structural doclets -/

/-- No tag sets the name absolutely, the owner or a target that the doclet is lent to, and unless the kind forbids an
owner, the name is no path. -/
structure Doclet.Structural (dict : Dictionary) (d : Doclet) : Prop where
  explicitName : d.explicitName = false
  explicitMemberof : d.explicitMemberof = false
  lends : nonempty d.lends = none
  name : isRootKind dict d.kind = true ∨ ∀ name ∈ d.name, isNested name = false

instance (dict : Dictionary) (d : Doclet) : Decidable (d.Structural dict) :=
  decidable_of_iff (d.explicitName = false ∧ d.explicitMemberof = false ∧ nonempty d.lends = none ∧
      (isRootKind dict d.kind = true ∨ ∀ name ∈ d.name, isNested name = false))
    ⟨fun ⟨hname, howner, hlends, hpath⟩ => ⟨hname, howner, hlends, hpath⟩,
      fun h => ⟨h.explicitName, h.explicitMemberof, h.lends, h.name⟩⟩

/-- The draft of an event in a file is structural. -/
def SourceEvent.Structural (dict : Dictionary) (filename : String) (event : SourceEvent) : Prop :=
  ∀ d ∈ (draft dict event.comment (Run.contextOf filename event)).toOption, d.Structural dict

instance (dict : Dictionary) (filename : String) (event : SourceEvent) : Decidable (event.Structural dict filename) :=
  inferInstanceAs (Decidable (∀ d ∈ (draft dict event.comment (Run.contextOf filename event)).toOption,
    d.Structural dict))

theorem ownerEntry?_mem {scope : Scope} (h : ownerEntry? stack = some (owner, scope)) :
    ∃ entry ∈ stack.innermost, entry.owner = some owner := by
  obtain ⟨entry, hmem, hentry⟩ := List.exists_of_findSome?_eq_some h
  obtain ⟨named, hnamed, heq⟩ := Option.map_eq_some_iff.1 hentry
  cases heq
  exact ⟨entry, hmem, (Option.filter_eq_some_iff.1 hnamed).1⟩

theorem isNested_givenName (h : ∀ name ∈ d.name, isNested name = false) : isNested (givenName d) = false := by
  unfold givenName
  cases hn : nonempty d.name with
  | none => decide +kernel
  | some name => exact h name (nonempty_eq_some_iff.1 hn).1

/-- A name that is no path gives a symbol the owner of the innermost scope that has one. -/
theorem memberof_placeInScope {name label : String} (hn : isNested name = false) :
    (placeInScope stack d name label).memberof = Option.map (·.1) ( ownerEntry? stack) := by
  have hexport (n : CodeName) (he : n.name = name) : (n.resolveExport (moduleOwner? stack)).resolveThis = n := by
    have hexports : n.resolveExport (moduleOwner? stack) = n := by
      unfold CodeName.resolveExport
      rw [he, findSome?_exportHeads_of_not_isNested hn]
      cases moduleOwner? stack <;> rfl
    rw [hexports, CodeName.resolveThis, he, after?_this hn]
    cases n.owner <;> rfl
  unfold placeInScope
  dsimp only
  rw [hexport _ rfl]
  cases howner : ownerEntry? stack with
  | none =>
    dsimp only
    rw [hn]
    rfl
  | some entry =>
    dsimp only
    rw [Placement.below, hn]
    rfl

/-- A structural doclet has no owner, or that of an open scope. -/
theorem Doclet.Structural.memberof (h : d.Structural dict) (ho : (d.place dict stack).memberof = some owner) :
    ∃ entry ∈ stack.innermost, entry.owner = some owner := by
  have ho : (placement dict stack d).memberof = some owner := ho
  unfold placement at ho
  dsimp only at ho
  split at ho
  · cases ho
  · next hroot =>
    have hn : isNested (givenName d) = false := isNested_givenName (h.name.resolve_left hroot)
    -- What tags could say is left out. A whole export and a symbol stated to be global have no owner.
    simp only [h.explicitMemberof, h.explicitName, h.lends, hn, Bool.and_false, Bool.or_self, Bool.false_eq_true,
      if_false, ite_self] at ho
    split at ho
    · cases ho
    · split at ho
      · cases ho
      · rw [memberof_placeInScope hn] at ho
        obtain ⟨⟨_, scope⟩, hentry, rfl⟩ := Option.map_eq_some_iff.1 ho
        exact ownerEntry?_mem hentry

/-! ## Open scopes -/

/-- An owner is that of symbols without name, or one of the doclets. -/
def IsOwner (ds : List Doclet) (owner : String) : Prop := owner = nameless ∨ ∃ d ∈ ds, d.longname = some owner

/-- The owners of all open scopes are among the doclets. -/
def ScopeStack.OwnedBy (stack : ScopeStack) (ds : List Doclet) : Prop :=
  ∀ entry ∈ stack.innermost, ∀ owner, entry.owner = some owner → IsOwner ds owner

/-- The owner of each doclet is one of the doclets before it. -/
def ParentsEarlier (ds : List Doclet) : Prop :=
  ∀ before d, before ++ [d] <+: ds → ∀ owner, d.memberof = some owner → IsOwner before owner

theorem IsOwner.append (h : IsOwner ds owner) (more : List Doclet) : IsOwner (ds ++ more) owner :=
  h.imp_right fun ⟨d, hd, hl⟩ => ⟨d, List.mem_append_left more hd, hl⟩

theorem parentsEarlier_nil : ParentsEarlier [] := by
  intro before d h
  exact absurd (List.prefix_nil.1 h) (List.append_ne_nil_of_right_ne_nil before (List.cons_ne_nil d []))

theorem ParentsEarlier.concat (h : ParentsEarlier ds) (hd : ∀ owner, d.memberof = some owner → IsOwner ds owner) :
    ParentsEarlier (ds ++ [d]) := by
  intro before d' hbefore
  rcases List.prefix_concat_iff.1 hbefore with heq | hbefore
  · obtain ⟨rfl, hlast⟩ := List.append_inj' heq rfl
    obtain rfl := List.singleton_inj.1 hlast
    exact hd
  · exact h before d' hbefore

namespace ScopeStack

theorem ownedBy_empty (ds : List Doclet) : OwnedBy {} ds := List.forall_mem_nil _

theorem OwnedBy.append (h : stack.OwnedBy ds) (more : List Doclet) : stack.OwnedBy (ds ++ more) :=
  fun entry he owner ho => (h entry he owner ho).append more

/-- Closing a scope leaves the others. -/
theorem OwnedBy.pop {entry : ScopeEntry} (h : stack.OwnedBy ds) (hp : stack.pop = .ok (entry, stack')) :
    stack'.OwnedBy ds := by
  unfold ScopeStack.pop at hp
  split at hp
  · cases hp
  · next first entries hentries =>
    cases hp
    intro entry he
    refine h entry ?_
    rw [innermost, hentries]
    exact List.mem_cons_of_mem _ he

end ScopeStack

/-- The scope that a doclet opens belongs to it. -/
theorem Doclet.owner_childEntry (hl : nonempty d.lends = none) (h : (d.childEntry dict).owner = some owner) :
    owner = nameless ∨ d.longname = some owner := by
  unfold childEntry at h
  rw [hl] at h
  dsimp only at h
  split at h
  · exact .inl (Option.some.inj h).symm
  · next longname hlongname =>
    have hd : d.longname = some longname := (nonempty_eq_some_iff.1 hlongname).1
    split at h
    · exact .inl (Option.some.inj h).symm
    · split at h
      · exact .inr (hd.trans h)
      · split at h <;> exact .inr (hd.trans h)

/-- After a doclet that is in the file, the open scopes belong to doclets of the file. -/
theorem ScopeStack.OwnedBy.afterDoclet (h : stack.OwnedBy ds) (hd : d ∈ ds) (hl : nonempty d.lends = none)
    (event : ScopeEvent) : (stack.afterDoclet dict d event).OwnedBy ds := by
  have hchild : ∀ owner, (d.childEntry dict).owner = some owner → IsOwner ds owner := fun owner ho =>
    (d.owner_childEntry hl ho).imp_right fun hlongname => ⟨d, hd, hlongname⟩
  unfold ScopeStack.afterDoclet
  split
  · intro entry he
    rcases List.mem_cons.1 he with rfl | he
    · exact hchild
    · exact h entry he
  · split
    · intro entry he
      rcases List.mem_append.1 he with he | he
      · exact h entry (List.mem_append_left _ he)
      · obtain rfl := List.mem_singleton.1 he
        exact hchild
    · exact h

/-! ## Files -/

namespace Run

variable {run last : Run} {filename : String}

/-- A run in which every owner so far is built before its members, and the open scopes belong to doclets. -/
structure Sheltered (dict : Dictionary) (run : Run) : Prop where
  dict : run.dict = dict
  parents : ParentsEarlier run.database.doclets
  owned : run.stack.OwnedBy run.database.doclets

/-- A structural doclet belongs to an open scope, and the scope that it opens belongs to it. -/
theorem Sheltered.addDoclet {mid : Run} {event : ScopeEvent} (h : run.Sheltered dict) (hd : d.Structural dict)
    (hdict : mid.dict = dict) (hdb : mid.database = run.database)
    (hs : mid.stack = run.stack.afterDoclet dict (d.place dict run.stack) event) :
    (mid.addDoclet (d.place dict run.stack)).Sheltered dict := by
  have hdoclets : (mid.addDoclet (d.place dict run.stack)).database.doclets =
      run.database.doclets ++ [d.place dict run.stack] := by
    rw [Run.addDoclet, hdb]
    rfl
  refine ⟨hdict, ?_, ?_⟩
  · rw [hdoclets]
    refine h.parents.concat fun owner ho => ?_
    obtain ⟨entry, hentry, howner⟩ := hd.memberof ho
    exact h.owned entry hentry owner howner
  · have hstack : (mid.addDoclet (d.place dict run.stack)).stack = mid.stack := rfl
    have hlends : nonempty (d.place dict run.stack).lends = none := hd.lends
    rw [hdoclets, hstack, hs]
    exact (h.owned.append _).afterDoclet (List.mem_append_right _ (List.mem_singleton_self _)) hlends event

/-- An event whose draft is structural keeps the owners before their members. -/
theorem Sheltered.runEvent {event : SourceEvent} (h : run.Sheltered dict)
    (hs : event.scopeEvent ≠ .exit → event.Structural dict filename)
    (hr : Run.runEvent [] filename run event = .ok last) : last.Sheltered dict := by
  rcases runEvent_cases hr with ⟨-, entry, inner, hpop, rfl⟩ | ⟨he, found, d, after, hbuild, rfl⟩
  · exact ⟨h.dict, h.parents, h.owned.pop hpop⟩
  · have hsnd := congrArg Prod.snd hbuild
    rw [build_snd, h.dict] at hsnd
    obtain ⟨d₀, hd₀, hsettle⟩ := bind_eq_ok.1 hsnd
    obtain ⟨rfl, rfl⟩ := Doclet.eq_place_of_settle hsettle
    have hd : d₀.Structural dict := hs he d₀ (by rw [hd₀]; rfl)
    exact h.addDoclet hd h.dict rfl rfl

/-- What a file of structural events gives has its owners before their members. -/
theorem Yields.parentsEarlier {file : SourceFile} {found : List Diagnostic} (h : Yields dict file ds found)
    (hs : ∀ event ∈ documented file.events, event.Structural dict file.filename) : ParentsEarlier ds := by
  let empty : Run := { dict, outer := dict, reporter := {} }
  obtain ⟨last, hlast, hadds, -⟩ := h.gives empty rfl rfl
  have hbegin : (empty.beginFile file.filename).Sheltered dict := ⟨rfl, parentsEarlier_nil, ScopeStack.ownedBy_empty []⟩
  dsimp only at hlast
  obtain ⟨mid, hmid, hlast⟩ := readFile_cases hlast
  have hsheltered : mid.Sheltered dict := by
    refine foldlM_keeps_of_mem (fun event he run run' hrun hstep => ?_) hbegin hmid
    exact hrun.runEvent (fun hne => hs event (List.mem_filter.2 ⟨he, decide_eq_true hne⟩)) hstep
  have hdoclets : last.database.doclets = mid.database.doclets := by rw [hlast]
  have hds : last.database.doclets = ds := hadds.doclets
  rw [← hds, hdoclets]
  exact hsheltered.parents

/-- The files of a run have their owners before their members. -/
theorem forall₂_parentsEarlier {files : List SourceFile} {parts : List (List Doclet × List Diagnostic)}
    (h : List.Forall₂ (fun file part => Yields dict file part.1 part.2) files parts)
    (hs : ∀ file ∈ files, ∀ event ∈ documented file.events, event.Structural dict file.filename) :
    List.Forall₂ (fun file part => ParentsEarlier part ∧
      List.Forall₂ (SourceEvent.BuiltAs dict file.filename) (documented file.events) part) files (parts.map (·.1)) := by
  induction h with
  | nil => exact .nil
  | cons hfile _ ih =>
    obtain ⟨hevents, hfiles⟩ := List.forall_mem_cons.1 hs
    exact .cons ⟨hfile.parentsEarlier hevents, hfile.built⟩ (ih hfiles)

end Run

/-- **Owners are built before their members.** In a run with the built-in grammars, without callbacks and over files
whose scopes pair up, let no tag say where a symbol belongs, and let no name be a path but those of kinds that forbid an
owner. Then, when all files are read, there is one doclet for each event that closes no scope, file by file, and each
doclet has no owner, the owner of symbols without name, or an earlier doclet of its file for its owner. -/
theorem Pipeline.parseFiles_parentsEarlier {names : List String} {allowUnknown : AllowUnknown}
    (hd : Grammar.buildAll names allowUnknown = .ok dict) (reporter : Reporter) {files : List SourceFile}
    (hb : ∀ file ∈ files, file.Balanced)
    (hs : ∀ file ∈ files, ∀ event ∈ documented file.events, event.Structural dict file.filename) :
    ∃ (parsed run : Run) (parts : List (List Doclet)), Run.parseFiles { dict, reporter } files = .ok parsed ∧
      Pipeline.run { dict, reporter } files = .ok run ∧ run.database = parsed.link.database ∧
      parsed.database.doclets = parts.flatten ∧
      List.Forall₂ (fun file part => ParentsEarlier part ∧
        List.Forall₂ (SourceEvent.BuiltAs dict file.filename) (documented file.events) part) files parts := by
  obtain ⟨parts, hparts⟩ := Run.exists_yields (Grammar.buildAll_feasible hd) hb
  obtain ⟨parsed, hparsed, -, hdoclets, -⟩ := Run.parseFiles_of_yields hparts reporter
  exact ⟨parsed, _, parts.map (·.1), hparsed, run_of_parseFiles hparsed, rfl, by rw [hdoclets, List.flatMap_def],
    Run.forall₂_parentsEarlier hparts hs⟩

/-- A module with a function of its own, a whole export and a function without name, and a class in another file. -/
theorem Pipeline.parseFiles_parentsEarlier_module :
    let dict := Grammar.jsdoc.dictionary
    let function (name : Option String) : SourceContext := { name, codeType := some "FunctionDeclaration" }
    let files : List SourceFile := [
      { filename := "a.js", events := [
        { comment := some "/** @module a */" },
        { comment := some "/** @variation 2 */", context := some (function (some "load")), scopeEvent := .enter },
        { context := some (function (some "parse")) },
        { scopeEvent := .exit },
        { context := some { function (some "main") with isDefaultExport := true } },
        { context := some (function none), scopeEvent := .enter },
        { context := some (function (some "helper")) },
        { scopeEvent := .exit }] },
      { filename := "b.js", events := [
        { context := some { name := some "C", kind := some "class" }, scopeEvent := .enter },
        { context := some (function (some "run")) },
        { scopeEvent := .exit }] }]
    Grammar.buildAll ["jsdoc"] (.all false) = .ok dict ∧ (∀ file ∈ files, file.Balanced) ∧
      (∀ file ∈ files, ∀ event ∈ documented file.events, event.Structural dict file.filename) ∧
      ∃ (parsed : Run) (parts : List (List Doclet)), Run.parseFiles { dict } files = .ok parsed ∧
        parsed.database.doclets = parts.flatten ∧
        parsed.database.doclets.map (·.memberof) =
          [none, some "module:a", some "module:a~load(2)", none, some "module:a", some nameless, none, some "C"] ∧
        ∀ part ∈ parts, ParentsEarlier part := by
  intro dict function files
  have hd : Grammar.buildAll ["jsdoc"] (.all false) = .ok dict := by with_unfolding_all rfl
  have hb : ∀ file ∈ files, file.Balanced := by decide
  have htables : dict = Grammar.jsdocTables (.all false) := Grammar.jsdoc_dictionary_eq _
  have hs : ∀ file ∈ files, ∀ event ∈ documented file.events, event.Structural dict file.filename := by
    rw [htables]
    decide +kernel
  have hmemberof : (Run.parseFiles { dict } files).toOption.map (·.database.doclets.map (·.memberof)) =
      some [none, some "module:a", some "module:a~load(2)", none, some "module:a", some nameless, none, some "C"] := by
    rw [htables]
    decide +kernel
  obtain ⟨parsed, -, parts, hparsed, -, -, hdoclets, hparts⟩ := parseFiles_parentsEarlier hd {} hb hs
  rw [hparsed] at hmemberof
  exact ⟨hd, hb, hs, parsed, parts, hparsed, hdoclets, Option.some.inj hmemberof,
    forall_of_forall₂ hparts fun _ _ h => h.1⟩

end SymbolDocs
