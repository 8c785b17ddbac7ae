import Typings.Proofs.Declaration.ReadBack
import Typings.Proofs.TypeExpr.References

/-!
# References are declared

Every type name in a declaration file is known without a declaration or declared in the same file,
and an entry link names the entries of exactly those content types of the run that its constraints
list.
-/

namespace Typings

open Script

/-- Every type in the declaration can be read, and each name in it is known, a parameter, or
declared. -/
def Resolved (ds : List Declaration) (d : Declaration) : Prop :=
  ∀ ts ∈ d.types, ∃ t, readType ts = some t ∧ ∀ name ∈ t.names,
    name ∈ builtins ∨ name ∈ d.parameters.map Parameter.name ∨ name ∈ ds.map Declaration.name

/-! ## What is declared -/

theorem Core.names_declared :
    Core.declared.map Declaration.name =
      ["Link", "EntrySys", "Entry", "AssetSys", "Asset", "Document"] := by
  decide +kernel

theorem Core.resolved : ∀ d ∈ Core.declared, Resolved Core.declared d := by
  have hcheck : (Core.declared.all fun d => d.types.all fun ts => (readType ts).any fun t =>
      t.names.all fun name => builtins.contains name || (d.parameters.map Parameter.name).contains name ||
        ["Link", "EntrySys", "Entry", "AssetSys", "Asset", "Document"].contains name) = true := by
    decide +kernel
  intro d hd ts hts
  rw [List.all_eq_true] at hcheck
  have htypes := hcheck d hd
  rw [List.all_eq_true] at htypes
  obtain ⟨t, hread, hnames⟩ := (Option.any_eq_true _ _).mp (htypes ts hts)
  refine ⟨t, hread, fun name hname => ?_⟩
  rw [List.all_eq_true] at hnames
  have := hnames name hname
  rw [Core.names_declared]
  simp only [Bool.or_eq_true, List.contains_iff_mem] at this
  rcases this with (h | h) | h
  · exact Or.inl h
  · exact Or.inr (Or.inl h)
  · exact Or.inr (Or.inr h)

theorem declared_of_mentions {o : RenderOptions} {cts : List ContentType} {name : String}
    (h : Field.Mentions (cts.map ContentType.id) o name) :
    name ∈ builtins ∨ name ∈ (declaredIn o cts).map Declaration.name := by
  unfold declaredIn
  rcases h with hbuiltin | hcore | ⟨id, hid, hname⟩
  · exact Or.inl hbuiltin
  · right
    rw [List.map_append, List.mem_append, Core.names_declared]
    left
    have hall : ∀ name ∈ ["Entry", "Asset", "Document"],
        name ∈ ["Link", "EntrySys", "Entry", "AssetSys", "Asset", "Document"] := by decide
    exact hall name hcore
  · right
    obtain ⟨ct, hct, rfl⟩ := List.mem_map.mp hid
    rw [List.map_append, List.mem_append]
    right
    rcases hname with rfl | rfl
    · refine List.mem_map.mpr ⟨ct.entryDeclared o, List.mem_flatMap.mpr ⟨ct, hct, ?_⟩, rfl⟩
      simp [ContentType.declared]
    · refine List.mem_map.mpr
        ⟨ct.fieldsDeclaration (cts.map ContentType.id) o, List.mem_flatMap.mpr ⟨ct, hct, ?_⟩, rfl⟩
      simp [ContentType.declared]

/-! ## Members -/

/-- The type that a member is declared with: the tree of its field, and `undefined` beside it where
that is asked for. -/
def Field.memberTree (ids : List String) (o : RenderOptions) (f : Field) : TypeTree :=
  if !f.spec.required && o.undefinedOnOptional then
    .oneOf ((f.typeTree ids o).alternatives ++ [TypeTree.named "undefined" []])
  else f.typeTree ids o

theorem Field.readType_member {o : RenderOptions} (hp : Naming.isIdentifier o.namePrefix = true)
    (ids : List String) {f : Field} (hf : f.FiniteNumbers) :
    readType ((f.property ids o).member o).type = some (f.memberTree ids o) := by
  have htree : (f.typeExpr ids o).tree = f.typeTree ids o :=
    tree_chainType ids o nestingLimit f.spec f.items
  have hreads := ((f.typeExpr ids o).reads (finite_typeExpr ids o hf)).1
  have hnames : (f.property ids o).type.Nameable := nameable_typeExpr hp ids f
  rw [htree] at hreads
  unfold Property.member memberTree
  simp only [textTokens_type hnames]
  have hrequired : (f.property ids o).required = f.spec.required := rfl
  rw [hrequired]
  split
  · exact hreads.or_word "undefined"
  · rw [List.append_nil]
    exact hreads.readType

theorem Field.mentions_memberTree (ids : List String) (o : RenderOptions) (f : Field) :
    ∀ name ∈ (f.memberTree ids o).names, Mentions ids o name := by
  have htree : ∀ name ∈ (f.typeTree ids o).names, Mentions ids o name :=
    mentions_chainTree ids o nestingLimit f.spec f.items
  unfold memberTree
  split
  · intro name hname
    rw [TypeTree.names, TypeTree.namesOfAll_append, TypeTree.namesOfAll_alternatives,
      List.mem_append] at hname
    rcases hname with hname | hname
    · exact htree name hname
    · have hundefined : ∀ name ∈ (TypeTree.named "undefined" []).names, Mentions ids o name :=
        mentions_of_fixed ids o (by decide)
      exact hundefined name (by simpa [TypeTree.namesOfAll] using hname)
  · exact htree

/-! ## Declarations of a content type -/

namespace ContentType

def containerTree (entryName : String) : TypeTree := .named "Entry" [.named (entryName ++ "Fields") []]

def brandTree (entryName id : String) : TypeTree :=
  .allOf [.part (containerTree entryName) "sys",
    .object [(⟨"contentType", false⟩, .object [(⟨"sys", false⟩, .object
      [(⟨"id", false⟩, .text id), (⟨"linkType", false⟩, .text "ContentType"),
        (⟨"type", false⟩, .text "Link")])])]]

theorem readType_containerTokens (entryName : String) :
    readType (containerTokens entryName) = some (containerTree entryName) := rfl

theorem readType_brandTokens (entryName : String) {id : String} (h : PlainId id) :
    readType (containerTokens entryName ++ brandTokens id) = some (brandTree entryName id) := by
  have hvalue : valueOf id = some id := valueOf_plain fun c hc => (h c hc).2.1
  -- The open brackets where the id stands.
  let stack : Stack := [(.empty, .member [] ⟨"id", false⟩), (.empty, .member [] ⟨"sys", false⟩),
    (⟨[], [.part (containerTree entryName) "sys"]⟩, .member [] ⟨"contentType", false⟩)]
  have hopen : (Reading.operand .empty []).run (containerTokens entryName ++
      [Token.punct '[', .quoted '\x22' "sys", .punct ']', .punct '&', .punct '\x7b',
        .word "contentType", .punct ':', .punct '\x7b', .word "sys", .punct ':', .punct '\x7b',
        .word "id", .punct ':']) =
      some (.operand .empty stack) := rfl
  have hid : (Reading.operand .empty stack).run [Token.quoted '\x27' id] =
      some (.operator .empty (.text id) stack) := by
    rw [Reading.run_cons, Reading.step, hvalue]
    rfl
  have hclose : (Reading.operator .empty (.text id) stack).run
      [Token.punct ';', .word "linkType", .punct ':', .quoted '\x27' "ContentType", .punct ';',
        .word "type", .punct ':', .quoted '\x27' "Link", .punct ';',
        .punct '\x7d', .punct ';', .punct '\x7d', .punct ';', .punct '\x7d'] =
      some (.operator ⟨[], [.part (containerTree entryName) "sys"]⟩
        (.object [(⟨"contentType", false⟩, .object [(⟨"sys", false⟩, .object
          [(⟨"id", false⟩, .text id), (⟨"linkType", false⟩, .text "ContentType"),
            (⟨"type", false⟩, .text "Link")])])])
        []) := rfl
  have hshape : containerTokens entryName ++ brandTokens id = (containerTokens entryName ++
      [Token.punct '[', .quoted '\x22' "sys", .punct ']', .punct '&', .punct '\x7b',
        .word "contentType", .punct ':', .punct '\x7b', .word "sys", .punct ':', .punct '\x7b',
        .word "id", .punct ':']) ++ ([Token.quoted '\x27' id] ++
      [Token.punct ';', .word "linkType", .punct ':', .quoted '\x27' "ContentType", .punct ';',
        .word "type", .punct ':', .quoted '\x27' "Link", .punct ';',
        .punct '\x7d', .punct ';', .punct '\x7d', .punct ';', .punct '\x7d']) := by
    unfold brandTokens
    simp only [List.append_assoc, List.cons_append, List.nil_append]
  unfold readType
  rw [hshape, Reading.run_append, hopen, Option.bind_some, Reading.run_append, hid,
    Option.bind_some, hclose]
  rfl

end ContentType

/-! ## Every declaration is resolved -/

theorem Resolved.mono {ds es : List Declaration} {d : Declaration} (h : Resolved ds d)
    (hsub : ∀ name ∈ ds.map Declaration.name, name ∈ es.map Declaration.name) : Resolved es d := by
  intro ts hts
  obtain ⟨t, hread, hnames⟩ := h ts hts
  refine ⟨t, hread, fun name hname => ?_⟩
  rcases hnames name hname with hbuiltin | hparam | hdeclared
  · exact Or.inl hbuiltin
  · exact Or.inr (Or.inl hparam)
  · exact Or.inr (Or.inr (hsub name hdeclared))

theorem resolved_of_mentions {o : RenderOptions} {cts : List ContentType} {d : Declaration}
    (h : ∀ ts ∈ d.types, ∃ t, readType ts = some t ∧
      ∀ name ∈ t.names, Field.Mentions (cts.map ContentType.id) o name) :
    Resolved (declaredIn o cts) d := by
  intro ts hts
  obtain ⟨t, hread, hnames⟩ := h ts hts
  refine ⟨t, hread, fun name hname => ?_⟩
  rcases declared_of_mentions (hnames name hname) with hbuiltin | hdeclared
  · exact Or.inl hbuiltin
  · exact Or.inr (Or.inr hdeclared)

namespace ContentType

theorem resolved_fieldsDeclaration {o : RenderOptions} (hp : Naming.isIdentifier o.namePrefix = true)
    (cts : List ContentType) (ct : ContentType) (hnumbers : ∀ f ∈ ct.fields, f.FiniteNumbers) :
    Resolved (declaredIn o cts) (ct.fieldsDeclaration (cts.map ContentType.id) o) := by
  have htypes : (ct.fieldsDeclaration (cts.map ContentType.id) o).types =
      ct.fields.map fun f => ((f.property (cts.map ContentType.id) o).member o).type := by
    simp [Declaration.types, fieldsDeclaration, Field.member_eq, Function.comp_def]
  apply resolved_of_mentions
  rw [htypes]
  intro ts hts
  obtain ⟨f, hf, rfl⟩ := List.mem_map.mp hts
  exact ⟨_, Field.readType_member hp _ (hnumbers f hf), Field.mentions_memberTree _ o f⟩

theorem mentions_containerTree {ids : List String} (o : RenderOptions) {id : String} (hid : id ∈ ids) :
    ∀ name ∈ (containerTree (o.namePrefix ++ Naming.typeName id)).names, Field.Mentions ids o name := by
  intro name hname
  simp only [containerTree, TypeTree.names, TypeTree.namesOfAll, List.append_nil, List.mem_cons,
    List.not_mem_nil,
    or_false] at hname
  rcases hname with rfl | rfl
  · exact Or.inr (Or.inl (by decide))
  · exact Or.inr (Or.inr ⟨id, hid, Or.inr rfl⟩)

theorem resolved_entryDeclared (o : RenderOptions) {cts : List ContentType} {ct : ContentType}
    (hct : ct ∈ cts) (hid : o.brandEntries = true → PlainId ct.id) :
    Resolved (declaredIn o cts) (ct.entryDeclared o) := by
  have hcontainer := mentions_containerTree o (List.mem_map_of_mem hct : ct.id ∈ cts.map ContentType.id)
  have hread := readType_containerTokens (o.namePrefix ++ Naming.typeName ct.id)
  apply resolved_of_mentions
  intro ts hts
  unfold Declaration.types entryDeclared at hts
  by_cases hb : o.brandEntries = true
  · have hbrand := readType_brandTokens (o.namePrefix ++ Naming.typeName ct.id) (hid hb)
    have hnames : (brandTree (o.namePrefix ++ Naming.typeName ct.id) ct.id).names =
        (containerTree (o.namePrefix ++ Naming.typeName ct.id)).names := by
      simp [brandTree, TypeTree.names, TypeTree.namesOfAll, TypeTree.namesOfMembers]
    simp only [hb, if_true, List.map_nil, List.filter_nil, List.nil_append, List.mem_append,
      List.mem_filter,
      List.mem_singleton, List.map_cons] at hts
    rcases hts with ⟨rfl, -⟩ | rfl
    · exact ⟨_, hread, hcontainer⟩
    · exact ⟨_, hbrand, hnames ▸ hcontainer⟩
  · simp only [hb, Bool.false_eq_true, if_false, List.map_nil, List.filter_nil, List.nil_append,
      List.mem_singleton] at hts
    subst hts
    exact ⟨_, hread, hcontainer⟩

end ContentType

theorem resolved_declaredIn {o : RenderOptions} (hp : Naming.isIdentifier o.namePrefix = true)
    (cts : List ContentType) (hids : o.brandEntries = true → ∀ ct ∈ cts, ContentType.PlainId ct.id)
    (hnumbers : ∀ ct ∈ cts, ∀ f ∈ ct.fields, f.FiniteNumbers) :
    ∀ d ∈ declaredIn o cts, Resolved (declaredIn o cts) d := by
  intro d hd
  rcases List.mem_append.mp hd with hcore | hown
  · apply (Core.resolved d hcore).mono
    intro name hname
    unfold declaredIn
    rw [List.map_append, List.mem_append]
    exact Or.inl hname
  · obtain ⟨ct, hct, hd⟩ := List.mem_flatMap.mp hown
    simp only [ContentType.declared, List.mem_cons, List.not_mem_nil, or_false] at hd
    rcases hd with rfl | rfl
    · exact ContentType.resolved_fieldsDeclaration hp cts ct (hnumbers ct hct)
    · exact ContentType.resolved_entryDeclared o hct fun hb => hids hb ct hct

/-! ## The file -/

/-- How a link refers to the entries of a content type: by their declaration, or as a container of
the declared fields. -/
def ContentType.reference (ids : List String) (o : RenderOptions) (ct : ContentType) : TypeTree :=
  if o.linkAliases then .named (ct.entryDeclared o).name []
  else .named "Entry" [.named (ct.fieldsDeclaration ids o).name []]

/-- In the declarations of a file every name is known or declared. An entry link, under the arrays
around it, refers to the content types of the file that its constraints list, or to entries of any
kind if there are none. -/
theorem resolved_declarationFile (o : RenderOptions) (cts : List ContentType)
    (hp : Naming.isIdentifier o.namePrefix = true)
    (hids : o.brandEntries = true → ∀ ct ∈ cts, ContentType.PlainId ct.id)
    (hnumbers : ∀ ct ∈ cts, ∀ f ∈ ct.fields, f.FiniteNumbers) :
    declarations (declarationFile o cts) = some (declaredIn o cts) ∧
      (∀ d ∈ declaredIn o cts, Resolved (declaredIn o cts) d) ∧
      (∀ ct ∈ cts, ∀ d ∈ ct.declared (cts.map ContentType.id) o, d.parameters = []) ∧
      ∀ ct ∈ cts, ∀ f ∈ ct.fields, ∀ depth link, f.ReachesLink depth link →
        ∃ t entry, readType ((f.property (cts.map ContentType.id) o).member o).type = some t ∧
          t.alternatives = (Field.arraysAround o depth entry).alternatives ++
            (if !f.spec.required && o.undefinedOnOptional then [TypeTree.named "undefined" []] else []) ∧
          ((∀ target ∈ cts, ¬ link.LinksTo target.id) →
            entry = .named "Entry" [.named "unknown" []]) ∧
          ((∃ target ∈ cts, link.LinksTo target.id) →
            ∀ alternative, alternative ∈ entry.alternatives ↔ ∃ target ∈ cts, link.LinksTo target.id ∧
              alternative = target.reference (cts.map ContentType.id) o) := by
  refine ⟨declarations_eq_declaredIn hp cts hids, resolved_declaredIn hp cts hids hnumbers, ?_, ?_⟩
  · intro ct _ d hd
    simp only [ContentType.declared, List.mem_cons, List.not_mem_nil, or_false] at hd
    rcases hd with rfl | rfl <;> rfl
  · intro ct hct f hf depth link hreach
    refine ⟨_, Field.entryLinkTree (cts.map ContentType.id) o link,
      Field.readType_member hp _ (hnumbers ct hct f hf), ?_, ?_, ?_⟩
    · rw [← Field.typeTree_of_reachesLink _ o hreach]
      unfold Field.memberTree
      split
      · rfl
      · rw [List.append_nil]
    · intro hnone
      apply Field.entryLinkTree_of_none
      intro id hid
      obtain ⟨target, htarget, rfl⟩ := List.mem_map.mp hid
      exact hnone target htarget
    · rintro ⟨target, htarget, hlinks⟩ alternative
      rw [Field.mem_alternatives_entryLinkTree o ⟨target.id, List.mem_map_of_mem htarget, hlinks⟩]
      constructor
      · rintro ⟨id, hid, hlinks, rfl⟩
        obtain ⟨other, hother, rfl⟩ := List.mem_map.mp hid
        exact ⟨other, hother, hlinks, rfl⟩
      · rintro ⟨other, hother, hlinks, rfl⟩
        exact ⟨other.id, List.mem_map_of_mem hother, hlinks, rfl⟩

/-- The items of a list of links, to a content type of the run and to one that there is not. -/
def ContentType.nextLink : FieldSpec :=
  ⟨none, none, some "Link", false, none,
    [[("linkContentType", .list [.text "node", .text "", .text "nowhere", .text "node"])]],
    some "Entry"⟩

/-- A content type whose entries list other entries of their kind. -/
def ContentType.linked : ContentType where
  system := ⟨"node", "ContentType"⟩
  name := "Node"
  description := none
  fields := [⟨⟨some "next", none, some "Array", true, none, [], none⟩, [nextLink]⟩]

theorem resolved_declarationFile_linked :
    Naming.isIdentifier ({} : RenderOptions).namePrefix = true ∧
      (∀ ct ∈ [ContentType.linked], ContentType.PlainId ct.id) ∧
      (∀ ct ∈ [ContentType.linked], ∀ f ∈ ct.fields, f.FiniteNumbers) ∧
      ∀ f ∈ ContentType.linked.fields, f.ReachesLink 1 ContentType.nextLink ∧
        ∃ t entry, readType ((f.property ["node"] {}).member {}).type = some t ∧
          t.alternatives = [.array entry] ∧ ∀ alternative, alternative ∈ entry.alternatives ↔ alternative = .named "INode" [] := by
  have hp : Naming.isIdentifier ({} : RenderOptions).namePrefix = true := rfl
  have hids : ∀ ct ∈ [ContentType.linked], ContentType.PlainId ct.id := by
    intro ct hct
    rw [List.mem_singleton] at hct
    subst hct
    exact ContentType.plainId_of_all rfl
  have hnumbers : ∀ ct ∈ [ContentType.linked], ∀ f ∈ ct.fields, f.FiniteNumbers := by
    intro ct hct f hf
    rw [List.mem_singleton] at hct
    subst hct
    rw [ContentType.linked, List.mem_singleton] at hf
    exact (Field.finiteNumbers_iff f).mpr (hf ▸ rfl)
  refine ⟨hp, hids, hnumbers, fun f hf => ?_⟩
  have hfields :
      f = ⟨⟨some "next", none, some "Array", true, none, [], none⟩, [ContentType.nextLink]⟩ := by
    simpa [ContentType.linked] using hf
  have hreach : f.ReachesLink 1 ContentType.nextLink := by
    subst hfields
    refine ⟨rfl, rfl, rfl, rfl, fun outer houter => ?_, by decide⟩
    obtain rfl : outer = 0 := by omega
    exact ⟨_, rfl, rfl, rfl⟩
  have hself : ContentType.nextLink.LinksTo ContentType.linked.id :=
    ⟨by decide, _, List.mem_cons_self, by simp [listedUnder, Data.Members.get?, ContentType.linked, ContentType.id]⟩
  have hname : ContentType.linked.reference ["node"] {} = .named "INode" [] := by
    have : "I" ++ Naming.typeName "node" = "INode" := rfl
    exact congrArg (TypeTree.named · []) this
  obtain ⟨-, -, -, hlinks⟩ :=
    resolved_declarationFile {} [ContentType.linked] hp (fun _ => hids) hnumbers
  obtain ⟨t, entry, hread, htree, -, hentry⟩ :=
    hlinks ContentType.linked List.mem_cons_self f hf 1 ContentType.nextLink hreach
  refine ⟨hreach, t, entry, hread, ?_, fun alternative => ?_⟩
  · subst hfields
    exact htree
  · rw [hentry ⟨_, List.mem_cons_self, hself⟩ alternative]
    constructor
    · rintro ⟨target, htarget, -, rfl⟩
      rw [List.mem_singleton] at htarget
      rw [htarget]
      exact hname
    · rintro rfl
      exact ⟨_, List.mem_cons_self, hself, hname.symm⟩

end Typings
