import Typings.Proofs.Declaration.References
import Typings.Proofs.TypeExpr.Expansion

/-!
# Links by name and links by container

A file may link to entries by the names of their types or by the containers that these names stand
for. The one file is the other with each such name replaced by what the file itself declares it as.
-/

namespace Typings

open Script

/-! ## The aliases of a file -/

/-- What a name is declared as, where that is the container of the fields of the same name. -/
def aliasIn (ds : List Declaration) (name : String) : Option String :=
  if ⟨name, [], .alias (ContentType.containerTokens name)⟩ ∈ ds then
    some (ContentType.containerType name)
  else none

/-- The text with each type in a member that is such an alias replaced by what it stands for. -/
def expandAliases (text : String) : Option String :=
  (declarations text).bind fun ds => replaceTypes (aliasIn ds) text

/-- No content type is named like a type that needs no declaration or like a core type. -/
def NamesApart (o : RenderOptions) (cts : List ContentType) : Prop :=
  ∀ ct ∈ cts, o.entryName ct.id ∉ builtins ∧
    o.entryName ct.id ∉ Core.declared.map Declaration.name

section

variable {o : RenderOptions} {cts : List ContentType}

theorem aliasIn_entryName (hb : o.brandEntries = false) {id : String}
    (hid : id ∈ cts.map ContentType.id) :
    aliasIn (declaredIn o cts) (o.entryName id) = some (ContentType.containerType (o.entryName id)) := by
  obtain ⟨ct, hct, rfl⟩ := List.mem_map.mp hid
  have hentry : ct.entryDeclared o =
      ⟨o.entryName ct.id, [], .alias (ContentType.containerTokens (o.entryName ct.id))⟩ := by
    rw [ContentType.entryDeclared, hb]
    rfl
  apply if_pos
  rw [← hentry]
  refine List.mem_append_right _ (List.mem_flatMap.mpr ⟨ct, hct, ?_⟩)
  simp [ContentType.declared]

def Script.Declaration.isAlias (d : Declaration) : Bool :=
  match d.body with
  | .alias _ => true
  | .interface _ _ => false

theorem Core.not_isAlias : ∀ d ∈ Core.declared, d.isAlias = false := by
  decide +kernel

theorem exists_of_isAlias {d : Declaration} (hd : d ∈ declaredIn o cts) (h : d.isAlias = true) :
    ∃ ct ∈ cts, d.name = o.entryName ct.id := by
  rcases List.mem_append.mp hd with hcore | hblock
  · exact absurd h (by simp [Core.not_isAlias d hcore])
  · obtain ⟨ct, hct, hmem⟩ := List.mem_flatMap.mp hblock
    simp only [ContentType.declared, List.mem_cons, List.not_mem_nil, or_false] at hmem
    rcases hmem with rfl | rfl
    · exact absurd h Bool.false_ne_true
    · exact ⟨ct, hct, rfl⟩

theorem aliasIn_eq_none {name : String} (h : ∀ ct ∈ cts, o.entryName ct.id ≠ name) :
    aliasIn (declaredIn o cts) name = none := by
  apply if_neg
  intro hmem
  obtain ⟨ct, hct, hname⟩ := exists_of_isAlias hmem rfl
  exact h ct hct hname.symm

theorem aliasIn_fixed (h : NamesApart o cts) {name : String}
    (hname : name ∈ builtins ∨ name ∈ Core.declared.map Declaration.name) :
    aliasIn (declaredIn o cts) name = none := by
  apply aliasIn_eq_none
  rintro ct hct rfl
  exact hname.elim (h ct hct).1 (h ct hct).2

theorem spares_aliasIn (h : NamesApart o cts) : Spares (aliasIn (declaredIn o cts)) := by
  intro name hname
  apply aliasIn_fixed h
  rw [Core.names_declared]
  have hcore : ∀ name ∈ ["Entry", "Asset", "Document"],
      name ∈ ["Link", "EntrySys", "Entry", "AssetSys", "Asset", "Document"] := by
    decide
  exact hname.imp_right (hcore name)

end

/-! ## Copied parts -/

section

variable {f : String → Option String}

theorem Script.Scans.turns_of_comments {cs : List Char} {ts : List Token} (h : Scans cs ts)
    (hcode : code ts = []) (p : Place) : Turns f p cs p cs := by
  apply h.turns
  · rw [Place.follow, hcode]
    rfl
  · unfold Keeps
    rw [hcode]
    exact fun name hname => absurd hname List.not_mem_nil

theorem turns_docComment (p : Place) (indent : Nat) (s : String) :
    Turns f p (docComment indent s).toList p (docComment indent s).toList :=
  (scans_docComment indent s).turns_of_comments (code_docTokens s) p

theorem turns_lineEnd (p : Place) : Turns f p "\n".toList p "\n".toList :=
  (show Scans "\n".toList [] from rfl).turns_of_comments rfl p

theorem Script.Declares.follow {ts : List Token} {ds : List Declaration} (h : Declares ts ds)
    (hcode : code ts = ts) : Place.outside.follow ts = some .outside := by
  rw [Place.follow, hcode, show runWith _ _ ts = _ from h]
  rfl

theorem turns_entryDeclaration {o : RenderOptions} (hp : Naming.isIdentifier o.namePrefix = true)
    (hb : o.brandEntries = false) (ct : ContentType) :
    Turns f .outside (ct.entryDeclaration o).toList .outside (ct.entryDeclaration o).toList := by
  have hscan := ContentType.scans_entryDeclaration hp ct (fun h => absurd h (by simp [hb]))
  apply hscan.turns ((declares_entry o ct).follow (ContentType.code_entryTokens o ct))
  unfold Keeps
  rw [ContentType.code_entryTokens, ContentType.entryTokens, hb]
  exact fun name hname => absurd hname List.not_mem_nil

theorem Core.typeNames_tokens : ∀ name ∈ Place.outside.typeNames Core.tokens,
    name ∈ builtins ∨ name ∈ Core.declared.map Declaration.name := by
  rw [Core.names_declared]
  decide +kernel

theorem Core.turns_text
    (hf : ∀ name, name ∈ builtins ∨ name ∈ Core.declared.map Declaration.name → f name = none) :
    Turns f .outside Core.text.toList .outside Core.text.toList := by
  apply Core.scans_text.turns (Core.declares_tokens.follow Core.code_tokens)
  unfold Keeps
  rw [Core.code_tokens]
  exact fun name hname => hf name (Core.typeNames_tokens name hname)

theorem turns_intercalate {α : Type} {separator : String}
    (hsep : ∀ p, Turns f p separator.toList p separator.toList) (Good : Place → Prop)
    (text text' : α → String) (xs : List α)
    (h : ∀ x ∈ xs, ∀ p, Good p → ∃ q, Good q ∧ Turns f p (text x).toList q (text' x).toList)
    {p : Place} (hp : Good p) :
    ∃ q, Good q ∧ Turns f p (separator.intercalate (xs.map text)).toList q
      (separator.intercalate (xs.map text')).toList := by
  induction xs generalizing p with
  | nil => exact ⟨p, hp, rfl⟩
  | cons x rest ih =>
    obtain ⟨q, hq, hx⟩ := h x List.mem_cons_self p hp
    obtain ⟨r, hr, hrest⟩ := ih (fun y hy => h y (List.mem_cons_of_mem _ hy)) hq
    cases rest with
    | nil => exact ⟨q, hq, by simpa using hx⟩
    | cons y more => exact ⟨r, hr, by simpa using hx.append ((hsep q).append hrest)⟩

/-! ## Fields -/

def Property.contained (p : Property) : Property := { p with type := p.type.contained }

theorem Property.turns (hf : Spares f) (o : RenderOptions) {p : Property}
    (hname : Naming.isIdentifier p.name = true) (hnameable : p.type.Nameable)
    (hfinite : p.type.Finite) (hexpands : p.type.Expands f) {u : Unfinished}
    (hu : u.header.parameters = []) :
    Turns f (.body u) (p.render o).toList
      (.body (u.with ⟨p.name, !p.required, p.type.tokens ++ p.suffixTokens o⟩))
      (p.contained.render o).toList := by
  have hlead : Turns f (.body u) p.lead.toList (.memberType u p.name (!p.required) [] [])
      p.lead.toList := by
    apply (scans_lead hname).turns
    · unfold leadTokens
      cases p.required <;> rfl
    · unfold Keeps leadTokens
      cases p.required <;> exact fun name hname => absurd hname List.not_mem_nil
  have htype : TurnsApart f (.memberType u p.name (!p.required) [] []) p.type.render.toList
      (.memberType u p.name (!p.required) [] p.type.tokens) p.contained.type.render.toList :=
    TypeExpr.turnsApart hu p.name (!p.required) hf p.type hexpands hnameable hfinite [] rfl
  have htail : Turns f (.memberType u p.name (!p.required) [] p.type.tokens)
      (p.undefinedSuffix o ++ ";").toList
      (.body (u.with ⟨p.name, !p.required, p.type.tokens ++ p.suffixTokens o⟩))
      (p.undefinedSuffix o ++ ";").toList := by
    apply (p.scans_tail o).turns
    · rw [Place.follow_append,
        Place.follow_memberType u p.name _ (p.enclosed_suffixTokens o []) (p.code_suffixTokens o)]
      rfl
    · apply keeps_of_names
      have hundefined := hf "undefined" (Or.inl (by decide))
      rw [code_append, code_suffixTokens]
      unfold suffixTokens
      split <;> simp [Token.names, code, Token.isComment, hundefined]
  have hrender := p.contained.render_eq o
  have := hlead.append (htype.append htail (p.opensApart_tail o))
  rw [← String.toList_append, ← String.toList_append, ← String.toList_append,
    ← String.toList_append, ← p.render_eq] at this
  rw [hrender]
  exact this

theorem Field.contained_property (ids : List String) (o : RenderOptions) (field : Field) :
    (field.property ids { o with linkAliases := true }).contained =
      field.property ids { o with linkAliases := false } := by
  rw [Property.contained, property, property]
  simp only [contained_typeExpr]

end

/-! ## Files with links by name -/

section

variable {f : String → Option String} {o : RenderOptions} {ids : List String}
  (hf : Spares f) (hp : Naming.isIdentifier o.namePrefix = true)
  (halias : ∀ id ∈ ids, f (o.entryName id) = some (ContentType.containerType (o.entryName id)))

include hf hp halias

theorem Field.turns_render {field : Field} (hfinite : field.FiniteNumbers) {u : Unfinished}
    (hu : u.header.parameters = []) :
    ∃ v : Unfinished, v.header.parameters = [] ∧
      Turns f (.body u) (field.render ids { o with linkAliases := true }).toList (.body v)
        (field.render ids { o with linkAliases := false }).toList := by
  have hexpands := expands_typeExpr (o := { o with linkAliases := true }) halias rfl field
  have hnameable := nameable_typeExpr (o := { o with linkAliases := true }) hp ids field
  have hproperty := Property.turns hf { o with linkAliases := true }
    (p := field.property ids { o with linkAliases := true }) (Naming.isIdentifier_propertyKey _)
    hnameable (finite_typeExpr ids _ hfinite) hexpands hu
  have hnote := turns_docComment (f := f) (.body u) 2 (Text.trim (field.spec.note.getD ""))
  have := hnote.append hproperty
  rw [contained_property, ← String.toList_append, ← String.toList_append] at this
  exact ⟨u.with _, hu, this⟩

theorem ContentType.turns_fieldsInterface {ct : ContentType}
    (hfinite : ∀ field ∈ ct.fields, field.FiniteNumbers) :
    Turns f .outside (ct.fieldsInterface ids { o with linkAliases := true }).toList .outside
      (ct.fieldsInterface ids { o with linkAliases := false }).toList := by
  have hidentifier := Field.isIdentifier_fieldsName (Field.isIdentifier_entryName hp ct.id)
  have hhead := (scans_interfaceHead hidentifier).turns (f := f) (p := .outside) rfl
    fun _ hnone => absurd hnone List.not_mem_nil
  obtain ⟨p, ⟨u, hu, rfl⟩, hfields⟩ := turns_intercalate turns_lineEnd
    (fun p => ∃ u : Unfinished, u.header.parameters = [] ∧ p = .body u)
    (Field.render ids { o with linkAliases := true })
    (Field.render ids { o with linkAliases := false }) ct.fields
    (by
      rintro field hfield _ ⟨u, hu, rfl⟩
      obtain ⟨v, hv, hturns⟩ := Field.turns_render hf hp halias (hfinite field hfield) hu
      exact ⟨_, ⟨v, hv, rfl⟩, hturns⟩)
    ⟨⟨⟨.interface, fieldsName (o.entryName ct.id), []⟩, [], []⟩, rfl, rfl⟩
  have hclose : Turns f (.body u) "\n\x7d\n".toList .outside "\n\x7d\n".toList :=
    (show Scans "\n\x7d\n".toList [Token.punct '\x7d'] from rfl).turns rfl
      fun _ hnone => absurd hnone List.not_mem_nil
  have hcomment := turns_docComment (f := f) .outside 0 (ct.description.getD "")
  have := hcomment.append (hhead.append (hfields.append hclose))
  have hsame (links : Bool) :
      RenderOptions.entryName { o with linkAliases := links } ct.id = o.entryName ct.id := rfl
  simpa [fieldsInterface, hsame] using this

theorem ContentType.turns_render {ct : ContentType} (hb : o.brandEntries = false)
    (hfinite : ∀ field ∈ ct.fields, field.FiniteNumbers) :
    Turns f .outside (ct.render ids { o with linkAliases := true }).toList .outside
      (ct.render ids { o with linkAliases := false }).toList := by
  have hentry := turns_entryDeclaration (f := f) hp hb ct
  have := (turns_fieldsInterface hf hp halias hfinite).append hentry
  rw [render, render, String.toList_append, String.toList_append]
  exact this

end

theorem turns_declarationFile {f : String → Option String} {o : RenderOptions} {cts : List ContentType}
    (hf : Spares f) (hcore : ∀ name ∈ Core.declared.map Declaration.name, f name = none)
    (hp : Naming.isIdentifier o.namePrefix = true) (hb : o.brandEntries = false)
    (halias : ∀ id ∈ cts.map ContentType.id,
      f (o.entryName id) = some (ContentType.containerType (o.entryName id)))
    (hnumbers : ∀ ct ∈ cts, ∀ field ∈ ct.fields, field.FiniteNumbers) :
    Turns f .outside (declarationFile { o with linkAliases := true } cts).toList .outside
      (declarationFile { o with linkAliases := false } cts).toList := by
  have hfixed : ∀ name, name ∈ builtins ∨ name ∈ Core.declared.map Declaration.name →
      f name = none :=
    fun name hname => hname.elim (fun h => hf name (Or.inl h)) (hcore name)
  have hbanner := (scans_banner cts.length).turns_of_comments (f := f) rfl .outside
  have hlines : Turns f .outside "\n\n".toList .outside "\n\n".toList :=
    (show Scans "\n\n".toList [] from rfl).turns_of_comments rfl .outside
  obtain ⟨_, rfl, hblocks⟩ := turns_intercalate turns_lineEnd (· = .outside)
    (ContentType.render (cts.map ContentType.id) { o with linkAliases := true })
    (ContentType.render (cts.map ContentType.id) { o with linkAliases := false }) cts
    (by
      rintro ct hct _ rfl
      exact ⟨_, rfl, ContentType.turns_render hf hp halias hb (hnumbers ct hct)⟩)
    rfl
  have := ((hbanner.append (Core.turns_text hfixed)).append hlines).append hblocks
  unfold declarationFile
  rw [String.toList_append, String.toList_append, String.toList_append, String.toList_append,
    String.toList_append, String.toList_append]
  exact this

/-- Where links name entry types, replacing each name by what the file declares it as gives the file
in which links spell the containers out: the same links, in the same order, in the same arrays. -/
theorem expandAliases_declarationFile (o : RenderOptions) (cts : List ContentType)
    (hp : Naming.isIdentifier o.namePrefix = true) (hb : o.brandEntries = false)
    (hnumbers : ∀ ct ∈ cts, ∀ field ∈ ct.fields, field.FiniteNumbers) (hnames : NamesApart o cts) :
    expandAliases (declarationFile { o with linkAliases := true } cts) =
        some (declarationFile { o with linkAliases := false } cts) ∧
      ∀ ct ∈ cts, ∀ field ∈ ct.fields,
        (field.typeExpr (cts.map ContentType.id) { o with linkAliases := true }).contained =
          field.typeExpr (cts.map ContentType.id) { o with linkAliases := false } := by
  refine ⟨?_, fun ct _ field _ => Field.contained_typeExpr _ o field⟩
  have hnames' : NamesApart { o with linkAliases := true } cts := hnames
  have hread := declarations_eq_declaredIn (o := { o with linkAliases := true }) hp cts
    fun h => absurd h (by simp [hb])
  rw [expandAliases, hread, Option.bind_some]
  apply replaceTypes_of_turns
  apply turns_declarationFile (spares_aliasIn hnames') _ hp hb _ hnumbers
  · exact fun name hname => aliasIn_fixed hnames' (Or.inr hname)
  · exact fun id hid => aliasIn_entryName (o := { o with linkAliases := true }) hb hid

theorem expandAliases_declarationFile_linked :
    Naming.isIdentifier ({ brandEntries := false } : RenderOptions).namePrefix = true ∧
      (∀ ct ∈ [ContentType.linked], ∀ field ∈ ct.fields, field.FiniteNumbers) ∧
      NamesApart { brandEntries := false } [ContentType.linked] ∧
      expandAliases (declarationFile { brandEntries := false } [ContentType.linked]) =
        some (declarationFile { linkAliases := false, brandEntries := false } [ContentType.linked]) ∧
      ∀ field ∈ ContentType.linked.fields,
        (field.typeExpr ["node"] { brandEntries := false }).render = "(INode | INode)[]" ∧
          (field.typeExpr ["node"] { brandEntries := false }).contained.render =
            "(Entry<INodeFields> | Entry<INodeFields>)[]" := by
  have hp : Naming.isIdentifier ({ brandEntries := false } : RenderOptions).namePrefix = true := rfl
  have hnumbers : ∀ ct ∈ [ContentType.linked], ∀ field ∈ ct.fields, field.FiniteNumbers := by
    decide
  have hnames : NamesApart { brandEntries := false } [ContentType.linked] := by
    intro ct hct
    rw [List.mem_singleton] at hct
    rw [hct, Core.names_declared]
    decide
  obtain ⟨hfile, hfields⟩ :=
    expandAliases_declarationFile { brandEntries := false } [ContentType.linked] hp rfl hnumbers hnames
  refine ⟨hp, hnumbers, hnames, hfile, fun field hfield => ?_⟩
  have hcontained := hfields ContentType.linked List.mem_cons_self field hfield
  rw [ContentType.linked, List.mem_singleton] at hfield
  subst hfield
  exact ⟨rfl, (congrArg TypeExpr.render hcontained).trans rfl⟩

end Typings
