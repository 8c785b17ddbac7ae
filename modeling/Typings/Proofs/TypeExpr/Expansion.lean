import Typings.Proofs.Script.Expansion
import Typings.Proofs.Declaration.ReadBack
import Typings.Proofs.TypeExpr.References
import Typings.Proofs.TypeExpr.Relevance

/-!
# Entry types and their containers

A type that names entries becomes, by replacing these names, the type that spells out their
containers. Bars, brackets and parentheses stay where they are.
-/

namespace Typings

open Script

/-! ## The container forms -/

def SimpleType.contained : SimpleType → SimpleType
  | .named name => .entryOf (fieldsName name)
  | t => t

/-- The type with each named entry type spelled out as the container of its fields. -/
def TypeExpr.contained : TypeExpr → TypeExpr
  | .oneOf first others => .oneOf first.contained (others.map SimpleType.contained)
  | .array form element => .array form element.contained

theorem RenderOptions.contained_linkType (o : RenderOptions) (id : String) :
    (RenderOptions.linkType { o with linkAliases := true } id).contained =
      RenderOptions.linkType { o with linkAliases := false } id := rfl

namespace Field

theorem contained_levelType (ids : List String) (o : RenderOptions) (spec : FieldSpec)
    (element : TypeExpr) :
    (levelType ids { o with linkAliases := true } spec element).contained =
      levelType ids { o with linkAliases := false } spec element.contained := by
  unfold levelType literalUnion
  cases literalsOf spec.validations with
  | cons first others => simp [TypeExpr.contained, SimpleType.contained, Function.comp_def]
  | nil =>
    simp only [Option.getD_none]
    unfold taggedType
    cases FieldKind.ofTag spec.type with
    | link =>
      simp only [linkedType]
      cases LinkKind.ofTag spec.linkType with
      | entry =>
        simp only [entryLinkType]
        cases (linkTargets spec.validations).filter ids.contains with
        | nil => rfl
        | cons first others =>
          simp [TypeExpr.contained, o.contained_linkType, Function.comp_def]
      | _ => rfl
    | _ => rfl

theorem contained_typeExpr (ids : List String) (o : RenderOptions) (f : Field) :
    (f.typeExpr ids { o with linkAliases := true }).contained =
      f.typeExpr ids { o with linkAliases := false } := by
  apply typeExpr_rel (R := fun t t' => t.contained = t') rfl
  rintro s - e _ rfl
  exact contained_levelType ids o s e

end Field

/-! ## Parentheses -/

theorem needsParens_append (s t : String) :
    needsParens (s ++ t) = (needsParens s || needsParens t) := by
  simp [needsParens]

theorem needsParens_of_isIdentifier {name : String} (h : Naming.isIdentifier name = true) :
    needsParens name = false := by
  obtain ⟨c, rest, hname, hc, hrest⟩ := (Naming.isIdentifier_iff name).mp h
  rw [needsParens, hname, List.any_eq_false]
  intro d hd
  rw [Bool.or_eq_true, beq_iff_eq, beq_iff_eq]
  rcases List.mem_cons.mp hd with rfl | hd
  · rintro (rfl | rfl) <;> exact absurd hc (by decide)
  · rintro (rfl | rfl) <;> exact absurd (hrest _ hd) (by decide)

theorem SimpleType.needsParens_contained {t : SimpleType} (h : t.Nameable) :
    needsParens t.contained.render = needsParens t.render := by
  cases t with
  | named name =>
    have hname : Naming.isIdentifier name = true := h
    have hopen : needsParens "Entry<" = false := rfl
    have hclose : needsParens ">" = false := rfl
    rw [contained, render, render, needsParens_append, needsParens_append, hopen, hclose,
      needsParens_of_isIdentifier hname,
      needsParens_of_isIdentifier (Field.isIdentifier_fieldsName hname)]
    rfl
  | _ => rfl

theorem needsParens_wrap (form : ArrayForm) (inner : String) :
    needsParens (form.wrap inner) = needsParens inner := by
  have hangle : needsParens "ReadonlyArray<" = false := rfl
  have hangleEnd : needsParens ">" = false := rfl
  have hopen : needsParens "(" = false := rfl
  have hclose : needsParens ")[]" = false := rfl
  have hbrackets : needsParens "[]" = false := rfl
  cases form with
  | readonly => simp [ArrayForm.wrap, needsParens_append, hangle, hangleEnd]
  | mutable =>
    rw [ArrayForm.wrap]
    split <;> simp only [needsParens_append, hopen, hclose, hbrackets, Bool.false_or, Bool.or_false]

theorem TypeExpr.needsParens_contained (t : TypeExpr) (h : t.Nameable) :
    needsParens t.contained.render = needsParens t.render := by
  induction t with
  | oneOf first others =>
    cases others with
    | nil => simpa [contained, render, joinAlternatives] using first.needsParens_contained h.1
    | cons second rest =>
      rw [needsParens_alternatives]
      exact needsParens_alternatives first.contained second.contained _
  | array form element ih =>
    rw [contained, render, render, needsParens_wrap, needsParens_wrap]
    exact ih h

/-! ## Replacing the names of entries -/

/-- Nothing is replaced that the types of fields mention besides entries. -/
def Spares (f : String → Option String) : Prop :=
  ∀ name, name ∈ builtins ∨ name ∈ ["Entry", "Asset", "Document"] → f name = none

/-- A named type is replaced by the container of its fields. -/
def SimpleType.Expands (f : String → Option String) : SimpleType → Prop
  | .named name => f name = some (SimpleType.entryOf (fieldsName name)).render
  | .entryOf fields => f fields = none
  | _ => True

def TypeExpr.Expands (f : String → Option String) : TypeExpr → Prop
  | .oneOf first others => first.Expands f ∧ ∀ t ∈ others, t.Expands f
  | .array _ element => element.Expands f

theorem Literal.names_tokens {l : Literal} (h : l.IsFinite) : l.tokens.flatMap Token.names = [] := by
  have hsign (negative : Bool) (text : String) :
      (withSign negative [Token.number text]).flatMap Token.names = [] := by
    cases negative <;> rfl
  cases l with
  | text s => rfl
  | int n => exact hsign _ _
  | double x =>
    rw [Literal.tokens]
    split
    · exact hsign _ _
    · cases x with
      | finite negative significand exponent => exact hsign _ _
      | _ => exact absurd h (by simp [Literal.IsFinite, Double.isFinite])

section

variable {f : String → Option String} {u : Unfinished} (hu : u.header.parameters = [])
  (name : String) (optional : Bool)

include hu

theorem SimpleType.keeps (hf : Spares f) {t : SimpleType} (ht : t.Expands f) (hfinite : t.Finite)
    (hnamed : ∀ other, t ≠ .named other) (due : List Char) {type : List Token}
    (htype : endsOpen type = true) : Keeps f (.memberType u name optional due type) t.tokens := by
  have hwords (hnames : ∀ other ∈ t.tokens.flatMap Token.names,
      other ∈ builtins ∨ other ∈ ["Entry", "Asset", "Document"]) :
      Keeps f (.memberType u name optional due type) t.tokens := by
    apply keeps_of_names
    rw [t.code_tokens]
    exact fun other hother => hf other (hnames other hother)
  cases t with
  | named other => exact absurd rfl (hnamed other)
  | literal l =>
    apply hwords
    rw [SimpleType.tokens, Literal.names_tokens hfinite]
    simp
  | entryOf fields =>
    apply keeps_of_names
    intro other hother
    have hother' : other ∈ ["Entry", fields] := hother
    rw [List.mem_cons, List.mem_singleton] at hother'
    rcases hother' with rfl | rfl
    · exact hf _ (by decide)
    · exact ht
  | location =>
    -- The labels of the object are words, but no types.
    obtain ⟨level, stack, hrun⟩ := exists_run_of_endsOpen htype
    have hnames : (Place.memberType u name optional due type).typeNames SimpleType.location.tokens =
        ["number", "number"] := by
      simp [SimpleType.tokens, Place.typeNames, Place.step, nest, closing, isClosing,
        Place.awaitsType, hu, endsOpen_append hrun, Reading.step, Reading.close, Reading.isOpen,
        Token.names]
    unfold Keeps
    rw [SimpleType.code_tokens, hnames]
    intro other hother
    have hnumber : other = "number" := by simpa using hother
    rw [hnumber]
    exact hf _ (by decide)
  | _ => exact hwords (by decide)

theorem SimpleType.turnsApart (hf : Spares f) {t : SimpleType} (ht : t.Expands f)
    (hnameable : t.Nameable) (hfinite : t.Finite) (due : List Char) {type : List Token}
    (htype : endsOpen type = true) :
    TurnsApart f (.memberType u name optional due type) t.render.toList
      (.memberType u name optional due (type ++ t.tokens)) t.contained.render.toList := by
  have hfollow := Place.follow_memberType u name optional (t.enclosed due) t.code_tokens type
  by_cases hnamed : ∃ other, t = .named other
  · obtain ⟨other, rfl⟩ := hnamed
    have hreplaced : replacement f (.memberType u name optional due type) other =
        (SimpleType.entryOf (fieldsName other)).render := by
      rw [replacement, if_pos (Place.awaitsType_memberType hu name optional due htype other),
        show f other = _ from ht]
      rfl
    have := turnsApart_name (f := f) hnameable hfollow
    rwa [hreplaced] at this
  · rw [not_exists] at hnamed
    have hsame : t.contained = t := by
      cases t with
      | named other => exact absurd rfl (hnamed other)
      | _ => rfl
    rw [hsame]
    exact (t.ends_render hnameable).turnsApart hfollow
      (SimpleType.keeps hu name optional hf ht hfinite hnamed due htype)

theorem turnsApart_alternatives (hf : Spares f) (first : SimpleType) (others : List SimpleType)
    (ht : (TypeExpr.oneOf first others).Expands f) (hnameable : (TypeExpr.oneOf first others).Nameable)
    (hfinite : (TypeExpr.oneOf first others).Finite) (due : List Char) {type : List Token}
    (htype : endsOpen type = true) :
    TurnsApart f (.memberType u name optional due type)
      (joinAlternatives (first.render :: others.map SimpleType.render)).toList
      (.memberType u name optional due
        (type ++ (first.tokens ++ others.flatMap fun t => Token.punct '|' :: t.tokens)))
      (joinAlternatives (first.contained.render ::
        (others.map SimpleType.contained).map SimpleType.render)).toList := by
  have hfirst := SimpleType.turnsApart hu name optional hf ht.1 hnameable.1 hfinite.1 due htype
  -- What is before the first alternative grows, and it always ends where a type must follow.
  induction others generalizing first type with
  | nil => simpa [joinAlternatives] using hfirst
  | cons second rest ih =>
    obtain ⟨level, stack, hrun⟩ := exists_run_of_endsOpen htype
    have hopen : endsOpen (type ++ first.tokens ++ [Token.punct '|']) = true := by
      rw [List.append_assoc, endsOpen_append hrun, Reading.run_append, first.readsAs hfinite.1]
      rfl
    have hsecond := SimpleType.turnsApart hu name optional hf (ht.2 second List.mem_cons_self)
      (hnameable.2 second List.mem_cons_self) (hfinite.2 second List.mem_cons_self) due hopen
    have hrest := ih second
      ⟨ht.2 second List.mem_cons_self, fun t h => ht.2 t (List.mem_cons_of_mem _ h)⟩
      ⟨hnameable.2 second List.mem_cons_self, fun t h => hnameable.2 t (List.mem_cons_of_mem _ h)⟩
      ⟨hfinite.2 second List.mem_cons_self, fun t h => hfinite.2 t (List.mem_cons_of_mem _ h)⟩
      hopen hsecond
    have hscan : Scans " | ".toList [Token.punct '|'] := rfl
    have hbar := hscan.turns_memberType (f := f) u name optional due (type ++ first.tokens) rfl rfl
      (by simp [Token.names])
    have := hfirst.append_apart (hbar.append_apart hrest) rfl
    simpa [joinAlternatives] using this

theorem TypeExpr.turnsApart (hf : Spares f) (t : TypeExpr) (ht : t.Expands f)
    (hnameable : t.Nameable) (hfinite : t.Finite) (due : List Char) {type : List Token}
    (htype : endsOpen type = true) :
    TurnsApart f (.memberType u name optional due type) t.render.toList
      (.memberType u name optional due (type ++ t.tokens)) t.contained.render.toList := by
  induction t generalizing due type with
  | oneOf first others =>
    exact turnsApart_alternatives hu name optional hf first others ht hnameable hfinite due htype
  | array form element ih =>
    obtain ⟨level, stack, hrun⟩ := exists_run_of_endsOpen htype
    cases form with
    | readonly =>
      have hlead : Scans "ReadonlyArray<".toList [Token.word "ReadonlyArray", .punct '<'] := rfl
      have hclose : Scans ">".toList [Token.punct '>'] := rfl
      have hopen : endsOpen (type ++ [Token.word "ReadonlyArray", .punct '<']) = true := by
        rw [endsOpen_append hrun]
        rfl
      have hbefore := hlead.turns_memberType (f := f) u name optional due type rfl rfl
        (by simpa [Token.names] using hf "ReadonlyArray" (Or.inl (by decide)))
      have helement := ih ht hnameable hfinite ('>' :: due) hopen
      have hafter := hclose.turns_memberType (f := f) u name optional ('>' :: due)
        (type ++ [Token.word "ReadonlyArray", .punct '<'] ++ element.tokens) rfl rfl
        (by simp [Token.names])
      have := (hbefore.append (helement.append hafter rfl)).apart
      simpa [TypeExpr.render, TypeExpr.contained, TypeExpr.tokens, ArrayForm.wrap] using this
    | mutable =>
      have hsame := element.needsParens_contained hnameable
      cases hparens : needsParens element.render with
      | true =>
        rw [hparens] at hsame
        have hlead : Scans "(".toList [Token.punct '('] := rfl
        have hclose : Scans ")[]".toList [Token.punct ')', .punct '[', .punct ']'] := rfl
        have hopen : endsOpen (type ++ [Token.punct '(']) = true := by
          rw [endsOpen_append hrun]
          rfl
        have hbefore := hlead.turns_memberType (f := f) u name optional due type rfl rfl
          (by simp [Token.names])
        have helement := ih ht hnameable hfinite (')' :: due) hopen
        have hafter := hclose.turns_memberType (f := f) u name optional (')' :: due)
          (type ++ [Token.punct '('] ++ element.tokens) rfl rfl (by simp [Token.names])
        have := (hbefore.append (helement.append hafter rfl)).apart
        simpa [TypeExpr.render, TypeExpr.contained, TypeExpr.tokens, ArrayForm.wrap, hparens, hsame]
          using this
      | false =>
        rw [hparens] at hsame
        have hclose : Scans "[]".toList [Token.punct '[', .punct ']'] := rfl
        have helement := ih ht hnameable hfinite due htype
        have hafter := hclose.turns_memberType (f := f) u name optional due
          (type ++ element.tokens) rfl rfl (by simp [Token.names])
        have := (helement.append hafter rfl).apart
        simpa [TypeExpr.render, TypeExpr.contained, TypeExpr.tokens, ArrayForm.wrap, hparens, hsame]
          using this

end

/-! ## The types of fields -/

namespace Field

variable {replace : String → Option String} {ids : List String} {o : RenderOptions}

theorem expands_levelType
    (h : ∀ id ∈ ids, replace (o.entryName id) =
      some (SimpleType.entryOf (fieldsName (o.entryName id))).render)
    (ha : o.linkAliases = true) (spec : FieldSpec) (element : TypeExpr)
    (helement : element.Expands replace) : (levelType ids o spec element).Expands replace := by
  have hfixed : ∀ t ∈ fixedTypes, t.Expands replace := by simp [fixedTypes, SimpleType.Expands]
  rcases levelType_cases ids o spec element with harray | ⟨first, others, heq, hparts⟩
  · rw [harray]
    exact helement
  · rw [heq]
    refine List.forall_mem_cons.mp fun t ht => ?_
    cases hparts t ht with
    | literal _ => trivial
    | link hid =>
      rw [RenderOptions.linkType, if_pos ha]
      exact h _ hid
    | fixed hmem => exact hfixed t hmem

theorem expands_typeExpr
    (h : ∀ id ∈ ids, replace (o.entryName id) =
      some (SimpleType.entryOf (fieldsName (o.entryName id))).render)
    (ha : o.linkAliases = true) (f : Field) : (f.typeExpr ids o).Expands replace :=
  chainType_of_levels ids o ⟨trivial, by simp⟩ nestingLimit f.spec f.items
    fun s _ => expands_levelType h ha s

end Field

end Typings
