import Typings.Proofs.Script.TypeTree
import Typings.Proofs.TypeExpr.Tokens

/-!
# Types are read back

The text of a type is read as its tree, whatever brackets and bars the literals in it hold: an array
of alternatives stays an array.
-/

namespace Typings

open Script

/-! ## Trees -/

def Literal.tree : Literal → TypeTree
  | .text s => .text s
  | .int n => .number (.whole n)
  | .double x => .number (match x.toInt? with
    | some n => .whole n
    | none => .decimal x.text)

def SimpleType.tree : SimpleType → TypeTree
  | .text => .named "string" []
  | .number => .named "number" []
  | .boolean => .named "boolean" []
  | .unknown => .named "unknown" []
  | .dictionary => .named "Record" [.named "string" [], .named "unknown" []]
  | .location => .object [(⟨"lat", false⟩, .named "number" []), (⟨"lon", false⟩, .named "number" [])]
  | .document => .named "Document" []
  | .asset => .named "Asset" []
  | .literal l => l.tree
  | .named name => .named name []
  | .entryOf fields => .named "Entry" [.named fields []]
  | .unknownEntry => .named "Entry" [.named "unknown" []]

def TypeExpr.tree : TypeExpr → TypeTree
  | .oneOf first others => TypeTree.union (first.tree :: others.map SimpleType.tree)
  | .array .mutable element => .array element.tree
  | .array .readonly element => .named "ReadonlyArray" [element.tree]

/-! ## Finite literals -/

def Literal.IsFinite : Literal → Prop
  | .double x => x.isFinite = true
  | _ => True

def SimpleType.Finite : SimpleType → Prop
  | .literal l => l.IsFinite
  | _ => True

/-- No literal in the type is an infinity or no number. -/
def TypeExpr.Finite : TypeExpr → Prop
  | .oneOf first others => first.Finite ∧ ∀ t ∈ others, t.Finite
  | .array _ element => element.Finite

/-! ## Reading one operand -/

/-- The tokens are an operand of any operator, and the tree is what they write. -/
def ReadsAs (ts : List Token) (t : TypeTree) : Prop :=
  ∀ level stack, (Reading.operand level stack).run ts = some (.operator level t stack)

/-- The tokens are a whole type between brackets, and the tree is what they write. -/
def ReadsIn (ts : List Token) (t : TypeTree) : Prop :=
  ∀ stack, ∃ level last, (Reading.operand .empty stack).run ts = some (.operator level last stack) ∧
    level.close last = t ∧ level.all last = t.alternatives

theorem ReadsAs.readsIn {ts : List Token} {t : TypeTree} (h : ReadsAs ts t)
    (hone : t.alternatives = [t]) : ReadsIn ts t :=
  fun stack => ⟨.empty, t, h .empty stack, rfl, hone.symm⟩

theorem ReadsIn.readType {ts : List Token} {t : TypeTree} (h : ReadsIn ts t) :
    readType ts = some t := by
  obtain ⟨level, last, hrun, hclose, -⟩ := h []
  rw [Script.readType, hrun]
  exact congrArg some hclose

theorem ReadsIn.or_word {ts : List Token} {t : TypeTree} (h : ReadsIn ts t) (name : String) :
    Script.readType (ts ++ [Token.punct '|', .word name]) =
      some (.oneOf (t.alternatives ++ [TypeTree.named name []])) := by
  obtain ⟨level, last, hrun, -, hall⟩ := h []
  have hmore : (Reading.operand .empty []).run (ts ++ [Token.punct '|', .word name]) =
      some (.operator ⟨level.all last, []⟩ (.named name []) []) := by
    rw [Reading.run_append, hrun]
    rfl
  rw [Script.readType, hmore]
  simp only [Level.close_eq_union, hall]
  have hlast : Level.all ⟨t.alternatives, []⟩ (.named name []) =
      t.alternatives ++ [TypeTree.named name []] := rfl
  rw [hlast]
  cases ha : t.alternatives with
  | nil =>
    rw [← hall] at ha
    simp [Level.all] at ha
  | cons first rest => cases rest <;> rfl

theorem quantity_toDigits (negative : Bool) (n : Nat) :
    quantity negative (String.ofList (Nat.toDigits 10 n)) =
      .whole (if negative then -(n : Int) else n) := by
  have hall : (Nat.toDigits 10 n).all Char.isDigit = true :=
    List.all_eq_true.mpr isDigit_of_mem_toDigits
  rw [quantity, String.toList_ofList, if_pos hall, Nat.ofDigitChars_ten_toDigits]

theorem quantity_decimal (negative : Bool) {p : NumberPart} (hp : p ≠ .whole) {cs : List Char}
    (h : Numeral p cs) :
    quantity negative (String.ofList cs) =
      .decimal (if negative then "-" ++ String.ofList cs else String.ofList cs) := by
  have hall : cs.all Char.isDigit ≠ true := by
    intro hdigits
    obtain ⟨c, rest, rfl, -, hrest, -⟩ := h
    rw [List.all_eq_true] at hdigits
    rw [NumberPart.after_digits rfl fun d hd => hdigits d (List.mem_cons_of_mem _ hd)] at hrest
    exact hp (Option.some.inj hrest).symm
  rw [quantity, String.toList_ofList, if_neg hall]

theorem readsAs_withSign (negative : Bool) (text : String) :
    ReadsAs (withSign negative [Token.number text]) (.number (quantity negative text)) := by
  intro level stack
  cases negative <;> rfl

theorem signed_natAbs (n : Int) : (if decide (n < 0) then -(n.natAbs : Int) else n.natAbs) = n := by
  by_cases hneg : n < 0
  · simp only [hneg, decide_true, if_true]
    omega
  · simp only [hneg, decide_false, Bool.false_eq_true, if_false]
    omega

theorem readsAs_intTokens (n : Int) : ReadsAs (intTokens n) (.number (.whole n)) := by
  have h := readsAs_withSign (n < 0) (toString n.natAbs)
  rw [Nat.toString_eq_ofList_toDigits, quantity_toDigits, signed_natAbs] at h
  exact h

theorem text_finite (negative : Bool) (significand : Nat) (exponent : Int) :
    (Double.finite negative significand exponent).text =
      if negative then "-" ++ String.ofList (Double.unsignedText significand exponent)
      else String.ofList (Double.unsignedText significand exponent) := by
  apply String.toList_inj.mp
  rw [toList_text_finite]
  cases negative <;> simp

theorem Literal.readsAs (l : Literal) (h : l.IsFinite) : ReadsAs l.tokens l.tree := by
  cases l with
  | text s =>
    intro level stack
    simp [Literal.tokens, Literal.tree, Reading.step, valueOf_encode]
  | int n => exact readsAs_intTokens n
  | double x =>
    rw [Literal.tokens, Literal.tree]
    cases hx : x.toInt? with
    | some n => exact readsAs_intTokens n
    | none =>
      cases x with
      | finite negative significand exponent =>
        obtain ⟨p, hp, hnum⟩ := numeral_unsignedText significand exponent
        simp only
        rw [text_finite, ← quantity_decimal negative hp hnum]
        exact readsAs_withSign negative _
      | infinite negative => exact absurd h (by simp [Literal.IsFinite, Double.isFinite])
      | nan => exact absurd h (by simp [Literal.IsFinite, Double.isFinite])

theorem SimpleType.readsAs (t : SimpleType) (h : t.Finite) : ReadsAs t.tokens t.tree := by
  cases t with
  | literal l => exact l.readsAs h
  | _ => exact fun _ _ => rfl

theorem SimpleType.alternatives_tree (t : SimpleType) : t.tree.alternatives = [t.tree] := by
  cases t with
  | literal l => cases l <;> rfl
  | _ => rfl

/-! ## Reading a type -/

theorem run_alternatives (first : SimpleType) (others : List SimpleType) (hfirst : first.Finite)
    (hothers : ∀ t ∈ others, t.Finite) (before : List TypeTree) (stack : Stack) :
    ∃ level last,
      (Reading.operand ⟨before, []⟩ stack).run
          (first.tokens ++ others.flatMap fun t => Token.punct '|' :: t.tokens) =
        some (.operator level last stack) ∧
      level.all last = before ++ first.tree :: others.map SimpleType.tree := by
  induction others generalizing first before with
  | nil => exact ⟨⟨before, []⟩, first.tree, by simp [first.readsAs hfirst _ _], rfl⟩
  | cons second rest ih =>
    obtain ⟨level, last, hrun, hall⟩ := ih second (hothers second List.mem_cons_self)
      (fun t ht => hothers t (List.mem_cons_of_mem _ ht)) (before ++ [first.tree])
    refine ⟨level, last, ?_, by simpa using hall⟩
    rw [Reading.run_append, first.readsAs hfirst]
    exact hrun

theorem needsParens_alternatives (first second : SimpleType) (rest : List SimpleType) :
    needsParens (TypeExpr.oneOf first (second :: rest)).render = true := by
  simp [needsParens, TypeExpr.render, joinAlternatives]

/-- The tokens of a type are read as its tree, and what is printed without parentheses is an
operand. -/
theorem TypeExpr.reads (t : TypeExpr) (h : t.Finite) :
    ReadsIn t.tokens t.tree ∧ (needsParens t.render = false → ReadsAs t.tokens t.tree) := by
  induction t with
  | oneOf first others =>
    constructor
    · intro stack
      obtain ⟨level, last, hrun, hall⟩ := run_alternatives first others h.1 h.2 [] stack
      have hsimple : ∀ t ∈ first.tree :: others.map SimpleType.tree, t.alternatives = [t] := by
        intro t ht
        rw [← List.map_cons] at ht
        obtain ⟨s, -, rfl⟩ := List.mem_map.mp ht
        exact s.alternatives_tree
      refine ⟨level, last, hrun, by rw [Level.close_eq_union, hall]; rfl, ?_⟩
      rw [hall, TypeExpr.tree, TypeTree.alternatives_union (by simp) hsimple]
      rfl
    cases others with
    | nil =>
      intro _
      simpa [TypeExpr.tokens, TypeExpr.tree, TypeTree.union] using first.readsAs h.1
    | cons second rest =>
      intro hp
      rw [needsParens_alternatives] at hp
      exact absurd hp (by decide)
  | array form element ih =>
    obtain ⟨hin, has⟩ := ih h
    have harray : ReadsAs (TypeExpr.array form element).tokens (TypeExpr.array form element).tree := by
      intro level stack
      cases form with
      | readonly =>
        obtain ⟨inner, last, hrun, hclose, -⟩ := hin ((level, .arguments "ReadonlyArray" []) :: stack)
        simp [TypeExpr.tokens, TypeExpr.tree, Reading.step, Reading.run_append, hrun, Reading.close,
          hclose]
      | mutable =>
        rw [TypeExpr.tokens]
        split
        · obtain ⟨inner, last, hrun, hclose, -⟩ := hin ((level, .group) :: stack)
          simp [TypeExpr.tree, Reading.step, Reading.run_append, hrun, Reading.close, hclose]
        · rename_i hp
          rw [Reading.run_append, has (by simpa using hp) level stack]
          rfl
    have hone : (TypeExpr.array form element).tree.alternatives =
        [(TypeExpr.array form element).tree] := by
      cases form <;> rfl
    exact ⟨harray.readsIn hone, fun _ => harray⟩

end Typings
