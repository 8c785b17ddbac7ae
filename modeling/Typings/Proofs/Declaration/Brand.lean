import Typings.Proofs.Declaration.Tokens
import Typings.Proofs.Script.Literal

/-!
# The brand of an entry

A branded entry carries the id of its content type between single quotes, as it is. It is the
literal of that id exactly if the id holds no single quote, no backslash and no line end.
-/

namespace Typings

open Script

namespace ContentType

/-! ## The text around the id -/

/-- The branded declaration up to the id. -/
def brandLead (entryName : String) : String :=
  "export interface " ++ entryName ++ " extends " ++ containerType entryName ++ " \x7b\n  sys: " ++
    containerType entryName ++ "[\"sys\"] & \x7b\n    contentType: \x7b\n      sys: \x7b\n        id: "

def brandClosing : String :=
  ";\n        linkType: 'ContentType';\n        type: 'Link';\n" ++
    "      \x7d;\n    \x7d;\n  \x7d;\n\x7d\n"

def brandTail (id : String) : String := "'" ++ id ++ "'" ++ brandClosing

theorem entryDeclaration_eq_brand {o : RenderOptions} (h : o.brandEntries = true) (ct : ContentType) :
    ct.entryDeclaration o = brandLead (o.entryName ct.id) ++ brandTail ct.id := by
  have hspaces : Layout.spaces 2 = "  " ∧ Layout.spaces 4 = "    " ∧ Layout.spaces 6 = "      " ∧
      Layout.spaces 8 = "        " := by decide
  have hsys : " \x7b\n  sys: " = " \x7b\n" ++ "  " ++ "sys" ++ ": " := rfl
  have hopen : "[\"sys\"] & \x7b\n    contentType: \x7b\n      sys: \x7b\n        id: " =
      "[\"sys\"] & " ++ "\x7b\n" ++ "    " ++ "contentType" ++ ": " ++ "\x7b\n" ++ "      " ++ "sys" ++
        ": " ++ "\x7b\n" ++ "        " ++ "id" ++ ": " := by
    decide +kernel
  have hclose : brandClosing =
      ";\n" ++ "        " ++ "linkType" ++ ": " ++ "'ContentType'" ++ ";\n" ++ "        " ++ "type" ++
        ": " ++ "'Link'" ++ ";\n" ++ "      " ++ "\x7d;\n" ++ "    " ++ "\x7d;\n" ++ "  " ++ "\x7d;\n" ++
        "\x7d" ++ "\n" := by
    decide +kernel
  unfold entryDeclaration Interface.render brandedEntry brandLead brandTail
  simp only [h, if_true, Layout.memberLines, Layout.member, hspaces, hsys, hopen, hclose,
    String.append_assoc, String.append_empty]

theorem toList_brandTail (id : String) : ∃ more,
    (brandTail id).toList = '\x27' :: (id.toList ++ '\x27' :: ';' :: '\n' :: more) := by
  have hclosing : brandClosing.toList = ';' :: '\n' :: brandClosing.toList.drop 2 := rfl
  refine ⟨brandClosing.toList.drop 2, ?_⟩
  unfold brandTail
  rw [String.toList_append, hclosing]
  simp

/-! ## The literal -/

theorem scan_brandTail {id : String} (h : PlainId id) :
    scan (brandTail id) = some (Token.quoted '\x27' id :: textTokens brandClosing) := by
  have hclosing : Scans brandClosing.toList (textTokens brandClosing) := by decide +kernel
  have := (ends_quotedId h).append hclosing rfl
  rw [← String.toList_append] at this
  exact this.scan

theorem opensWithLiteral_brandTail {id : String} (h : PlainId id) :
    OpensWithLiteral (brandTail id) id := by
  have hclosing : ";" ++ String.ofList (brandClosing.toList.drop 1) = brandClosing := by
    decide +kernel
  refine ⟨"'" ++ id ++ "'", String.ofList (brandClosing.toList.drop 1), id, ?_,
    (ends_quotedId h).scan, valueOf_plain fun c hc => (h c hc).2.1⟩
  rw [String.append_assoc, hclosing]
  rfl

/-- The literal ends where the id does: it would have to be longer than its value to go on, and the
line ends soon after. -/
theorem body_eq_of_value {id body rest more : List Char} (hin : Inside '\x27' body)
    (hvalue : decode .plain body = some id)
    (heq : id ++ '\x27' :: ';' :: '\n' :: more = body ++ '\x27' :: rest) : body = id := by
  have hlen : id.length ≤ body.length := length_le_of_decode hvalue
  rcases List.append_eq_append_iff.mp heq with ⟨beyond, rfl, hbeyond⟩ | ⟨left, rfl, -⟩
  · match beyond with
    | [] => exact List.append_nil id
    | [_] => simp at hbeyond
    | [_, _] => simp at hbeyond
    | quote :: semicolon :: lineEnd :: after =>
      simp only [List.cons_append, List.cons.injEq] at hbeyond
      obtain ⟨rfl, rfl, rfl, -⟩ := hbeyond
      have hshape : id ++ '\x27' :: ';' :: '\n' :: after = (id ++ ['\x27']) ++ ';' :: '\n' :: after := by
        simp
      rw [hshape] at hin
      exact absurd hin (not_inside_of_lineEnd (by decide) _ _)
  · have hleft : left = [] := by
      rw [List.length_append] at hlen
      exact List.eq_nil_of_length_eq_zero (by omega)
    rw [hleft, List.append_nil]

theorem opensWithLiteral_brandTail_iff (id : String) :
    OpensWithLiteral (brandTail id) id ↔ PlainId id := by
  constructor
  · intro h
    obtain ⟨more, htext⟩ := toList_brandTail id
    obtain ⟨body, rest, heq, hin, hvalue⟩ := h.exists_body htext
    obtain rfl : body = id.toList := body_eq_of_value hin hvalue heq
    exact hin.plain_of_no_backslash (no_backslash_of_decode hvalue (Nat.le_refl _))
  · exact opensWithLiteral_brandTail

theorem brand_shared_iff {id id' : String} (h : PlainId id) (h' : PlainId id') :
    (∃ value, OpensWithLiteral (brandTail id) value ∧ OpensWithLiteral (brandTail id') value) ↔
      id = id' := by
  constructor
  · rintro ⟨value, hvalue, hvalue'⟩
    obtain ⟨_, htext⟩ := toList_brandTail id
    obtain ⟨_, htext'⟩ := toList_brandTail id'
    rw [(opensWithLiteral_brandTail h).unique hvalue htext,
      (opensWithLiteral_brandTail h').unique hvalue' htext']
  · rintro rfl
    exact ⟨id, opensWithLiteral_brandTail h, opensWithLiteral_brandTail h⟩

/-- The id in a branded entry is the literal that denotes it exactly if it is plain. Then the code
after it is the same for every id, and brands are equal for equal ids only. -/
theorem entryDeclaration_brand (o : RenderOptions) (ct : ContentType) (hbrand : o.brandEntries = true) :
    ct.entryDeclaration o = brandLead (o.entryName ct.id) ++ brandTail ct.id ∧
      (OpensWithLiteral (brandTail ct.id) ct.id ↔ PlainId ct.id) ∧
      (PlainId ct.id →
        scan (brandTail ct.id) = some (Token.quoted '\x27' ct.id :: textTokens brandClosing) ∧
        ∀ ct' : ContentType, PlainId ct'.id →
          ((∃ value, OpensWithLiteral (brandTail ct.id) value ∧
            OpensWithLiteral (brandTail ct'.id) value) ↔ ct.id = ct'.id)) :=
  ⟨entryDeclaration_eq_brand hbrand ct, opensWithLiteral_brandTail_iff ct.id,
    fun h => ⟨scan_brandTail h, fun _ h' => brand_shared_iff h h'⟩⟩

/-- A content type with nothing but an id. -/
def bare (id : String) : ContentType := ⟨⟨id, "ContentType"⟩, "", none, []⟩

theorem entryDeclaration_brand_bare :
    ({} : RenderOptions).brandEntries = true ∧ PlainId "news-\u2028" ∧ PlainId "news" ∧
      scan (brandTail "news-\u2028") =
        some (Token.quoted '\x27' "news-\u2028" :: textTokens brandClosing) ∧
      ¬ ∃ value, OpensWithLiteral (brandTail "news-\u2028") value ∧
        OpensWithLiteral (brandTail "news") value := by
  have hbrand : ({} : RenderOptions).brandEntries = true := rfl
  have hlong : PlainId "news-\u2028" := plainId_of_all rfl
  have hshort : PlainId "news" := plainId_of_all rfl
  obtain ⟨-, -, hplain⟩ := entryDeclaration_brand {} (bare "news-\u2028") hbrand
  obtain ⟨hscan, hshared⟩ := hplain hlong
  refine ⟨hbrand, hlong, hshort, hscan, ?_⟩
  rw [show "news-\u2028" = (bare "news-\u2028").id from rfl, show "news" = (bare "news").id from rfl,
    hshared (bare "news") hshort]
  decide

theorem not_opensWithLiteral_quote :
    (bare "it's").entryDeclaration {} = brandLead "IItS" ++ brandTail "it's" ∧
      ¬ OpensWithLiteral (brandTail "it's") "it's" := by
  have hname : ({} : RenderOptions).entryName "it's" = "IItS" := rfl
  refine ⟨?_, ?_⟩
  · rw [← hname]
    exact entryDeclaration_eq_brand rfl (bare "it's")
  · rw [opensWithLiteral_brandTail_iff]
    intro h
    exact (h '\x27' (by decide)).1 rfl

end ContentType

end Typings
