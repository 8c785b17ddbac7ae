import Typings.Content.ContentType
import Typings.Declaration.Core
import Typings.Text.Blank
import Typings.TypeExpr.Mapping

/-! # The declaration file

A banner, the core types, and for each content type, in the order given, an interface with its
fields and the declaration of its entries.
-/

namespace Typings

/-! ## Comments -/

/-- Text that cannot end the comment it stands in: a backslash separates every star from a slash
after it. -/
def commentChars : List Char → List Char
  | '*' :: '/' :: rest => '*' :: '\\' :: '/' :: commentChars rest
  | c :: rest => c :: commentChars rest
  | [] => []

def commentText (s : String) : String := String.ofList (commentChars s.toList)

/-- A comment on a line of its own, or nothing for an empty text. -/
def docComment (indent : Nat) (s : String) : String :=
  if s = "" then "" else Layout.spaces indent ++ "/** " ++ commentText s ++ " */\n"

/-! ## Fields -/

def Property.undefinedSuffix (o : RenderOptions) (p : Property) : String :=
  if !p.required && o.undefinedOnOptional then " | undefined" else ""

def Property.render (o : RenderOptions) (p : Property) : String :=
  "  " ++ p.name ++ (if p.required then "" else "?") ++ ": " ++ p.type.render ++ p.undefinedSuffix o ++ ";"

/-- A field: its note as a comment, and its property. -/
def Field.render (ids : List String) (o : RenderOptions) (f : Field) : String :=
  docComment 2 (Text.trim (f.spec.note.getD "")) ++ (f.property ids o).render o

/-! ## Content types -/

namespace ContentType

def fieldsInterface (ids : List String) (o : RenderOptions) (ct : ContentType) : String :=
  docComment 0 (ct.description.getD "") ++
    "export interface " ++ fieldsName (o.entryName ct.id) ++ " \x7b\n" ++
    "\n".intercalate (ct.fields.map (Field.render ids o)) ++ "\n\x7d\n"

def containerType (entryName : String) : String := "Entry<" ++ fieldsName entryName ++ ">"

/-- The entry type that carries the id of its content type. -/
def brandedEntry (entryName : String) (id : String) : Interface where
  head := entryName ++ " extends " ++ containerType entryName
  members := [
    ("sys", .block (containerType entryName ++ "[\"sys\"] & ") [
      ("contentType", .block "" [
        ("sys", .block "" [
          ("id", .line ("'" ++ id ++ "'")),
          ("linkType", .line "'ContentType'"),
          ("type", .line "'Link'")])])])]

/-- The declaration of the entries: an interface that carries the id, or a plain alias. -/
def entryDeclaration (o : RenderOptions) (ct : ContentType) : String :=
  let entryName := o.entryName ct.id
  if o.brandEntries then (brandedEntry entryName ct.id).render ++ "\n"
  else "export type " ++ entryName ++ " = " ++ containerType entryName ++ ";\n"

def render (ids : List String) (o : RenderOptions) (ct : ContentType) : String :=
  ct.fieldsInterface ids o ++ ct.entryDeclaration o

end ContentType

/-! ## The file -/

/-- The comment at the top of the file, with the number of content types. -/
def banner (count : Int) : String :=
  "/* ============================================================================\n" ++
  " * " ++ toString count ++ " Contentful content type interface" ++ (if count = 1 then "" else "s") ++
  " generated by contentful-typegen\n" ++
  " * DO NOT EDIT THIS FILE: it is auto-generated and overwritten on each build.\n" ++
  " * ========================================================================== */\n"

def declarationFile (o : RenderOptions) (cts : List ContentType) : String :=
  let ids := cts.map ContentType.id
  banner cts.length ++ Core.text ++ "\n\n" ++ "\n".intercalate (cts.map (ContentType.render ids o))

end Typings
