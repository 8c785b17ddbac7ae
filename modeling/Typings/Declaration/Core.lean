import Typings.Declaration.Block

/-! # Core types

The types that every declaration file starts with: links, entries, assets and rich text documents.
-/

namespace Typings.Core

open Layout

def link : Interface where
  head := "Link<T extends string>"
  members := [
    ("sys", block "" [("type", line "'Link'"), ("linkType", line "T"), ("id", line "string")])]

def entrySys : Interface where
  head := "EntrySys"
  members := [
    ("id", line "string"),
    ("type", line "'Entry'"),
    ("createdAt", line "string"),
    ("updatedAt", line "string"),
    ("locale?", line "string"),
    ("revision?", line "number"),
    ("space?", line "Link<'Space'>"),
    ("environment?", line "Link<'Environment'>"),
    ("contentType", block "" [
      ("sys", block "" [
        ("id", line "string"), ("linkType", line "'ContentType'"), ("type", line "'Link'")])])]

def entry : Interface where
  head := "Entry<T>"
  members := [
    ("sys", line "EntrySys"),
    ("fields", line "T"),
    ("metadata?", block "" [("tags", line "Link<'Tag'>[]")])]

def assetSys : Interface where
  head := "AssetSys"
  members := [
    ("id", line "string"),
    ("type", line "'Asset'"),
    ("createdAt", line "string"),
    ("updatedAt", line "string"),
    ("locale?", line "string"),
    ("revision?", line "number")]

def asset : Interface where
  head := "Asset"
  members := [
    ("sys", line "AssetSys"),
    ("fields", block "" [
      ("title?", line "string"),
      ("description?", line "string"),
      ("file?", block "" [
        ("url", line "string"),
        ("fileName", line "string"),
        ("contentType", line "string"),
        ("details?", block "" [
          ("size?", line "number"),
          ("image?", block "" [("width", line "number"), ("height", line "number")])])])])]

def document : Interface where
  head := "Document"
  members := [
    ("nodeType", line "'document'"),
    ("data", line "Record<string, unknown>"),
    ("content", line "unknown[]")]

def interfaces : List Interface := [link, entrySys, entry, assetSys, asset, document]

/-- The text of the core types, an empty line between two of them. -/
def text : String := "\n\n".intercalate (interfaces.map Interface.render)

end Typings.Core
