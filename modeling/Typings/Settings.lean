import Typings.RenderOptions
import Typings.Settings.ProjectFile
import Typings.WorkTree.Path

/-! # Settings

Everything that one run needs to know, merged from its sources. The three credentials come from the
first source that has a non-empty one: the command line, the environment, and, but for the token,
the project file. Every other setting comes from the first source that gives it at all: the command
line, the project file, the default.
-/

namespace Typings

/-- Values given on the command line. Those that shape the output are checked after merging. -/
structure Overrides where
  spaceId : Option String := none
  environmentId : Option String := none
  managementToken : Option String := none
  outFile : Option String := none
  namePrefix : Option Data := none
  undefinedOnOptional : Option Data := none
  readonlyArrays : Option Data := none
  linkAliases : Option Data := none
  brandEntries : Option Data := none
  formatOutput : Option Data := none

abbrev Environment := List (String × String)

def Environment.get? (key : String) (env : Environment) : Option String := env.lookup key

structure Settings where
  spaceId : String
  environmentId : String
  managementToken : String
  outFile : Path
  renderOptions : RenderOptions
  /-- Whether the output is to be formatted, as it was given. -/
  formatOutput : Data

inductive SettingsFault where
  | missingInputs
  | badOptions (issues : List Issue)
  deriving DecidableEq, Repr

namespace Settings

def spaceVariable : String := "CF_SPACE_ID"
def environmentVariable : String := "CF_ENV"
def tokenVariable : String := "CF_MANAGER_TOKEN"

def defaultOutFile : String := "types/contentful.d.ts"

def missingMessage : String :=
  "Missing required inputs. Provide --space, --env, --token or set " ++ spaceVariable ++ " / " ++
    environmentVariable ++ " / " ++ tokenVariable ++ "."

def firstNonEmpty? (sources : List (Option String)) : Option String :=
  sources.findSome? fun source => source.filter (· != "")

/-- The first of the sources that gives a value. -/
def firstGiven (override project : Option Data) (default : Data) : Data :=
  (override.orElse fun _ => project).getD default

/-- The render options that the sources give, as members that are still to be checked. -/
def optionMembers (ov : Overrides) (project : ProjectFile) : Data.Members :=
  let defaults : RenderOptions := {}
  let flag (override : Option Data) (own : Option Bool) (default : Bool) : Data :=
    firstGiven override (own.map .bool) (.bool default)
  [("prefix", firstGiven ov.namePrefix (project.namePrefix.map .text) (.text defaults.namePrefix)),
    ("include_undefined_on_optional",
      flag ov.undefinedOnOptional project.undefinedOptionals defaults.undefinedOnOptional),
    ("arrays_readonly", flag ov.readonlyArrays project.readonlyArrays defaults.readonlyArrays),
    ("prefer_linked_aliases", flag ov.linkAliases project.aliases defaults.linkAliases),
    ("brand_content_type_id", flag ov.brandEntries project.brand defaults.brandEntries)]

def resolve (ov : Overrides) (env : Environment) (project : ProjectFile) : Except SettingsFault Settings :=
  let space := firstNonEmpty? [ov.spaceId, env.get? spaceVariable, project.space]
  let environment := firstNonEmpty? [ov.environmentId, env.get? environmentVariable, project.environment]
  let token := firstNonEmpty? [ov.managementToken, env.get? tokenVariable]
  match space, environment, token with
  | some space, some environment, some token =>
    match RenderOptions.ofMembers (optionMembers ov project) with
    | .rejected issues => .error (.badOptions issues)
    | .accepted options => .ok {
        spaceId := space
        environmentId := environment
        managementToken := token
        outFile := Path.ofText ((ov.outFile.orElse fun _ => project.out).getD defaultOutFile)
        renderOptions := options
        formatOutput := firstGiven ov.formatOutput (project.format.map .bool) (.bool true) }
  | _, _, _ => .error .missingInputs

end Settings

end Typings
