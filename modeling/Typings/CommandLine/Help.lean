/-! # Usage and help

What the command line says about itself, laid out for eighty columns.
-/

namespace Typings.CommandLine

def programName : String := "contentful-typegen"

def lines (ls : List String) : String := String.join (ls.map (· ++ "\n"))

def usage : String := lines [
  "usage: contentful-typegen [-h] [--space SPACE_ID] [--env ENVIRONMENT_ID]",
  "                          [--token MANAGEMENT_TOKEN] [--out OUT_FILE]",
  "                          [--prefix PREFIX] [--config CONFIG]",
  "                          [--no-undefined-optionals] [--readonly-arrays]",
  "                          [--no-aliases] [--no-brand] [--no-format]"]

def optionHelp : String := lines [
  "options:",
  "  -h, --help            show this help message and exit",
  "  --space SPACE_ID      Contentful space id (or CF_SPACE_ID)",
  "  --env ENVIRONMENT_ID  Environment id (or CF_ENV)",
  "  --token MANAGEMENT_TOKEN",
  "                        Content Management API token (or CF_MANAGER_TOKEN)",
  "  --out OUT_FILE        Output file path (default: types/contentful.d.ts)",
  "  --prefix PREFIX       Prefix for generated type names (default: I)",
  "  --config CONFIG       Project config file (default: ./.contentful-",
  "                        typegen.yaml if present)"]

def renderingHelp : String := lines [
  "rendering:",
  "  --no-undefined-optionals",
  "                        Do not add '| undefined' to optional properties",
  "  --readonly-arrays     Use ReadonlyArray<T> instead of T[]",
  "  --no-aliases          Use Entry<IThingFields> instead of IThing for entry",
  "                        links",
  "  --no-brand            Do not brand entries with their content type id",
  "  --no-format           Write the output without running Prettier"]

def help : String := usage ++ "\n" ++
  lines ["Generate TypeScript declarations from a Contentful content model."] ++ "\n" ++
  optionHelp ++ "\n" ++ renderingHelp

end Typings.CommandLine
