import Typings.Main
import Typings.Data.Printer
import Typings.Proofs.Naming
import Typings.Proofs.Naming.TypeName
import Typings.Proofs.Naming.PropertyKey
import Typings.Proofs.Script.Machine
import Typings.Proofs.Script.Spelling
import Typings.Proofs.Decimal.Numeral
import Typings.Proofs.TypeExpr.Tokens
import Typings.Proofs.Script.Quotation
import Typings.Proofs.Script.TypeTree
import Typings.Proofs.TypeExpr.Tree
import Typings.Proofs.TypeExpr.Mapping
import Typings.Proofs.Declaration.Block
import Typings.Proofs.Declaration.Tokens
import Typings.Proofs.Declaration.Comments
import Typings.Proofs.Script.Declaration
import Typings.Proofs.Declaration.ReadBack
import Typings.Proofs.TypeExpr.References
import Typings.Proofs.Declaration.References
import Typings.Proofs.Declaration.Names
import Typings.Proofs.Script.Literal
import Typings.Proofs.Declaration.Brand
import Typings.Proofs.Declaration.Locality
import Typings.Proofs.Script.Expansion
import Typings.Proofs.TypeExpr.Expansion
import Typings.Proofs.Declaration.Expansion
import Typings.Proofs.ContentApi.Sheet
import Typings.Proofs.ContentApi.Coverage
import Typings.Proofs.WorkTree.Growth
import Typings.Proofs.WorkTree.Writing
import Typings.Proofs.Generation.Course
import Typings.Proofs.Generation.Frame
import Typings.Proofs.Generation.Report
import Typings.Proofs.Acceptance
import Typings.Proofs.Content.Field
import Typings.Proofs.Content.ContentType
import Typings.Proofs.CommandLine.Arguments
import Typings.Proofs.CommandLine.Status
import Typings.Proofs.EnvFile.Disclosure
import Typings.Proofs.CommandLine.Secrecy
import Typings.Proofs.ContentApi.Faults
import Typings.Proofs.Decimal.Value
import Typings.Proofs.TypeExpr.LiteralUnion
import Typings.Proofs.TypeExpr.Nesting
import Typings.Proofs.TypeExpr.Relevance
import Typings.Proofs.TypeExpr.ItemNames
import Typings.Proofs.Content.Constraints
import Typings.Proofs.TypeExpr.Alternatives
import Typings.Proofs.Text.Utf8
import Typings.Proofs.Text.Surrogates
import Typings.Proofs.Yaml.Scanning
import Typings.Proofs.Yaml.Parsing
import Typings.Proofs.Yaml.Construction
import Typings.Proofs.Settings.Loading
import Typings.Proofs.Settings.ProjectKeys
import Typings.Proofs.Settings.Precedence
import Typings.Proofs.Schema
import Typings.Proofs.Declaration.Options
