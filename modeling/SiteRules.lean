import SiteRules.Calendar
import SiteRules.Command.Arguments
import SiteRules.Command.Run
import SiteRules.Config
import SiteRules.Config.File
import SiteRules.Config.Placeholder
import SiteRules.Document
import SiteRules.Document.Content
import SiteRules.Document.File
import SiteRules.Environment
import SiteRules.FileTree
import SiteRules.Json.Error
import SiteRules.Json.Reader
import SiteRules.Json.Writer
import SiteRules.Log
import SiteRules.Main
import SiteRules.Number.Binary64
import SiteRules.Number.Literal
import SiteRules.Number.Shortest
import SiteRules.OrderedMap
import SiteRules.Path
import SiteRules.Pattern.Basic
import SiteRules.Pattern.Coverage
import SiteRules.Pattern.Match
import SiteRules.Pattern.OfValue
import SiteRules.Pattern.Parser
import SiteRules.Pattern.Specificity
import SiteRules.Proofs.Command.Frame
import SiteRules.Proofs.Command.Word
import SiteRules.Proofs.Config.Loading
import SiteRules.Proofs.Config.Placeholder
import SiteRules.Proofs.Document
import SiteRules.Proofs.Document.Decoding
import SiteRules.Proofs.Document.File
import SiteRules.Proofs.Document.Loading
import SiteRules.Proofs.Document.RoundTrip
import SiteRules.Proofs.Document.Saving
import SiteRules.Proofs.Document.Schema
import SiteRules.Proofs.Except
import SiteRules.Proofs.FileTree
import SiteRules.Proofs.Json.Form
import SiteRules.Proofs.Json.Number
import SiteRules.Proofs.Json.RoundTrip
import SiteRules.Proofs.Json.Text
import SiteRules.Proofs.Number.Binary64
import SiteRules.Proofs.Number.Decimal
import SiteRules.Proofs.Number.Literal
import SiteRules.Proofs.Number.Shortest
import SiteRules.Proofs.Number.Spelling
import SiteRules.Proofs.OrderedMap
import SiteRules.Proofs.Path
import SiteRules.Proofs.Pattern.Breadth
import SiteRules.Proofs.Pattern.Coverage
import SiteRules.Proofs.Pattern.Domain
import SiteRules.Proofs.Pattern.Grammar
import SiteRules.Proofs.Pattern.Parser
import SiteRules.Proofs.Pattern.Specificity
import SiteRules.Proofs.Sorted
import SiteRules.Proofs.Store.Agreement
import SiteRules.Proofs.Store.Alike
import SiteRules.Proofs.Store.Commutation
import SiteRules.Proofs.Store.Equality
import SiteRules.Proofs.Store.History
import SiteRules.Proofs.Store.Inheritance
import SiteRules.Proofs.Store.Listing
import SiteRules.Proofs.Store.Numbering
import SiteRules.Proofs.Store.Ranking
import SiteRules.Proofs.Store.Reload
import SiteRules.Proofs.Store.Resolution
import SiteRules.Proofs.Store.Write
import SiteRules.Proofs.Text.Base64
import SiteRules.Proofs.Text.CodePoint
import SiteRules.Proofs.Text.Lower
import SiteRules.Proofs.Text.Utf8
import SiteRules.Proofs.Url.Address
import SiteRules.Proofs.Url.Case
import SiteRules.Proofs.Url.Cut
import SiteRules.Proofs.Url.Origin
import SiteRules.Proofs.Url.OwnPattern
import SiteRules.Proofs.Url.Parser
import SiteRules.Proofs.Url.Site
import SiteRules.Proofs.Url.Spelling
import SiteRules.Proofs.Value.Acyclic
import SiteRules.Proofs.Value.Equality
import SiteRules.Proofs.Value.Rebuild
import SiteRules.Proofs.Value.Spellable
import SiteRules.Proofs.Value.Unfolding
import SiteRules.Proofs.Value.Unmarked
import SiteRules.Proofs.Yaml.Block
import SiteRules.Proofs.Yaml.BlockScalar
import SiteRules.Proofs.Yaml.Check
import SiteRules.Proofs.Yaml.Column
import SiteRules.Proofs.Yaml.Composed
import SiteRules.Proofs.Yaml.Composer
import SiteRules.Proofs.Yaml.DoubleQuoted
import SiteRules.Proofs.Yaml.Fetch
import SiteRules.Proofs.Yaml.Image
import SiteRules.Proofs.Yaml.Integer
import SiteRules.Proofs.Yaml.Lexer
import SiteRules.Proofs.Yaml.Names
import SiteRules.Proofs.Yaml.Node
import SiteRules.Proofs.Yaml.Nodes
import SiteRules.Proofs.Yaml.Plain
import SiteRules.Proofs.Yaml.PlainScalar
import SiteRules.Proofs.Yaml.Property
import SiteRules.Proofs.Yaml.Quoted
import SiteRules.Proofs.Yaml.Reading
import SiteRules.Proofs.Yaml.Reread
import SiteRules.Proofs.Yaml.RoundTrip
import SiteRules.Proofs.Yaml.Runs
import SiteRules.Proofs.Yaml.Scalar
import SiteRules.Proofs.Yaml.ScalarLine
import SiteRules.Proofs.Yaml.Scanner
import SiteRules.Proofs.Yaml.SingleQuoted
import SiteRules.Proofs.Yaml.Spelling
import SiteRules.Proofs.Yaml.Spells
import SiteRules.Proofs.Yaml.Time
import SiteRules.Proofs.Yaml.Unfolding
import SiteRules.Proofs.Yaml.Writer
import SiteRules.Protocol
import SiteRules.Schema.Issue
import SiteRules.Schema.Scalar
import SiteRules.Stack.Basic
import SiteRules.Stack.Usual
import SiteRules.Store.Basic
import SiteRules.Store.Equality
import SiteRules.Store.Order
import SiteRules.Store.Resolve
import SiteRules.Store.Show
import SiteRules.Text.Base64
import SiteRules.Text.Blank
import SiteRules.Text.CodePoint
import SiteRules.Text.Control
import SiteRules.Text.Digit
import SiteRules.Text.Lower
import SiteRules.Text.Lower.Table
import SiteRules.Text.Newline
import SiteRules.Text.Printable
import SiteRules.Text.Quoted
import SiteRules.Text.Separator
import SiteRules.Text.Utf8
import SiteRules.Text.Word
import SiteRules.Url.Address
import SiteRules.Url.Basic
import SiteRules.Url.Parser
import SiteRules.Value.Basic
import SiteRules.Value.Entries
import SiteRules.Value.Equality
import SiteRules.Value.Rebuild
import SiteRules.Value.Show
import SiteRules.Yaml.Character
import SiteRules.Yaml.Cursor
import SiteRules.Yaml.Draft
import SiteRules.Yaml.Fault
import SiteRules.Yaml.Graph
import SiteRules.Yaml.Graph.Check
import SiteRules.Yaml.Graph.Merge
import SiteRules.Yaml.Graph.OfTokens
import SiteRules.Yaml.Graph.ToValue
import SiteRules.Yaml.Reader
import SiteRules.Yaml.Scalar
import SiteRules.Yaml.Sheet
import SiteRules.Yaml.Style
import SiteRules.Yaml.Tag
import SiteRules.Yaml.Time
import SiteRules.Yaml.Token
import SiteRules.Yaml.Token.Directive
import SiteRules.Yaml.Token.Lexer
import SiteRules.Yaml.Token.Scalar
import SiteRules.Yaml.Writer
