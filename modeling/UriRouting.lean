import UriRouting.Cache.Basic
import UriRouting.Cache.Loader
import UriRouting.Calendar.Date
import UriRouting.Calendar.Fields
import UriRouting.Calendar.Format
import UriRouting.Calendar.Reading
import UriRouting.Config
import UriRouting.Config.Json
import UriRouting.Http.Method
import UriRouting.Numeric.Binary64
import UriRouting.Numeric.Binary64.Reading
import UriRouting.Numeric.Binary64.Shortest
import UriRouting.Numeric.Integer
import UriRouting.Pattern.Basic
import UriRouting.Pattern.ByteRow
import UriRouting.Pattern.CharSet
import UriRouting.Pattern.Layout
import UriRouting.Pattern.Parser
import UriRouting.Pattern.Plan
import UriRouting.Pattern.Repertoire
import UriRouting.Pattern.Search
import UriRouting.Proofs.Cache.Runs
import UriRouting.Proofs.Http.Methods
import UriRouting.Proofs.Numeric.Digits
import UriRouting.Proofs.Numeric.Integers
import UriRouting.Proofs.Numeric.Printing
import UriRouting.Proofs.Numeric.Reading
import UriRouting.Proofs.Numeric.Rounding
import UriRouting.Proofs.Numeric.Shortest
import UriRouting.Proofs.Pattern.Matches
import UriRouting.Proofs.Pattern.Room
import UriRouting.Proofs.Route.Sources
import UriRouting.Proofs.Route.Suffixes
import UriRouting.Proofs.Route.Trees
import UriRouting.Proofs.Router.Alone
import UriRouting.Proofs.Router.Alternatives
import UriRouting.Proofs.Router.Attached
import UriRouting.Proofs.Router.Attachments
import UriRouting.Proofs.Router.Budget
import UriRouting.Proofs.Router.Candidates
import UriRouting.Proofs.Router.Contents
import UriRouting.Proofs.Router.Encoding
import UriRouting.Proofs.Router.Groups
import UriRouting.Proofs.Router.Later
import UriRouting.Proofs.Router.ListRules
import UriRouting.Proofs.Router.LiteralHosts
import UriRouting.Proofs.Router.LiteralPaths
import UriRouting.Proofs.Router.Names
import UriRouting.Proofs.Router.NumberLists
import UriRouting.Proofs.Router.Order
import UriRouting.Proofs.Router.Outcome
import UriRouting.Proofs.Router.Prefixes
import UriRouting.Proofs.Router.Registration
import UriRouting.Proofs.Router.Registry
import UriRouting.Proofs.Router.Rendering
import UriRouting.Proofs.Router.Requests
import UriRouting.Proofs.Router.RoundTrip
import UriRouting.Proofs.Router.Shape
import UriRouting.Proofs.Router.Sharing
import UriRouting.Proofs.Router.SingleRows
import UriRouting.Proofs.Router.Steps
import UriRouting.Proofs.Router.Survey
import UriRouting.Proofs.Router.TextLists
import UriRouting.Proofs.Router.UriPieces
import UriRouting.Proofs.Router.Uris
import UriRouting.Proofs.Router.Visits
import UriRouting.Proofs.Rule.Between
import UriRouting.Proofs.Rule.Sharing
import UriRouting.Proofs.StringTable
import UriRouting.Proofs.Template.Acceptance
import UriRouting.Proofs.Template.Grammar
import UriRouting.Proofs.Template.Hosts
import UriRouting.Proofs.Template.Literals
import UriRouting.Proofs.Template.Lossless
import UriRouting.Proofs.Template.Numbers
import UriRouting.Proofs.Template.Numerals
import UriRouting.Proofs.Template.Optionals
import UriRouting.Proofs.Template.Outline
import UriRouting.Proofs.Template.Readings
import UriRouting.Proofs.Template.Runs
import UriRouting.Proofs.Template.Seams
import UriRouting.Proofs.Template.Slots
import UriRouting.Proofs.Template.Stretches
import UriRouting.Proofs.Template.Texts
import UriRouting.Proofs.Template.Tokens
import UriRouting.Proofs.Template.WholeNumerals
import UriRouting.Proofs.Template.Zones
import UriRouting.Proofs.Text.Bytes
import UriRouting.Proofs.Text.LetterCase
import UriRouting.Proofs.Text.Pieces
import UriRouting.Proofs.TextIndex
import UriRouting.Proofs.TextIndex.Accesses
import UriRouting.Proofs.Trie.Arrivals
import UriRouting.Proofs.Trie.Choices
import UriRouting.Proofs.Trie.Counting
import UriRouting.Proofs.Trie.Cuts
import UriRouting.Proofs.Trie.Events
import UriRouting.Proofs.Trie.Expansion
import UriRouting.Proofs.Trie.Expressions
import UriRouting.Proofs.Trie.Fits
import UriRouting.Proofs.Trie.Forms
import UriRouting.Proofs.Trie.History
import UriRouting.Proofs.Trie.Joined
import UriRouting.Proofs.Trie.Keys
import UriRouting.Proofs.Trie.Lookup
import UriRouting.Proofs.Trie.Names
import UriRouting.Proofs.Trie.Neighbours
import UriRouting.Proofs.Trie.Nodes
import UriRouting.Proofs.Trie.PlainRows
import UriRouting.Proofs.Trie.Reach
import UriRouting.Proofs.Trie.Resolved
import UriRouting.Proofs.Trie.Rows
import UriRouting.Proofs.Trie.Sharing
import UriRouting.Proofs.Trie.Ways
import UriRouting.Route.Basic
import UriRouting.Route.Collection
import UriRouting.Route.Tree
import UriRouting.Route.UriTemplate
import UriRouting.Router.Basic
import UriRouting.Router.Search
import UriRouting.Router.TypedValue
import UriRouting.Router.Uri
import UriRouting.Rule.Basic
import UriRouting.Rule.Factory
import UriRouting.Rule.Param
import UriRouting.StringTable
import UriRouting.Template.Lexer
import UriRouting.Template.Outline
import UriRouting.Template.Parser
import UriRouting.Template.Part
import UriRouting.Template.Token
import UriRouting.Template.TokenStream
import UriRouting.Text.Category
import UriRouting.Text.Category.Alphabetic
import UriRouting.Text.Category.Letter
import UriRouting.Text.Category.Mark
import UriRouting.Text.Category.Number
import UriRouting.Text.Category.Other
import UriRouting.Text.Category.Punctuation
import UriRouting.Text.Category.Symbol
import UriRouting.Text.LetterCase
import UriRouting.Text.LetterCase.Table
import UriRouting.Text.Quoted
import UriRouting.Text.Split
import UriRouting.TextIndex
import UriRouting.Trie.Basic
import UriRouting.Trie.Compile
import UriRouting.Trie.Key
import UriRouting.Trie.Walk
