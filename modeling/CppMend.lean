import CppMend.Document.Indexed
import CppMend.Fix.Catalogue
import CppMend.Main
import CppMend.Proofs.Document.Edits
import CppMend.Proofs.Document.Sync
import CppMend.Proofs.Expression.Grouping
import CppMend.Proofs.Expression.RoundTrip
import CppMend.Proofs.Expression.Written
import CppMend.Proofs.Grammar.Braces
import CppMend.Proofs.Grammar.Budget
import CppMend.Proofs.Grammar.Extent
import CppMend.Proofs.Grammar.Laws
import CppMend.Proofs.Grammar.Progress
import CppMend.Proofs.Grammar.Steady
import CppMend.Proofs.Lexical.Families
import CppMend.Proofs.Lexical.Munch
import CppMend.Proofs.Lexical.Nesting
import CppMend.Proofs.Lexical.Tiling
import CppMend.Proofs.Parsed.Layout
import CppMend.Proofs.Parsed.Lossless
import CppMend.Proofs.Session.Calls
import CppMend.Proofs.Session.Coherence
import CppMend.Proofs.Session.Eager
import CppMend.Proofs.Session.Offers
import CppMend.Proofs.Session.Proposals
import CppMend.Proofs.Session.Resolution
import CppMend.Proofs.Symbol.Provider
import CppMend.Proofs.Text.Boundaries
import CppMend.Proofs.Text.Positions
import CppMend.Proofs.Tree.Builder
import CppMend.Proofs.Tree.Construction
import CppMend.Proofs.Tree.Descent
import CppMend.Proofs.Tree.Edges
import CppMend.Proofs.Tree.Fences
import CppMend.Proofs.Tree.Leaves
import CppMend.Proofs.Tree.Nesting
import CppMend.Proofs.Tree.Nodes
import CppMend.Proofs.Tree.Paths
import CppMend.Proofs.Tree.Shapes
import CppMend.Proofs.Tree.Spans
import CppMend.Proofs.Uri.Files
import CppMend.Proofs.Uri.Hosts
import CppMend.Proofs.Uri.Read
import CppMend.Session.Messages
import CppMend.Symbol.Provider
import CppMend.Value.Read
import CppMend.Value.Write
import CppMend.Proofs.Fix.Dispatch
import CppMend.Proofs.Settings.Merging
import CppMend.Proofs.Session.Records
import CppMend.Proofs.Session.Ownership
import CppMend.Proofs.Session.Rescan
import CppMend.Proofs.Edit.Arrangement
import CppMend.Proofs.Document.Places
import CppMend.Proofs.Document.Agreement
import CppMend.Proofs.Parsed.Precedence
import CppMend.Proofs.Document.Locations
import CppMend.Proofs.Parsed.Names
import CppMend.Proofs.Parsed.Declarations
import CppMend.Proofs.Parsed.Views
import CppMend.Proofs.Parsed.Functions
import CppMend.Proofs.Symbol.Containers
import CppMend.Proofs.Symbol.Namespaces
import CppMend.Proofs.Text.ByteOrder
import CppMend.Proofs.Symbol.Search
import CppMend.Proofs.Files.Plain
import CppMend.Proofs.Files.Walks
import CppMend.Proofs.Workspace.Discovery
import CppMend.Proofs.Symbol.Listing
import CppMend.Proofs.Grammar.Forms
import CppMend.Proofs.Grammar.Tags
import CppMend.Proofs.Parsed.Tags
import CppMend.Proofs.Symbol.Unnamed
import CppMend.Proofs.Grammar.Parts
import CppMend.Proofs.Grammar.Declarators
import CppMend.Proofs.Grammar.Declaring
import CppMend.Proofs.Parsed.Declarators
import CppMend.Proofs.Symbol.Declarators
import CppMend.Proofs.Lexical.Terminators
import CppMend.Proofs.Parsed.Lookup
import CppMend.Proofs.Parsed.Directives
import CppMend.Proofs.Tree.Progress
import CppMend.Proofs.Tree.Taking
