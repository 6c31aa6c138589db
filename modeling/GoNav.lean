import GoNav.Completion
import GoNav.LineIndex
import GoNav.Loading
import GoNav.Navigation
import GoNav.Proofs.Grammar.Reading
import GoNav.Proofs.Grammar.Progress
import GoNav.Proofs.Grammar.Assembling
import GoNav.Proofs.Losslessness
import GoNav.Proofs.Node.Descent
import GoNav.Proofs.ScopeWalk
import GoNav.Proofs.Node.Order
import GoNav.Proofs.Grammar.Shape
import GoNav.Proofs.NormalPath
import GoNav.Proofs.Node.Near
import GoNav.Proofs.Placement
import GoNav.Proofs.Declared
import GoNav.Proofs.ImportEntries
import GoNav.Proofs.ImportNames
import GoNav.Proofs.VisibleNames
import GoNav.Proofs.Resolution
import GoNav.Proofs.Candidates
import GoNav.Proofs.Occurrence
import GoNav.Proofs.References
import GoNav.Proofs.Grammar.Does
import GoNav.Proofs.Grammar.Outlook
import GoNav.Proofs.Grammar.Survey
import GoNav.Proofs.Grammar.Depth
import GoNav.Proofs.Grammar.Children
import GoNav.Proofs.Brackets
import GoNav.Proofs.RequiredParts
import GoNav.Proofs.Precedence
import GoNav.Proofs.PathOrder
import GoNav.Proofs.Renaming
import GoNav.Proofs.Upkeep
import GoNav.Proofs.History
import GoNav.Proofs.Layout
import GoNav.Proofs.Token.Matching
import GoNav.Proofs.Token.Munch
import GoNav.Proofs.Grammar.Lookahead
import GoNav.Proofs.Termination
import GoNav.Proofs.MemberSearch
import GoNav.Proofs.Sessions
import GoNav.Proofs.SharedFileSet
import GoNav.Proofs.Edits
import GoNav.Proofs.Node.Twins
import GoNav.Proofs.TwinScopes
import GoNav.Proofs.NameTokens
import GoNav.Proofs.Respelling
import GoNav.Proofs.Acceptance
import GoNav.Proofs.Shadowing
import GoNav.Proofs.SelectorDepth
import GoNav.Proofs.Node.Ancestors
import GoNav.Proofs.Grammar.Holders
import GoNav.Proofs.LocalScope
import GoNav.Proofs.BlockScope
import GoNav.Proofs.ImportScope
import GoNav.Proofs.MemberClosure
import GoNav.Proofs.Grammar.Building
import GoNav.Proofs.LineBreaks
import GoNav.Proofs.HeaderLiterals
import GoNav.Proofs.Indirection
import GoNav.Proofs.Offsets
import GoNav.Proofs.Targets
import GoNav.Proofs.ErrorPlaces
import GoNav.Proofs.NodeEdges
import GoNav.Proofs.RelativePath
import GoNav.Proofs.LinePositions
import GoNav.Proofs.Grammar.Following
import GoNav.Proofs.GenericLists
import GoNav.Proofs.Location
import GoNav.Proofs.Interception
import GoNav.Proofs.DiskPaths
import GoNav.Proofs.SourceSelection
