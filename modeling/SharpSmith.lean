import SharpSmith.DataType
import SharpSmith.Directory
import SharpSmith.Fragment.Name
import SharpSmith.Main
import SharpSmith.Proofs.Spelling
import SharpSmith.Proofs.Spacing
import SharpSmith.Proofs.Delimiters
import SharpSmith.Proofs.Outcome
import SharpSmith.Proofs.Calls
import SharpSmith.Proofs.Atomicity
import SharpSmith.Proofs.StatementGrammar
import SharpSmith.Proofs.Dependencies
import SharpSmith.Proofs.Registration
import SharpSmith.Proofs.Naming
import SharpSmith.Proofs.NameTokens
import SharpSmith.Proofs.Validation
import SharpSmith.Proofs.Resolution
import SharpSmith.Proofs.TypeNames
import SharpSmith.Proofs.Imports
import SharpSmith.Proofs.Nesting
import SharpSmith.Proofs.Embedding
import SharpSmith.Proofs.Pieces
import SharpSmith.Proofs.Lines
import SharpSmith.Proofs.Printing
import SharpSmith.Proofs.Building
import SharpSmith.Proofs.Verification
import SharpSmith.Proofs.Members
import SharpSmith.Proofs.Lowering
import SharpSmith.Proofs.Availability
import SharpSmith.Proofs.Assemblies
import SharpSmith.Proofs.Indentation
import SharpSmith.Proofs.Respacing
import SharpSmith.Proofs.Rereading
import SharpSmith.Proofs.FixedPoint
import SharpSmith.Proofs.Reports
import SharpSmith.Proofs.TypeArguments
import SharpSmith.Proofs.Shifts
import SharpSmith.Proofs.Tiling
import SharpSmith.Proofs.Directives
import SharpSmith.Proofs.LastToken
import SharpSmith.Proofs.BodyLines
import SharpSmith.Proofs.Modifiers
import SharpSmith.Proofs.Bodies
import SharpSmith.Proofs.Partners
import SharpSmith.Proofs.Places
import SharpSmith.Proofs.TypeGrammar
import SharpSmith.Proofs.LastLine
import SharpSmith.Proofs.Terminated
import SharpSmith.Proofs.Positions
import SharpSmith.Proofs.PositionTables
import SharpSmith.Proofs.PositionScan
import SharpSmith.Proofs.InRange
import SharpSmith.Proofs.ClassRuns
import SharpSmith.Proofs.UnknownTypes
import SharpSmith.Proofs.ErrorPlaces
import SharpSmith.Proofs.DisplayedTypes
import SharpSmith.Proofs.EscapedNames
import SharpSmith.Proofs.Merging
import SharpSmith.Proofs.Depths
import SharpSmith.Proofs.DocComments
import SharpSmith.Proofs.LineGroups
import SharpSmith.Proofs.FileLines
import SharpSmith.Proofs.AppliedNames
import SharpSmith.Proofs.ArgumentLists
import SharpSmith.Proofs.PropertyRuns
