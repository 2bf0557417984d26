import Stencil.Engine
import Stencil.Loader.Directory
import Stencil.Registration
import Stencil.Proofs.Precedence
import Stencil.Proofs.Scanning
import Stencil.Proofs.OpenLiterals
import Stencil.Proofs.Words
import Stencil.Proofs.ReadTokens
import Stencil.Proofs.RoundTrip
import Stencil.Proofs.TemplateTree
import Stencil.Proofs.TreeOutline
import Stencil.Proofs.TreeRendering
import Stencil.Proofs.OutlineParts
import Stencil.Proofs.RecursionLimit
import Stencil.Proofs.Pieces
import Stencil.Proofs.Concatenation
import Stencil.Proofs.ValueOrigin
import Stencil.Proofs.ValueInsertion
import Stencil.Proofs.LexemePlaces
import Stencil.Proofs.ErrorPositions
import Stencil.Proofs.UnmentionedNames
import Stencil.Proofs.MarkPlaces
import Stencil.Proofs.ErrorLocations
import Stencil.Proofs.FirstDefinitions
import Stencil.Proofs.NestedBlocks
import Stencil.Proofs.Separation
import Stencil.Proofs.SymbolicOperators
import Stencil.Proofs.Bracketing
import Stencil.Proofs.SectionDispatch
import Stencil.Proofs.NumberComparison
import Stencil.Proofs.IntegerConversion
import Stencil.Proofs.IntegerArithmetic
import Stencil.Proofs.WholeWords
import Stencil.Proofs.NewLiterals
import Stencil.Proofs.ValueOrder
import Stencil.Proofs.ValueEquality
import Stencil.Proofs.ContainerEquality
import Stencil.Proofs.Repetition
import Stencil.Proofs.FloatingPointValues
import Stencil.Proofs.Rounding
import Stencil.Proofs.ShortestDigits
import Stencil.Proofs.NumberTexts
import Stencil.Proofs.FloatTexts
import Stencil.Proofs.FractionalParts
import Stencil.Proofs.NumberLiterals
import Stencil.Proofs.NumberScanning
import Stencil.Proofs.QuotedTexts
import Stencil.Proofs.WrittenLists
import Stencil.Proofs.EndlessIncludes
import Stencil.Proofs.MapTexts
import Stencil.Proofs.WholeRegistration
import Stencil.Proofs.Containment
import Stencil.Proofs.IdentifierPaths
import Stencil.Proofs.MarkScan
import Stencil.Proofs.OperandBalance
import Stencil.Proofs.PieceSlots
import Stencil.Proofs.UnboundedReading
import Stencil.Proofs.ScanPoints
