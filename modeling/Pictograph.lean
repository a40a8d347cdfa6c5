import Pictograph.Compilation.Compiler
import Pictograph.Compilation.Unit
import Pictograph.Catalogue.Standard
import Pictograph.Proofs.Analysis.Balance
import Pictograph.Proofs.Analysis.Collections
import Pictograph.Proofs.Catalogue.CompatibilityOrder
import Pictograph.Proofs.Catalogue.Conservation
import Pictograph.Proofs.Catalogue.DispatchTables
import Pictograph.Proofs.Catalogue.ElementOrder
import Pictograph.Proofs.Catalogue.ReadBack
import Pictograph.Proofs.Catalogue.RegistrationOrder
import Pictograph.Proofs.Compilation.AccessControl
import Pictograph.Proofs.Compilation.Assignments
import Pictograph.Proofs.Compilation.BranchMerging
import Pictograph.Proofs.Compilation.ClassMethods
import Pictograph.Proofs.Compilation.Closures
import Pictograph.Proofs.Compilation.CompleteBuilds
import Pictograph.Proofs.Compilation.ConstrainedReceivers
import Pictograph.Proofs.Compilation.DeadCode
import Pictograph.Proofs.Compilation.FieldValues
import Pictograph.Proofs.Compilation.FrameSlots
import Pictograph.Proofs.Compilation.FrozenSlots
import Pictograph.Proofs.Compilation.GenericParameters
import Pictograph.Proofs.Compilation.Isolation
import Pictograph.Proofs.Compilation.Iteration
import Pictograph.Proofs.Compilation.LoadedIntegers
import Pictograph.Proofs.Compilation.LocalVariables
import Pictograph.Proofs.Compilation.Locations
import Pictograph.Proofs.Compilation.PrefixOrder
import Pictograph.Proofs.Compilation.SlotLimit
import Pictograph.Proofs.Compilation.SourceLayout
import Pictograph.Proofs.Compilation.StringTables
import Pictograph.Proofs.Compilation.SuperInitializers
import Pictograph.Proofs.Compilation.Switches
import Pictograph.Proofs.Compilation.UnitHistory
import Pictograph.Proofs.Compilation.VariableNames
import Pictograph.Proofs.Compilation.WordCounts
import Pictograph.Proofs.Identity.Distinct
import Pictograph.Proofs.Scope.ConditionalBlocks
import Pictograph.Proofs.Analysis.Candidates
import Pictograph.Proofs.Analysis.ClosureCandidates
import Pictograph.Proofs.Analysis.Introductions
import Pictograph.Proofs.Compilation.WrittenCopies
import Pictograph.Proofs.Compilation.Recommendations
import Pictograph.Proofs.Catalogue.InheritedInitializers
import Pictograph.Proofs.Catalogue.AnnotationNodes
import Pictograph.Proofs.Catalogue.StandardTypes
import Pictograph.Proofs.Compilation.FieldLayout
import Pictograph.Proofs.Code.Handles
import Pictograph.Proofs.Compilation.Casts
import Pictograph.Proofs.Code.WrittenWords
import Pictograph.Proofs.Code.Interning
import Pictograph.Proofs.Compilation.PrefixFree
import Pictograph.Proofs.Compilation.LineTables
import Pictograph.Proofs.Compilation.BlockDepth
import Pictograph.Proofs.Ty.Substitution
import Pictograph.Proofs.Code.Listings
import Pictograph.Proofs.Scope.Visibility
