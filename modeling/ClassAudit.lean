import ClassAudit.Main
import ClassAudit.Proofs.DefectSoundness
import ClassAudit.Proofs.ImpossibleCasts
import ClassAudit.Proofs.ArrayCasts
import ClassAudit.Proofs.Flyweight
import ClassAudit.Proofs.CastVerdicts
import ClassAudit.Proofs.Composition
import ClassAudit.Proofs.LayoutDecoding
import ClassAudit.Proofs.ResolvedOnce
import ClassAudit.Proofs.RuleSelection
import ClassAudit.Proofs.SearchTermination
import ClassAudit.Proofs.TypedExecution
import ClassAudit.Proofs.FrameLaw
import ClassAudit.Proofs.ConstantErasure
import ClassAudit.Proofs.SlotMachine
import ClassAudit.Proofs.IntegerFolding
import ClassAudit.Proofs.ConsistentValues
import ClassAudit.Proofs.DecodeFaults
import ClassAudit.Proofs.InstructionTiling
import ClassAudit.Proofs.SignatureGrammar
import ClassAudit.Proofs.BlockLocality
import ClassAudit.Proofs.ArraySubtyping
import ClassAudit.Proofs.BreadthFirst
import ClassAudit.Proofs.MissingClasses
import ClassAudit.Proofs.HierarchyAccess
import ClassAudit.Proofs.OperandShapes
import ClassAudit.Proofs.DescriptorResult
import ClassAudit.Proofs.FailedResolution
import ClassAudit.Proofs.Joins
import ClassAudit.Proofs.SwitchTables
import ClassAudit.Proofs.TraceWriting
import ClassAudit.Proofs.TreeFiles
import ClassAudit.Proofs.ArtifactPositions
import ClassAudit.Proofs.PathNames
import ClassAudit.Proofs.ArchiveOrder
import ClassAudit.Proofs.ListingOrder
