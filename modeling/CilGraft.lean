import CilGraft.Build.CommandLine
import CilGraft.Cil.Compact
import CilGraft.Cil.Decoding
import CilGraft.Game.Session
import CilGraft.Method.Image
import CilGraft.Proofs.Offsets
import CilGraft.Proofs.CodeRoundTrip
import CilGraft.Proofs.Clauses
import CilGraft.Proofs.BodyRoundTrip
import CilGraft.Proofs.Operation
import CilGraft.Proofs.Weaving
import CilGraft.Proofs.ControlFlow
import CilGraft.Proofs.References
import CilGraft.Proofs.Rerun
import CilGraft.Proofs.AcceptedCode
import CilGraft.Proofs.Writable
import CilGraft.Proofs.ParsedBodies
import CilGraft.Proofs.Shrinking
import CilGraft.Proofs.InjectedBodies
import CilGraft.Proofs.Histories
import CilGraft.Proofs.Footprint
import CilGraft.Proofs.Places
import CilGraft.Proofs.Turns
import CilGraft.Proofs.Discovery
import CilGraft.Proofs.KeptPatches
import CilGraft.Proofs.FileFrames
import CilGraft.Proofs.SavedBinaries
import CilGraft.Proofs.TargetNames
import CilGraft.Proofs.ReachedFiles
import CilGraft.Proofs.StoredChecksums
import CilGraft.Proofs.CompletedBackups
import CilGraft.Proofs.BrokenReferences
import CilGraft.Proofs.Accesses
import CilGraft.Proofs.ReusedArtifacts
import CilGraft.Proofs.PristinePrimary
import CilGraft.Proofs.HeaderGrammar
import CilGraft.Proofs.GuardedWrites
import CilGraft.Proofs.AccountedSources
import CilGraft.Proofs.SameEntries
import CilGraft.Proofs.FilledPlaces
import CilGraft.Proofs.Interleavings
import CilGraft.Proofs.CompileOrder
import CilGraft.Proofs.ShorteningOrder
import CilGraft.Proofs.CompactLists
import CilGraft.Proofs.KeptFiles
import CilGraft.Proofs.CurrentArtifacts
import CilGraft.Proofs.RepeatedRuns
import CilGraft.Proofs.StartingForms
import CilGraft.Proofs.Insertions
import CilGraft.Proofs.TruncatedBodies
import CilGraft.Proofs.ImportedReferences
import CilGraft.Proofs.FailedImports
import CilGraft.Proofs.EncodingFaults
import CilGraft.Proofs.TailCalls
import CilGraft.Proofs.FailedCompilations
import CilGraft.Proofs.ChecksumTexts
import CilGraft.Proofs.PreparedSources
import CilGraft.Proofs.AttributePlaces
import CilGraft.Proofs.ClaimedArtifacts
import CilGraft.Proofs.OffsetLookup
import CilGraft.Proofs.BufferCursors
import CilGraft.Proofs.SectionBounds
import CilGraft.Proofs.LibraryReferences
import CilGraft.Proofs.PathWalks
