import Quadruple.Files.World
import Quadruple.Main
import Quadruple.Proofs.ArenaGrid
import Quadruple.Proofs.AtomicDeclarations
import Quadruple.Proofs.CachedBuilds
import Quadruple.Proofs.Compilation
import Quadruple.Proofs.CompiledOptimization
import Quadruple.Proofs.ElementAddressing
import Quadruple.Proofs.FoldedReaders
import Quadruple.Proofs.FreshCells
import Quadruple.Proofs.GraphInvariants
import Quadruple.Proofs.JumpCompletion
import Quadruple.Proofs.LeadingNumbers
import Quadruple.Proofs.LexicalScopes
import Quadruple.Proofs.Profiling
import Quadruple.Proofs.Reoptimization
import Quadruple.Proofs.StepLimits
import Quadruple.Proofs.StorageLedger
import Quadruple.Proofs.TargetValidity
import Quadruple.Proofs.TypeSoundness
import Quadruple.Proofs.WaitingJumps
import Quadruple.Proofs.WordDivision
import Quadruple.Server.Endpoint
import Quadruple.Server.Worker
