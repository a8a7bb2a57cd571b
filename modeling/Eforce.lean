import Eforce.ByteMemory
import Eforce.PartitionPoint
import Eforce.Overlay
import Eforce.TextStream
import Eforce.Isa
import Eforce.X64
import Eforce.A64
import Eforce.Thumb2
import Eforce.Outcome
import Eforce.IOpcodeGenerator
import Eforce.OpcodeGeneratorX64
import Eforce.OpcodeGeneratorAarch64
import Eforce.OpcodeGeneratorThumb
import Eforce.Arch
import Eforce.ThrowCodeX64
import Eforce.ThrowCodeAarch64
import Eforce.ThrowCodeThumb
import Eforce.ProgOffsetResolver
import Eforce.Elf
import Eforce.World
import Eforce.ProcMaps
import Eforce.ForcedException
import Eforce.ExceptionForcer
import Eforce.Process
import Eforce.Ledger
import Eforce.Agreement
import Eforce.Restoration
import Eforce.Forcing
import Eforce.Commutation
import Eforce.Protection
import Eforce.PatchBounds
import Eforce.Listing
import Eforce.LoadAddress
import Eforce.SymbolSearch
import Eforce.Failure
import Eforce.WriteArea
import Eforce.Ownership
import Eforce.OffsetConversion
import Eforce.SectionLayout
import Eforce.Lifetime
import Eforce.OnePerFunction
import Eforce.CodeRun
import Eforce.Diversion
import Eforce.LastInFirstOut
import Eforce.Transition
import Eforce.Execution
import Eforce.Registry
import Eforce.ThrowSite
