import SerialisePP.Addressing
import SerialisePP.Allocation
import SerialisePP.Benchmark
import SerialisePP.Boundaries
import SerialisePP.BufferEffects
import SerialisePP.Compatibility
import SerialisePP.Consumption
import SerialisePP.Format
import SerialisePP.Growth
import SerialisePP.History
import SerialisePP.Inheritance
import SerialisePP.Limits
import SerialisePP.MemorySafety
import SerialisePP.ObjectStore
import SerialisePP.Portability
import SerialisePP.Safety
import SerialisePP.ScalarPaths
import SerialisePP.Sharing
import SerialisePP.SourceRanges
import SerialisePP.Truncation
