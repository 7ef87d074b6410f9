import Backtracie.Foundations.Traced
import Backtracie.Foundations.Memory
import Backtracie.Strbuilder
import Backtracie.StrbuilderFixed
import Backtracie.Foundations.Doubling
import Backtracie.StrbuilderGrowable
import Backtracie.RetryLoops
import Backtracie.Frames
import Backtracie.Naming
import Backtracie.Queries
import Backtracie.Truncation
import Backtracie.Writes
import Backtracie.Foundations.FirstAlong
import Backtracie.ClassGraph
import Backtracie.MinimalRecord
import Backtracie.Lawful
import Backtracie.Metaclasses
import Backtracie.ClassNames
import Backtracie.Concatenation
import Backtracie.ReferenceName
import Backtracie.Stringify
import Backtracie.Foundations.Nearest
import Backtracie.Collect
import Backtracie.Backtrace
import Backtracie.Profile
import Backtracie.CallerLocations
import Backtracie.SkippedFrames
import Backtracie.LineNumbers
import Backtracie.MinimalFilename
import Backtracie.RubyStrings
import Backtracie.WrapperInvariant
import Backtracie.Relocation
import Backtracie.RelocatedQueries
import Backtracie.Compaction
import Backtracie.Foundations.Reachability
import Backtracie.Survival
import Backtracie.Retention
import Backtracie.MethodEntries
import Backtracie.Foundations.Filling
import Backtracie.UsageLoops
import Backtracie.Foundations.Heap
import Backtracie.HeapBuilder
import Backtracie.HeapQueries
import Backtracie.CollectDuringGc
import Backtracie.Rendering
import Backtracie.Foundations.Delimited
import Backtracie.QualifiedNames
import Backtracie.FormattedAppends
import Backtracie.GrowthBounds
