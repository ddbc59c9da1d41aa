import Toolwhip.Ld64.SymbolTableOrder
import Toolwhip.Ld64.SortAtomsOrder
import Toolwhip.Ld64.WriteAtomsModes
import Toolwhip.Ld64.DylibOrdinalsRight
import Toolwhip.Ld64.LinkerBound
import Toolwhip.Ld64.LinkerTotals
import Toolwhip.Ld64.Wildcards
import Toolwhip.Ld64.ArchiveReader
import Toolwhip.Ld64.FileOffsetsApart
import Toolwhip.Ld64.RelocsX86RoundTrip
import Toolwhip.Ld64.RelocsX8664Difference
import Toolwhip.Distcc.Strip
import Toolwhip.Distcc.FixDebugInfoConfined
import Toolwhip.Distcc.Access
import Toolwhip.Distcc.BuildLocks
import Toolwhip.Distcc.HostsParse
import Toolwhip.Distcc.IncludeMemo
import Toolwhip.Distcc.IncludeTermination
import Toolwhip.As.ScrubRuns
import Toolwhip.Distcc.JobResponse
import Toolwhip.Distcc.BuildStatCacheRuns
import Toolwhip.Ld64.SymbolTableWarnings
import Toolwhip.Ld64.FinalX86
import Toolwhip.Ld64.FindAtom
import Toolwhip.Ld64.LinkerDemandClosed
import Toolwhip.Ld64.SymbolIndexSort
import Toolwhip.Ld.CStringPasses
import Toolwhip.Lipo.Operations
import Toolwhip.Ld64.ObjectFixups
import Toolwhip.Ld64.ObjectRelocsWords
import Toolwhip.Ld64.FinalArm
import Toolwhip.Ld64.SplitInfo
import Toolwhip.Ld64.SectionsLaid
import Toolwhip.Ld64.StubsWeakImports
import Toolwhip.Ld64.StubsPlaced
import Toolwhip.Ld64.BranchIslandsRight
import Toolwhip.Ld64.MetaSymbols
import Toolwhip.Ld64.SegAddrTable
import Toolwhip.Ld64.AliasFile
import Toolwhip.Ld64.OrderFileLines
import Toolwhip.Ld64.DwarfSkips
import Toolwhip.Ld64.DwarfUnitEnd
import Toolwhip.Ld64.CollectStabsPaired
import Toolwhip.Ld64.SectDiff
import Toolwhip.Ld64.ClientRestrictions
import Toolwhip.Ld64.SectionTable
import Toolwhip.Distcc.Bulk
import Toolwhip.Distcc.PreprocessorOptions
import Toolwhip.Distcc.TweakInclude
import Toolwhip.Distcc.ReplaceString
import Toolwhip.Distcc.DotdName
import Toolwhip.Distcc.CleanupDotd
import Toolwhip.Distcc.MacroMonotone
import Toolwhip.Distcc.Headermap
import Toolwhip.Distcc.MacroArgs
import Toolwhip.Distcc.ReplaceSubstring
import Toolwhip.Distcc.SlotLocks
import Toolwhip.Distcc.StatTriggers
import Toolwhip.Distcc.StringMap
import Toolwhip.Distcc.SystemDirs
import Toolwhip.As.RelaxTermination
import Toolwhip.Distcc.AbsPath
import Toolwhip.Distcc.FreshDependency
