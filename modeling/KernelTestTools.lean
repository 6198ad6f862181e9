import KernelTestTools.TextFile
import KernelTestTools.Regex
import KernelTestTools.Coverage
import KernelTestTools.CoverageRecords
import KernelTestTools.RingMemory
import KernelTestTools.PerfReaders
import KernelTestTools.PerfReaderRuns
import KernelTestTools.Xml
import KernelTestTools.DatFiles
import KernelTestTools.SetReturn
import KernelTestTools.LastWrite
import KernelTestTools.KeyFrame
import KernelTestTools.SetActReturn
import KernelTestTools.TestScript
import KernelTestTools.TestRenaming
import KernelTestTools.TestBlocks
import KernelTestTools.StubTool
import KernelTestTools.EnvironmentRuns
import KernelTestTools.MissedTests
import KernelTestTools.StubRerun
import KernelTestTools.CoverageOrder
import KernelTestTools.SampleLayout
import KernelTestTools.StepRuns
import KernelTestTools.PerfFd
import KernelTestTools.ProcNotify
import KernelTestTools.ActSurvival
import KernelTestTools.NoteTemplates
import KernelTestTools.NotesSection
import KernelTestTools.NotesCarried
import KernelTestTools.HandledCases
import KernelTestTools.BlockFrame
import KernelTestTools.StubInsertion
import KernelTestTools.CoverageRepeat
import KernelTestTools.AppendedEntry
import KernelTestTools.ListingOrder
import KernelTestTools.GroupRead
import KernelTestTools.AuxReader
import KernelTestTools.FileTree
import KernelTestTools.StubPipeline
import KernelTestTools.ShellText
import KernelTestTools.SymbolLookup
import KernelTestTools.CgroupWrites
import KernelTestTools.RunAll
import KernelTestTools.EnvironmentChoice
import KernelTestTools.ActSimulation
import KernelTestTools.RunAllFamily
import KernelTestTools.KernelModuleRuns
import KernelTestTools.ModuleParameters
import KernelTestTools.SymbolPointers
import KernelTestTools.TestPasses
import KernelTestTools.CoreSight
import KernelTestTools.ThreadTrace
import KernelTestTools.Descriptors
import KernelTestTools.Handover
import KernelTestTools.ShadowStat
