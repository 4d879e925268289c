import MachO.Layout
import MachO.Main
import MachO.CommandLine.Directory
import MachO.Session
import MachO.Proofs.FileGrammar
import MachO.Proofs.FileRoundTrip
import MachO.Proofs.ExtractionOverlay
import MachO.Proofs.Flaws
import MachO.Proofs.FilePrefixes
import MachO.Proofs.OutputCalls
import MachO.Proofs.FaultyExtraction
import MachO.Proofs.RunComparison
import MachO.Proofs.SessionComparison
import MachO.Proofs.SessionHistory
import MachO.Proofs.ImageRuns
import MachO.Proofs.MergedCalls
import MachO.Proofs.ShortCalls
import MachO.Proofs.ReportedLength
import MachO.Proofs.CommandRun
import MachO.Proofs.SourceFaults
import MachO.Proofs.ColumnReading
import MachO.Proofs.ListingReading
import MachO.Proofs.OutputKeeping
import MachO.Proofs.ExactRegions
import MachO.Proofs.ExtractionSummary
import MachO.Proofs.OwnBytes
import MachO.Proofs.DecodingWork
import MachO.Proofs.Placing
import MachO.Proofs.SelectionGrowth
import MachO.Proofs.LabelWarnings
import MachO.Proofs.ExactArithmetic
import MachO.Proofs.ExactReads
import MachO.Proofs.HeaderColumns
import MachO.Proofs.ZeroFill
