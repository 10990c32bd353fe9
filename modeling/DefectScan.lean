import DefectScan.Codec.Settings
import DefectScan.Files.Tree
import DefectScan.Main
import DefectScan.Proofs.Lines
import DefectScan.Proofs.SimultaneousEdit
import DefectScan.Proofs.Binary64
import DefectScan.Proofs.SampleLabels
import DefectScan.Proofs.StoreLog
import DefectScan.Proofs.Recording
import DefectScan.Proofs.ReadBack
import DefectScan.Proofs.TrainingData
import DefectScan.Proofs.NumberText
import DefectScan.Proofs.JsonText
import DefectScan.Proofs.Calendar
import DefectScan.Proofs.TimestampText
import DefectScan.Proofs.RecordText
import DefectScan.Proofs.ModelText
import DefectScan.Proofs.ChosenFixes
import DefectScan.Proofs.Occurrences
import DefectScan.Proofs.ReportShape
import DefectScan.Proofs.ClassifierRuns
import DefectScan.Proofs.EditPath
import DefectScan.Proofs.MiddlePoint
import DefectScan.Proofs.Hunks
import DefectScan.Proofs.MarkedLines
import DefectScan.Proofs.UnifiedDiff
import DefectScan.Proofs.DetectorThreads
import DefectScan.Proofs.TreePlaces
import DefectScan.Proofs.MalformedRows
import DefectScan.Proofs.StoredReports
import DefectScan.Proofs.ActiveThreshold
import DefectScan.Proofs.DocumentOrder
import DefectScan.Proofs.RoundTrips
import DefectScan.Proofs.TreeWalk
import DefectScan.Proofs.ModelFiles
import DefectScan.Proofs.OutermostFunctions
import DefectScan.Proofs.Vocabulary
import DefectScan.Proofs.FirstOccurrence
import DefectScan.Proofs.Expressions
import DefectScan.Proofs.CallArguments
import DefectScan.Proofs.CallExpressions
import DefectScan.Proofs.BoundedCalls
import DefectScan.Proofs.ProposedFixes
import DefectScan.Proofs.ReadingPlaces
import DefectScan.Proofs.SpeltPatterns
import DefectScan.Proofs.LineContext
import DefectScan.Proofs.ConditionalLoops
import DefectScan.Proofs.InitialisedDeclarations
import DefectScan.Proofs.Reanalysis
import DefectScan.Proofs.CallStarts
import DefectScan.Proofs.RepeatedFixes
import DefectScan.Proofs.ReleasedAllocations
import DefectScan.Proofs.NamedVariables
import DefectScan.Proofs.KnownWords
import DefectScan.Proofs.MatchedLines
import DefectScan.Proofs.TestedNames
import DefectScan.Proofs.Respacing
import DefectScan.Proofs.SpacedFindings
import DefectScan.Proofs.LowerCase
import DefectScan.Proofs.Tokens
import DefectScan.Proofs.FindingIdentity
import DefectScan.Proofs.RefusedFixes
import DefectScan.Proofs.ExampleFiles
import DefectScan.Proofs.LinePositions
import DefectScan.Proofs.SourceText
import DefectScan.Proofs.Layers
import DefectScan.Proofs.TidyLayers
import DefectScan.Proofs.ResolvedSettings
import DefectScan.Proofs.LoadedSettings
import DefectScan.Proofs.TomlText
import DefectScan.Proofs.TomlStrings
import DefectScan.Proofs.PrintedSettings
import DefectScan.Proofs.WrittenFiles
import DefectScan.Proofs.PinnedSettings
