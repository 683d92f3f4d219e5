import TesterSetup.Text.Digit
import TesterSetup.Text.Lines
import TesterSetup.Decimal.Places
import TesterSetup.Expr.Eval
import TesterSetup.Model.Levels
import TesterSetup.Model.Timing
import TesterSetup.Model.Vectors
import TesterSetup.Model.Topology
import TesterSetup.Reader.Levels
import TesterSetup.Reader.Timing
import TesterSetup.Reader.Vector
import TesterSetup.Reader.Master
import TesterSetup.Reader.PatternMaster
import TesterSetup.Json.Setup
import TesterSetup.Resolve.Cache
import TesterSetup.Resolve.Multiport
import TesterSetup.Sequencer.Burst
import TesterSetup.Sequencer.Library
import TesterSetup.Files.Tree
import TesterSetup.Files.Master
import TesterSetup.Model.LevelsChange
import TesterSetup.Model.TimingChange
import TesterSetup.Toml.Reader
import TesterSetup.Manifest
import TesterSetup.Report.Label
import TesterSetup.Command.Run
import TesterSetup.Main
import TesterSetup.Proofs.LookupLaws
import TesterSetup.Proofs.TracedComposition
import TesterSetup.Proofs.ClosureContents
import TesterSetup.Proofs.PortResolution
import TesterSetup.Proofs.MentionedNames
import TesterSetup.Proofs.PinTableWrites
import TesterSetup.Proofs.SpecDependents
import TesterSetup.Proofs.BlockTables
import TesterSetup.Proofs.ExprGrammar
import TesterSetup.Proofs.ExactNumeral
import TesterSetup.Proofs.WrittenExpr
import TesterSetup.Proofs.BurstCosts
import TesterSetup.Proofs.LabelCaching
import TesterSetup.Proofs.AssembledLabels
import TesterSetup.Proofs.LabelLookups
import TesterSetup.Proofs.MainPrograms
import TesterSetup.Proofs.BurstPrograms
import TesterSetup.Proofs.RepeatedRequests
import TesterSetup.Proofs.RememberedSetups
import TesterSetup.Proofs.GrowingModels
import TesterSetup.Proofs.LineForms
import TesterSetup.Proofs.SharedLabels
import TesterSetup.Proofs.LevelsReading
import TesterSetup.Proofs.SpecificationBlocks
import TesterSetup.Proofs.TimingReading
import TesterSetup.Proofs.RecordedDefinitions
import TesterSetup.Proofs.WrittenLines
import TesterSetup.Proofs.WrittenVectors
import TesterSetup.Proofs.LastOpenings
import TesterSetup.Proofs.LevelsRoundTrip
import TesterSetup.Proofs.SpecificationContents
import TesterSetup.Proofs.SpecSetBindings
import TesterSetup.Proofs.SpecificationTexts
import TesterSetup.Proofs.KeywordValues
import TesterSetup.Proofs.TimingSections
import TesterSetup.Proofs.NameTokens
import TesterSetup.Proofs.DeclaredNames
import TesterSetup.Proofs.DeclaredSpecs
import TesterSetup.Proofs.KeywordDeclarations
import TesterSetup.Proofs.AssignmentSpacing
import TesterSetup.Proofs.LocatedErrors
import TesterSetup.Proofs.CommentLines
import TesterSetup.Proofs.PathPlaces
import TesterSetup.Proofs.FollowedEntries
import TesterSetup.Proofs.TakenParts
import TesterSetup.Proofs.MasterIndex
import TesterSetup.Proofs.IndexedSetups
import TesterSetup.Proofs.MasterLoads
import TesterSetup.Proofs.CountedRecords
import TesterSetup.Proofs.ExactCounts
import TesterSetup.Proofs.MergedSetups
import TesterSetup.Proofs.LevelsPlaces
import TesterSetup.Proofs.LevelsContents
import TesterSetup.Proofs.InPlace
import TesterSetup.Proofs.BuildingSteps
import TesterSetup.Proofs.BuiltSetups
import TesterSetup.Proofs.CountedStreams
import TesterSetup.Proofs.BurstTotals
import TesterSetup.Proofs.BurstStreams
import TesterSetup.Proofs.PinOwnership
import TesterSetup.Proofs.EvaluatedTexts
import TesterSetup.Proofs.SoftFailures
import TesterSetup.Proofs.FractPeriods
import TesterSetup.Proofs.PinRows
import TesterSetup.Proofs.TokenLayouts
import TesterSetup.Proofs.ByteScanning
import TesterSetup.Proofs.Continuations
import TesterSetup.Proofs.EdgeTexts
import TesterSetup.Proofs.WholeNames
import TesterSetup.Proofs.PathNames
import TesterSetup.Proofs.LabelCandidates
import TesterSetup.Proofs.ListedFiles
import TesterSetup.Proofs.ClimbedPaths
import TesterSetup.Proofs.WaveformBlocks
import TesterSetup.Proofs.StateMaps
import TesterSetup.Proofs.WaveformIndices
import TesterSetup.Proofs.SpecValueTexts
import TesterSetup.Proofs.RespacedPrograms
import TesterSetup.Proofs.OperandBlanks
import TesterSetup.Proofs.Outcomes
import TesterSetup.Proofs.RecordSpans
import TesterSetup.Proofs.PartialTotals
import TesterSetup.Proofs.DefinedPorts
import TesterSetup.Proofs.QuotedTexts
import TesterSetup.Proofs.KeptTexts
import TesterSetup.Proofs.WrittenDocuments
import TesterSetup.Proofs.WrittenFiles
import TesterSetup.Proofs.NewManifests
import TesterSetup.Proofs.EdgeNames
import TesterSetup.Proofs.WaveformEdges
import TesterSetup.Proofs.EdgeLines
