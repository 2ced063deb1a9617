import DerivationBelief.ArrivalOrder
import DerivationBelief.Augmentation
import DerivationBelief.BinaryMagnitude
import DerivationBelief.BirthDates
import DerivationBelief.BlankText
import DerivationBelief.CausalGraph
import DerivationBelief.CharacterRanges
import DerivationBelief.ClauseIndex
import DerivationBelief.ClausePruner
import DerivationBelief.ContradictionFilter
import DerivationBelief.DecimalDigits
import DerivationBelief.DecimalText
import DerivationBelief.DenseTable
import DerivationBelief.DerivationOrder
import DerivationBelief.DifferentiatingLearner
import DerivationBelief.Distribution
import DerivationBelief.DistributionCombining
import DerivationBelief.EstimationPlan
import DerivationBelief.EvidenceTable
import DerivationBelief.ExactNetwork
import DerivationBelief.ExtendingMarks
import DerivationBelief.FactFeed
import DerivationBelief.Factor
import DerivationBelief.FactorGraph
import DerivationBelief.FactorGraphText
import DerivationBelief.Faults
import DerivationBelief.FileTree
import DerivationBelief.FittingLearner
import DerivationBelief.GraphDrawing
import DerivationBelief.GraphListing
import DerivationBelief.GroundClause
import DerivationBelief.GroundTuple
import DerivationBelief.IteratingLearner
import DerivationBelief.JsonText
import DerivationBelief.JsonWriting
import DerivationBelief.Learner
import DerivationBelief.LearnerContext
import DerivationBelief.LearnerKind
import DerivationBelief.LearnerWorkshop
import DerivationBelief.LineReader
import DerivationBelief.NetworkDescription
import DerivationBelief.OneShotLearner
import DerivationBelief.Outcome
import DerivationBelief.ParameterFitting
import DerivationBelief.PhonyDecomposition
import DerivationBelief.PriorTable
import DerivationBelief.Proofs.AcyclicRelation
import DerivationBelief.Proofs.AddedNames
import DerivationBelief.Proofs.AdmissionSearch
import DerivationBelief.Proofs.ArrivalLookups
import DerivationBelief.Proofs.ArrivalOrder
import DerivationBelief.Proofs.AuditedLearners
import DerivationBelief.Proofs.AuditedRuns
import DerivationBelief.Proofs.Augmentation
import DerivationBelief.Proofs.BackwardClosure
import DerivationBelief.Proofs.BeliefCache
import DerivationBelief.Proofs.BirthDates
import DerivationBelief.Proofs.BlankText
import DerivationBelief.Proofs.ClauseIndex
import DerivationBelief.Proofs.ClauseLines
import DerivationBelief.Proofs.ClauseStates
import DerivationBelief.Proofs.ClauseWidths
import DerivationBelief.Proofs.CoherentGraph
import DerivationBelief.Proofs.CombinedDistributions
import DerivationBelief.Proofs.CompilationMeaning
import DerivationBelief.Proofs.CompiledAnswers
import DerivationBelief.Proofs.CompiledFiles
import DerivationBelief.Proofs.CompiledLoading
import DerivationBelief.Proofs.ContradictionFilter
import DerivationBelief.Proofs.CycleChecks
import DerivationBelief.Proofs.DatingCounters
import DerivationBelief.Proofs.DatingLevels
import DerivationBelief.Proofs.DatingSteps
import DerivationBelief.Proofs.DecimalText
import DerivationBelief.Proofs.DefinedVariables
import DerivationBelief.Proofs.DenseTable
import DerivationBelief.Proofs.DerivationHeight
import DerivationBelief.Proofs.DerivationOrder
import DerivationBelief.Proofs.DifferentiatingRuns
import DerivationBelief.Proofs.DisjointBatches
import DerivationBelief.Proofs.Elimination
import DerivationBelief.Proofs.EstimationPlan
import DerivationBelief.Proofs.EventAnswers
import DerivationBelief.Proofs.EvidenceLookups
import DerivationBelief.Proofs.EvidenceTable
import DerivationBelief.Proofs.EvidenceWeight
import DerivationBelief.Proofs.ExactInference
import DerivationBelief.Proofs.ExactUpdates
import DerivationBelief.Proofs.ExpectationAscent
import DerivationBelief.Proofs.Exploration
import DerivationBelief.Proofs.FactGraphs
import DerivationBelief.Proofs.FactorGraphText
import DerivationBelief.Proofs.FileNames
import DerivationBelief.Proofs.FileTree
import DerivationBelief.Proofs.FittingAscent
import DerivationBelief.Proofs.FittingInPlace
import DerivationBelief.Proofs.FittingNetwork
import DerivationBelief.Proofs.FittingOutcome
import DerivationBelief.Proofs.FittingRound
import DerivationBelief.Proofs.FittingRuns
import DerivationBelief.Proofs.FittingTime
import DerivationBelief.Proofs.GenerativeModel
import DerivationBelief.Proofs.GraphBuilding
import DerivationBelief.Proofs.GraphEdits
import DerivationBelief.Proofs.GraphGrowth
import DerivationBelief.Proofs.GrownFamilies
import DerivationBelief.Proofs.GrownGraph
import DerivationBelief.Proofs.GrownOrder
import DerivationBelief.Proofs.GrownPriors
import DerivationBelief.Proofs.HistoryOrder
import DerivationBelief.Proofs.HistoryProbability
import DerivationBelief.Proofs.IndependentReplicas
import DerivationBelief.Proofs.IteratingAnswers
import DerivationBelief.Proofs.IteratingRuns
import DerivationBelief.Proofs.KeyedPriors
import DerivationBelief.Proofs.LayoutWords
import DerivationBelief.Proofs.LearnerRuns
import DerivationBelief.Proofs.LeastHeight
import DerivationBelief.Proofs.LeftContradictions
import DerivationBelief.Proofs.MeanShares
import DerivationBelief.Proofs.ModeAgreement
import DerivationBelief.Proofs.NamedGraph
import DerivationBelief.Proofs.NetworkAnswers
import DerivationBelief.Proofs.NetworkLoading
import DerivationBelief.Proofs.NetworkWeights
import DerivationBelief.Proofs.ObservedNodes
import DerivationBelief.Proofs.OneShotRuns
import DerivationBelief.Proofs.ParameterFitting
import DerivationBelief.Proofs.PhonyDecomposition
import DerivationBelief.Proofs.PhonyStates
import DerivationBelief.Proofs.PosteriorGraph
import DerivationBelief.Proofs.PriorTable
import DerivationBelief.Proofs.PriorTransfer
import DerivationBelief.Proofs.Provenance
import DerivationBelief.Proofs.ProvenanceBuilder
import DerivationBelief.Proofs.ProvenanceGraph
import DerivationBelief.Proofs.ProvenanceId
import DerivationBelief.Proofs.Pruning
import DerivationBelief.Proofs.PruningAgreement
import DerivationBelief.Proofs.QueryAudit
import DerivationBelief.Proofs.QueryRecords
import DerivationBelief.Proofs.RelevantClauses
import DerivationBelief.Proofs.ReplicaVariables
import DerivationBelief.Proofs.ReproducibleAnswers
import DerivationBelief.Proofs.RuleDescriptions
import DerivationBelief.Proofs.SequentialAgreement
import DerivationBelief.Proofs.SequentialBelief
import DerivationBelief.Proofs.SettingsLayers
import DerivationBelief.Proofs.Sightings
import DerivationBelief.Proofs.SoundNetworks
import DerivationBelief.Proofs.StableOrder
import DerivationBelief.Proofs.StrongComponents
import DerivationBelief.Proofs.TableOperations
import DerivationBelief.Proofs.TableProduct
import DerivationBelief.Proofs.TableSizes
import DerivationBelief.Proofs.TableValues
import DerivationBelief.Proofs.TemplateShape
import DerivationBelief.Proofs.TextLines
import DerivationBelief.Proofs.TiedPriors
import DerivationBelief.Proofs.TotalMass
import DerivationBelief.Proofs.TupleIdentifiers
import DerivationBelief.Proofs.TupleText
import DerivationBelief.Proofs.UnsignedNumeral
import DerivationBelief.Proofs.VariableOwnership
import DerivationBelief.Proofs.WeighedValues
import DerivationBelief.Proofs.WordArithmetic
import DerivationBelief.Proofs.WorldProbability
import DerivationBelief.Proofs.WrittenHistory
import DerivationBelief.Provenance
import DerivationBelief.ProvenanceBuilder
import DerivationBelief.ProvenanceDictionary
import DerivationBelief.ProvenanceGraph
import DerivationBelief.ProvenanceId
import DerivationBelief.QuotedText
import DerivationBelief.Relevance
import DerivationBelief.ReplicaNetwork
import DerivationBelief.Scalar
import DerivationBelief.Settings
import DerivationBelief.SettingsLayers
import DerivationBelief.SettingsText
import DerivationBelief.StableOrder
import DerivationBelief.StoredDistribution
import DerivationBelief.StrongComponents
import DerivationBelief.TextLines
import DerivationBelief.TomlDocument
import DerivationBelief.TomlScalars
import DerivationBelief.TomlValue
import DerivationBelief.UnprintableCharacters
import DerivationBelief.UnsignedNumeral
import DerivationBelief.VariableElimination
import DerivationBelief.VariableLayout
