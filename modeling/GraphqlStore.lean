import GraphqlStore.Artifact.Reader
import GraphqlStore.Files.Volume
import GraphqlStore.Main
import GraphqlStore.Proofs.AcceptedGeneration
import GraphqlStore.Proofs.AppendOnly
import GraphqlStore.Proofs.ArtifactReading
import GraphqlStore.Proofs.Contributions
import GraphqlStore.Proofs.DeclaredVariables
import GraphqlStore.Proofs.DefinitionOrder
import GraphqlStore.Proofs.DocumentLoading
import GraphqlStore.Proofs.EpochMillis
import GraphqlStore.Proofs.ExpandedPaths
import GraphqlStore.Proofs.IdentityLaw
import GraphqlStore.Proofs.InlinedScope
import GraphqlStore.Proofs.InlinedVariables
import GraphqlStore.Proofs.InputShapes
import GraphqlStore.Proofs.InputTypes
import GraphqlStore.Proofs.Interference
import GraphqlStore.Proofs.KeyReading
import GraphqlStore.Proofs.MergeLaws
import GraphqlStore.Proofs.MergeTermination
import GraphqlStore.Proofs.OutputFiles
import GraphqlStore.Proofs.PaginationRecord
import GraphqlStore.Proofs.PathPlace
import GraphqlStore.Proofs.Publication
import GraphqlStore.Proofs.ReadNames
import GraphqlStore.Proofs.RepeatedPasses
import GraphqlStore.Proofs.ResponseNames
import GraphqlStore.Proofs.RevisionCounts
import GraphqlStore.Proofs.RunHistory
import GraphqlStore.Proofs.ScalarConversions
import GraphqlStore.Proofs.SentDirectives
import GraphqlStore.Proofs.SourceOrder
import GraphqlStore.Proofs.SpreadChains
import GraphqlStore.Proofs.StoreImports
import GraphqlStore.Proofs.TimestampText
import GraphqlStore.Proofs.TypeExtensions
import GraphqlStore.Proofs.TypenameSelections
