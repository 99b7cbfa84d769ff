import ServiceMetadata.Main
import ServiceMetadata.Proofs.Vocabulary.Histories
import ServiceMetadata.Proofs.Vocabulary.Blanks
import ServiceMetadata.Proofs.Vocabulary.Insertion
import ServiceMetadata.Proofs.Vocabulary.Layers
import ServiceMetadata.Proofs.Vocabulary.Idempotence
import ServiceMetadata.Proofs.Vocabulary.Forms
import ServiceMetadata.Proofs.Manifest.RoundTrip
import ServiceMetadata.Proofs.Manifest.Superclasses
import ServiceMetadata.Proofs.Manifest.Rearranging
import ServiceMetadata.Proofs.Manifest.RecordGrammar
import ServiceMetadata.Proofs.EffectiveMetadata.Precedence
import ServiceMetadata.Proofs.Pom.Truncation
import ServiceMetadata.Proofs.Descriptor.FixedPoint
import ServiceMetadata.Proofs.Descriptor.DataSources
import ServiceMetadata.Proofs.Descriptor.Directions
import ServiceMetadata.Proofs.Descriptor.LookedUp
import ServiceMetadata.Proofs.Batch.SharedFiles
import ServiceMetadata.Proofs.Batch.Accounts
import ServiceMetadata.Proofs.Batch.OutputRoot
import ServiceMetadata.Proofs.Batch.Order
import ServiceMetadata.Proofs.Batch.Rerun
import ServiceMetadata.Proofs.Batch.FinalTree
import ServiceMetadata.Proofs.Command.Versions
import ServiceMetadata.Proofs.LineEnds
import ServiceMetadata.Proofs.Xml.Events
import ServiceMetadata.Proofs.Pom.Answers
