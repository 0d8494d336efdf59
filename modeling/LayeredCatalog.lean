import LayeredCatalog.Catalog.Document
import LayeredCatalog.CommandLine
import LayeredCatalog.Deployment.Compile
import LayeredCatalog.Deployment.Config.Document
import LayeredCatalog.Digest.Document
import LayeredCatalog.Files.Tree
import LayeredCatalog.Layer.Document
import LayeredCatalog.Main
import LayeredCatalog.Project.Load
import LayeredCatalog.Resolution
import LayeredCatalog.Proofs.Composition.Slots
import LayeredCatalog.Proofs.Reading
import LayeredCatalog.Proofs.Composition.Value
import LayeredCatalog.Proofs.Composition.Planned
import LayeredCatalog.Proofs.Composition.Evaluation
import LayeredCatalog.Proofs.Composition.History
import LayeredCatalog.Proofs.Composition.Closure
import LayeredCatalog.Proofs.Composition.Steps
import LayeredCatalog.Proofs.Catalog
import LayeredCatalog.Proofs.Resolution
import LayeredCatalog.Proofs.Dependencies.Additions
import LayeredCatalog.Proofs.Dependencies.Order
import LayeredCatalog.Proofs.Encoding
import LayeredCatalog.Proofs.Resolution.BuildOrder
import LayeredCatalog.Proofs.Deployment.Derivation
import LayeredCatalog.Proofs.Deployment.Description
import LayeredCatalog.Proofs.Deployment.Startup
import LayeredCatalog.Proofs.Deployment.Validity
import LayeredCatalog.Proofs.Resolution.Artifact
import LayeredCatalog.Proofs.Composition.CyclePath
import LayeredCatalog.Proofs.Composition.Faults
import LayeredCatalog.Proofs.Composition.Cycles
import LayeredCatalog.Proofs.ByteOrder
import LayeredCatalog.Proofs.Composition.Culprits
import LayeredCatalog.Proofs.Composition.Applied
import LayeredCatalog.Proofs.Composition.Kept
import LayeredCatalog.Proofs.Composition.Backwards
import LayeredCatalog.Proofs.Composition.Stack
import LayeredCatalog.Proofs.Resolution.Flattened
import LayeredCatalog.Proofs.Composition.Renumbered
import LayeredCatalog.Proofs.Composition.Unrelated
import LayeredCatalog.Proofs.Composition.OnDemand
import LayeredCatalog.Proofs.Composition.Composed
import LayeredCatalog.Proofs.Composition.Accumulated
import LayeredCatalog.Proofs.Deployment.Schedule
import LayeredCatalog.Proofs.Deployment.Variables
import LayeredCatalog.Proofs.Deployment.Faults
import LayeredCatalog.Proofs.Deployment.Agreement
import LayeredCatalog.Proofs.Deployment.Routing
import LayeredCatalog.Proofs.Deployment.Handles
import LayeredCatalog.Proofs.Reference
import LayeredCatalog.Proofs.Documents
import LayeredCatalog.Proofs.Composition.References
import LayeredCatalog.Proofs.Resolution.NameByName
import LayeredCatalog.Proofs.Deployment.Confinement
import LayeredCatalog.Proofs.Repeats
import LayeredCatalog.Proofs.Deployment.Collisions
import LayeredCatalog.Proofs.Deployment.Repetition
import LayeredCatalog.Proofs.Deployment.Credentials
import LayeredCatalog.Proofs.PathOrder
import LayeredCatalog.Proofs.Deployment.Directives
import LayeredCatalog.Proofs.Deployment.Shadowing
import LayeredCatalog.Proofs.Component
import LayeredCatalog.Proofs.Patch.Additions
import LayeredCatalog.Proofs.Patch.Calls
import LayeredCatalog.Proofs.Deployment.Ownership
import LayeredCatalog.Proofs.Layer.Entries
import LayeredCatalog.Proofs.Patch.Locality
import LayeredCatalog.Proofs.Composition.SlotTable
import LayeredCatalog.Proofs.Digest
