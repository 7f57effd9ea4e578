import PathStore.Json.Shape
import PathStore.Main
import PathStore.Settings
import PathStore.Proofs.Search.Additions
import PathStore.Proofs.Index.Relation
import PathStore.Proofs.Query.Reading
import PathStore.Proofs.Storage.Puts
import PathStore.Proofs.Database.Accounting
import PathStore.Proofs.Database.Rebuilding
import PathStore.Proofs.Search.Findable
import PathStore.Proofs.Search.Trusted
import PathStore.Proofs.Database.Readable
import PathStore.Proofs.Api.Answers
import PathStore.Proofs.Document.Scalars
import PathStore.Proofs.Search.Terms
import PathStore.Proofs.Index.Interleaved
import PathStore.Proofs.Database.Pass
import PathStore.Proofs.Query.Writing
import PathStore.Proofs.Query.Breaking
import PathStore.Proofs.Query.Joining
import PathStore.Proofs.Query.Viable
import PathStore.Proofs.Query.Moves
import PathStore.Proofs.Index.StoredForm
import PathStore.Proofs.Json.Embedded
