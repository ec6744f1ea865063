import Docstore.Text.Quoted
import Docstore.Json.Compare
import Docstore.Json.Path
import Docstore.Json.Reader
import Docstore.StableSort
import Docstore.Table
import Docstore.Recent
import Docstore.Opcode
import Docstore.Geo
import Docstore.Error
import Docstore.Index
import Docstore.PageTree.Audit
import Docstore.Query.Parse
import Docstore.Query.Selection
import Docstore.Query.Conditions
import Docstore.Program.Listing
import Docstore.Program.Compile
import Docstore.Program.Cache
import Docstore.Machine
import Docstore.Config
import Docstore.Collection.Requests
import Docstore.Database
import Docstore.Proofs.Collection.Calls
import Docstore.Proofs.PageTree.Reached
import Docstore.Proofs.Index.Literals
import Docstore.Proofs.Index.Lookups
import Docstore.Proofs.Machine.Reaching
import Docstore.Proofs.Program.Answering
import Docstore.Proofs.Program.Request
import Docstore.Proofs.Collection.Queries
import Docstore.Proofs.Collection.Updates
import Docstore.Proofs.Machine.Breaks
import Docstore.Proofs.Collection.Removal
import Docstore.Proofs.Collection.Settings
import Docstore.Proofs.Machine.Failures
import Docstore.Proofs.Index.Bounds
import Docstore.Proofs.Index.Equalities
import Docstore.Proofs.Query.Accounted
import Docstore.Proofs.Mutation.Effects
import Docstore.Proofs.Query.Accepted
import Docstore.Proofs.Json.Comparison
import Docstore.Proofs.Json.Sorting
import Docstore.Proofs.Query.Settled
import Docstore.Proofs.Query.Trichotomy
import Docstore.Proofs.Query.Membership
import Docstore.Proofs.Index.Composites
import Docstore.Proofs.Program.Sharing
import Docstore.Proofs.Query.Repeated
import Docstore.Proofs.Collection.Identities
import Docstore.Proofs.Collection.Registration
import Docstore.Proofs.Mutation.Increments
import Docstore.Proofs.Mutation.Arrays
import Docstore.Proofs.Program.Balance
import Docstore.Proofs.Index.Lawful
