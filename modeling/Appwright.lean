import Appwright.Main
import Appwright.Proofs.Action.Body
import Appwright.Proofs.Action.Course
import Appwright.Proofs.Action.Depth
import Appwright.Proofs.Action.Outbound
import Appwright.Proofs.Action.Retries
import Appwright.Proofs.Assistant.Reply
import Appwright.Proofs.Condition.Evaluation
import Appwright.Proofs.Condition.Paths
import Appwright.Proofs.Condition.Roots
import Appwright.Proofs.Gallery.Packing
import Appwright.Proofs.Json.Merging
import Appwright.Proofs.Names
import Appwright.Proofs.Program.Arithmetic
import Appwright.Proofs.Program.Blocks
import Appwright.Proofs.Program.Leftovers
import Appwright.Proofs.Program.Reading
import Appwright.Proofs.Server.Chunked
import Appwright.Proofs.Server.Dispatch
import Appwright.Proofs.Server.Filters
import Appwright.Proofs.Server.Gate
import Appwright.Proofs.Server.Limiter
import Appwright.Proofs.Server.Paging
import Appwright.Proofs.Server.Queries
import Appwright.Proofs.Server.Search
import Appwright.Proofs.Sexpr.Balance
import Appwright.Proofs.Store.Furnishing
import Appwright.Proofs.Store.JsonField
import Appwright.Proofs.Store.Ledger
import Appwright.Proofs.View.Markup
import Appwright.Proofs.View.Policy
import Appwright.Version.Changelog
