import RelStore.Value.Map
import RelStore.Text.Blank
import RelStore.Text.Hidden
import RelStore.Text.Quoted
import RelStore.Token
import RelStore.Error
import RelStore.Schema
import RelStore.Token.Scan
import RelStore.Table
import RelStore.Condition
import RelStore.Statement
import RelStore.Statement.Parse
import RelStore.Statement.Cursor
import RelStore.Statement.Precedence
import RelStore.Heading
import RelStore.Plan
import RelStore.Plan.Choice
import RelStore.Binary64
import RelStore.Binary64.Shortest
import RelStore.Json
import RelStore.Json.Lex
import RelStore.Json.Read
import RelStore.Json.Write
import RelStore.Document
import RelStore.Settings
import RelStore.Disk
import RelStore.Database
import RelStore.Database.Run
import RelStore.Cancellation
import RelStore.Disk.Files
import RelStore.Proofs.Schema
import RelStore.Proofs.Table.Indexes
import RelStore.Proofs.Table.Sound
import RelStore.Proofs.Table.Reachable
import RelStore.Proofs.Table.Rebuild
import RelStore.Proofs.Json.Text
import RelStore.Proofs.Json.Number
import RelStore.Proofs.Json.Tokens
import RelStore.Proofs.Json.RoundTrip
import RelStore.Proofs.Document
import RelStore.Proofs.Disk
import RelStore.Proofs.Database.Actions
import RelStore.Proofs.Database.Files
import RelStore.Proofs.Heading
import RelStore.Proofs.Trace
import RelStore.Proofs.Plan.Rows
import RelStore.Proofs.Plan.Naive
import RelStore.Proofs.Database.Select
import RelStore.Proofs.Database.Coherent
import RelStore.Proofs.Database.Alike
import RelStore.Proofs.Database.Statements
import RelStore.Proofs.Database.Execute
import RelStore.Proofs.Database.Names
import RelStore.Proofs.Database.Restart
import RelStore.Proofs.Text.Decimal
import RelStore.Proofs.Statement.Grammar
import RelStore.Proofs.Statement.Readers
import RelStore.Proofs.Statement.Conditions
import RelStore.Proofs.Statement.Parse
import RelStore.Proofs.Statement.Names
import RelStore.Proofs.Interrupted
import RelStore.Proofs.Plan.Interrupted
import RelStore.Proofs.Disk.Failure
import RelStore.Proofs.Database.Found
import RelStore.Proofs.Database.Insert
import RelStore.Proofs.Table.RowChange
import RelStore.Proofs.Table.Matching
import RelStore.Proofs.Table.Accepted
import RelStore.Proofs.Database.Assign
import RelStore.Proofs.Database.Sweep
import RelStore.Proofs.Database.InStep
import RelStore.Proofs.Database.Resumed
import RelStore.Proofs.Database.Ensures
import RelStore.Proofs.Database.Rejected
import RelStore.Proofs.Disk.Atomic
import RelStore.Proofs.Database.Saves
import RelStore.Proofs.Table.Made
import RelStore.Proofs.Document.Valid
import RelStore.Proofs.Plan.InRange
import RelStore.Proofs.Database.Safe
import RelStore.Proofs.Database.Requests
import RelStore.Proofs.Database.Loaded
import RelStore.Proofs.Statement.Cursor
import RelStore.Proofs.Database.InRange
import RelStore.Proofs.Binary64
import RelStore.Proofs.Document.Integers
import RelStore.Proofs.Database.Spellings
import RelStore.Proofs.Database.Edited
import RelStore.Proofs.Database.Tended
import RelStore.Proofs.Database.Amends
import RelStore.Proofs.Database.Confined
import RelStore.Proofs.Database.Create
import RelStore.Proofs.Database.Undisturbed
import RelStore.Proofs.Database.Updated
import RelStore.Proofs.Database.ByKey
import RelStore.Proofs.Table.InPlace
import RelStore.Proofs.Table.Legal
import RelStore.Proofs.Table.Undone
import RelStore.Proofs.Table.ReadOut
import RelStore.Proofs.Database.Indistinct
import RelStore.Proofs.Table.Erased
import RelStore.Proofs.Database.Removed
import RelStore.Proofs.Token.Tiling
import RelStore.Proofs.Statement.Lookahead
import RelStore.Proofs.Statement.Rendering
import RelStore.Proofs.Statement.Begins
import RelStore.Proofs.Statement.Misread
import RelStore.Proofs.Statement.Precedence
import RelStore.Proofs.Statement.Meaning
import RelStore.Proofs.Database.Parents
import RelStore.Proofs.Plan.Operands
import RelStore.Proofs.Plan.Refused
import RelStore.Proofs.Database.Planned
import RelStore.Proofs.Database.Unplannable
import RelStore.Proofs.Statement.Listed
import RelStore.Proofs.Database.Headers
import RelStore.Proofs.Database.Swapped
import RelStore.Proofs.Schema.Edits
import RelStore.Proofs.Database.Listing
import RelStore.Proofs.Plan.Pushed
