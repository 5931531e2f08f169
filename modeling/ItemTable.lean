import ItemTable.ChangeLog.Script
import ItemTable.Service.Changes
import ItemTable.Service.Items
import ItemTable.Service.Settings
import ItemTable.Table
import ItemTable.Value.Display
import ItemTable.Proofs.ChangeLog.Allowance
import ItemTable.Proofs.ChangeLog.CursorDiscipline
import ItemTable.Proofs.ChangeLog.Departure
import ItemTable.Proofs.ChangeLog.Lineage
import ItemTable.Proofs.ChangeLog.ParentsFirst
import ItemTable.Proofs.ChangeLog.Report
import ItemTable.Proofs.ChangeLog.SharedBudget
import ItemTable.Proofs.ChangeLog.StoredLog
import ItemTable.Proofs.ChangeLog.Tally
import ItemTable.Proofs.ChangeLog.Variables
import ItemTable.Proofs.Bindings
import ItemTable.Proofs.Expression.Names
import ItemTable.Proofs.Expression.LosslessTokens
import ItemTable.Proofs.Expression.Merge
import ItemTable.Proofs.Expression.OrderFreeMerge
import ItemTable.Proofs.Expression.Fragment
import ItemTable.Proofs.Expression.QueryCalls
import ItemTable.Proofs.Expression.ClosedQuery
import ItemTable.Proofs.Expression.Account
import ItemTable.Proofs.Expression.AdoptedFilter
import ItemTable.Proofs.Expression.ClosedScan
import ItemTable.Proofs.Expression.Numbering
import ItemTable.Proofs.Expression.NameMaps
import ItemTable.Proofs.Expression.Expansion
import ItemTable.Proofs.Expression.Written
import ItemTable.Proofs.Expression.QueryMeaning
import ItemTable.Proofs.Expression.UpdateMeaning
import ItemTable.Proofs.Expression.RegroupedUpdate
import ItemTable.Proofs.Expression.GuardedUpdate
import ItemTable.Proofs.Expression.Decrement
import ItemTable.Proofs.Expression.NumberRange
import ItemTable.Proofs.Expression.RenamedFilter
import ItemTable.Proofs.Expression.ScanNumbering
import ItemTable.Proofs.Expression.SettledReferences
import ItemTable.Proofs.Expression.GrammaticalReferences
import ItemTable.Proofs.Expression.ProjectionPaths
import ItemTable.Proofs.Expression.FreeExpression
import ItemTable.Proofs.Expression.FilterAdoption
import ItemTable.Proofs.Expression.FilterAgreement
import ItemTable.Proofs.Expression.Parentheses
import ItemTable.Proofs.Expression.ScanReading
import ItemTable.Proofs.Expression.ValidState
import ItemTable.Proofs.Text.CanonicalBase64
import ItemTable.Proofs.Json.TypedReading
import ItemTable.Proofs.Json.WrittenText
import ItemTable.Proofs.Value.WireFormat
import ItemTable.Proofs.WrittenRecords
import ItemTable.Proofs.Service.SentRequests
import ItemTable.Proofs.Service.WholePages
import ItemTable.Proofs.Service.DescribedPages
