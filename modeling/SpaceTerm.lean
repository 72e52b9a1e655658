import SpaceTerm.ClientView.Reconcile
import SpaceTerm.Control.Fence
import SpaceTerm.Direct.Admissions
import SpaceTerm.Direct.Pairing
import SpaceTerm.Echo.Shown
import SpaceTerm.Edits.Abandoned
import SpaceTerm.Edits.ClientJournal
import SpaceTerm.Hierarchy.Acknowledge
import SpaceTerm.Hierarchy.AtMostOnce
import SpaceTerm.Hierarchy.NamesStable
import SpaceTerm.Journal.Published
import SpaceTerm.Layout.Algebra
import SpaceTerm.Layout.Drop
import SpaceTerm.Link.Agreement
import SpaceTerm.Migration.Accounted
import SpaceTerm.Migration.Return
import SpaceTerm.Osc52.Order
import SpaceTerm.Outbox.Delivery
import SpaceTerm.Outbox.FrameCredit
import SpaceTerm.Outbox.InventoryOrder
import SpaceTerm.Outbox.SemanticCredit
import SpaceTerm.PaneRun.Bounds
import SpaceTerm.Paste.Whole
import SpaceTerm.Scrollback.Requests
import SpaceTerm.Service.ActivationSafe
import SpaceTerm.Service.LedgerTruth
import SpaceTerm.Updates.Lifetime
import SpaceTerm.Updates.Operation
import SpaceTerm.Updates.Walk
import SpaceTerm.Wire.Lanes
