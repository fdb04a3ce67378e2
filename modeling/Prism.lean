import Prism.Account.LastAdmin
import Prism.Auth.Guessing
import Prism.Auth.PasswordChange
import Prism.Auth.SecondFactor
import Prism.Deposit.Watermark
import Prism.Export.Tags
import Prism.Intel.Provider
import Prism.Keys.Allowance
import Prism.Keys.Credential
import Prism.Keys.Reach
import Prism.Money.Conservation
import Prism.Money.Redeem
import Prism.Parser.Clash
import Prism.Plan.Assignment
import Prism.Plan.PeriodText
import Prism.Proxy.Bandwidth
import Prism.Proxy.Reservation
import Prism.Proxy.Stream
import Prism.Renewal.Extension
import Prism.Renewal.Periods
import Prism.Renewal.Stops
import Prism.Renewal.Usable
import Prism.RequestLog.Service
import Prism.Routing.Load
import Prism.Routing.Stored
import Prism.State.Consistency
import Prism.Topology.Deletion
import Prism.Topology.Egress
import Prism.Topology.Notification
import Prism.Topology.Outbound
import Prism.Topology.Persisted
import Prism.Topology.Refresh
import Prism.Topology.RoutableView
import Prism.Usage.Boundaries
import Prism.Usage.Folding
import Prism.Usage.Quota
import Prism.Usage.Reseed
import Prism.Usage.Rollover
import Prism.Usage.Window
