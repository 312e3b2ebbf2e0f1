import QortalRelay.Access.Blame
import QortalRelay.Access.Capacity
import QortalRelay.Access.Coalescing
import QortalRelay.Access.Decision
import QortalRelay.Access.Renewal
import QortalRelay.Access.StrictJson
import QortalRelay.Datagrams.Budget
import QortalRelay.Datagrams.History
import QortalRelay.Discovery.Schedule
import QortalRelay.Http3.RequestStream
import QortalRelay.Relay.Admission
import QortalRelay.Relay.Connections
import QortalRelay.Relay.CoreUrl
import QortalRelay.Relay.Drain
import QortalRelay.Relay.Egress
import QortalRelay.Relay.Outbound
import QortalRelay.Relay.Revision
import QortalRelay.Relay.Targets
import QortalRelay.Relay.Tunnel
import QortalRelay.Tickets.Acceptance
import QortalRelay.Tickets.Base58
import QortalRelay.Tickets.Bounds
import QortalRelay.Tickets.Quota
import QortalRelay.Tickets.Rollback
import QortalRelay.Tickets.Waiting
import QortalRelay.Upnp.Mapping
