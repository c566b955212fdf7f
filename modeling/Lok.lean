import Lok.Delegation
import Lok.GuestLaws
import Lok.MandateKeys
import Lok.IssuedScopes
import Lok.Provisions
import Lok.StaleCodes
import Lok.MeshPolicy
import Lok.Pushed
import Lok.LokOwned
import Lok.Permissions
import Lok.GuestBounds
import Lok.Vouching
import Lok.FreshApps
import Lok.HandedOut
import Lok.AdminCache
import Lok.AclHooks
import Lok.BackedRuns
import Lok.InviteRaces
import Lok.MeshKeyRaces
import Lok.PurgeRaces
import Lok.RefreshChains
import Lok.PinOrder
import Lok.AccessLists
import Lok.Compositions
import Lok.Rotations
import Lok.Rebinds
import Lok.ForgottenKeys
import Lok.HubClients
import Lok.OpenPins
import Lok.CodeExchanges
import Lok.Nonces
import Lok.Gifts
import Lok.Widenings
import Lok.Text
import Lok.Deeplinks
import Lok.Reports
import Lok.DeviceDeletions
import Lok.MandateClients
import Lok.Rekeying
import Lok.TailnetNames
import Lok.TokenLifetimes
import Lok.Requests
import Lok.Tailnets
import Lok.MeshRenewals
import Lok.Sweeps
import Lok.DrySweeps
import Lok.ServiceNames
import Lok.AliasReach
import Lok.InviteEntries
import Lok.Slugs
import Lok.Handles
import Lok.SignUps
import Lok.FormatStrings
import Lok.EmailTemplates
import Lok.Deactivation
import Lok.Traces
import Lok.Assents
import Lok.CutOffs
import Lok.ApiAccess
import Lok.Windows
import Lok.Throttles
import Lok.Programs
import Lok.Reconciles
import Lok.ReconcileRuns
import Lok.RowLocks
import Lok.MandateCalls
import Lok.MandateRaces
import Lok.ActiveOrganizations
