import BrewServer.Adaptation
import BrewServer.AdjRibOut
import BrewServer.Agreement
import BrewServer.Aprs
import BrewServer.Arbitration
import BrewServer.Audience
import BrewServer.Auth.Digest
import BrewServer.Auth.Login
import BrewServer.CallMemory
import BrewServer.Calls
import BrewServer.Cleanup
import BrewServer.ConfigWatcher
import BrewServer.Control
import BrewServer.EffectiveTable
import BrewServer.Emergency.Consoles
import BrewServer.Emergency.Peers
import BrewServer.Emergency.Snapshot
import BrewServer.Federation
import BrewServer.Fedroute.AdvertWire
import BrewServer.Fedroute.Adverts
import BrewServer.Fedroute.Handle
import BrewServer.Fedroute.RoundTrip
import BrewServer.Fedroute.Selection
import BrewServer.Fedroute.Sequence
import BrewServer.Fedroute.ServerId
import BrewServer.Fedroute.Table
import BrewServer.Fedroute.Wire
import BrewServer.Flooding
import BrewServer.Floor
import BrewServer.ForcedEnd
import BrewServer.Frame
import BrewServer.GroupCopies
import BrewServer.GroupIndex
import BrewServer.GroupTree
import BrewServer.Ha.Election
import BrewServer.Ha.Handshake
import BrewServer.Ha.LockStep
import BrewServer.Ha.Mirror
import BrewServer.Ha.Replay
import BrewServer.Ha.Runtime
import BrewServer.Ha.Serve
import BrewServer.Ha.Stream
import BrewServer.HeaderFirst
import BrewServer.Headers
import BrewServer.Interleaving
import BrewServer.Isolation
import BrewServer.LateEntry
import BrewServer.LegacyMirror
import BrewServer.Lib.Calendar
import BrewServer.Lib.Codec
import BrewServer.Lib.Correlation
import BrewServer.Lib.FinMap
import BrewServer.Lib.FirstCopy
import BrewServer.Lib.Fixed
import BrewServer.Lib.Flood
import BrewServer.Lib.Frames
import BrewServer.Lib.InvertedIndex
import BrewServer.Lib.KeyedLog
import BrewServer.Lib.LeBytes
import BrewServer.Lib.Loop
import BrewServer.Lib.LsbBits
import BrewServer.Lib.MsbBits
import BrewServer.Lib.PathVector
import BrewServer.Lib.Reader
import BrewServer.Lib.SessionTable
import BrewServer.Lib.Shape
import BrewServer.Lib.SingleUse
import BrewServer.Lib.Text
import BrewServer.Lib.Transition
import BrewServer.Lib.Utf8
import BrewServer.LinkOffers
import BrewServer.Membership
import BrewServer.Mnemonic
import BrewServer.Parties
import BrewServer.Position.Aprs
import BrewServer.Position.Lip
import BrewServer.Position.Text
import BrewServer.Presence
import BrewServer.Protocol
import BrewServer.Publish
import BrewServer.Recall
import BrewServer.References
import BrewServer.Registrations
import BrewServer.RoundTrip
import BrewServer.RouteTable
import BrewServer.Router.Group
import BrewServer.Router.Packet
import BrewServer.Router.Private
import BrewServer.Router.Sds
import BrewServer.Router.Subscriber
import BrewServer.SdsGate
import BrewServer.SdsRoutes
import BrewServer.Server
import BrewServer.Signals
import BrewServer.Silence
import BrewServer.Sip.Bridge
import BrewServer.Sip.Carried
import BrewServer.Sip.Legs
import BrewServer.Sip.Message
import BrewServer.Sip.Outbound
import BrewServer.Sip.Ownership
import BrewServer.Sip.Progress
import BrewServer.Sip.Relay
import BrewServer.Sip.RoundTrip
import BrewServer.Sip.Routing
import BrewServer.Sip.Seizure
import BrewServer.Sip.Tasks
import BrewServer.Sip.Trunks
import BrewServer.Sip.Whole
import BrewServer.Sms.Conservation
import BrewServer.Sms.Delivery
import BrewServer.Sms.Export
import BrewServer.Sms.ForcedRun
import BrewServer.Sms.Queue
import BrewServer.Sms.Replica
import BrewServer.State
import BrewServer.Station.Roaming
import BrewServer.Station.Sessions
import BrewServer.Steps
import BrewServer.Store.History
import BrewServer.Store.Log
import BrewServer.Store.Reader
import BrewServer.Store.Record
import BrewServer.Store.Recovery
import BrewServer.Store.Replication
import BrewServer.Store.Times
import BrewServer.Transcode.G711
import BrewServer.Transcode.Stream
import BrewServer.Transcode.Task
import BrewServer.Voice
