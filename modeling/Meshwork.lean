import Meshwork.Address
import Meshwork.Catalog
import Meshwork.Command.Basic
import Meshwork.Command.Parser
import Meshwork.Command.Printer
import Meshwork.CommandLine
import Meshwork.Datum
import Meshwork.Fault
import Meshwork.Frame.Basic
import Meshwork.Frame.Wire
import Meshwork.Greeting
import Meshwork.Interests
import Meshwork.Links
import Meshwork.Main
import Meshwork.Node.Center
import Meshwork.Node.Names
import Meshwork.Node.Peering
import Meshwork.Node.Receive
import Meshwork.Node.Send
import Meshwork.Node.State
import Meshwork.Node.Step
import Meshwork.Profile
import Meshwork.Proofs.Announcement
import Meshwork.Proofs.Command
import Meshwork.Proofs.Frame.Batch
import Meshwork.Proofs.Frame.Chunks
import Meshwork.Proofs.Grammar
import Meshwork.Proofs.Greeting
import Meshwork.Proofs.History
import Meshwork.Proofs.Interests
import Meshwork.Proofs.Links
import Meshwork.Proofs.Links.History
import Meshwork.Proofs.Node.Admission
import Meshwork.Proofs.Node.Announced
import Meshwork.Proofs.Node.Attempts
import Meshwork.Proofs.Node.Batches
import Meshwork.Proofs.Node.Calls
import Meshwork.Proofs.Node.CenterLink
import Meshwork.Proofs.Node.CenterSlot
import Meshwork.Proofs.Node.Consistency
import Meshwork.Proofs.Node.Departures
import Meshwork.Proofs.Node.Directory
import Meshwork.Proofs.Node.Gathering
import Meshwork.Proofs.Node.Handlers
import Meshwork.Proofs.Node.Handles
import Meshwork.Proofs.Node.Handover
import Meshwork.Proofs.Node.Handshake
import Meshwork.Proofs.Node.Heartbeat
import Meshwork.Proofs.Node.Identity
import Meshwork.Proofs.Node.Introductions
import Meshwork.Proofs.Node.Legible
import Meshwork.Proofs.Node.Lifecycle
import Meshwork.Proofs.Node.Linkage
import Meshwork.Proofs.Node.Member
import Meshwork.Proofs.Node.Membership
import Meshwork.Proofs.Node.Meshed
import Meshwork.Proofs.Node.Move
import Meshwork.Proofs.Node.Nesting
import Meshwork.Proofs.Node.Offers
import Meshwork.Proofs.Node.Overtaken
import Meshwork.Proofs.Node.OwnNames
import Meshwork.Proofs.Node.Partings
import Meshwork.Proofs.Node.Publications
import Meshwork.Proofs.Node.Queues
import Meshwork.Proofs.Node.Rejoining
import Meshwork.Proofs.Node.Repetition
import Meshwork.Proofs.Node.Replay
import Meshwork.Proofs.Node.Reported
import Meshwork.Proofs.Node.Reregistration
import Meshwork.Proofs.Node.Sending
import Meshwork.Proofs.Node.Session
import Meshwork.Proofs.Node.Shortcut
import Meshwork.Proofs.Node.Timeline
import Meshwork.Proofs.Node.Waiting
import Meshwork.Proofs.Publication
import Meshwork.Proofs.Registry
import Meshwork.Proofs.Relay
import Meshwork.Proofs.Roster
import Meshwork.Proofs.RoundTrip
import Meshwork.Proofs.Settings
import Meshwork.Proofs.Settings.Overrides
import Meshwork.Proofs.Slots
import Meshwork.Proofs.Slots.History
import Meshwork.Registry
import Meshwork.Roster
import Meshwork.Routing
import Meshwork.Scenario.Report
import Meshwork.Scenario.Run
import Meshwork.Scenario.Script
import Meshwork.Scenario.World
import Meshwork.Settings.Basic
import Meshwork.Settings.Overrides
import Meshwork.Settings.Printer
import Meshwork.Settings.Reader
import Meshwork.Slots
import Meshwork.StopSignal
import Meshwork.Text.Blank
import Meshwork.Text.CharSet
import Meshwork.Text.Combining
import Meshwork.Text.Numeral
import Meshwork.Text.Printable
import Meshwork.Text.Quoted
import Meshwork.Text.Split
import Meshwork.Toml.Document
import Meshwork.Toml.Moment
import Meshwork.Toml.Number
import Meshwork.Toml.Reader
import Meshwork.Toml.Text
import Meshwork.Toml.Tree
