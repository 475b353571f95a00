import BeforeColony.Auth.Base58
import BeforeColony.Auth.Base64
import BeforeColony.Auth.Dates
import BeforeColony.Auth.Passes
import BeforeColony.Auth.PlayerIds
import BeforeColony.Auth.SignIn
import BeforeColony.Auth.Texts
import BeforeColony.Client.Flight
import BeforeColony.Client.Nav
import BeforeColony.Client.Predict
import BeforeColony.Client.Session
import BeforeColony.Client.World
import BeforeColony.Econ.Bay
import BeforeColony.Econ.BayLedger
import BeforeColony.Econ.BayRuns
import BeforeColony.Econ.BaySteps
import BeforeColony.Econ.BayWear
import BeforeColony.Econ.BestExecution
import BeforeColony.Econ.BoardFlows
import BeforeColony.Econ.BoardSteps
import BeforeColony.Econ.Body
import BeforeColony.Econ.Catalogue
import BeforeColony.Econ.Charter
import BeforeColony.Econ.Contracts
import BeforeColony.Econ.CraftLedger
import BeforeColony.Econ.Crafting
import BeforeColony.Econ.Escrow
import BeforeColony.Econ.Exchange
import BeforeColony.Econ.Fab
import BeforeColony.Econ.Flows
import BeforeColony.Econ.Hangar
import BeforeColony.Econ.HangarRuns
import BeforeColony.Econ.Homes
import BeforeColony.Econ.HomesClock
import BeforeColony.Econ.HomesCrew
import BeforeColony.Econ.HomesHold
import BeforeColony.Econ.HomesLedger
import BeforeColony.Econ.HomesRooms
import BeforeColony.Econ.HomesSteps
import BeforeColony.Econ.Item
import BeforeColony.Econ.Keypad
import BeforeColony.Econ.Ledger
import BeforeColony.Econ.Loading
import BeforeColony.Econ.Neat
import BeforeColony.Econ.NeatSteps
import BeforeColony.Econ.OrderBook
import BeforeColony.Econ.Patrols
import BeforeColony.Econ.Pricing
import BeforeColony.Econ.Priority
import BeforeColony.Econ.Proving
import BeforeColony.Econ.Refusals
import BeforeColony.Econ.Repair
import BeforeColony.Econ.Rigging
import BeforeColony.Econ.Room
import BeforeColony.Econ.Shelf
import BeforeColony.Econ.Shifts
import BeforeColony.Econ.StoresShape
import BeforeColony.Econ.Suit
import BeforeColony.Econ.Systems
import BeforeColony.Econ.TimeLeft
import BeforeColony.Econ.Whole
import BeforeColony.Econ.Wire
import BeforeColony.Lib.BitString
import BeforeColony.Lib.Bytes
import BeforeColony.Lib.Calendar
import BeforeColony.Lib.CountingSort
import BeforeColony.Lib.Fifo
import BeforeColony.Lib.Framing
import BeforeColony.Lib.Level
import BeforeColony.Lib.OddSphere
import BeforeColony.Lib.Radix
import BeforeColony.Lib.Ranked
import BeforeColony.Lib.Replay
import BeforeColony.Lib.Ring
import BeforeColony.Lib.Run
import BeforeColony.Lib.Scalar
import BeforeColony.Lib.Separate
import BeforeColony.Lib.Shelf
import BeforeColony.Lib.Shortest
import BeforeColony.Lib.SlotPool
import BeforeColony.Lib.Table
import BeforeColony.Lib.Window
import BeforeColony.Link.Acks
import BeforeColony.Link.Believes
import BeforeColony.Link.Deltas
import BeforeColony.Link.Events
import BeforeColony.Link.Idle
import BeforeColony.Link.Leaves
import BeforeColony.Link.Objects
import BeforeColony.Link.Retire
import BeforeColony.Link.Rocks
import BeforeColony.Link.Salvage
import BeforeColony.Link.System
import BeforeColony.Oracle.Breaker
import BeforeColony.Oracle.Worker
import BeforeColony.Pieces.Bodies
import BeforeColony.Pieces.Check
import BeforeColony.Pieces.Lattice
import BeforeColony.Pieces.Overlap
import BeforeColony.Pieces.Plane
import BeforeColony.Pieces.Sock
import BeforeColony.Pieces.Support
import BeforeColony.Proto.Ack
import BeforeColony.Proto.Attitude
import BeforeColony.Proto.Bits
import BeforeColony.Proto.Commands
import BeforeColony.Proto.Control
import BeforeColony.Proto.ControlCodec
import BeforeColony.Proto.Decoders
import BeforeColony.Proto.Delta
import BeforeColony.Proto.Entity
import BeforeColony.Proto.EventCodec
import BeforeColony.Proto.Events
import BeforeColony.Proto.Foot
import BeforeColony.Proto.FootCodec
import BeforeColony.Proto.Frames
import BeforeColony.Proto.Input
import BeforeColony.Proto.Layouts
import BeforeColony.Proto.Limit
import BeforeColony.Proto.ObjectCodec
import BeforeColony.Proto.Objects
import BeforeColony.Proto.Own
import BeforeColony.Proto.OwnCodec
import BeforeColony.Proto.Presence
import BeforeColony.Proto.Quant
import BeforeColony.Proto.Reading
import BeforeColony.Proto.Record
import BeforeColony.Proto.Snapshot
import BeforeColony.Proto.SnapshotLists
import BeforeColony.Proto.SnapshotRuns
import BeforeColony.Proto.SnapshotTrip
import BeforeColony.Proto.SnapshotWriter
import BeforeColony.Proto.StandIn
import BeforeColony.Proto.Types
import BeforeColony.Proto.Words
import BeforeColony.Sector.ClientState
import BeforeColony.Sector.Egress
import BeforeColony.Sector.EventMark
import BeforeColony.Sector.EventRing
import BeforeColony.Sector.Inputs
import BeforeColony.Sector.Jitter
import BeforeColony.Sector.Replicate
import BeforeColony.Server.Admission
import BeforeColony.Server.Files
import BeforeColony.Server.Launches
import BeforeColony.Server.Leases
import BeforeColony.Server.Nonces
import BeforeColony.Server.OnePlace
import BeforeColony.Server.ParkNews
import BeforeColony.Server.ParkSafety
import BeforeColony.Server.Pilots
import BeforeColony.Server.Plaza
import BeforeColony.Server.PlazaDoors
import BeforeColony.Server.PlazaReach
import BeforeColony.Server.Radio
import BeforeColony.Server.Records
import BeforeColony.Server.Registers
import BeforeColony.Server.Reports
import BeforeColony.Server.Rosters
import BeforeColony.Server.Seating
import BeforeColony.Server.Seats
import BeforeColony.Server.Sessions
import BeforeColony.Server.Tokens
import BeforeColony.Sim.Cells
import BeforeColony.Sim.Chunks
import BeforeColony.Sim.Course
import BeforeColony.Sim.Hulks
import BeforeColony.Sim.KillCredit
import BeforeColony.Sim.Kills
import BeforeColony.Sim.LagComp
import BeforeColony.Sim.Pools
import BeforeColony.Sim.Rock
import BeforeColony.Sim.RockField
import BeforeColony.Sim.RockStates
import BeforeColony.Sim.Salvage
import BeforeColony.Sim.SalvageLedger
import BeforeColony.Sim.Spatial
import BeforeColony.Sim.Transit
