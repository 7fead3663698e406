import Win64Server.PacketHandler
import Win64Server.ClientManager
import Win64Server.Library.Framing
import Win64Server.Library.Layout
import Win64Server.ChunkedFraming
import Win64Server.Handshake
import Win64Server.PacketIsolation
import Win64Server.PayloadReads
import Win64Server.FramingSafety
import Win64Server.Library.Room
import Win64Server.StreamWriting
import Win64Server.MessageCapacity
import Win64Server.Registry
import Win64Server.RegistryAgreement
import Win64Server.IndexPool
import Win64Server.ClientUpdater
import Win64Server.ServerEffects
import Win64Server.UpdateIntervals
import Win64Server.Observers
import Win64Server.Alternation
import Win64Server.Departure
import Win64Server.HandshakeOutcomes
import Win64Server.FlightPlans
import Win64Server.BeforeLogin
import Win64Server.ThreadPool
import Win64Server.SendData
import Win64Server.Tables
import Win64Server.FlightPlanVersions
import Win64Server.ClosedConnections
import Win64Server.PositionClock
import Win64Server.PlanDelivery
import Win64Server.TwoMemories
import Win64Server.StreamErrors
import Win64Server.RoundTrip
import Win64Server.NestedFrames
import Win64Server.BitAccess
import Win64Server.StreamAgreement
import Win64Server.StreamRoundTrip
import Win64Server.RequestTimes
import Win64Server.TruncatedPackets
import Win64Server.ScriptSlots
import Win64Server.Polling
import Win64Server.StartUp
import Win64Server.TimedTasks
import Win64Server.Timeouts
import Win64Server.Deletions
import Win64Server.CursorBounds
import Win64Server.StringReaders
import Win64Server.Library.MarkedMinimum
import Win64Server.TightestRequest
import Win64Server.MessageContents
import Win64Server.Orientation
import Win64Server.PlanRelay
import Win64Server.ScriptRelay
import Win64Server.DueUpdates
import Win64Server.TriggerFlags
import Win64Server.Library.Pointwise
import Win64Server.VisibleSets
import Win64Server.Library.Tiling
import Win64Server.PollRanges
import Win64Server.Library.Rounds
import Win64Server.BinarySearch
import Win64Server.Library.MaximalRuns
import Win64Server.Split
import Win64Server.WordWrap
import Win64Server.ServerSteps
import Win64Server.Standing
import Win64Server.Faults
import Win64Server.Replica
import Win64Server.Quiescence
import Win64Server.WireStream
import Win64Server.LockUse
import Win64Server.SeparateConnections
import Win64Server.PositionReports
import Win64Server.IndexTables
import Win64Server.Introductions
import Win64Server.TextMessages
import Win64Server.Labels
