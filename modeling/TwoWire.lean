import TwoWire.Codec.BringUp
import TwoWire.Codec.InitTable
import TwoWire.Codec.Pll
import TwoWire.Codec.Register
import TwoWire.Config
import TwoWire.Engine
import TwoWire.Error
import TwoWire.Event
import TwoWire.Fault
import TwoWire.FrontEnd
import TwoWire.Hex
import TwoWire.Log.Level
import TwoWire.Log.Line
import TwoWire.Log.Logger
import TwoWire.Log.Note
import TwoWire.Log.Sink
import TwoWire.Main
import TwoWire.Master
import TwoWire.Move
import TwoWire.Operation
import TwoWire.Poll
import TwoWire.Proc
import TwoWire.Proofs.Alike
import TwoWire.Proofs.AlikeEngine
import TwoWire.Proofs.AlikeSession
import TwoWire.Proofs.Attains
import TwoWire.Proofs.Backlog
import TwoWire.Proofs.BrokenOff
import TwoWire.Proofs.BroughtUp
import TwoWire.Proofs.Budget
import TwoWire.Proofs.ByteMemory
import TwoWire.Proofs.Codec.BringUp
import TwoWire.Proofs.Codec.FlatTables
import TwoWire.Proofs.Codec.Locking
import TwoWire.Proofs.Codec.PllBlock
import TwoWire.Proofs.Codec.Programming
import TwoWire.Proofs.Codec.Stages
import TwoWire.Proofs.Endless
import TwoWire.Proofs.EngineTrace
import TwoWire.Proofs.Ensures
import TwoWire.Proofs.Faultless
import TwoWire.Proofs.Handles
import TwoWire.Proofs.Handshake
import TwoWire.Proofs.Indistinguishable
import TwoWire.Proofs.Leg
import TwoWire.Proofs.Lockstep
import TwoWire.Proofs.Log.Delivery
import TwoWire.Proofs.Log.Truncation
import TwoWire.Proofs.Loggers
import TwoWire.Proofs.Patience
import TwoWire.Proofs.Polling
import TwoWire.Proofs.Reception
import TwoWire.Proofs.Refusal
import TwoWire.Proofs.Replay
import TwoWire.Proofs.Runs
import TwoWire.Proofs.Session
import TwoWire.Proofs.Sim.Apart
import TwoWire.Proofs.Sim.Contract
import TwoWire.Proofs.Sim.Controller
import TwoWire.Proofs.Sim.Delivery
import TwoWire.Proofs.Sim.Handover
import TwoWire.Proofs.Sim.Held
import TwoWire.Proofs.Sim.History
import TwoWire.Proofs.Sim.Latency
import TwoWire.Proofs.Sim.Ledger
import TwoWire.Proofs.Sim.Outputs
import TwoWire.Proofs.Sim.RegisterFile
import TwoWire.Proofs.Sim.Slave
import TwoWire.Proofs.Sim.Sound
import TwoWire.Proofs.Sim.Stale
import TwoWire.Proofs.Sim.Succession
import TwoWire.Proofs.Sim.Termination
import TwoWire.Proofs.Sim.Waiting
import TwoWire.Proofs.SizeReport.CargoRuns
import TwoWire.Proofs.SizeReport.Files
import TwoWire.Proofs.SizeReport.Grammar
import TwoWire.Proofs.Sleepless
import TwoWire.Proofs.Spending
import TwoWire.Proofs.Timeouts
import TwoWire.Proofs.Trace
import TwoWire.Proofs.Turns
import TwoWire.Proofs.Upholds
import TwoWire.Proofs.Waits
import TwoWire.Proofs.Words
import TwoWire.RegisterBlock
import TwoWire.RegisterMap
import TwoWire.Session
import TwoWire.Sim.Controller
import TwoWire.Sim.Fifo
import TwoWire.Sim.Script
import TwoWire.Sim.Session
import TwoWire.Sim.Slave
import TwoWire.SizeReport.Command
import TwoWire.SizeReport.Options
import TwoWire.SizeReport.Tree
import TwoWire.Status
import TwoWire.SubAddress
import TwoWire.Trail
import TwoWire.TxWord
import TwoWire.Utf8
import TwoWire.Wait
import TwoWire.Width
import TwoWire.Window
