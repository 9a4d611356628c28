import TwoWire.Log.Note
import TwoWire.Master

/-!
# Front end

A front end hands requests on to any bus master, and reports those that fail to its own logger
before it gives the answer back.
-/

namespace TwoWire

/-- A bus master and a logger for its failures. -/
structure FrontEnd (μ κ : Type) where
  hardware : μ
  logger : κ

namespace FrontEnd

open Log (Logger)

variable {μ κ ε α : Type}

/-- Acts on the bus master. -/
def onHardware (p : Proc μ α) : Proc (FrontEnd μ κ) α :=
  p.zoom FrontEnd.hardware fun hardware frontEnd => { frontEnd with hardware }

/-- Logs a failed request. -/
def warn [Logger κ] [BusError ε] (request : Request) (error : ε) : Proc (FrontEnd μ κ) Unit :=
  let pieces := ["i2c: ", request.name, " to ", Hex.marked 2 request.addr.toNat, " failed: ",
    BusError.name error]
  (Log.note .frontEnd .warn pieces).zoom FrontEnd.logger
    fun logger frontEnd => { frontEnd with logger }

/-- Serves a request through the bus master. -/
def serve [Master μ ε] [Logger κ] [BusError ε] (request : Request) :
    Proc (FrontEnd μ κ) (Reply ε) := do
  let reply ← onHardware (Master.serve request)
  match reply.result with
  | .error error => warn request error
  | .ok () => pure ()
  return reply

end FrontEnd

end TwoWire
