import TwoWire.Master
import TwoWire.RegisterBlock
import TwoWire.RegisterMap

/-!
# Scripted surroundings

Stand-ins that do not work anything out: registers whose status and receive FIFO readings are
listed, a bus master whose replies follow a script, and a condition whose polls are listed.
-/

namespace TwoWire.Sim

/-! ## Registers -/

/-- Registers with listed readings. Writes have no effect, other reads give zero. -/
structure ScriptedRegisters where
  /-- The coming status readings; the last one is repeated. -/
  status : List UInt8
  /-- The coming readings of the receive FIFO; zero after the last one. -/
  rx : List UInt8
  deriving DecidableEq, Repr

namespace ScriptedRegisters

/-- An idle controller: both FIFOs are empty and the bus is free. -/
def idleStatus : UInt8 := 0xC0

/-- The status reading that comes, and what follows it. -/
def nextStatus : List UInt8 → UInt8 × List UInt8
  | [] => (idleStatus, [])
  | [last] => (last, [last])
  | next :: rest => (next, rest)

def read (width : Width) (offset : Nat) (s : ScriptedRegisters) :
    width.Value × ScriptedRegisters :=
  match width with
  | .byte =>
    if offset = Offset.status then
      ((nextStatus s.status).1, { s with status := (nextStatus s.status).2 })
    else if offset = Offset.rxFifo then (s.rx.headD 0, { s with rx := s.rx.tail })
    else (0, s)
  | .half => (0, s)
  | .word => (0, s)

instance : RegisterBlock ScriptedRegisters where
  read width offset s := .ok (s.read width offset)
  write _ _ _ s := .ok s

end ScriptedRegisters

/-! ## Bus masters -/

/-- An error that a script calls for. -/
structure ScriptedError where
  name : String
  deriving DecidableEq, Repr

instance : BusError ScriptedError where
  name e := e.name
  message e := "fault " ++ e.name
  kind _ := "Bus"

/--
A bus master that checks nothing. What it replies follows a script that may take any course: each
reply is any function of the call and of where the script stands.
-/
structure ScriptedMaster (σ ε : Type) where
  /-- The reply to a call, and where the script stands after it. -/
  respond : σ → Call → Reply ε × σ
  script : σ
  /-- The calls replied to so far. -/
  calls : Nat

namespace ScriptedMaster

variable {σ ε : Type}

/-- A bus master before its first call. -/
def ofScript (respond : σ → Call → Reply ε × σ) (script : σ) : ScriptedMaster σ ε :=
  ⟨respond, script, 0⟩

/-- Takes the next of some listed replies; after the last one, success with nothing received. -/
def nextReply : List (Reply ε) → Call → Reply ε × List (Reply ε)
  | [], _ => (⟨.ok (), []⟩, [])
  | reply :: rest, _ => (reply, rest)

/-- A bus master with listed replies. -/
def ofReplies (replies : List (Reply ε)) : ScriptedMaster (List (Reply ε)) ε :=
  ofScript nextReply replies

/-- Shows a call and takes the reply to it. -/
def answer (call : Call) : Proc (ScriptedMaster σ ε) (Reply ε) := do
  Proc.spend
  Proc.emit [.call call]
  let master ← Proc.get
  let (reply, script) := master.respond master.script call
  Proc.modify fun master => { master with script, calls := master.calls + 1 }
  return reply

/-- Output lines are driven at no cost, and nothing is replied. -/
instance : Master (ScriptedMaster σ ε) ε where
  bringUp := do return (← answer .bringUp).result
  setOutputs value := Proc.emit [.call (.setOutputs value)]
  serve request := answer (.serve request)

end ScriptedMaster

/-! ## Conditions -/

/-- A condition with listed polls, and the number of those made. -/
structure ScriptedCondition where
  /-- The coming polls; the last one is repeated, and no polls at all never hold. -/
  outcomes : List (Except String Bool)
  polls : Nat

namespace ScriptedCondition

/-- The outcome that comes, and what follows it. -/
def nextOutcome : List (Except String Bool) → Except String Bool × List (Except String Bool)
  | [] => (.ok false, [])
  | [last] => (last, [last])
  | next :: rest => (next, rest)

/-- Polls once, at the cost of one from the allowance. -/
def poll : Proc ScriptedCondition (Except String Bool) := do
  Proc.spend
  let condition ← Proc.get
  let (outcome, rest) := nextOutcome condition.outcomes
  Proc.modify fun condition => ⟨rest, condition.polls + 1⟩
  return outcome

end ScriptedCondition

end TwoWire.Sim
