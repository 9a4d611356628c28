import TwoWire.Trail

/-!
# Byte sinks

A sink takes bytes call by call. What a call does is fixed by its number: it fails, or it takes at
most a given number of the bytes offered. `Sink.writeAll` calls until all is taken, and ends as soon
as a call fails; a call that takes nothing stalls it for good. The recursion ends because every call
that goes on takes at least one byte.
-/

namespace TwoWire.Log

/-- What one call of a sink does. -/
inductive Acceptance
  /-- The call fails and takes nothing. -/
  | refuse
  /-- The call takes at most this many bytes. -/
  | upTo (limit : Nat)
  deriving DecidableEq, Repr

/-- A sink, the calls made so far and the bytes taken by them. -/
structure Sink where
  behaviour : Nat → Acceptance
  calls : Nat
  log : Trail UInt8

namespace Sink

/-- A sink before its first call. -/
def ofBehaviour (behaviour : Nat → Acceptance) : Sink := ⟨behaviour, 0, .empty⟩

/-- The bytes taken so far. -/
def taken (s : Sink) : List UInt8 := s.log.toList

/-- A sink that takes at most `chunk` bytes a call, and of which one call may fail. -/
def limited (chunk failing : Option Nat) : Sink :=
  ofBehaviour fun call =>
    if failing = some call then .refuse
    else match chunk with
      | some limit => .upTo limit
      | none => .upTo 0x10000000000000000

/-- How a write of several bytes ended. -/
inductive Written
  | complete
  | failed
  | stalled
  deriving DecidableEq, Repr

/-- The sink after a call that was offered `bytes` and takes at most `limit` of them. -/
def take (s : Sink) (limit : Nat) (bytes : List UInt8) : Sink :=
  { s with calls := s.calls + 1, log := s.log.append (bytes.take limit) }

/-- Offers the bytes until all are taken. No bytes make no call. -/
def writeAll (s : Sink) (bytes : List UInt8) : Written × Sink :=
  match bytes with
  | [] => (.complete, s)
  | b :: rest =>
    match s.behaviour s.calls with
    | .refuse => (.failed, { s with calls := s.calls + 1 })
    | .upTo 0 => (.stalled, { s with calls := s.calls + 1 })
    | .upTo (limit + 1) =>
      writeAll (s.take (limit + 1) (b :: rest)) ((b :: rest).drop (limit + 1))
termination_by bytes.length

end Sink

end TwoWire.Log
