import PocketKernel.Bytes
import PocketKernel.Fault
import PocketKernel.Transcript

/-!
# The console

Bytes go out to the console at once. Reading polls it: a poll finds the next byte, or finds that
nothing has come yet. How many polls find nothing before each byte is part of the console, and
`polled` lists what the polls to come will find. A poll after the last of these is a fault.
-/
namespace PocketKernel

/-- A byte that a poll finds, and how many polls after it find nothing. -/
structure Arrival where
  byte : UInt8
  pause : Nat
  deriving DecidableEq, Repr

structure Console where
  /-- How many polls from now on find nothing. -/
  emptyPolls : Nat
  /-- What comes after these. -/
  arrivals : List Arrival
  polls : Nat
  output : Transcript UInt8
  deriving DecidableEq, Repr

namespace Console

def empty : Console := ⟨0, [], 0, .empty⟩

def put (b : UInt8) : Action Console Unit := modify fun c => { c with output := c.output.push b }

def write (bytes : Bytes) : Action Console Unit :=
  modify fun c => { c with output := c.output.append bytes }

/-- One poll. -/
def poll : Action Console (Option UInt8) := fun c =>
  let c := { c with polls := c.polls + 1 }
  match c.emptyPolls with
  | emptyPolls + 1 => .ok none { c with emptyPolls }
  | 0 =>
    match c.arrivals with
    | [] => .error .inputExhausted c
    | next :: rest => .ok (some next.byte) { c with emptyPolls := next.pause, arrivals := rest }

/-- What the polls to come find, until one faults. -/
def polled (c : Console) : List (Option UInt8) :=
  List.replicate c.emptyPolls none ++
    c.arrivals.flatMap fun a => some a.byte :: List.replicate a.pause none

/-- A poll takes the first item of `polled` and faults when there is none. -/
theorem poll_eq (c : Console) :
    match c.polled with
    | [] => poll c = .error .inputExhausted { c with polls := c.polls + 1 }
    | item :: rest =>
      ∃ d : Console, poll c = .ok item d ∧ d.polled = rest ∧ d.polls = c.polls + 1 ∧
        d.output = c.output := by
  obtain ⟨emptyPolls, arrivals, polls, output⟩ := c
  match emptyPolls, arrivals with
  | 0, [] => rfl
  | 0, next :: rest => exact ⟨_, rfl, rfl, rfl, rfl⟩
  | emptyPolls + 1, _ => exact ⟨_, rfl, rfl, rfl, rfl⟩

/-- The bytes that are still to come. -/
def input (c : Console) : Bytes := c.arrivals.map Arrival.byte

/-- A console that finds nothing at first and then one byte a poll. -/
def prepare (emptyPolls : Nat) (input : Bytes) (c : Console) : Console :=
  { c with emptyPolls, arrivals := input.map (⟨·, 0⟩) }

end Console

end PocketKernel
