import ProtocolCorpus.Protocol.Basic
import ProtocolCorpus.Text.Quoted

/-!
# Type tables

The types of all messages of a protocol stand in one table. Messages without
types share a run of empty slots at its start, which is as long as the longest
of them; all other messages have their slots behind it, one message after the
other.
-/

namespace ProtocolCorpus

inductive LayoutFault
  | unresolved
  | indexOverflow
  | other (number : Nat)
  deriving DecidableEq, Repr

namespace LayoutFault

def ofNumber : Nat → LayoutFault
  | 1 => .unresolved
  | 2 => .indexOverflow
  | n => .other n

def number : LayoutFault → Nat
  | .unresolved => 1
  | .indexOverflow => 2
  | .other n => n

end LayoutFault

structure LayoutError where
  fault : LayoutFault
  protocol : Text
  interface : Text
  message : Text
  argument : Text := []
  /-- What made an index overflow. -/
  cause : Option Text := none
  deriving DecidableEq, Repr

def LayoutError.describe (e : LayoutError) : Text :=
  let place := e.protocol ++ "::" ++ e.interface ++ "." ++ e.message
  match e.fault with
  | .unresolved =>
    "argument " ++ e.argument.quoted ++ " of " ++ place ++
      " has an unresolved interface reference"
  | .indexOverflow =>
    "type table index overflow at " ++ place ++ ": " ++ e.cause.getD "<nil>"
  | .other n => "layout error kind=" ++ Text.ofNat n ++ " at " ++ place

namespace Layout

/-- The type of an argument: none if its kind refers to no interface. -/
def slot (p : Protocol) (i : Interface) (m : Message) (a : Argument) :
    Except LayoutError (Option Reference) :=
  if !a.kind.allowsInterface || a.interface.isEmpty then .ok none
  else
    match a.resolvedInterface with
    | some r => .ok (some r)
    | none => .error ⟨.unresolved, p.name, i.name, m.name, a.name, none⟩

/-- The types of a message: of its result first, then of its arguments. -/
def slots (p : Protocol) (i : Interface)
    (m : Message) : Except LayoutError (List (Option Reference)) :=
  (m.result.toList ++ m.args).mapM (slot p i m)

def collect (p : Protocol) (i : Interface)
    (m : Message) : Except LayoutError Message := do
  let s ← slots p i m
  return { m with
    placement := { m.placement with
        slots := s, allNull := s.all Option.isNone } }

def collectInterface (p : Protocol)
    (i : Interface) : Except LayoutError Interface := do
  let requests ← i.requests.mapM (collect p i)
  let events ← i.events.mapM (collect p i)
  return { i with requests, events }

/-- The length of the longest message without types. -/
def nullRun (ms : List Message) : Nat :=
  (ms.filter fun m => m.placement.allNull).foldl
    (fun n m => max n m.placement.slots.length) 0

def maxIndex : Nat := 0x100000000 - 1

def place (p : Protocol) (i : Interface) : (index : Nat) → List Message →
    Except LayoutError (List Message × Nat)
  | index, [] => .ok ([], index)
  | index, m :: ms =>
    if m.placement.allNull then do
      let (rest, stop) ← place p i index ms
      return ({ m with
          placement := { m.placement with typeIndex := 0 } } :: rest, stop)
    else
      let behind := index + m.placement.slots.length
      if maxIndex < behind then
        .error ⟨.indexOverflow, p.name, i.name, m.name, [],
          some ("out of range: " ++ Text.ofNat behind)⟩
      else do
        let (rest, stop) ← place p i behind ms
        return ({ m with
            placement := { m.placement with typeIndex := index } } :: rest,
              stop)

def placeInterfaces (p : Protocol) : (index : Nat) → List Interface →
    Except LayoutError (List Interface)
  | _, [] => .ok []
  | index, i :: is => do
    let (requests, afterRequests) ← place p i index i.requests
    let (events, afterEvents) ← place p i afterRequests i.events
    let rest ← placeInterfaces p afterEvents is
    return { i with requests, events } :: rest

end Layout

namespace Protocol

def layOut (p : Protocol) : Except LayoutError Protocol := do
  let collected ← p.interfaces.mapM (Layout.collectInterface p)
  let messages := collected.flatMap Interface.messages
  let run := Layout.nullRun messages
  let interfaces ← Layout.placeInterfaces p run collected
  let typed := (messages.filter fun m => !m.placement.allNull).flatMap fun m =>
    m.placement.slots
  return { p with
      interfaces, nullRun := run, typeTable :=
      List.replicate run none ++ typed }

end Protocol

def Document.layOut (d : Document) : Except LayoutError Document :=
  match d.protocol with
  | none => .ok d
  | some p => p.layOut.map fun p => { d with protocol := some p }

end ProtocolCorpus
