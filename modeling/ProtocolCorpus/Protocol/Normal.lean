import ProtocolCorpus.Protocol.Basic

/-!
# Results set apart

A message that creates an object of a declared interface returns it: the
argument is taken out of the list and kept as the result. Only the first such
argument can be the result; a second one stays in the list and is reported. An
object of an interface that the sender chooses is no result.
-/

namespace ProtocolCorpus

/-- What has been found in the arguments so far. -/
structure Separation where
  args : List Argument := []
  result : Option Argument := none
  resultIndex : Int := -1
  generic : Option Argument := none
  /-- The first argument that could have been the result too. -/
  extra : Option Argument := none

namespace Separation

/-- The argument at place `i` is looked at. -/
def step (s : Separation) (a : Argument × Nat) : Separation :=
  if a.1.isGenericNewId then
    { s with args := s.args ++ [a.1], generic := s.generic.or (some a.1) }
  else if a.1.isTypedNewId then
    match s.result with
    | none => { s with result := some a.1, resultIndex := a.2 }
    | some _ =>
      { s with args := s.args ++ [a.1], extra := s.extra.or (some a.1) }
  else { s with args := s.args ++ [a.1] }

end Separation

namespace Message

/-- The arguments of a message looked at in order, from what the message already
has. -/
def separate (m : Message) : Separation :=
  m.args.zipIdx.foldl Separation.step
    { result := m.result, generic := m.generic }

/-- The message with its result set apart; a message is changed only once. -/
def normalize (m : Message) : Message :=
  if m.normalized then m
  else
    let s := m.separate
    { m with
      args := s.args
      result := s.result
      resultIndex := s.resultIndex
      generic := s.generic
      normalized := true }

/-- The argument that setting the result apart leaves over, if it could have
been the result too. -/
def surplus (m : Message) : Option Argument :=
  if m.normalized then none else m.separate.extra

end Message

namespace Document

def normalize (d : Document) : Document :=
  d.mapProtocol (Protocol.mapMessages Message.normalize)

end Document

end ProtocolCorpus
