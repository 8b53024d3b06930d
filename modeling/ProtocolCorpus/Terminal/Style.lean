import ProtocolCorpus.Text.Basic

/-!
# Styles

Colours and bold type on a terminal: a styled text stands between two control
sequences. Where styles are not wanted the text stays as it is.
-/

namespace ProtocolCorpus

namespace Terminal

inductive Colour
  | red
  | green
  | yellow
  | blue
  | cyan
  deriving DecidableEq, Repr

def Colour.number : Colour → Nat
  | .red => 31
  | .green => 32
  | .yellow => 33
  | .blue => 34
  | .cyan => 36

structure Style where
  colour : Option Colour := none
  bold : Bool := false
  deriving DecidableEq, Repr

namespace Style

def on (s : Style) : List Nat :=
  s.colour.toList.map Colour.number ++ (if s.bold then [1] else [])

/-- The attributes that switch a style off: bold type has one of its own, a
colour needs a full reset. -/
def off (s : Style) : List Nat :=
  s.colour.toList.map (fun _ => 0) ++ (if s.bold then [22] else [])

def sequence (attributes : List Nat) : Text :=
  0x1B :: ("[" ++ Text.join ";" (attributes.map Text.ofNat) ++ "m")

def paint (s : Style) (wanted : Bool) (t : Text) : Text :=
  if wanted then sequence s.on ++ t ++ sequence s.off else t

end Style

end Terminal

end ProtocolCorpus
