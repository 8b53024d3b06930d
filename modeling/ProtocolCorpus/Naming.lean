import ProtocolCorpus.Text.Decomposition

/-!
# Names and identifiers

Names of protocols and interfaces are rows of segments between underscores. A
last segment such as `v3` tells a version and is not part of what the name
stands for. Identifiers are made from names by keeping their letters and digits.
-/

namespace ProtocolCorpus

namespace Naming

def underscore : UInt8 := 0x5F

/-- A segment that tells a version: `v` and digits. -/
def isVersionSegment : Text → Bool
  | 0x76 :: d :: ds => (d :: ds).all Text.isDigit
  | _ => false

/-- The name without a last segment that tells a version, unless nothing is left
then. -/
def stripVersion (name : Text) : Text :=
  match Text.cutLast underscore name with
  | some (front, last) =>
    if !front.isEmpty && isVersionSegment last then front else name
  | none => name

def moduleName (protocol : Text) : Text :=
  stripVersion protocol

def commonStart : List Text → List Text → List Text
  | a :: as, b :: bs => if a = b then a :: commonStart as bs else []
  | _, _ => []

/-- The list without its last element if that tells a version and is not all
there is. -/
def dropVersion (segments : List Text) : List Text :=
  if 1 < segments.length &&
      (segments.getLast?.map isVersionSegment).getD false then
    segments.dropLast
  else segments

/-- The longest run of leading segments that all names share, without a version.
-/
def commonSegments : List Text → Text
  | [] => []
  | name :: names =>
    Text.join "_"
      (dropVersion ((names.map (Text.splitOn underscore)).foldl commonStart
      (Text.splitOn underscore name)))

/-- Lower case as far as ASCII is concerned: of the code points beyond it, only
the dotted capital I and the Kelvin sign have small ASCII letters. -/
def lowerCode (n : Nat) : Nat :=
  if 0x41 ≤ n && n ≤ 0x5A then n + 0x20
  else if n = 0x130 then 0x69
  else if n = 0x212A then 0x6B
  else n

/-- The small ASCII letter or the digit that a code point stands for. -/
def wordByte? (n : Nat) : Option UInt8 :=
  let m := lowerCode n
  let b := UInt8.ofNat m
  if m < 0x80 && (Text.isLower b || Text.isDigit b) then some b else none

/-- An identifier while it is spelled: what is written of it, and whether
something was left out since. -/
structure Spelling where
  written : Text := []
  gap : Bool := false

/-- Marks are passed over. An underscore is written for a gap only once there is
something on both sides of it. -/
def Spelling.read (s : Spelling) (n : Nat) : Spelling :=
  if isMarkCode n then s
  else
    match wordByte? n with
    | some b =>
      if s.gap && !s.written.isEmpty then
        { written := s.written ++ [underscore, b] }
      else { written := s.written ++ [b] }
    | none => { s with gap := true }

def startsWithDigit (t : Text) : Bool :=
  (t.head?.map Text.isDigit).getD false

def guardDigit (t : Text) : Text :=
  if startsWithDigit t then underscore :: t else t

/-- The identifier spelled by a row of code points. -/
def spell (codes : List Nat) : Text :=
  guardDigit (codes.foldl Spelling.read {}).written

/-- The identifier made from a text, given how texts are decomposed. -/
def identifierBy (decompose : Text → List Nat) (t : Text) : Text :=
  spell (decompose t)

/-- The identifier made from a text: its runs of letters and digits in small
ASCII letters, with single underscores between them, and one in front of a
leading digit. -/
def identifier (t : Text) : Text :=
  identifierBy Text.decomposition t

end Naming

end ProtocolCorpus
