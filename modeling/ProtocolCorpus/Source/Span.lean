import ProtocolCorpus.Text.Basic

/-!
# Spans

A span is a half-open range of byte offsets in a numbered source file. Offsets
are 32-bit words.
-/

namespace ProtocolCorpus

/-- The bytes from `start` up to, not including, `stop` of the file with number
`file`. -/
structure Span where
  file : UInt32 := 0
  start : UInt32 := 0
  stop : UInt32 := 0
  deriving DecidableEq, Repr, Inhabited

namespace Span

/-- The span of no file in particular: all three numbers are zero. -/
def isZero (s : Span) : Bool :=
  s == {}

/-- The number of bytes covered; an inverted span covers none. -/
def length (s : Span) : UInt32 :=
  if s.stop < s.start then 0 else s.stop - s.start

/-- The smallest span around both; a span of another file changes nothing. -/
def cover (s t : Span) : Span :=
  if s.file = t.file then ⟨s.file, min s.start t.start, max s.stop t.stop⟩
  else s

/-- The span as `file#1[2:3)`. -/
def describe (s : Span) : Text :=
  "file#" ++ Text.ofNat s.file.toNat ++ "[" ++ Text.ofNat s.start.toNat ++ ":"
    ++ Text.ofNat s.stop.toNat ++ ")"

end Span

/-- A line and a column, both counted from one; zero stands for an unknown
place. -/
structure Position where
  line : UInt32 := 0
  column : UInt32 := 0
  deriving DecidableEq, Repr, Inhabited

end ProtocolCorpus
