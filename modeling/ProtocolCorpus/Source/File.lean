import ProtocolCorpus.Digest
import ProtocolCorpus.Path
import ProtocolCorpus.Source.Span

/-!
# Source files

Source files are numbered in the order they are added, and a file added again
gets a new number. Their content is stored with line feeds as the only line ends
and without a byte order mark, so that spans, lines and digests do not depend on
how a file was saved.
-/

namespace ProtocolCorpus

namespace Source

/-- What was done to a file on its way in, one bit each. -/
structure Treatment where
  bits : UInt8 := 0
  deriving DecidableEq, Repr, Inhabited

namespace Treatment

def fromMemory : Treatment := ⟨1⟩

def markRemoved : Treatment := ⟨2⟩

def returnsRemoved : Treatment := ⟨4⟩

def has (t u : Treatment) : Bool :=
  t.bits &&& u.bits != 0

end Treatment

/-- A file with its number, its clean path and what is computed from its
content. -/
structure File where
  id : UInt32
  path : Text
  content : Text
  newlines : List UInt32
  digest : Text
  treatment : Treatment
  deriving Repr, Inhabited

/-- The offsets of the line feeds of a text that starts at the given offset. -/
def newlinesFrom (offset : Nat) : Text → List UInt32
  | [] => []
  | b :: t =>
    if b = 0x0A then UInt32.ofNat offset :: newlinesFrom (offset + 1) t
    else newlinesFrom (offset + 1) t

/-- How many of the ascending offsets `newlines` stand before `offset`. The
number lies between `low` and `high`, and the offset in the middle tells which
half to search. -/
def countBefore (newlines : List UInt32) (offset : UInt32) (low high : Nat)
    (h : high ≤ newlines.length) :
    Nat :=
  if hlow : low < high then
    have hmiddle : (low + high) / 2 < newlines.length := by omega
    if newlines[(low + high) / 2] < offset then
      countBefore newlines offset ((low + high) / 2 + 1) high h
    else countBefore newlines offset low ((low + high) / 2)
      (Nat.le_of_lt hmiddle)
  else low
termination_by high - low

/-- Where the line behind the given number of line feeds starts, if there are as
many. Words wrap. -/
def lineStart? (newlines : List UInt32) : Nat → Option UInt32
  | 0 => some 0
  | before + 1 => (newlines[before]?).map (· + 1)

/-- Where the line behind the given number of line feeds stops in a content of
the given length. -/
def lineStop (newlines : List UInt32) (length before : Nat) : Nat :=
  match newlines[before]? with
  | some o => o.toNat
  | none => length

/-- The position of an offset, given the offsets of the line feeds: the line
follows the number of line feeds before the offset. Words wrap. -/
def position (newlines : List UInt32) (offset : UInt32) : Position :=
  let before := countBefore newlines offset 0 newlines.length (Nat.le_refl _)
  let start := (lineStart? newlines before).getD 0
  ⟨UInt32.ofNat (before + 1), offset - start + 1⟩

namespace File

/-- The text of a line, counted from one, without its line feed; empty for a
line that is not there. -/
def line (f : File) (n : UInt32) : Text :=
  if n = 0 then []
  else
    let before := n.toNat - 1
    match lineStart? f.newlines before with
    | none => []
    | some start =>
      (f.content.take (lineStop f.newlines f.content.length before)).drop
        start.toNat

end File

/-- The content without a leading byte order mark, and whether there was one. -/
def dropMark : Text → Text × Bool
  | 0xEF :: 0xBB :: 0xBF :: t => (t, true)
  | t => (t, false)

/-- The content with line feeds as line ends, and whether that changed anything.
-/
def dropReturns (t : Text) : Text × Bool :=
  let folded := Text.foldReturns t
  (folded, folded.length != t.length)

/-- All files known so far, and the directory that displayed paths are relative
to. -/
structure Files where
  files : Array File := #[]
  base : Text := []
  deriving Repr, Inhabited

namespace Files

def size (s : Files) : Nat :=
  s.files.size

def get? (s : Files) (id : UInt32) : Option File :=
  s.files[id.toNat]?

def add (s : Files) (path content : Text) (treatment : Treatment) :
    Files × File :=
  let file : File := {
    id := UInt32.ofNat s.files.size
    path := Path.clean path
    content := content
    newlines := newlinesFrom 0 content
    digest := Digest.sha256 content
    treatment := treatment }
  ({ s with files := s.files.push file }, file)

/-- A file as it is read from storage: mark and carriage returns are removed
first. -/
def load (s : Files) (path raw : Text) : Files × File :=
  let (unmarked, hadMark) := dropMark raw
  let (content, hadReturns) := dropReturns unmarked
  s.add path content
    ⟨(if hadMark then 2 else 0) ||| (if hadReturns then 4 else 0)⟩

def addFromMemory (s : Files) (path content : Text) : Files × File :=
  s.add path content .fromMemory

def withBase (s : Files) (dir : Text) : Files :=
  { s with base := Path.clean dir }

/-- The number of the file added last under a path. -/
def latest? (s : Files) (path : Text) : Option UInt32 :=
  (s.files.toList.reverse.find? fun f => f.path == Path.clean path).map File.id

/-- The positions of both ends of a span; unknown positions for an unknown file.
-/
def resolve (s : Files) (span : Span) : Position × Position :=
  match s.get? span.file with
  | some f => (position f.newlines span.start, position f.newlines span.stop)
  | none => ({}, {})

/-- The path of a file as it is shown: relative to the base directory if it lies
below it. -/
def displayPath (s : Files) (id : UInt32) : Text :=
  match s.get? id with
  | none => []
  | some f =>
    if s.base.isEmpty || s.base == "." then f.path
    else
      let root := (Text.stripBack? "/" s.base).getD s.base ++ "/"
      (Text.stripFront? root f.path).getD f.path

/-- What the digest of all files is taken of: path, a zero byte and content
digest of each in turn. -/
def digestInput (s : Files) : Text :=
  s.files.toList.flatMap fun f => Path.clean f.path ++ [0] ++ f.digest

def digest (s : Files) : Text :=
  Digest.sha256 s.digestInput

end Files

end Source

end ProtocolCorpus
