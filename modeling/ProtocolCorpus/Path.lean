import ProtocolCorpus.Text.Scalar

/-!
# Paths

Slash-separated paths as texts, handled lexically: no file system is asked. A
clean path has no empty, `.` or inner `..` segment.
-/

namespace ProtocolCorpus

namespace Path

def slash : UInt8 := 0x2F

def isAbsolute (p : Text) : Bool :=
  p.head? == some slash

/-- The segments of a path that name something: neither empty nor `.`. -/
def segments (p : Text) : List Text :=
  (Text.splitOn slash p).filter fun s => !(s.isEmpty || s == ".")

/-- One segment more on a path that is kept back to front; `..` takes the last
one away, and at the root it does nothing. -/
def push (rooted : Bool) (stack : List Text) (s : Text) : List Text :=
  if s == ".." then
    match stack with
    | [] => if rooted then [] else [s]
    | top :: rest => if top == ".." then s :: stack else rest
  else s :: stack

/-- The segments left when every `..` has taken its predecessor away. -/
def reduce (rooted : Bool) (segs : List Text) : List Text :=
  (segs.foldl (push rooted) []).reverse

/-- The shortest path that names the same place: `.` if nothing is left. -/
def clean (p : Text) : Text :=
  let body := Text.join "/" (reduce (isAbsolute p) (segments p))
  if isAbsolute p then slash :: body
  else if body.isEmpty then "." else body

/-- The clean path of the non-empty parts, one below the other; empty if there
is none. -/
def join (parts : List Text) : Text :=
  match parts.filter fun p => !p.isEmpty with
  | [] => []
  | ps => clean (Text.join "/" ps)

/-- The clean path of everything before the last slash. -/
def dir (p : Text) : Text :=
  match Text.cutLast slash p with
  | some (d, _) => clean (d ++ [slash])
  | none => "."

/-- The last segment, without slashes: `.` for the empty path, `/` for the root.
-/
def base (p : Text) : Text :=
  if p.isEmpty then "."
  else
    let body := (p.reverse.dropWhile (· == slash)).reverse
    if body.isEmpty then "/"
    else
      match Text.cutLast slash body with
      | some (_, b) => b
      | none => body

/-- The extension of the last segment, with its dot; empty if there is none. -/
def extension (p : Text) : Text :=
  let name := match Text.cutLast slash p with
    | some (_, b) => b
    | none => p
  match Text.cutLast 0x2E name with
  | some (_, e) => 0x2E :: e
  | none => []

def dropCommon : List Text → List Text → List Text × List Text
  | a :: as, b :: bs => if a = b then dropCommon as bs else (a :: as, b :: bs)
  | as, bs => (as, bs)

/-- The path that leads from a directory to a target, both read lexically. There
is none if only one of them is absolute, or if the directory lies above a place
that is not named. -/
def relative? (directory target : Text) : Option Text :=
  if isAbsolute directory != isAbsolute target then none
  else
    let reduced := fun p => reduce (isAbsolute p) (segments p)
    let (up, down) := dropCommon (reduced directory) (reduced target)
    if up.head? == some ".." then none
    else
      match up.map (fun _ => (".." : Text)) ++ down with
      | [] => some "."
      | parts => some (Text.join "/" parts)

def isWithin (directory target : Text) : Bool :=
  match relative? directory target with
  | none => false
  | some r => r != ".." && !Text.startsWith r "../"

end Path

end ProtocolCorpus
