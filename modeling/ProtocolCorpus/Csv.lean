import ProtocolCorpus.Text.Basic

/-!
# Records of comma-separated values

The fields of a record stand between commas. A field in double quotes may hold
commas, line ends and, if they are doubled, quotes.
-/

namespace ProtocolCorpus

namespace Csv

/-- Why there is no record. Lines and columns count from one. -/
inductive RecordError
  /-- The text has empty lines only. -/
  | nothing
  /-- A quote inside a field that does not start with one. -/
  | bareQuote (first line column : Nat)
  /-- A field in quotes goes on behind its last quote, or has none. -/
  | looseQuote (first line column : Nat)
  deriving DecidableEq, Repr

namespace RecordError

def place (first line column : Nat) : Text :=
  (if first = line then [] else "record on line " ++ Text.ofNat first ++ "; ")
    ++ "parse error on line " ++ Text.ofNat line ++ ", column " ++
    Text.ofNat column ++ ": "

def message : RecordError → Text
  | .nothing => "EOF"
  | .bareQuote first line column =>
  place first line column ++ "bare \" in non-quoted field"
  | .looseQuote first line column =>
    place first line column ++ "extraneous or missing \" in quoted-field"

end RecordError

inductive Mode
  | start
  | plain
  | quoted
  /-- Behind a quote that ends the field or is the first of two. -/
  | closing
  deriving DecidableEq, Repr

/-- The fields of the record that goes on here. The field in hand and the fields
before it are kept in reverse order. -/
def fields (first : Nat) (mode : Mode) (line column : Nat) (field : Text)
    (done : List Text) :
    Text → Except RecordError (List Text)
  | [] =>
    if mode = .quoted then .error (.looseQuote first line column)
    else .ok (field.reverse :: done).reverse
  | b :: t =>
    match mode with
    | .quoted =>
      if b = 0x22 then fields first .closing line (column + 1) field done t
      else if b = 0x0A && !t.isEmpty then
        fields first .quoted (line + 1) 1 (b :: field) done t
      else fields first .quoted line (column + 1) (b :: field) done t
    | _ =>
      if b = 0x2C then
        fields first .start line (column + 1) [] (field.reverse :: done) t
      else if b = 0x0A then .ok (field.reverse :: done).reverse
      else
        match mode with
        | .start =>
          if b = 0x22 then fields first .quoted line (column + 1) [] done t
          else fields first .plain line (column + 1) [b] done t
        | .plain =>
          if b = 0x22 then .error (.bareQuote first line column)
          else fields first .plain line (column + 1) (b :: field) done t
        | _ =>
          if b = 0x22 then
            fields first .quoted line (column + 1) (b :: field) done t
          else .error (.looseQuote first line (column - 1))

/-- The text with plain line ends, and without a carriage return at its end. -/
def unify (t : Text) : Text :=
  let t := Text.foldReturns t
  (Text.stripBack? [0x0D] t).getD t

def record (t : Text) : Except RecordError (List Text) :=
  let t := unify t
  let rest := t.dropWhile (· = 0x0A)
  let first := t.length - rest.length + 1
  if rest.isEmpty then .error .nothing
  else fields first .start first 1 [] [] rest

/-- A list of values as it is read back after it was written as a record: one
empty value is the same as none, and line ends are plain. -/
def settle (values : List Text) : List Text :=
  if values = [[]] then [] else values.map Text.foldReturns

end Csv

end ProtocolCorpus
