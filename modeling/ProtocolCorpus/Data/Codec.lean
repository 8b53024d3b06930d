import ProtocolCorpus.Data.Tree

/-!
# Codecs

A codec says how a type is written as a tree and read back. The reader of a
format yields a `Datum`, in which a scalar is kept as everything it can be read
as, and says by its `Conventions` how keys are compared and what a null means.
Reading starts from a value that is already there, so a record that names a
field twice is read as two changes one after the other.
-/

namespace ProtocolCorpus

/-- Everything one scalar can be read as. -/
structure Views where
  text? : Option Text := none
  int? : Option Int := none
  word? : Option UInt32 := none
  bool? : Option Bool := none
  deriving DecidableEq, Repr, Inhabited

inductive Datum
  | null
  | scalar (views : Views)
  | list (items : List Datum)
  | record (members : List (Text × Datum))
  deriving Inhabited

def Datum.isNull : Datum → Bool
  | .null => true
  | _ => false

structure Conventions where
  names : (field key : Text) → Bool
  /-- A null resets what is there; otherwise it leaves scalars and records as
  they are. -/
  nullClears : Bool
  /-- A null is no item of a list. -/
  nullVanishes : Bool
  /-- A record may be given by its values alone, in order. -/
  positional : Bool

structure Codec (α : Type) where
  /-- What is there before anything is read. -/
  zero : α
  write : α → Tree
  read : Conventions → Datum → α → Option α

structure Field (σ : Type) where
  key : Text
  /-- The written field, unless it is left out. -/
  write : σ → Option Tree
  read : Conventions → Datum → σ → Option σ

namespace Codec

def ofView (zero : α) (write : α → Tree) (view : Views → Option α) :
    Codec α where
  zero := zero
  write := write
  read c d a :=
    match d with
    | .null => some (if c.nullClears then zero else a)
    | .scalar v => view v
    | _ => none

/-- A codec of another type, given how values go there and come back. -/
def via (inner : Codec β) (there : α → β) (back : β → α) : Codec α where
  zero := back inner.zero
  write a := inner.write (there a)
  read c d a := (inner.read c d (there a)).map back

def text : Codec Text :=
  ofView [] .text Views.text?

def int : Codec Int :=
  ofView 0 .int Views.int?

def nat : Codec Nat :=
  via int (fun n => n) Int.toNat

def word : Codec UInt32 :=
  ofView 0 (fun n => .int n.toNat) Views.word?

def bool : Codec Bool :=
  ofView false .bool Views.bool?

/-- Read items one after the other, each on top of the one that stood in its
place. -/
def readItems (read : Datum → α → Option α) (zero : α) : List Datum → List α →
    Option (List α)
  | [], _ => some []
  | d :: ds, there => do
    let a ← read d (there.head?.getD zero)
    let rest ← readItems read zero ds there.tail
    return a :: rest

def items (c : Conventions) (ds : List Datum) : List Datum :=
  if c.nullVanishes then ds.filter fun d => !d.isNull else ds

def list (item : Codec α) : Codec (List α) where
  zero := []
  write as := .list (as.map item.write)
  read c d as :=
    match d with
    | .null => some []
    | .list ds => readItems (item.read c) item.zero (items c ds) as
    | _ => none

def absentOr (item : Codec α) : Codec (Option (List α)) where
  zero := none
  write
    | some as => .list (as.map item.write)
    | none => .absent
  read c d as :=
    match d with
    | .null => some none
    | .list ds =>
      (readItems (item.read c) item.zero (items c ds) (as.getD [])).map some
    | _ => none

/-- Values that need not be there. Writing leaves the field out, so there is
nothing to write then. -/
def optional (inner : Codec α) : Codec (Option α) where
  zero := none
  write
    | some a => inner.write a
    | none => .absent
  read c d a :=
    match d with
    | .null => some none
    | d => (inner.read c d (a.getD inner.zero)).map some

def readMember (c : Conventions) (fields : List (Field σ)) (s : σ)
    (member : Text × Datum) : Option σ :=
  match fields.find? fun f => c.names f.key member.1 with
  | some f => f.read c member.2 s
  | none => some s

def readPositions (c : Conventions) : List (Field σ) → List Datum → σ → Option σ
  | [], [], s => some s
  | f :: fs, d :: ds, s => do readPositions c fs ds (← f.read c d s)
  | _, _, _ => none

/-- Records. Members that name no field are skipped. -/
def record (zero : σ) (fields : List (Field σ)) : Codec σ where
  zero := zero
  write s :=
    .record (fields.filterMap fun f => (f.write s).map fun t => (f.key, t))
  read c d s :=
    match d with
    | .null => some (if c.nullClears then zero else s)
    | .record ms => ms.foldlM (readMember c fields) s
    | .list ds =>
      if !c.positional then none
      else if ds.isEmpty then some zero
      else readPositions c fields ds s
    | .scalar _ => none

end Codec

namespace Field

/-- A field that is left out when the test holds. -/
def omitting (omitted : α → Bool) (key : Text) (codec : Codec α) (get : σ → α)
    (set : α → σ → σ) :
    Field σ where
  key := key
  write s := if omitted (get s) then none else some (codec.write (get s))
  read c d s := (codec.read c d (get s)).map fun a => set a s

def always (key : Text) (codec : Codec α) (get : σ → α)
    (set : α → σ → σ) : Field σ :=
  omitting (fun _ => false) key codec get set

def text (key : Text) (get : σ → Text) (set : Text → σ → σ) : Field σ :=
  omitting List.isEmpty key Codec.text get set

/-- An integer that is left out if it is zero. -/
def int (key : Text) (get : σ → Int) (set : Int → σ → σ) : Field σ :=
  omitting (· == 0) key Codec.int get set

/-- A truth value that is left out if it is false. -/
def flag (key : Text) (get : σ → Bool) (set : Bool → σ → σ) : Field σ :=
  omitting (!·) key Codec.bool get set

def list (key : Text) (item : Codec α) (get : σ → List α)
    (set : List α → σ → σ) : Field σ :=
  omitting List.isEmpty key (Codec.list item) get set

def optional (key : Text) (inner : Codec α) (get : σ → Option α)
    (set : Option α → σ → σ) : Field σ :=
  omitting Option.isNone key (Codec.optional inner) get set

end Field

end ProtocolCorpus
