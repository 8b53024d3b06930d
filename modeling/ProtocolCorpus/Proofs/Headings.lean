import ProtocolCorpus.Proofs.Completeness
import ProtocolCorpus.Proofs.DocumentOrder

/-!
# What documents read of each other

A reference is looked up by the names of interfaces and by their enumerations.
No lookup reads a message, and nothing but messages is written while documents
are resolved and laid out. The heading of an interface is what is left without
its messages: registries and lookups are told here by headings alone.
-/

namespace ProtocolCorpus

/-! ## Headings -/

def Interface.heading (i : Interface) : Interface :=
  { i with requests := [], events := [] }

def Protocol.heading (p : Protocol) : Protocol :=
  { p with
    interfaces := p.interfaces.map Interface.heading, nullRun := 0, typeTable :=
      [] }

def Document.heading (d : Document) : Document :=
  d.mapProtocol Protocol.heading

def Owner.heading (o : Owner) : Owner :=
  { o with declaration := o.declaration.heading }

def Registry.heading (r : Registry) : Registry :=
  { r with declarations := r.declarations.map Owner.heading }

namespace Document

theorem interfaces_heading (d : Document) :
    d.heading.interfaces = d.interfaces.map Interface.heading := by
  unfold interfaces heading mapProtocol
  cases d.protocol with
  | none => rfl
  | some p => rfl

theorem protocolName_heading (d : Document) :
    Alias.protocolName d.heading = Alias.protocolName d := by
  unfold Alias.protocolName heading mapProtocol
  cases d.protocol with
  | none => rfl
  | some p => rfl

theorem interface?_heading (d : Document) (name : Text) :
    d.heading.interface? name = (d.interface? name).map Interface.heading := by
  unfold interface? heading mapProtocol
  cases d.protocol with
  | none => rfl
  | some p =>
    change (p.interfaces.map Interface.heading).find?
      (fun i => i.name == name) = _
    rw [List.find?_map]
    rfl

end Document

theorem Interface.heading_mapMessages (f : Message → Message) (i : Interface) :
    (i.mapMessages f).heading = i.heading :=
  rfl

theorem Resolution.heading_document (r : Registry) (d : Document) :
    (document r d).heading = d.heading := by
  unfold document Document.heading Document.mapProtocol
  cases d.protocol with
  | none => rfl
  | some p =>
    simp [Protocol.heading, Function.comp_def, Interface.heading_mapMessages]

theorem Protocol.heading_unplaced (p : Protocol) :
    p.unplaced.heading = p.heading := by
  simp [unplaced, mapMessages, heading, Function.comp_def,
    Interface.heading_mapMessages]

theorem Document.heading_layOut
    {d d' : Document} (h : d.layOut = .ok d') :
    d'.heading = d.heading := by
  unfold layOut at h
  split at h
  next =>
    cases h
    rfl
  next p hp =>
    obtain ⟨q, hq, rfl⟩ := Chain.map_eq_ok_iff.1 h
    have hsame : q.heading = p.heading := by
      rw [← Protocol.heading_unplaced q, Protocol.unplaced_layOut hq,
        Protocol.heading_unplaced]
    simp [heading, mapProtocol, hp, hsame]

/-! ## Registries of documents that are written to -/

namespace Alias

theorem candidates_heading (d : Document) :
    candidates d.heading = candidates d := by
  unfold candidates
  rw [Document.protocolName_heading, Document.interfaces_heading, List.map_map]
  rfl

theorem assign?_heading (rules : NamingRules) (bound : AliasTable)
    (d : Document) :
    assign? rules bound d.heading = assign? rules bound d := by
  unfold assign? fallback
  rw [candidates_heading, Document.protocolName_heading]
  rfl

end Alias

namespace Registry

variable {docs docs' : List Document} {r : Registry}

def undeclared (r : Registry) : Registry :=
  { r with declarations := [] }

theorem register_heading (d : Document) (name : Text) (root : Bool) :
    register d.heading name root = register d name root := by
  unfold register
  rw [Document.protocolName_heading]
  rfl

theorem isRoot_heading (r : Registry) (d : Document) :
    r.isRoot d.heading = r.isRoot d := by
  unfold isRoot
  rw [Document.protocolName_heading]

/-- How a document is added depends on its heading, and not on the declarations
there are. -/
theorem map_undeclared_add_heading (r : Registry) (d : Document) :
    (r.undeclared.add d.heading).map undeclared = (r.add d).map undeclared := by
  have hnew : r.undeclared.document? d.heading.path = r.document? d.path := rfl
  have hroot : r.undeclared.isRoot d.heading = r.isRoot d := isRoot_heading r d
  have hname : Alias.assign? r.undeclared.rules r.undeclared.aliases d.heading =
      Alias.assign? r.rules r.aliases d :=
    Alias.assign?_heading r.rules r.aliases d
  have hrules : r.undeclared.rules = r.rules := rfl
  unfold add
  rw [hnew, hroot, hname, hrules]
  split
  next => rfl
  next =>
    dsimp only
    cases (if r.isRoot d then some r.rules.rootAlias
      else Alias.assign? r.rules r.aliases d) with
    | none => rfl
    | some name =>
      dsimp only
      rw [register_heading]
      rfl

theorem map_undeclared_foldlM_add
    (hdocs : docs.map Document.heading = docs'.map Document.heading)
    {r' : Registry} (hr : r.undeclared = r'.undeclared) :
    (docs.foldlM add r).map undeclared =
      (docs'.foldlM add r').map undeclared := by
  induction docs generalizing docs' r r' with
  | nil =>
    rw [List.map_nil, eq_comm, List.map_eq_nil_iff] at hdocs
    rw [hdocs]
    exact congrArg Except.ok hr
  | cons d docs ih =>
    cases docs' with
    | nil => cases hdocs
    | cons d' docs' =>
      obtain ⟨hhead, hrest⟩ := List.cons.inj hdocs
      have hadd : (r.add d).map undeclared = (r'.add d').map undeclared := by
        rw [← map_undeclared_add_heading, hr, hhead, map_undeclared_add_heading]
      rw [List.foldlM_cons, List.foldlM_cons]
      cases hs : r.add d with
      | error e =>
        cases hs' : r'.add d' with
        | error e' =>
          rw [hs, hs'] at hadd
          cases hadd
          rfl
        | ok s' =>
          rw [hs, hs'] at hadd
          cases hadd
      | ok s =>
        cases hs' : r'.add d' with
        | error e' =>
          rw [hs, hs'] at hadd
          cases hadd
        | ok s' =>
          rw [hs, hs'] at hadd
          exact ih hrest (Except.ok.inj hadd)

/-- The registry as it is read when the documents have been written to. -/
def live (r : Registry) (docs : List Document) : Registry :=
  { r with
    declarations := (docs.zip r.documents).flatMap fun x =>
      declarationsOf x.1 x.2 }

theorem live_of_indexed (h : Indexed docs r) :
    r.live docs = r := by
  rw [live, ← h.declared]

/-- Documents that have been written to lead to the registry that is there
already. -/
theorem build_eq_live {rules : NamingRules} (h : build rules docs = .ok r)
    (hdocs : docs'.map Document.heading = docs.map Document.heading) :
    build rules docs' = .ok (r.live docs') := by
  have hsame : (build rules docs').map undeclared = .ok r.undeclared := by
    rw [build, map_undeclared_foldlM_add hdocs rfl,
      show docs.foldlM add _ = _ from h]
    rfl
  obtain ⟨r', hr', hundeclared⟩ := Chain.map_eq_ok_iff.1 hsame
  have hlive : r.live docs' = r'.live docs' := by
    have hregister : r.undeclared.live docs' = r'.undeclared.live docs' := by
      rw [hundeclared]
    exact hregister
  rw [hr', hlive, live_of_indexed (indexed_of_build hr').2]

theorem heading_declarationsOf (d : Document) (m : Registration) :
    (declarationsOf d m).map Owner.heading = declarationsOf d.heading m := by
  rw [declarationsOf, declarationsOf, Document.interfaces_heading, List.map_map,
    List.map_map]
  rfl

theorem heading_live
    (hdocs : docs'.map Document.heading = docs.map Document.heading)
    (r : Registry) :
    (r.live docs').heading = (r.live docs).heading := by
  have hlive : ∀ ds : List Document, (r.live ds).heading.declarations =
      ((ds.map Document.heading).zip r.documents).flatMap fun x =>
      declarationsOf x.1 x.2 := by
    intro ds
    rw [List.zip_map_left, List.flatMap_map]
    change List.map Owner.heading _ = _
    rw [live, List.map_flatMap]
    simp only [heading_declarationsOf]
    rfl
  have hdeclarations := (hlive docs').trans (hdocs ▸ (hlive docs).symm)
  exact congrArg (fun ds => { r with declarations := ds }) hdeclarations

end Registry

/-! ## Lookups -/

namespace Registry

theorem owners_heading (r : Registry) (name : Text) :
    r.heading.owners name = (r.owners name).map Owner.heading := by
  rw [owners, owners, List.map_mergeSort (f := Owner.heading)
    (s := Owner.ordered)]
  · rw [heading, List.filter_map]
    rfl
  · intro a _ b _
    rfl

theorem rootOwner?_heading (r : Registry) (name : Text) :
    r.heading.rootOwner? name = (r.rootOwner? name).map Owner.heading := by
  rw [rootOwner?, rootOwner?, owners_heading, List.find?_map]
  rfl

end Registry

def Target.heading (t : Target) : Target :=
  { t with owner := t.owner.map Owner.heading }

def EnumTarget.heading (t : EnumTarget) : EnumTarget :=
  { t with owner := t.owner.map Owner.heading }

namespace Resolution

theorem unasked_heading (q : Query) :
    Unasked q Owner.heading := by
  intro step o
  cases step with
  | _ => rfl

theorem owner_heading (r : Registry) (d : Document) (name : Text)
    (unresolved ambiguous : Code) :
    owner r.heading d.heading name unresolved ambiguous =
      mapAnswer Owner.heading Owner.heading
      (owner r d name unresolved ambiguous) := by
  rw [owner_eq_choose, owner_eq_choose, Registry.owners_heading,
    ← choose_map (unasked_heading _)]
  rfl

theorem interface_heading (r : Registry) (d : Document) (name : Text) :
    interface r.heading d.heading name = mapAnswer Owner.heading Target.heading
    (interface r d name) := by
  have hrules : r.heading.rules = r.rules := rfl
  unfold interface
  rw [Document.interface?_heading, hrules]
  cases d.interface? name with
  | some i => rfl
  | none =>
    dsimp only [Option.map_none]
    cases stripRoot? r.rules.rootStart name with
    | some rest => rfl
    | none =>
      dsimp only
      rw [owner_heading]
      cases owner r d name .unresolvedInterface .ambiguousInterface with
      | error e => rfl
      | ok o => rfl

theorem withEnum_heading (reference : Reference) (i : Option Interface)
    (enumName : Text) :
    withEnum reference (i.map Interface.heading) enumName =
      withEnum reference i enumName := by
  cases i with
  | none => rfl
  | some i => rfl

theorem enumeration_heading (r : Registry) (d : Document) (i : Interface)
    (written : Text) :
    enumeration r.heading d.heading i.heading written =
      mapAnswer Owner.heading EnumTarget.heading
      (enumeration r d i written) := by
  have hrules : r.heading.rules = r.rules := rfl
  unfold enumeration
  cases Text.cut 0x2E written with
  | none => rfl
  | some parts =>
    obtain ⟨name, enumName⟩ := parts
    dsimp only
    rw [Document.interface?_heading, hrules]
    cases d.interface? name with
    | some j => rfl
    | none =>
      dsimp only [Option.map_none]
      cases stripRoot? r.rules.rootStart name with
      | some rest =>
        dsimp only
        have hroot : (r.heading.rootOwner? name).map Owner.declaration =
            ((r.rootOwner? name).map Owner.declaration).map
            Interface.heading := by
          rw [Registry.rootOwner?_heading, Option.map_map, Option.map_map]
          rfl
        rw [hroot, withEnum_heading]
        rfl
      | none =>
        dsimp only
        rw [owner_heading]
        cases owner r d name .unresolvedEnumOwner .ambiguousEnumOwner with
        | error e => rfl
        | ok o => rfl

theorem argument_heading (r : Registry) (d : Document) (i : Interface)
    (a : Argument) :
    argument r.heading d.heading i.heading a = argument r d i a := by
  unfold argument
  rw [interface_heading, enumeration_heading]
  cases interface r d a.interface with
  | error e =>
    cases enumeration r d i a.enum with
    | error e' => rfl
    | ok t => rfl
  | ok t =>
    cases enumeration r d i a.enum with
    | error e' => rfl
    | ok t' => rfl

/-! ## What is found on the way -/

def Progress.heading (p : Progress) : Progress :=
  { p with edges := p.edges.map fun e => (e.1, e.2.heading) }

theorem lookup_map_heading (edges : List (Text × Owner)) (name : Text) :
    (edges.map fun e => (e.1, e.2.heading)).lookup name =
    (edges.lookup name).map Owner.heading := by
  induction edges with
  | nil => rfl
  | cons e edges ih =>
    rw [List.map_cons, List.lookup_cons, List.lookup_cons, ih]
    split
    next => rfl
    next => rfl

theorem Progress.heading_need
    (p : Progress) (r : Registry) (d : Document) (place : Coordinates)
    (span : Span) (o : Owner) :
    p.heading.need r.heading d.heading place span o.heading =
      (p.need r d place span o).heading := by
  have hdocument : o.heading.document = o.document := rfl
  have hpath : d.heading.path = d.path := rfl
  have halias : o.heading.aliasName = o.aliasName := rfl
  have hregistered : r.heading.document? o.document = r.document? o.document :=
    rfl
  have hedges : p.heading.edges = p.edges.map fun e => (e.1, e.2.heading) := rfl
  unfold need
  rw [hdocument, hpath, halias, hregistered, hedges, lookup_map_heading,
    apply_ite heading, apply_ite heading]
  congr 2
  cases p.edges.lookup o.aliasName with
  | none => simp [heading, Owner.heading]
  | some first =>
    dsimp only [Option.map_some]
    rw [apply_ite heading]
    rfl

theorem Progress.heading_needOwner
    (p : Progress) (r : Registry) (d : Document) (place : Coordinates)
    (span : Span) (o? : Option Owner) :
    p.heading.needOwner r.heading d.heading place span (o?.map Owner.heading) =
      (p.needOwner r d place span o?).heading := by
  cases o? with
  | none => rfl
  | some o => exact p.heading_need r d place span o

theorem Progress.heading_fail
    (p : Progress) (d : Document) (place : Coordinates) (span : Span)
    (e : LookupError) :
    p.heading.fail d.heading place span { e with
        candidates := e.candidates.map Owner.heading } =
      (p.fail d place span e).heading := by
  have hcandidates : (e.candidates.map Owner.heading).map candidate =
      e.candidates.map candidate := by
    rw [List.map_map]
    rfl
  unfold fail
  dsimp only
  rw [hcandidates]
  rfl

theorem visitInterface_heading
    (r : Registry) (d : Document) (place : Coordinates) (p : Progress)
    (a : Argument) :
    visitInterface r.heading d.heading place p.heading a =
      (visitInterface r d place p a).heading := by
  unfold visitInterface
  rw [interface_heading, apply_ite Progress.heading]
  congr 1
  cases interface r d a.interface with
  | error e => exact p.heading_fail d place a.span e
  | ok t => exact p.heading_needOwner r d place a.span t.owner

theorem visitEnum_heading
    (r : Registry) (d : Document) (i : Interface) (place : Coordinates)
    (p : Progress) (a : Argument) :
    visitEnum r.heading d.heading i.heading place p.heading a =
      (visitEnum r d i place p a).heading := by
  unfold visitEnum
  rw [enumeration_heading, apply_ite Progress.heading]
  congr 1
  cases enumeration r d i a.enum with
  | error e => exact p.heading_fail d place a.span e
  | ok t =>
    have howner := p.heading_needOwner r d place a.span t.owner
    dsimp only [mapAnswer, EnumTarget.heading]
    rw [howner, apply_ite Progress.heading, apply_ite Progress.heading]
    rfl

end Resolution

/-- The site with the heading of its interface, and with nothing of its message
but the name. -/
def Site.heading (s : Site) : Site where
  interface := s.interface.heading
  message := { name := s.message.name }
  argument := s.argument

namespace Resolution

/-- What an argument adds can be told from headings. -/
theorem visitSite_heading (r : Registry) (d : Document) (p : Progress)
    (s : Site) :
    visitSite r.heading d.heading p.heading s.heading =
      (visitSite r d p s).heading := by
  have hplace : s.heading.place (Alias.protocolName d.heading) =
      s.place (Alias.protocolName d) := by
    rw [Document.protocolName_heading]
    rfl
  unfold visitSite
  rw [hplace]
  change visitEnum r.heading d.heading s.interface.heading _
    (visitInterface r.heading d.heading _ p.heading s.argument) s.argument = _
  rw [visitInterface_heading, visitEnum_heading]

theorem imports_heading (d : Document) (p : Progress) :
    imports d.heading p.heading.edges = imports d p.edges := by
  have hsorted : (p.edges.map fun e => (e.1, e.2.heading)).mergeSort
      (fun a b => Text.le a.1 b.1) =
      (p.edges.mergeSort fun a b => Text.le a.1 b.1).map fun e =>
      (e.1, e.2.heading) := by
    rw [List.map_mergeSort (s := fun a b : Text × Owner => Text.le a.1 b.1)]
    intro a _ b _
    rfl
  unfold imports Progress.heading
  rw [hsorted, List.map_map]
  rfl

end Resolution

end ProtocolCorpus
