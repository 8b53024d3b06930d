import Mathlib.Tactic.MkIffOfInductiveProp
import ProtocolCorpus.Interchange.Basic
import ProtocolCorpus.Proofs.Codec

/-!
# Records of the interchange form that come back

Every record of the interchange form is written field by field, and the fields
that are left out depend on the value. In whatever medium, a record comes back
as long as its texts, its integers and the lengths of its lists are within the
limits of the medium.
-/

namespace ProtocolCorpus.Interchange

/-! ## Records within limits -/

def Reference.Within (l : Limits) (r : Reference) : Prop :=
  l.text r.qualifier ∧ l.text r.name ∧ l.text r.target

def EnumReference.Within (l : Limits) (r : EnumReference) : Prop :=
  l.text r.qualifier ∧ l.text r.name

@[mk_iff]
structure Argument.Within (l : Limits) (a : Argument) : Prop where
  name : l.text a.name
  kind : l.text a.kind
  summary : l.text a.summary
  interface : ∀ r ∈ a.interface, r.Within l
  enum : ∀ r ∈ a.enum, r.Within l

@[mk_iff]
structure Message.Within (l : Limits) (m : Message) : Prop where
  name : l.text m.name
  since : l.int m.since
  deprecatedSince : l.int m.deprecatedSince
  summary : l.text m.summary
  typeIndex : l.int m.typeIndex
  result : ∀ a ∈ m.result, a.Within l
  args_length : l.length m.args.length
  args : ∀ a ∈ m.args, a.Within l

@[mk_iff]
structure Entry.Within (l : Limits) (e : Entry) : Prop where
  name : l.text e.name
  since : l.int e.since
  summary : l.text e.summary

@[mk_iff]
structure Enumeration.Within (l : Limits) (e : Enumeration) : Prop where
  name : l.text e.name
  since : l.int e.since
  entries_length : ∀ es ∈ e.entries, l.length es.length
  entries : ∀ es ∈ e.entries, ∀ x ∈ es, x.Within l

@[mk_iff]
structure Interface.Within (l : Limits) (i : Interface) : Prop where
  name : l.text i.name
  shortName : l.text i.shortName
  version : l.int i.version
  summary : l.text i.summary
  enums_length : l.length i.enums.length
  enums : ∀ e ∈ i.enums, e.Within l
  requests_length : l.length i.requests.length
  requests : ∀ m ∈ i.requests, m.Within l
  events_length : l.length i.events.length
  events : ∀ m ∈ i.events, m.Within l

@[mk_iff]
structure Import.Within (l : Limits) (i : Import) : Prop where
  aliasName : l.text i.aliasName
  document : l.text i.document
  importPath : l.text i.importPath
  relativePath : l.text i.relativePath

@[mk_iff]
structure Document.Within (l : Limits) (d : Document) : Prop where
  path : l.text d.path
  importPath : l.text d.importPath
  protocol : l.text d.protocol
  module : l.text d.module
  aliasName : l.text d.aliasName
  hash : l.text d.hash
  imports_length : l.length d.imports.length
  imports : ∀ i ∈ d.imports, i.Within l
  copyright : l.text d.copyright
  summary : l.text d.summary
  nullRun : l.int d.nullRun
  typeTable_length : ∀ ts ∈ d.typeTable, l.length ts.length
  typeTable : ∀ ts ∈ d.typeTable, ∀ t ∈ ts, l.text t
  interfaces_length : ∀ is ∈ d.interfaces, l.length is.length
  interfaces : ∀ is ∈ d.interfaces, ∀ i ∈ is, i.Within l

/-- Every text, every integer and the length of every list of the corpus is
within the limits. -/
@[mk_iff]
structure Corpus.Within (l : Limits) (c : Corpus) : Prop where
  schema : l.int c.schema
  emitOrder_length : ∀ ts ∈ c.emitOrder, l.length ts.length
  emitOrder : ∀ ts ∈ c.emitOrder, ∀ t ∈ ts, l.text t
  documents_length : ∀ ds ∈ c.documents, l.length ds.length
  documents : ∀ ds ∈ c.documents, ∀ d ∈ ds, d.Within l

section

variable {l : Limits} [DecidablePred l.text] [DecidablePred l.int]
  [DecidablePred l.length]

instance : DecidablePred (Reference.Within l) := fun r =>
  inferInstanceAs
    (Decidable (l.text r.qualifier ∧ l.text r.name ∧ l.text r.target))

instance : DecidablePred (EnumReference.Within l) := fun r =>
  inferInstanceAs (Decidable (l.text r.qualifier ∧ l.text r.name))

instance : DecidablePred (Argument.Within l) := fun a =>
  decidable_of_iff _ (Argument.within_iff l a).symm

instance : DecidablePred (Message.Within l) := fun m =>
  decidable_of_iff _ (Message.within_iff l m).symm

instance : DecidablePred (Entry.Within l) := fun e =>
  decidable_of_iff _ (Entry.within_iff l e).symm

instance : DecidablePred (Enumeration.Within l) := fun e =>
  decidable_of_iff _ (Enumeration.within_iff l e).symm

instance : DecidablePred (Interface.Within l) := fun i =>
  decidable_of_iff _ (Interface.within_iff l i).symm

instance : DecidablePred (Import.Within l) := fun i =>
  decidable_of_iff _ (Import.within_iff l i).symm

instance : DecidablePred (Document.Within l) := fun d =>
  decidable_of_iff _ (Document.within_iff l d).symm

instance : DecidablePred (Corpus.Within l) := fun c =>
  decidable_of_iff _ (Corpus.within_iff l c).symm

end

/-! ## Records that come back -/

open ProtocolCorpus.Codec ProtocolCorpus.Field

variable {M : Medium}

theorem record_write_ne_absent {σ : Type} (zero : σ) (fields : List (Field σ))
    (s : σ) :
    (record zero fields).write s ≠ .absent := by
  intro h
  cases h

theorem text_write_ne_absent (t : Text) : Codec.text.write t ≠ .absent := by
  intro h
  cases h

-- In each record the fields are set one after the other on top of the empty
-- record; a field that has not been set yet is empty by definition, and when
-- all have been set the record is there.

theorem Reference.keeps
    {r : Reference} (h : r.Within M.limits) :
    Reference.codec.Keeps M r := by
  refine keeps_record ⟨by decide, by decide, by decide⟩ ?_
  refine .cons (passes_text h.1 rfl rfl) ?_
  refine .cons (passes_always (keeps_text h.2.1) rfl rfl) ?_
  refine .cons (passes_always (keeps_text h.2.2) rfl rfl) ?_
  exact .nil r

theorem EnumReference.keeps
    {r : EnumReference} (h : r.Within M.limits) :
    EnumReference.codec.Keeps M r := by
  refine keeps_record ⟨by decide, by decide, by decide⟩ ?_
  refine .cons (passes_text h.1 rfl rfl) ?_
  refine .cons (passes_always (keeps_text h.2) rfl rfl) ?_
  refine .cons (passes_flag rfl rfl) ?_
  refine .cons (passes_always (keeps_bool r.found) rfl rfl) ?_
  exact .nil r

theorem Argument.keeps
    {a : Argument} (h : a.Within M.limits) :
    Argument.codec.Keeps M a := by
  have hinterface : (Codec.optional Reference.codec).Keeps M a.interface :=
    keeps_optional (fun r hr => Reference.keeps (h.interface r hr))
      (record_write_ne_absent _ _)
  have henum : (Codec.optional EnumReference.codec).Keeps M a.enum :=
    keeps_optional (fun r hr => EnumReference.keeps (h.enum r hr))
      (record_write_ne_absent _ _)
  refine keeps_record ⟨by decide, by decide, by decide⟩ ?_
  refine .cons (passes_always (keeps_text h.name) rfl rfl) ?_
  refine .cons (passes_always (keeps_text h.kind) rfl rfl) ?_
  refine .cons (passes_flag rfl rfl) ?_
  refine .cons (passes_text h.summary rfl rfl) ?_
  refine .cons (passes_optional hinterface rfl rfl) ?_
  refine .cons (passes_optional henum rfl rfl) ?_
  exact .nil a

theorem Message.keeps
    {m : Message} (h : m.Within M.limits) :
    Message.codec.Keeps M m := by
  have hresult : (Codec.optional Argument.codec).Keeps M m.result :=
    keeps_optional (fun a ha => Argument.keeps (h.result a ha))
      (record_write_ne_absent _ _)
  have hargs : (Codec.list Argument.codec).Keeps M m.args :=
    keeps_list h.args_length (fun a ha => Argument.keeps (h.args a ha))
      fun a _ => record_write_ne_absent _ _ a
  refine keeps_record ⟨by decide, by decide, by decide⟩ ?_
  refine .cons (passes_always (keeps_text h.name) rfl rfl) ?_
  refine .cons (passes_flag rfl rfl) ?_
  refine .cons (passes_int h.since rfl rfl) ?_
  refine .cons (passes_int h.deprecatedSince rfl rfl) ?_
  refine .cons (passes_text h.summary rfl rfl) ?_
  refine .cons (passes_always (keeps_int h.typeIndex) rfl rfl) ?_
  refine .cons (passes_flag rfl rfl) ?_
  refine .cons (passes_optional hresult rfl rfl) ?_
  refine .cons (passes_list hargs rfl rfl) ?_
  exact .nil m

theorem Entry.keeps
    {e : Entry} (h : e.Within M.limits) :
    Entry.codec.Keeps M e := by
  refine keeps_record ⟨by decide, by decide, by decide⟩ ?_
  refine .cons (passes_always (keeps_text h.name) rfl rfl) ?_
  refine .cons (passes_always (keeps_word e.value) rfl rfl) ?_
  refine .cons (passes_int h.since rfl rfl) ?_
  refine .cons (passes_text h.summary rfl rfl) ?_
  exact .nil e

theorem Enumeration.keeps
    {e : Enumeration} (h : e.Within M.limits) :
    Enumeration.codec.Keeps M e := by
  have hentries : (absentOr Entry.codec).Keeps M e.entries :=
    keeps_absentOr h.entries_length
      (fun es hes x hx => Entry.keeps (h.entries es hes x hx))
      (record_write_ne_absent _ _)
  refine keeps_record ⟨by decide, by decide, by decide⟩ ?_
  refine .cons (passes_always (keeps_text h.name) rfl rfl) ?_
  refine .cons (passes_flag rfl rfl) ?_
  refine .cons (passes_int h.since rfl rfl) ?_
  refine .cons (passes_always hentries rfl rfl) ?_
  exact .nil e

theorem Interface.keeps
    {i : Interface} (h : i.Within M.limits) :
    Interface.codec.Keeps M i := by
  have henums : (Codec.list Enumeration.codec).Keeps M i.enums :=
    keeps_list h.enums_length (fun e he => Enumeration.keeps (h.enums e he))
      fun e _ => record_write_ne_absent _ _ e
  have hrequests : (Codec.list Message.codec).Keeps M i.requests :=
    keeps_list h.requests_length (fun m hm => Message.keeps (h.requests m hm))
      fun m _ => record_write_ne_absent _ _ m
  have hevents : (Codec.list Message.codec).Keeps M i.events :=
    keeps_list h.events_length (fun m hm => Message.keeps (h.events m hm))
      fun m _ => record_write_ne_absent _ _ m
  refine keeps_record ⟨by decide, by decide, by decide⟩ ?_
  refine .cons (passes_always (keeps_text h.name) rfl rfl) ?_
  refine .cons (passes_always (keeps_text h.shortName) rfl rfl) ?_
  refine .cons (passes_always (keeps_int h.version) rfl rfl) ?_
  refine .cons (passes_text h.summary rfl rfl) ?_
  refine .cons (passes_list henums rfl rfl) ?_
  refine .cons (passes_list hrequests rfl rfl) ?_
  refine .cons (passes_list hevents rfl rfl) ?_
  exact .nil i

theorem Import.keeps
    {i : Import} (h : i.Within M.limits) :
    Import.codec.Keeps M i := by
  refine keeps_record ⟨by decide, by decide, by decide⟩ ?_
  refine .cons (passes_always (keeps_text h.aliasName) rfl rfl) ?_
  refine .cons (passes_always (keeps_text h.document) rfl rfl) ?_
  refine .cons (passes_always (keeps_text h.importPath) rfl rfl) ?_
  refine .cons (passes_always (keeps_text h.relativePath) rfl rfl) ?_
  exact .nil i

theorem Document.keeps
    {d : Document} (h : d.Within M.limits) :
    Document.codec.Keeps M d := by
  have himports : (Codec.list Import.codec).Keeps M d.imports :=
    keeps_list h.imports_length (fun i hi => Import.keeps (h.imports i hi))
      fun i _ => record_write_ne_absent _ _ i
  have htable : (absentOr Codec.text).Keeps M d.typeTable :=
    keeps_absentOr h.typeTable_length
      (fun ts hts t ht => keeps_text (h.typeTable ts hts t ht))
      text_write_ne_absent
  have hinterfaces : (absentOr Interface.codec).Keeps M d.interfaces :=
    keeps_absentOr h.interfaces_length
      (fun is his i hi => Interface.keeps (h.interfaces is his i hi))
      (record_write_ne_absent _ _)
  refine keeps_record ⟨by decide, by decide, by decide⟩ ?_
  refine .cons (passes_always (keeps_text h.path) rfl rfl) ?_
  refine .cons (passes_always (keeps_text h.importPath) rfl rfl) ?_
  refine .cons (passes_always (keeps_text h.protocol) rfl rfl) ?_
  refine .cons (passes_always (keeps_text h.module) rfl rfl) ?_
  refine .cons (passes_always (keeps_text h.aliasName) rfl rfl) ?_
  refine .cons (passes_flag rfl rfl) ?_
  refine .cons (passes_text h.hash rfl rfl) ?_
  refine .cons (passes_list himports rfl rfl) ?_
  refine .cons (passes_text h.copyright rfl rfl) ?_
  refine .cons (passes_text h.summary rfl rfl) ?_
  refine .cons (passes_always (keeps_int h.nullRun) rfl rfl) ?_
  refine .cons (passes_always htable rfl rfl) ?_
  refine .cons (passes_always hinterfaces rfl rfl) ?_
  exact .nil d

/-- A corpus comes back from every medium that can carry it. -/
theorem Corpus.keeps
    {c : Corpus} (h : c.Within M.limits) :
    Corpus.codec.Keeps M c := by
  have horder : (absentOr Codec.text).Keeps M c.emitOrder :=
    keeps_absentOr h.emitOrder_length
      (fun ts hts t ht => keeps_text (h.emitOrder ts hts t ht))
      text_write_ne_absent
  have hdocuments : (absentOr Document.codec).Keeps M c.documents :=
    keeps_absentOr h.documents_length
      (fun ds hds d hd => Document.keeps (h.documents ds hds d hd))
      (record_write_ne_absent _ _)
  refine keeps_record ⟨by decide, by decide, by decide⟩ ?_
  refine .cons (passes_always (keeps_int h.schema) rfl rfl) ?_
  refine .cons (passes_always horder rfl rfl) ?_
  refine .cons (passes_always hdocuments rfl rfl) ?_
  exact .nil c

end ProtocolCorpus.Interchange
