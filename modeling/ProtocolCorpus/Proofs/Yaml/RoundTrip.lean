import ProtocolCorpus.Proofs.Yaml.Recovery

/-!
# Corpora as YAML

Which corpora come back from YAML. All do whose texts come back: a text is lost
in part or in whole if it is written as a block of lines and starts with a
line end or a tab, and no other text is, whatever it looks like.
-/

namespace ProtocolCorpus

namespace Interchange

open Yaml Codec

/-! ## Records -/

/-- The enumeration with an empty list of entries if it has none. -/
def Enumeration.listed (e : Enumeration) : Enumeration :=
  { e with entries := some (e.entries.getD []) }

def Interface.listed (i : Interface) : Interface :=
  { i with enums := i.enums.map Enumeration.listed }

def Document.listed (d : Document) : Document :=
  { d with
    typeTable := some (d.typeTable.getD []), interfaces :=
      some ((d.interfaces.getD []).map Interface.listed) }

def Corpus.listed (c : Corpus) : Corpus :=
  { c with
    emitOrder := some (c.emitOrder.getD []), documents :=
      some ((c.documents.getD []).map Document.listed) }


-- In each record the fields are read one after the other on top of the empty
-- record. What they come to is kept open until all have been read; then the
-- record is there just if each of them is.

theorem Reference.recovers
    {r : Reference} (h : r.Within .textual) :
    Recovers Reference.codec id r (r.Within survivors) := by
  refine Iff.trans (recovers_record ⟨by decide, by decide, by decide⟩ <|
    .text h.1 rfl rfl fun qualifier =>
    .always (recovers_text h.2.1) rfl rfl fun name =>
    .always (recovers_text h.2.2) rfl rfl fun target =>
    .nil ?_) ?_
  · cases r
    simp [and_assoc]
  · simp [Reference.Within, survivors]

theorem EnumReference.recovers
    {r : EnumReference} (h : r.Within .textual) :
    Recovers EnumReference.codec id r (r.Within survivors) := by
  refine Iff.trans (recovers_record ⟨by decide, by decide, by decide⟩ <|
    .text h.1 rfl rfl fun qualifier =>
    .always (recovers_text h.2) rfl rfl fun name =>
    .flag rfl rfl fun bitfield =>
    .always (recovers_bool _) rfl rfl fun found =>
    .nil ?_) ?_
  · cases r
    simp [and_assoc]
  · simp [EnumReference.Within, survivors]

theorem Argument.recovers
    {a : Argument} (h : a.Within .textual) :
    Recovers Argument.codec id a (a.Within survivors) := by
  refine Iff.trans (recovers_record ⟨by decide, by decide, by decide⟩ <|
    .always (recovers_text h.name) rfl rfl fun name =>
    .always (recovers_text h.kind) rfl rfl fun kind =>
    .flag rfl rfl fun nullable =>
    .text h.summary rfl rfl fun summary =>
    .optional (isNull_datum?_record _ _)
    (fun r hr => Reference.recovers (h.interface r hr)) rfl rfl fun interface =>
    .optional (isNull_datum?_record _ _)
    (fun r hr => EnumReference.recovers (h.enum r hr)) rfl rfl fun enum =>
    .nil ?_) ?_
  · cases a
    simp [and_assoc]
  · simp [Argument.within_iff, survivors]

theorem Message.recovers
    {m : Message} (h : m.Within .textual) :
    Recovers Message.codec id m (m.Within survivors) := by
  have hargs := recovers_list (isNull_datum?_record _ _) fun a ha =>
    Argument.recovers (h.args a ha)
  refine Iff.trans (recovers_record ⟨by decide, by decide, by decide⟩ <|
    .always (recovers_text h.name) rfl rfl fun name =>
    .flag rfl rfl fun destructor =>
    .int h.since rfl rfl fun since =>
    .int h.deprecatedSince rfl rfl fun deprecatedSince =>
    .text h.summary rfl rfl fun summary =>
    .always (recovers_int h.typeIndex.1 h.typeIndex.2) rfl rfl fun typeIndex =>
    .flag rfl rfl fun allNull =>
    .optional (isNull_datum?_record _ _)
    (fun a ha => Argument.recovers (h.result a ha)) rfl rfl fun result =>
    .list hargs rfl rfl fun args =>
    .nil ?_) ?_
  · cases m
    simp [and_assoc]
  · simp [Message.within_iff, survivors]

theorem Entry.recovers
    {e : Entry} (h : e.Within .textual) :
    Recovers Entry.codec id e (e.Within survivors) := by
  refine Iff.trans (recovers_record ⟨by decide, by decide, by decide⟩ <|
    .always (recovers_text h.name) rfl rfl fun name =>
    .always (recovers_word _) rfl rfl fun value =>
    .int h.since rfl rfl fun since =>
    .text h.summary rfl rfl fun summary =>
    .nil ?_) ?_
  · cases e
    simp [and_assoc]
  · simp [Entry.within_iff, survivors]

theorem Enumeration.recovers
    {e : Enumeration} (h : e.Within .textual) :
    Recovers Enumeration.codec Enumeration.listed e (e.Within survivors) := by
  have hentries := recovers_absentOr (isNull_datum?_record _ _)
    fun es hes x hx => Entry.recovers (h.entries es hes x hx)
  refine Iff.trans (recovers_record ⟨by decide, by decide, by decide⟩ <|
    .always (recovers_text h.name) rfl rfl fun name =>
    .flag rfl rfl fun bitfield =>
    .int h.since rfl rfl fun since =>
    .always hentries rfl rfl fun entries =>
    .nil ?_) ?_
  · cases e
    simp [Enumeration.listed, and_assoc]
  · simp [Enumeration.within_iff, survivors]

theorem Interface.recovers
    {i : Interface} (h : i.Within .textual) :
    Recovers Interface.codec Interface.listed i (i.Within survivors) := by
  have henums := recovers_list (isNull_datum?_record _ _) fun e he =>
    Enumeration.recovers (h.enums e he)
  have hrequests := recovers_list (isNull_datum?_record _ _) fun m hm =>
    Message.recovers (h.requests m hm)
  have hevents := recovers_list (isNull_datum?_record _ _) fun m hm =>
    Message.recovers (h.events m hm)
  refine Iff.trans (recovers_record ⟨by decide, by decide, by decide⟩ <|
    .always (recovers_text h.name) rfl rfl fun name =>
    .always (recovers_text h.shortName) rfl rfl fun shortName =>
    .always (recovers_int h.version.1 h.version.2) rfl rfl fun version =>
    .text h.summary rfl rfl fun summary =>
    .list henums rfl rfl fun enums =>
    .list hrequests rfl rfl fun requests =>
    .list hevents rfl rfl fun events =>
    .nil ?_) ?_
  · cases i
    simp [Interface.listed, and_assoc]
  · simp [Interface.within_iff, survivors]

theorem Import.recovers
    {i : Import} (h : i.Within .textual) :
    Recovers Import.codec id i (i.Within survivors) := by
  refine Iff.trans (recovers_record ⟨by decide, by decide, by decide⟩ <|
    .always (recovers_text h.aliasName) rfl rfl fun aliasName =>
    .always (recovers_text h.document) rfl rfl fun document =>
    .always (recovers_text h.importPath) rfl rfl fun importPath =>
    .always (recovers_text h.relativePath) rfl rfl fun relativePath =>
    .nil ?_) ?_
  · cases i
    simp [and_assoc]
  · simp [Import.within_iff, survivors]

theorem Document.recovers
    {d : Document} (h : d.Within .textual) :
    Recovers Document.codec Document.listed d (d.Within survivors) := by
  have himports := recovers_list (isNull_datum?_record _ _) fun i hi =>
    Import.recovers (h.imports i hi)
  have htable := recovers_absentOr isNull_datum?_text fun ts hts t ht =>
    recovers_text (h.typeTable ts hts t ht)
  have hinterfaces := recovers_absentOr (isNull_datum?_record _ _)
    fun is his i hi => Interface.recovers (h.interfaces is his i hi)
  refine Iff.trans (recovers_record ⟨by decide, by decide, by decide⟩ <|
    .always (recovers_text h.path) rfl rfl fun path =>
    .always (recovers_text h.importPath) rfl rfl fun importPath =>
    .always (recovers_text h.protocol) rfl rfl fun protocol =>
    .always (recovers_text h.module) rfl rfl fun module =>
    .always (recovers_text h.aliasName) rfl rfl fun aliasName =>
    .flag rfl rfl fun root =>
    .text h.hash rfl rfl fun hash =>
    .list himports rfl rfl fun imports =>
    .text h.copyright rfl rfl fun copyright =>
    .text h.summary rfl rfl fun summary =>
    .always (recovers_int h.nullRun.1 h.nullRun.2) rfl rfl fun nullRun =>
    .always htable rfl rfl fun typeTable =>
    .always hinterfaces rfl rfl fun interfaces =>
    .nil ?_) ?_
  · cases d
    simp [Document.listed, and_assoc]
  · simp [Document.within_iff, survivors]

theorem Corpus.recovers
    {c : Corpus} (h : c.Within .textual) :
    Recovers Corpus.codec Corpus.listed c (c.Within survivors) := by
  have horder := recovers_absentOr isNull_datum?_text fun ts hts t ht =>
    recovers_text (h.emitOrder ts hts t ht)
  have hdocuments := recovers_absentOr (isNull_datum?_record _ _)
    fun ds hds d hd => Document.recovers (h.documents ds hds d hd)
  refine Iff.trans (recovers_record ⟨by decide, by decide, by decide⟩ <|
    .always (recovers_int h.schema.1 h.schema.2) rfl rfl fun schema =>
    .always horder rfl rfl fun emitOrder =>
    .always hdocuments rfl rfl fun documents =>
    .nil ?_) ?_
  · cases c
    simp [Corpus.listed, and_assoc]
  · simp [Corpus.within_iff, survivors]

/-! ## Corpora -/

/-- What is read of a corpus that was written is what its codec reads of it. -/
theorem Corpus.map_read_write_yaml_iff
    {c : Corpus} (hschema : c.schema = schemaVersion) (hc : c.Within .textual) :
    (Corpus.read .yaml (c.write .yaml)).map Corpus.listed = .ok c.listed ↔
      (back Corpus.codec c).map Corpus.listed = some c.listed := by
  have hwithin : (Corpus.codec.write c).Within .textual :=
    (Corpus.keeps (M := Json.medium) hc).within
  obtain ⟨m, ms, hwrite⟩ : ∃ m ms, Corpus.codec.write c = .record (m :: ms) :=
    ⟨_, _, rfl⟩
  have hregular := Corpus.regular c
  rw [hwrite] at hwithin hregular
  have hback : ((Format.yaml.parseDatum? (c.write .yaml)).bind fun d =>
      Corpus.codec.read Format.yaml.conventions d {}) =
      back Corpus.codec c := by
    have hparsed := parse?_document hregular hwithin
    rw [← hwrite] at hparsed
    rw [back, ← hparsed]
    rfl
  rw [Corpus.read, hback]
  cases back Corpus.codec c with
  | none => exact iff_of_false (fun h => by cases h) fun h => by cases h
  | some c' =>
    dsimp only
    rw [Option.map_some, Option.some_inj]
    by_cases hfound : c'.schema = schemaVersion
    · rw [if_pos hfound]
      exact ⟨Except.ok.inj, congrArg Except.ok⟩
    · rw [if_neg hfound]
      refine iff_of_false (fun h => by cases h) fun hlisted => ?_
      have hsame : c'.listed.schema = c.listed.schema :=
        congrArg Corpus.schema hlisted
      exact hfound (hsame.trans hschema)

/-- A corpus of well-formed texts that was written as YAML is read back as it
was, but for lists that were not there, exactly if none of its texts is written
as a block of lines that starts with a line end or a tab. -/
theorem Corpus.read_write_yaml_iff
    {c : Corpus} (hschema : c.schema = schemaVersion) (hc : c.Within .textual) :
    (Corpus.read .yaml (c.write .yaml)).map Corpus.listed = .ok c.listed ↔
      c.Within survivors :=
  (Corpus.map_read_write_yaml_iff hschema hc).trans (Corpus.recovers hc)

/-- A corpus of texts that look like something else: truth values, nulls,
numbers, dates, marks of structure and comments, blanks at either end, several
lines. One list is not there. -/
def lookalikes : Corpus where
  schema := schemaVersion
  emitOrder :=
    some ["true", "null", "~", "0x1f", "1e3", "2001-12-14", "-", "? a", "a: b",
      "a #b", "- c", "", "<<"]
  documents := some [
    { path := " lead"
      importPath := "trail "
      protocol := "[x]\x7by\x7d"
      module := "'\"\\"
      aliasName := "# no comment"
      copyright := "Copyright\n\n  indented: text\n# no comment\n\ttab\n\n"
      summary := " \u0085😀"
      typeTable := some ["  two\nlines", "y", "1:30", "..."]
      interfaces :=
        some [{ name := "p_i",
                enums :=
                  [{ name := "e",
                     entries := some [{ value := 0xFFFFFFFF }] }] }] },
    { path := "second" }]

theorem lookalikes_survive : lookalikes.Within .textual ∧
    lookalikes.Within survivors := by
  decide +kernel

theorem lookalikes_read_write :
    lookalikes.schema = schemaVersion ∧ lookalikes.Within .textual ∧
    lookalikes.Within survivors ∧
      (Corpus.read .yaml (lookalikes.write .yaml)).map Corpus.listed =
      .ok lookalikes.listed :=
  ⟨rfl, lookalikes_survive.1, lookalikes_survive.2,
    (Corpus.read_write_yaml_iff rfl lookalikes_survive.1).2
    lookalikes_survive.2⟩

def noticed (notice : Text) : Corpus where
  schema := schemaVersion
  emitOrder := some ["a.xml"]
  documents :=
    some [{ path := "a.xml", copyright := notice, typeTable := some [],
            interfaces := some [] }]

/-- A notice that starts with a line end comes back without it, and one of
several lines that starts with a tab does not come back at all. -/
theorem notice_comes_back_changed :
    (noticed "\nlead").schema = schemaVersion ∧
    (noticed "\nlead").Within .textual ∧
      Corpus.read .yaml ((noticed "\nlead").write .yaml) =
      .ok (noticed "lead") ∧
      (noticed "lead").listed ≠ (noticed "\nlead").listed ∧
      (noticed "\ttab\nline").Within .textual ∧
      Corpus.read .yaml ((noticed "\ttab\nline").write .yaml) =
      .error (.malformed .yaml) := by
  decide +kernel

end Interchange

end ProtocolCorpus
