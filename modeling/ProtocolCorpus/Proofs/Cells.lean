import ProtocolCorpus.Proofs.Headings

/-!
# Writing the arguments of a document

The arguments of a document in the order of the wire are the cells that
resolution writes. Here a row of cells is put back into the document it was
taken from: the headings stay, the row can be read off again, and if every cell
holds what its argument is resolved to, the document is the resolved one.
-/

namespace ProtocolCorpus

/-! ## Dealing out -/

section Deal

variable {α β γ σ : Type} (size : α → Nat) (put : List β → α → α)

/-- A row dealt out to the members of a list, to each as much as it has room
for. -/
def deal : List α → List β → List α
  | [], _ => []
  | x :: xs, bs => put (bs.take (size x)) x :: deal xs (bs.drop (size x))

variable {size put}

theorem map_deal
    {view : α → γ} (hview : ∀ bs x, view (put bs x) = view x) (xs : List α)
    (bs : List β) :
    (deal size put xs bs).map view = xs.map view := by
  induction xs generalizing bs with
  | nil => rfl
  | cons x xs ih => rw [deal, List.map_cons, List.map_cons, hview, ih]

/-- A row that is made of one part for each member goes to its members. -/
theorem deal_flatMap
    {part : α → List β} {g : α → α} {xs : List α}
    (hsize : ∀ x ∈ xs, (part x).length = size x)
    (hput : ∀ x ∈ xs, put (part x) x = g x) (rest : List β) :
    deal size put xs (xs.flatMap part ++ rest) = xs.map g := by
  induction xs with
  | nil => rfl
  | cons x xs ih =>
    obtain ⟨hx, hxs⟩ := List.forall_mem_cons.1 hsize
    obtain ⟨hputx, hputxs⟩ := List.forall_mem_cons.1 hput
    rw [List.flatMap_cons, List.append_assoc, deal, ← hx, List.take_left,
      List.drop_left, hputx, ih hxs hputxs, List.map_cons]

/-- What is dealt out can be read off again. -/
theorem flatMap_deal
    {get : α → List σ} {q : σ → β → σ} {xs : List α}
    (hsize : ∀ x ∈ xs, (get x).length = size x)
    (hput : ∀ x ∈ xs, ∀ bs, bs.length = size x → get (put bs x) =
      List.zipWith q (get x) bs) {bs : List β}
      (hlength : bs.length = (xs.flatMap get).length) (rest : List β) :
    (deal size put xs (bs ++ rest)).flatMap get =
      List.zipWith q (xs.flatMap get) bs := by
  induction xs generalizing bs with
  | nil => rfl
  | cons x xs ih =>
    obtain ⟨hx, hxs⟩ := List.forall_mem_cons.1 hsize
    obtain ⟨hputx, hputxs⟩ := List.forall_mem_cons.1 hput
    rw [List.flatMap_cons, List.length_append, hx] at hlength
    have hle : size x ≤ bs.length := by omega
    have htake : (bs.take (size x)).length = size x := by
      rw [List.length_take, Nat.min_eq_left hle]
    have hdrop : (bs.drop (size x)).length = (xs.flatMap get).length := by
      rw [List.length_drop]
      omega
    rw [deal, List.flatMap_cons, List.take_append_of_le_length hle,
      List.drop_append_of_le_length hle, hputx _ htake, ih hxs hputxs hdrop,
      List.flatMap_cons, ← List.zipWith_append (hx.trans htake.symm),
      List.take_append_drop]

end Deal

/-! ## Messages -/

namespace Message

variable {m : Message}

/-- Where the result stands in the order of the wire. -/
def resultPlace (m : Message) : Nat :=
  if m.resultIndex < 0 ∨ (m.args.length : Int) < m.resultIndex then
    m.args.length
  else m.resultIndex.toNat

theorem resultPlace_le (m : Message) :
    m.resultPlace ≤ m.args.length := by
  unfold resultPlace
  split
  next => exact Nat.le_refl _
  next h => omega

/-- The message with other arguments in the order of the wire. An argument whose
interface the sender chooses is one of them. -/
def withWire (cells : List Argument) (m : Message) : Message :=
  let args := if m.result.isSome then cells.eraseIdx m.resultPlace else cells
  { m with
    args := args
    result := m.result.bind fun _ => cells[m.resultPlace]?
    generic := m.generic.bind fun _ => args.find? Argument.isGenericNewId }

theorem wireArgs_eq (m : Message) :
    m.wireArgs = match m.result with
      | none => m.args
      | some a => m.args.take m.resultPlace ++ a :: m.args.drop m.resultPlace :=
  rfl

theorem wireArgs_of_result_eq_some {a : Argument} (h : m.result = some a) :
    m.wireArgs = m.args.take m.resultPlace ++ a ::
    m.args.drop m.resultPlace := by
  rw [wireArgs_eq, h]

theorem wireArgs_withWire {cells : List Argument}
    (hlength : cells.length = m.wireArgs.length) :
    (m.withWire cells).wireArgs = cells := by
  cases hresult : m.result with
  | none => simp [withWire, wireArgs_eq, hresult]
  | some a =>
    have hplace := m.resultPlace_le
    rw [wireArgs_of_result_eq_some hresult, List.length_append,
      List.length_cons, List.length_take, List.length_drop] at hlength
    have hlt : m.resultPlace < cells.length := by omega
    have hargs : (m.withWire cells).args = cells.eraseIdx m.resultPlace := by
      simp [withWire, hresult]
    have hsome : (m.withWire cells).result = some cells[m.resultPlace] := by
      simp [withWire, hresult, hlt]
    have hsame : (m.withWire cells).resultPlace = m.resultPlace := by
      have hcount : (m.withWire cells).args.length = m.args.length := by
        rw [hargs, List.length_eraseIdx_of_lt hlt]
        omega
      unfold resultPlace
      rw [hcount]
      rfl
    have htake : (cells.take m.resultPlace).length = m.resultPlace := by
      rw [List.length_take]
      omega
    rw [wireArgs_of_result_eq_some hsome, hsame, hargs,
      List.eraseIdx_eq_take_drop_succ, List.take_left' htake,
      List.drop_left' htake, List.getElem_cons_drop, List.take_append_drop]

theorem withWire_map_wireArgs {f : Argument → Argument}
    (hf : ∀ a, (f a).isGenericNewId = a.isGenericNewId)
    (hgeneric : m.generic = none ∨
      m.generic = m.args.find? Argument.isGenericNewId) :
    m.withWire (m.wireArgs.map f) =
      { m with
        args := m.args.map f, result := m.result.map f, generic :=
          m.generic.map f } := by
  have hfind :
      m.generic.bind (fun _ => (m.args.map f).find? Argument.isGenericNewId) =
      m.generic.map f := by
    rcases hgeneric with hnone | hsome
    · rw [hnone]
      rfl
    · rw [hsome, List.find?_map]
      have hsame : (Argument.isGenericNewId ∘ f) = Argument.isGenericNewId :=
        funext hf
      rw [hsame]
      cases m.args.find? Argument.isGenericNewId with
      | none => rfl
      | some a => rfl
  cases hresult : m.result with
  | none =>
    have hwire : m.wireArgs = m.args := by rw [wireArgs_eq, hresult]
    simp only [withWire, hresult, hwire, Option.isSome_none, Bool.false_eq_true,
      if_false, hfind]
    rfl
  | some a =>
    have hplace : (m.args.take m.resultPlace).length = m.resultPlace := by
      rw [List.length_take]
      exact Nat.min_eq_left m.resultPlace_le
    have hrow : m.wireArgs.map f =
        (m.args.take m.resultPlace).map f ++ f a ::
        (m.args.drop m.resultPlace).map f := by
      rw [wireArgs_of_result_eq_some hresult, List.map_append, List.map_cons]
    have hplace : ((m.args.take m.resultPlace).map f).length =
        m.resultPlace := by
      rw [List.length_map, hplace]
    have hargs : (m.wireArgs.map f).eraseIdx m.resultPlace = m.args.map f := by
      rw [hrow, List.eraseIdx_append_of_length_le (Nat.le_of_eq hplace), hplace,
        Nat.sub_self, List.eraseIdx_cons_zero, ← List.map_append,
        List.take_append_drop]
    have hself : (m.wireArgs.map f)[m.resultPlace]? = some (f a) := by
      rw [hrow, List.getElem?_append_right (Nat.le_of_eq hplace), hplace,
        Nat.sub_self]
      rfl
    simp only [withWire, hresult, hargs, hself, Option.isSome_some, if_true,
      hfind]
    rfl

end Message

/-! ## Documents -/

def Interface.cells (i : Interface) : List Argument :=
  i.messages.flatMap Message.wireArgs

def dealMessages (ms : List Message) (cells : List Argument) : List Message :=
  deal (fun m => m.wireArgs.length) Message.withWire ms cells

def Interface.withCells (cells : List Argument) (i : Interface) : Interface :=
  { i with
    requests := dealMessages i.requests cells
    events :=
      dealMessages i.events
      (cells.drop (i.requests.flatMap Message.wireArgs).length) }

def Protocol.withCells (cells : List Argument) (p : Protocol) : Protocol :=
  { p with
    interfaces :=
      deal (fun i => i.cells.length) Interface.withCells p.interfaces cells }

def Document.withCells (cells : List Argument) (d : Document) : Document :=
  d.mapProtocol (Protocol.withCells cells)

theorem Document.heading_withCells (cells : List Argument) (d : Document) :
    (d.withCells cells).heading = d.heading := by
  unfold withCells heading mapProtocol
  cases d.protocol with
  | none => rfl
  | some p =>
    have hinterfaces :
        (deal (fun i => i.cells.length) Interface.withCells
        p.interfaces cells).map
        Interface.heading = p.interfaces.map Interface.heading := by
      apply map_deal
      intro _ _
      rfl
    simp [Protocol.heading, Protocol.withCells, hinterfaces]

/-! ## Reading off -/

def Site.withArgument (s : Site) (a : Argument) : Site :=
  { s with argument := a }

def Message.headedSites (i : Interface) (m : Message) : List Site :=
  m.wireArgs.map fun a => ⟨i, { name := m.name }, a⟩

def Interface.headedSites (i : Interface) : List Site :=
  i.messages.flatMap (Message.headedSites i.heading)

theorem Document.map_heading_sites (d : Document) :
    d.sites.map Site.heading = d.interfaces.flatMap Interface.headedSites := by
  unfold sites interfaces
  cases d.protocol with
  | none => rfl
  | some p =>
    simp only [Option.map_some, Option.getD_some, Protocol.sites,
      Protocol.messages, List.flatMap_assoc, List.flatMap_map, List.map_flatMap,
      List.map_map]
    rfl

theorem zipWith_eq_map
    {α β γ : Type} {as : List α} {bs : List β} (hlength : bs.length = as.length)
    (f : β → γ) :
    List.zipWith (fun _ b => f b) as bs = bs.map f := by
  calc
    List.zipWith (fun _ b => f b) as bs
        = ((as.zip bs).map Prod.snd).map f := by
          rw [List.map_map, ← List.map_uncurry_zip_eq_zipWith]
          rfl
    _ = bs.map f := by rw [List.map_snd_zip (Nat.le_of_eq hlength)]

theorem Message.headedSites_withWire
    (i : Interface) {m : Message} {cells : List Argument}
    (hlength : cells.length = m.wireArgs.length) :
    (m.withWire cells).headedSites i = List.zipWith Site.withArgument
      (m.headedSites i) cells := by
  unfold headedSites
  rw [wireArgs_withWire hlength, List.zipWith_map_left]
  exact (zipWith_eq_map hlength _).symm

theorem flatMap_headedSites_dealMessages
    (i : Interface) {ms : List Message} {cells : List Argument}
    (hlength : cells.length = (ms.flatMap Message.wireArgs).length)
    (rest : List Argument) :
    (dealMessages ms (cells ++ rest)).flatMap (Message.headedSites i) =
      List.zipWith Site.withArgument
      (ms.flatMap (Message.headedSites i)) cells := by
  apply flatMap_deal
  · intro m _
    exact List.length_map _
  · intro m _ bs hbs
    exact Message.headedSites_withWire i hbs
  · rw [hlength]
    simp [List.length_flatMap, Message.headedSites]

theorem Interface.headedSites_withCells
    {i : Interface} {cells : List Argument}
    (hlength : cells.length = i.cells.length) :
    (i.withCells cells).headedSites =
      List.zipWith Site.withArgument i.headedSites cells := by
  rw [Interface.cells, messages, List.flatMap_append, List.length_append]
    at hlength
  obtain ⟨front, back, rfl, hfront⟩ : ∃ front back, cells = front ++ back ∧
      front.length = (i.requests.flatMap Message.wireArgs).length := by
    refine ⟨_, _,
      (List.take_append_drop (i.requests.flatMap Message.wireArgs).length
      cells).symm, ?_⟩
    rw [List.length_take]
    omega
  have hback : back.length = (i.events.flatMap Message.wireArgs).length := by
    rw [List.length_append] at hlength
    omega
  have hrequests := flatMap_headedSites_dealMessages i.heading hfront back
  have hevents := flatMap_headedSites_dealMessages i.heading hback []
  rw [List.append_nil] at hevents
  have hsites : (i.requests.flatMap (Message.headedSites i.heading)).length =
      front.length := by
    rw [hfront]
    simp [List.length_flatMap, Message.headedSites]
  change (dealMessages i.requests (front ++ back) ++ dealMessages i.events
    ((front ++ back).drop
    (i.requests.flatMap Message.wireArgs).length)).flatMap
    (Message.headedSites i.heading) = _
  rw [List.flatMap_append, ← hfront, List.drop_left, hrequests, hevents,
    headedSites, messages, List.flatMap_append, List.zipWith_append hsites]

theorem Interface.length_headedSites (i : Interface) :
    i.headedSites.length = i.cells.length := by
  simp [headedSites, Interface.cells, List.length_flatMap, Message.headedSites]

theorem Document.interfaces_withCells (cells : List Argument) (d : Document) :
    (d.withCells cells).interfaces =
      deal (fun i => i.cells.length) Interface.withCells
      d.interfaces cells := by
  unfold interfaces withCells mapProtocol
  cases d.protocol with
  | none => rfl
  | some p => rfl

/-- The arguments of a document can be read off as they were written. -/
theorem Document.map_heading_sites_withCells
    {d : Document} {cells : List Argument}
    (hlength : cells.length = d.sites.length) :
    (d.withCells cells).sites.map Site.heading =
      List.zipWith Site.withArgument (d.sites.map Site.heading) cells := by
  have hrow : cells.length =
      (d.interfaces.flatMap Interface.headedSites).length := by
    rw [hlength, ← map_heading_sites, List.length_map]
  have hread := flatMap_deal (fun i _ => i.length_headedSites)
    (fun i _ _ hbs => Interface.headedSites_withCells hbs) hrow []
  rw [List.append_nil] at hread
  rw [map_heading_sites, map_heading_sites, interfaces_withCells, hread]

/-! ## Resolved cells -/

namespace Resolution

variable {r : Registry} {d : Document}

/-- What the arguments of an interface are resolved to, in the order of the
wire. -/
def resolvedCells (r : Registry) (d : Document) (i : Interface)
    (ms : List Message) : List Argument :=
  ms.flatMap fun m => m.wireArgs.map (argument r d i)

theorem dealMessages_resolvedCells {i : Interface} {ms : List Message}
    (hgeneric : ∀ m ∈ ms, m.generic = none ∨
      m.generic = m.args.find? Argument.isGenericNewId)
    (rest : List Argument) :
    dealMessages ms (resolvedCells r d i ms ++ rest) =
      ms.map (message r d i) := by
  apply deal_flatMap
  · intro m _
    exact List.length_map _
  · intro m hm
    exact Message.withWire_map_wireArgs (f := argument r d i) (fun _ => rfl)
      (hgeneric m hm)

theorem withCells_resolvedCells {i : Interface}
    (hgeneric : ∀ m ∈ i.messages, m.generic = none ∨
      m.generic = m.args.find? Argument.isGenericNewId) :
    i.withCells (resolvedCells r d i i.messages) =
      i.mapMessages (message r d i) := by
  have hrequests := dealMessages_resolvedCells (r := r) (d := d) (i := i)
    (fun m hm => hgeneric m (List.mem_append_left _ hm))
    (resolvedCells r d i i.events)
  have hevents := dealMessages_resolvedCells (r := r) (d := d) (i := i)
    (fun m hm => hgeneric m (List.mem_append_right _ hm)) []
  rw [List.append_nil] at hevents
  have hlength : (i.requests.flatMap Message.wireArgs).length =
      (resolvedCells r d i i.requests).length := by
    simp [resolvedCells, List.length_flatMap]
  have hcells : resolvedCells r d i i.messages =
      resolvedCells r d i i.requests ++ resolvedCells r d i i.events :=
    List.flatMap_append
  rw [hcells, Interface.withCells, hlength, List.drop_left, hrequests, hevents]
  rfl

/-- A document whose arguments are all written is resolved. -/
theorem withCells_eq_document {p : Protocol} (hp : d.protocol = some p)
    (hgeneric : ∀ m ∈ p.walk, m.generic = none ∨
      m.generic = m.args.find? Argument.isGenericNewId) :
    d.withCells (d.sites.map fun s => argument r d s.interface s.argument) =
      document r d := by
  have hcells : d.sites.map (fun s => argument r d s.interface s.argument) =
      p.interfaces.flatMap fun i => resolvedCells r d i i.messages := by
    simp only [Document.sites, hp, Option.map_some, Option.getD_some,
      Protocol.sites, Protocol.messages, List.flatMap_assoc, List.flatMap_map,
      List.map_flatMap, List.map_map]
    rfl
  have hinterfaces : deal (fun i => i.cells.length) Interface.withCells
      p.interfaces
      ((p.interfaces.flatMap fun i => resolvedCells r d i i.messages) ++ []) =
      p.interfaces.map fun i => i.mapMessages (message r d i) := by
    apply deal_flatMap
    · intro i _
      simp [resolvedCells, Interface.cells, List.length_flatMap]
    · intro i hi
      exact withCells_resolvedCells fun m hm =>
        hgeneric m (List.mem_flatMap_of_mem hi hm)
  rw [List.append_nil] at hinterfaces
  rw [hcells]
  simp only [Document.withCells, document, Document.mapProtocol, hp,
    Option.map_some, Protocol.withCells, hinterfaces]

end Resolution

end ProtocolCorpus
