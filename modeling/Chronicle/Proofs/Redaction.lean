import Chronicle.Table
import Chronicle.Proofs.Log.Presence
import Chronicle.Proofs.Authorization

/-!
# What a reader may not read does not reach them

Redacting a log for a reader drops every record of a property that the reader may not read, hiding
and unhiding under whatever label included, and every deletion, edge label and concept type under a
label that they may not read.  Whatever the reader then asks, they are answered as before: a secret
record can neither be seen nor be noticed.

* `said_redact` : what is not withheld is still said;
* `properties_redact`, `history_redact`, `showsAs_redact` : the reads, one by one;
* `reads_redact` : all that a reader can ask, of a log, of an element and of a table.
-/

namespace Chronicle

/-! ## Redaction -/

/-- Whether the record is withheld from the reader.  That an element is there, its label and what
hides it are never withheld. -/
def Mutation.isWithheld (reader : Reader) : Mutation → Bool
  | .property r => !reader.canRead r.identity.visibility
  | .element r =>
    match r.change with
    | .softDelete | .edgeLabel _ | .conceptType _ => !reader.canRead r.visibility
    | .touch | .relabel _ | .hide | .unhide => false

/-- The log without the records that are withheld from the reader. -/
def Log.redact (log : Log) (reader : Reader) : Log := log.keep fun m => !m.isWithheld reader

/-- The element with its log redacted. -/
def Element.redact (e : Element) (reader : Reader) : Element :=
  { e with log := e.log.redact reader }

/-- The map with every value replaced by its image. -/
def OrderedMap.mapValues {κ ν : Type} [Ord κ] (f : ν → ν) (m : OrderedMap κ ν) : OrderedMap κ ν :=
  ⟨m.entries.map fun e => (e.1, f e.2), List.pairwise_map.2 m.ascending⟩

/-- The table with the log of every element redacted. -/
def Table.redact (t : Table) (reader : Reader) : Table :=
  { t with elements := t.elements.mapValues (·.redact reader) }

theorem OrderedMap.get?_mapValues {κ ν : Type} [Ord κ] (f : ν → ν) (m : OrderedMap κ ν) (k : κ) :
    (m.mapValues f).get? k = (m.get? k).map f := by
  show find? k (m.entries.map fun e => (e.1, f e.2)) = (find? k m.entries).map f
  induction m.entries with
  | nil => rfl
  | cons e rest ih =>
    rw [List.map_cons, find?, find?]
    split
    · rfl
    · exact ih

namespace Mutation

variable {reader : Reader}

/-- A record of the element is not withheld from those who may read it. -/
theorem not_isWithheld_of_canRead {r : ElementRecord} (h : reader.canRead r.visibility = true) :
    (element r).isWithheld reader = false := by
  obtain ⟨ts, label, change⟩ := r
  cases change <;> simp_all [isWithheld]

theorem not_isWithheld_of_touch? {m : Mutation} {ts : Timestamp} (h : m.touch? = some ts) :
    m.isWithheld reader = false := by
  unfold touch? at h
  split at h
  · rfl
  · cases h

theorem not_isWithheld_of_relabel? {m : Mutation} {label : Visibility}
    (h : m.relabel? = some label) : m.isWithheld reader = false := by
  unfold relabel? at h
  split at h
  · rfl
  · cases h

theorem not_isWithheld_of_hiding? {m : Mutation} {label : Visibility} {b : Bool}
    (h : m.hiding? label = some b) : m.isWithheld reader = false := by
  unfold hiding? at h
  split at h
  · rfl
  · rfl
  · cases h

/-- What the reader may read of an element is not withheld. -/
theorem not_isWithheld_of_openTo {β : Type} {tells : Mutation → Option β} {m : Mutation} {b : β}
    (helement : ∀ r, tells (.property r) = none) (h : openTo reader tells m = some b) :
    m.isWithheld reader = false := by
  obtain ⟨htells, hread⟩ := eq_some_of_openTo h
  cases m with
  | element r => exact not_isWithheld_of_canRead hread
  | property r =>
    rw [helement] at htells
    cases htells

end Mutation

/-! ## Reads of a log -/

namespace Log

variable {reader : Reader}

/-- What is not withheld is still said. -/
theorem said_redact {β : Type} {tells : Mutation → Option β} (log : Log)
    (h : ∀ m b, tells m = some b → m.isWithheld reader = false) :
    (log.redact reader).said tells = log.said tells := by
  refine log.said_keep fun m b hm => ?_
  rw [h m b hm]
  rfl

theorem isDeleted_redact (log : Log) (asOf : Option Timestamp) (reader : Reader) :
    (log.redact reader).isDeleted asOf reader = log.isDeleted asOf reader := by
  rw [isDeleted_eq_said, isDeleted_eq_said, said_redact]
  intro m b hm
  exact Mutation.not_isWithheld_of_openTo (fun _ => rfl) (Mutation.eq_some_of_told hm)

theorem firstTimestamp_redact (log : Log) (reader : Reader) :
    (log.redact reader).firstTimestamp = log.firstTimestamp := by
  rw [firstTimestamp_eq_said, firstTimestamp_eq_said, said_redact]
  intro m ts hm
  exact Mutation.not_isWithheld_of_touch? hm

theorem visibility_redact (log : Log) (reader : Reader) :
    (log.redact reader).visibility = log.visibility := by
  rw [visibility_eq_said, visibility_eq_said, said_redact]
  intro m label hm
  exact Mutation.not_isWithheld_of_relabel? hm

theorem hiders_redact (log : Log) (reader : Reader) : (log.redact reader).hiders = log.hiders := by
  apply hiders_congr
  intro label
  apply said_redact
  intro m b hm
  exact Mutation.not_isWithheld_of_hiding? hm

theorem facts_redact (log : Log) (hints : FetchHints) (asOf : Option Timestamp) (reader : Reader) :
    (log.redact reader).facts ⟨hints, asOf, reader⟩ = log.facts ⟨hints, asOf, reader⟩ := by
  have hopen : ∀ {β : Type} (tells : Mutation → Option β), (∀ r, tells (.property r) = none) →
      (log.redact reader).said (Mutation.told asOf (Mutation.openTo reader tells))
        = log.said (Mutation.told asOf (Mutation.openTo reader tells)) := by
    intro β tells helement
    apply said_redact
    intro m b hm
    exact Mutation.not_isWithheld_of_openTo helement (Mutation.eq_some_of_told hm)
  refine facts_congr ?_ (hopen _ fun _ => rfl) (hopen _ fun _ => rfl) (hopen _ fun _ => rfl)
  apply said_redact
  intro m label hm
  exact Mutation.not_isWithheld_of_relabel? (Mutation.eq_some_of_told hm)

/-- The records of a property that the reader may read are all kept. -/
theorem properties_redact (log : Log) (hints : FetchHints) (asOf : Option Timestamp)
    (reader : Reader) (f : PropertyFilter) :
    (log.redact reader).properties ⟨hints, asOf, reader⟩ f
      = log.properties ⟨hints, asOf, reader⟩ f := by
  apply properties_congr
  intro i hi
  rw [group_eq_said, group_eq_said, said_redact]
  intro m r hm
  obtain ⟨rfl, rfl⟩ := Mutation.eq_property_of_recordOf? hm
  show (!reader.canRead r.identity.visibility) = false
  rw [show reader.canRead r.identity.visibility = true from hi]
  rfl

theorem showsAs_redact (log : Log) (hints : FetchHints) (asOf : Option Timestamp)
    (reader : Reader) : (log.redact reader).ShowsAs ⟨hints, asOf, reader⟩ log where
  firstTimestamp := log.firstTimestamp_redact reader
  isDeleted := log.isDeleted_redact asOf reader
  facts := log.facts_redact hints asOf reader
  properties := log.properties_redact hints asOf reader .any
  hiders := log.hiders_redact reader

end Log

/-! ## Histories -/

/-- Whether the record is one of a property that the reader may read. -/
def PropertyRecord.isOfReadable (reader : Reader) (r : PropertyRecord) : Bool :=
  reader.canRead r.identity.visibility

/-- Only a record that sets a value can be refused. -/
theorem PropertyRecord.not_toggle_of_refusal? {fetch : Load} {r : PropertyRecord} {e : Error}
    (h : r.refusal? fetch = some e) : r.edit.isToggle = false := by
  unfold refusal? at h
  split at h
  · next he => rw [he]; rfl
  · cases h

namespace HistoryScope

variable {s : HistoryScope} {fetch : Load} {records : List PropertyRecord}

theorem canRead_of_admitted {r : PropertyRecord}
    (h : r ∈ s.admitted (records.map PropertyRecord.guarded)) :
    s.reader.canRead r.visibility = true := by
  rw [admitted_guarded, List.mem_filter, admits, Bool.and_eq_true, Bool.and_eq_true] at h
  exact h.2.1.2

/-- An entry is one of a property that the reader may read. -/
theorem canRead_of_emitted? {e : HistoryEntry}
    (h : e ∈ (occurrences ((s.admitted (records.map PropertyRecord.guarded)).map
      (PropertyRecord.loaded fetch))).filterMap Occurrence.emitted?) :
    s.reader.canRead e.identity.visibility = true := by
  obtain ⟨o, ho, he⟩ := List.mem_filterMap.1 h
  have hmem := List.mem_map_of_mem (f := Occurrence.item) ho
  rw [map_item_occurrences] at hmem
  obtain ⟨r, hr, hitem⟩ := List.mem_map.1 hmem
  have htog := PropertyEdit.not_toggle_of_settles (HistoryDraft.settles_of_emitted? he)
  rw [Occurrence.identity_of_emitted? he, ← PropertyRecord.visibility_of_not_toggle htog, ← hitem,
    PropertyRecord.visibility_loaded]
  exact canRead_of_admitted hr

/-- When records of properties that the reader may not read are left out, so they are of what is let
in. -/
theorem admitted_filter_isOfReadable (s : HistoryScope) (records : List PropertyRecord) :
    s.admitted ((records.filter fun r => r.isOfReadable s.reader).map PropertyRecord.guarded)
      = (s.admitted (records.map PropertyRecord.guarded)).filter
          fun r => r.isOfReadable s.reader := by
  rw [admitted_guarded, admitted_guarded, List.filter_filter, List.filter_filter]
  exact List.filter_congr fun r _ => Bool.and_comm _ _

/-- A record that is refused is one of a readable property, so none of these is left out. -/
theorem findSome?_refusal?_filter {reader : Reader}
    (h : ∀ r ∈ records, reader.canRead r.visibility = true) :
    (records.filter fun r => r.isOfReadable reader).findSome? (PropertyRecord.refusal? fetch)
      = records.findSome? (PropertyRecord.refusal? fetch) := by
  rw [← List.head?_filterMap, ← List.head?_filterMap, List.filterMap_filter]
  refine congrArg List.head? (List.filterMap_congr fun r hr => ?_)
  cases he : r.refusal? fetch with
  | none => exact ite_self none
  | some e =>
    have htog := PropertyRecord.not_toggle_of_refusal? he
    have hreadable : r.isOfReadable reader = true := by
      rw [PropertyRecord.isOfReadable, ← PropertyRecord.visibility_of_not_toggle htog]
      exact h r hr
    rw [if_pos hreadable]

/-- No entry of a history is one of the records that are left out. -/
theorem filterMap_emitted?_isOfReadable (s : HistoryScope) (fetch : Load)
    (records : List PropertyRecord) :
    (occurrences (((s.admitted (records.map PropertyRecord.guarded)).filter
        fun r => r.isOfReadable s.reader).map (PropertyRecord.loaded fetch))).filterMap
          Occurrence.emitted?
      = (occurrences ((s.admitted (records.map PropertyRecord.guarded)).map
          (PropertyRecord.loaded fetch))).filterMap Occurrence.emitted? := by
  have hload : ∀ r : PropertyRecord, (r.loaded fetch).isOfReadable s.reader
      = r.isOfReadable s.reader := by
    intro r
    rw [PropertyRecord.isOfReadable, PropertyRecord.identity_loaded]
    rfl
  have hlabel : ∀ r : PropertyRecord, r.edit.isToggle = false →
      r.isOfReadable s.reader = s.reader.canRead r.identity.visibility := fun r _ => rfl
  rw [PropertyRecord.map_loaded_filter hload,
    filterMap_emitted?_filter _ (fun i => s.reader.canRead i.visibility) hlabel]
  exact List.filter_eq_self.2 fun e he => canRead_of_emitted? he

/-- A history can be told without the records of properties that the reader may not read. -/
theorem history_filter_isOfReadable (s : HistoryScope) (fetch : Load)
    (records : List PropertyRecord) :
    s.history fetch (records.filter fun r => r.isOfReadable s.reader)
      = s.history fetch records := by
  have hread : ∀ r ∈ s.admitted (records.map PropertyRecord.guarded),
      s.reader.canRead r.visibility = true := fun r hr => canRead_of_admitted hr
  rw [history, history, reconstruct_eq, reconstruct_eq, admitted_filter_isOfReadable,
    findSome?_refusal?_filter hread, filterMap_emitted?_isOfReadable]

end HistoryScope

namespace Log

theorem propertyRecords_redact (log : Log) (reader : Reader) :
    (log.redact reader).propertyRecords
      = log.propertyRecords.filter fun r => r.isOfReadable reader := by
  rw [redact, propertyRecords_keep]
  refine List.filter_congr fun r _ => ?_
  rw [Mutation.isWithheld, Bool.not_not]
  rfl

theorem history_redact (log : Log) (s : HistoryScope) (f : PropertyFilter) (fetch : Load) :
    (log.redact s.reader).history s f fetch = log.history s f fetch := by
  have hrecords : (log.redact s.reader).recordsOf f
      = (log.recordsOf f).filter fun r => r.isOfReadable s.reader := by
    rw [recordsOf, recordsOf, propertyRecords_redact, List.filter_filter, List.filter_filter]
    exact List.filter_congr fun r _ => Bool.and_comm _ _
  rw [history, history, hrecords, HistoryScope.history_filter_isOfReadable]

end Log

/-! ## Nothing unreadable is returned -/

namespace Log

variable {v : View} {fetch : Load}

theorem canRead_of_mem_properties {log : Log} {f : PropertyFilter} {p : Property}
    (h : p ∈ log.properties v f) : v.reader.canRead p.identity.visibility = true := by
  rw [properties_eq, List.mem_filterMap] at h
  obtain ⟨i, hi, hfold⟩ := h
  rw [identity_of_fold_group hfold]
  exact (List.mem_filter.1 hi).2

/-- Loading the value of a property does not change whose it is. -/
theorem identity_of_resolve {p q : Property} (h : p.resolve fetch = .ok q) :
    q.identity = p.identity := by
  rw [Property.resolve] at h
  cases hload : p.value.load fetch p.identity p.timestamp with
  | error e => rw [hload] at h; cases h
  | ok value => rw [hload] at h; cases h; rfl

theorem canRead_of_mem_resolved {log : Log} {f : PropertyFilter} {p : Property}
    (h : .ok p ∈ log.resolved v f fetch) : v.reader.canRead p.identity.visibility = true := by
  obtain ⟨q, hq, hresolve⟩ := List.mem_map.1 h
  rw [identity_of_resolve hresolve]
  exact canRead_of_mem_properties hq

theorem canRead_of_property {log : Log} {i : PropertyIdentity} {p : Property}
    (h : log.property v i fetch = .ok (some p)) :
    v.reader.canRead p.identity.visibility = true := by
  rw [property] at h
  split at h
  · cases h
  · next r rest hlist =>
    cases r with
    | error e => cases h
    | ok q =>
      cases h
      have hmem : .ok p ∈ log.resolved v (.only i) fetch := by
        rw [hlist]
        exact List.mem_cons_self
      exact canRead_of_mem_resolved hmem

theorem canRead_of_mem_history {log : Log} {s : HistoryScope} {f : PropertyFilter}
    {es : List HistoryEntry} (h : log.history s f fetch = .ok es) {e : HistoryEntry} (he : e ∈ es) :
    s.reader.canRead e.identity.visibility = true := by
  rw [history, HistoryScope.history, HistoryScope.reconstruct_eq] at h
  split at h
  · cases h
  · cases h
    exact HistoryScope.canRead_of_emitted? (List.mem_reverse.1 he)

end Log

/-- No property of a state is one that the reader may not read. -/
theorem Element.canRead_of_mem_state {v : View} {fetch : Load} {e : Element} {σ : ElementState}
    (h : e.state v fetch = .ok σ) :
    ∀ p ∈ σ.properties, v.reader.canRead p.identity.visibility = true := by
  rw [state] at h
  cases hall : e.log.allProperties v fetch with
  | error err => rw [hall] at h; cases h
  | ok ps =>
    rw [hall] at h
    cases h
    intro p hp
    have hmem : .ok p ∈ e.log.resolved v .any fetch := by
      rw [Log.allProperties_eq_ok_iff.1 hall]
      exact List.mem_map_of_mem hp
    exact Log.canRead_of_mem_resolved hmem

/-! ## All reads -/

theorem Session.materialize_fst {α : Type} (s : Session) (m : Materializer α) (v : View) :
    (s.materialize m v).1 = s.element.materialize m v s.engine.loader.load := by
  unfold materialize
  split
  · split
    · next h => exact h.symm
    · rfl
  · next h => rw [Element.materialize, if_neg h]; rfl

/-- A read of a table is a read of the element, if there is one and it may be shown. -/
theorem Table.read_fst {α : Type} (t : Table) (id : String) (m : Materializer α) (v : View) :
    (t.read id m v).1
      = match t.get? id with
        | none => .ok none
        | some e => if e.isVisible v then e.materialize m v t.engine.loader.load else .ok none := by
  rw [read, session?]
  cases t.get? id with
  | none => rfl
  | some e =>
    simp only [Option.map_some]
    split
    · exact Session.materialize_fst ⟨t.engine, e⟩ m v
    · rfl

theorem Table.get?_redact (t : Table) (reader : Reader) (id : String) :
    (t.redact reader).get? id = (t.get? id).map (·.redact reader) := by
  rw [get?, get?]
  cases ElementId.ofString id with
  | error e => rfl
  | ok key => exact OrderedMap.get?_mapValues _ t.elements key

theorem Element.isVisible_redact (e : Element) (v : View) :
    (e.redact v.reader).isVisible v = e.isVisible v := by
  show ((e.log.redact v.reader).isReadable v.reader
      && (v.hints.includeHidden || !(e.log.redact v.reader).isHidden v.reader))
    = (e.log.isReadable v.reader && (v.hints.includeHidden || !e.log.isHidden v.reader))
  rw [Log.isReadable, Log.isHidden, Log.visibility_redact, Log.hiders_redact]
  rfl

theorem Element.materialize_redact {α : Type} (e : Element) (m : Materializer α) (v : View)
    (fetch : Load) : (e.redact v.reader).materialize m v fetch = e.materialize m v fetch :=
  (e.log.showsAs_redact v.hints v.asOf v.reader).materialize_eq m fetch

theorem Table.read_redact {α : Type} (t : Table) (id : String) (m : Materializer α) (v : View) :
    ((t.redact v.reader).read id m v).1 = (t.read id m v).1 := by
  rw [read_fst, read_fst, get?_redact]
  cases t.get? id with
  | none => rfl
  | some e =>
    show (if (e.redact v.reader).isVisible v then _ else _) = if e.isVisible v then _ else _
    rw [Element.isVisible_redact]
    split
    · exact e.materialize_redact m v t.engine.loader.load
    · rfl

/-- **What a reader may not read does not reach them.**  From a redacted log, element or table a
reader gets the answers that the whole one gives, failures included; and no property and no entry of
a history that they get is one that they may not read. -/
theorem reads_redact (v : View) (fetch : Load) :
    (∀ log : Log,
        (∀ i, (log.redact v.reader).property v i fetch = log.property v i fetch)
          ∧ (log.redact v.reader).resolved v .any fetch = log.resolved v .any fetch
          ∧ (∀ range marker f,
              (log.redact v.reader).history ⟨range, v.reader, marker⟩ f fetch
                = log.history ⟨range, v.reader, marker⟩ f fetch)
          ∧ (log.redact v.reader).isDeleted v.asOf v.reader = log.isDeleted v.asOf v.reader)
      ∧ (∀ {α : Type} (e : Element) (m : Materializer α),
          (e.redact v.reader).materialize m v fetch = e.materialize m v fetch)
      ∧ (∀ {α : Type} (t : Table) (id : String) (m : Materializer α),
          ((t.redact v.reader).read id m v).1 = (t.read id m v).1)
      ∧ (∀ log : Log,
          (∀ i p, log.property v i fetch = .ok (some p) →
              v.reader.canRead p.identity.visibility = true)
            ∧ (∀ p, .ok p ∈ log.resolved v .any fetch →
                v.reader.canRead p.identity.visibility = true)
            ∧ ∀ range marker f es, log.history ⟨range, v.reader, marker⟩ f fetch = .ok es →
                ∀ e ∈ es, v.reader.canRead e.identity.visibility = true)
      ∧ ∀ (e : Element) (σ : ElementState), e.state v fetch = .ok σ →
          ∀ p ∈ σ.properties, v.reader.canRead p.identity.visibility = true := by
  refine ⟨fun log => ⟨fun i => ?_, ?_, fun range marker f => ?_, ?_⟩,
    fun e m => e.materialize_redact m v fetch, fun t id m => t.read_redact id m v,
    fun log => ⟨fun i p => Log.canRead_of_property, fun p => Log.canRead_of_mem_resolved,
      fun range marker f es h e he => Log.canRead_of_mem_history h he⟩,
    fun e σ => Element.canRead_of_mem_state⟩
  · rw [Log.property, Log.property, Log.resolved, Log.resolved,
      log.properties_redact v.hints v.asOf v.reader]
  · rw [Log.resolved, Log.resolved, log.properties_redact v.hints v.asOf v.reader]
  · exact log.history_redact ⟨range, v.reader, marker⟩ f fetch
  · exact log.isDeleted_redact v.asOf v.reader

/-- A salary that only the board may read, hidden for all to read, a title, and a deletion under the
board's label. -/
def personnel : Log :=
  Log.empty.extend [
    Mutation.elementTimestamp 1,
    .property ⟨2, ⟨"salary", "k", ⟨"board"⟩⟩, .setValue (.int 9) OrderedMap.empty⟩,
    .property ⟨3, ⟨"title", "k", .empty⟩, .setValue (.int 1) OrderedMap.empty⟩,
    .property ⟨4, ⟨"salary", "k", ⟨"board"⟩⟩, .hide .empty⟩,
    (Mutation.softDelete 5).withVisibility ⟨"board"⟩]

/-- Three records of five are withheld from a reader without grants; the reader sees the title, and
no deletion. -/
theorem reads_redact_personnel :
    let reader : Reader := .holding (.ofLabels [])
    let v : View := ⟨.all, none, reader⟩
    personnel.length = 5 ∧ (personnel.redact reader).length = 2
      ∧ personnel.isDeleted none .all = true ∧ personnel.isDeleted none reader = false
      ∧ (personnel.redact reader).isDeleted none reader = personnel.isDeleted none reader
      ∧ (personnel.resolved v .any Load.nothing).length = 1
      ∧ (personnel.redact reader).resolved v .any Load.nothing
        = personnel.resolved v .any Load.nothing
      ∧ ∀ p, .ok p ∈ personnel.resolved v .any Load.nothing →
          reader.canRead p.identity.visibility = true := by
  intro reader v
  obtain ⟨hsame, -, -, hreadable, -⟩ := reads_redact v Load.nothing
  obtain ⟨-, hresolved, -, hdeleted⟩ := hsame personnel
  obtain ⟨-, hproperties, -⟩ := hreadable personnel
  exact ⟨by decide, by decide, by decide, by decide, hdeleted, by decide, hresolved, hproperties⟩

end Chronicle
