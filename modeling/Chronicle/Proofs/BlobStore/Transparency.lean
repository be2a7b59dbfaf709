import Chronicle.Proofs.BlobStore.Retrieval
import Chronicle.Proofs.Log.Inlining
import Chronicle.Proofs.Materialization

/-!
# Large values in a store or in the log

A large value is put into a blob store and the log refers to it.  A property is loaded as of its own
time, which is never earlier than that of the record that set its value, whoever reads and whatever
was recorded later; a history loads each value as of its record's time.  So if no record is earlier
than the put that its reference comes from, and what was put is kept, all values load.  Reads then
cannot tell the log from one that has the values themselves.

* `IsHandedOut`, `load_of_isHandedOut` : references that are good from the time of the put on;
* `Log.RefersTo`, `Log.RefersTo.resolve_eq` : what is loaded if all references are;
* `Session.loadsAs_of_refersTo` : reads of a session whose log refers to what is kept;
* `Session.loadsAs_inlined` : reads after a run of puts and appends.
-/

namespace Chronicle

/-! ## References that are good -/

/-- The reference was handed out for the value, which was put at the time `w`.  Its id was not
removed since and not given to another blob, as it cannot be in fewer calls than there are ids. -/
def IsHandedOut (calls : List BlobCall) (ref : ValueRef) (v : PropValue) (w : Timestamp) : Prop :=
  ∃ o ∈ occurrences calls, ∃ b : Blob, o.item.deposit? = some (b, v) ∧ b.writtenAt = w
    ∧ o.answer = .stored (.ok ref) ∧ .remove ref.id ∉ o.after
    ∧ ∀ o' ∈ occurrences calls, o.before.length < o'.before.length →
        o'.answer.id? ≠ some ref.id

variable {calls : List BlobCall} {o : Occurrence BlobCall} {ref : ValueRef} {v : PropValue}
  {w ts : Timestamp} {b : Blob} {id : UInt64}

/-- A blob whose id was not removed since and not given to another is there. -/
theorem get?_after_of_not_replaced (ho : o ∈ occurrences calls) (hb : o.item.accepted? = some b)
    (hid : o.answer.id? = some id) (hkept : .remove id ∉ o.after)
    (hlast : ∀ o' ∈ occurrences calls, o.before.length < o'.before.length →
      o'.answer.id? ≠ some id) :
    (BlobStore.after calls).blobs.get? id = some b := by
  induction calls using List.reverseRecOn generalizing o with
  | nil => simp at ho
  | append_singleton calls c ih =>
    rw [occurrences_append_singleton] at ho hlast
    rw [BlobStore.after_append_singleton]
    rcases List.mem_append.1 ho with ho | ho
    · obtain ⟨o₀, ho₀, rfl⟩ := List.mem_map.1 ho
      have hthere : (BlobStore.after calls).blobs.get? id = some b := by
        refine ih ho₀ hb hid (fun hmem => hkept (List.mem_append_left _ hmem)) ?_
        intro o' ho' hlater
        exact hlast (o'.extend [c]) (List.mem_append_left _ (List.mem_map_of_mem ho')) hlater
      have hother : (c.on (BlobStore.after calls)).1.id? ≠ some id := by
        refine hlast ⟨calls, c, []⟩ (List.mem_append_right _ (List.mem_singleton.2 rfl)) ?_
        have hlen := (isPrefix_of_mem_occurrences ho₀).length_le
        rw [List.length_append, List.length_singleton] at hlen
        exact hlen
      cases hc : c.accepted? with
      | some b' =>
        obtain ⟨text, v', -, -, hon⟩ := BlobCall.on_of_accepted hc
        obtain ⟨hanswer, hblobs, -⟩ := hon (BlobStore.after calls)
        have hne : id ≠ (BlobStore.after calls).nextId := by
          rintro rfl
          rw [hanswer] at hother
          exact hother rfl
        rw [hblobs, OrderedMap.get?_insert_of_ne _ _ hne, hthere]
      | none =>
        obtain ⟨-, -, hblobs⟩ := BlobCall.on_of_not_accepted hc (BlobStore.after calls)
        have hne : c ≠ .remove id := by
          rintro rfl
          exact hkept (List.mem_append_right _ (List.mem_singleton.2 rfl))
        rw [hblobs, if_neg hne, hthere]
    · obtain rfl := List.mem_singleton.1 ho
      obtain ⟨text, v', -, -, hon⟩ := BlobCall.on_of_accepted hb
      obtain ⟨hanswer, hblobs, -⟩ := hon (BlobStore.after calls)
      obtain rfl : (BlobStore.after calls).nextId = id := by
        rw [Occurrence.answer, hanswer] at hid
        exact Option.some.inj hid
      rw [hblobs, OrderedMap.get?_insert_self]

/-- A put that is answered with a reference was accepted. -/
theorem accepted?_of_answer (hdeposit : o.item.deposit? = some (b, v))
    (hanswer : o.answer = .stored (.ok ref)) : o.item.accepted? = some b := by
  refine BlobCall.accepted?_eq_some_iff.2 ⟨?_, v, hdeposit⟩
  by_contra hlong
  rw [Occurrence.answer, BlobCall.on_of_tooLong hdeposit (Nat.not_le.1 hlong)] at hanswer
  cases hanswer

/-- A reference that was handed out is good for the value from the time of the put on. -/
theorem load_of_isHandedOut (h : IsHandedOut calls ref v w) (hts : w ≤ ts) :
    (BlobStore.after calls).load ref ts = .ok v := by
  obtain ⟨o, ho, b, hdeposit, rfl, hanswer, hkept, hlast⟩ := h
  have hb := accepted?_of_answer hdeposit hanswer
  have hthere := get?_after_of_not_replaced ho hb (by rw [hanswer]; rfl) hkept hlast
  obtain ⟨text, v', hdeposit', hdecode, hon⟩ := BlobCall.on_of_accepted hb
  obtain rfl : v = v' := by
    rw [hdeposit] at hdeposit'
    exact (Prod.mk.inj (Option.some.inj hdeposit')).2
  have href : BlobStore.reference (BlobStore.after o.before).nextId b.bytes text = ref := by
    rw [Occurrence.answer, (hon (BlobStore.after o.before)).1] at hanswer
    exact Except.ok.inj (BlobAnswer.stored.inj hanswer)
  subst href
  have hblob : (BlobStore.after calls).blobs.get? (BlobStore.after o.before).nextId = some b :=
    hthere
  rw [BlobStore.load_reference hblob (BlobCall.accepted?_eq_some_iff.1 hb).1 hdecode,
    if_neg (Int64.not_lt.2 hts)]

/-- What was put is no reference. -/
theorem reference?_of_isHandedOut (h : IsHandedOut calls ref v w) : v.reference? = none := by
  obtain ⟨⟨before, c, after⟩, -, b, hdeposit, -⟩ := h
  cases c <;> cases hdeposit <;> rfl

/-- In fewer calls than there are ids no id is given twice. -/
theorem isHandedOut_of_not_removed (h : calls.length < UInt64.size) (ho : o ∈ occurrences calls)
    (hdeposit : o.item.deposit? = some (b, v)) (hanswer : o.answer = .stored (.ok ref))
    (hkept : .remove ref.id ∉ o.after) : IsHandedOut calls ref v b.writtenAt := by
  refine ⟨o, ho, b, hdeposit, rfl, hanswer, hkept, ?_⟩
  intro o' ho' hlater hid'
  have hb := accepted?_of_answer hdeposit hanswer
  have hid : o.answer.id? = some ref.id := by
    rw [hanswer]
    rfl
  cases hb' : o'.item.accepted? with
  | some b' =>
    rw [id?_answer hb] at hid
    rw [id?_answer hb', ← hid] at hid'
    obtain rfl := eq_of_idAfter_before_eq h ho' ho hb' hb (Option.some.inj hid')
    exact absurd hlater (Nat.lt_irrefl _)
  | none =>
    obtain ⟨hnone, -⟩ := BlobCall.on_of_not_accepted hb' (BlobStore.after o'.before)
    rw [Occurrence.answer, hnone] at hid'
    cases hid'

/-! ## Logs that refer to what is kept -/

namespace Log

/-- Every reference in the log was handed out for its content, not later than the record. -/
def RefersTo (log : Log) (calls : List BlobCall) (content : ValueRef → PropValue) : Prop :=
  ∀ r ∈ log.propertyRecords, ∀ ref m, r.edit = .setValue (.ref ref) m →
    ∃ w ≤ r.timestamp, IsHandedOut calls ref (content ref) w

variable {log : Log} {content : ValueRef → PropValue}

/-- A property is loaded as of its own time, which is not earlier than the put. -/
theorem RefersTo.resolve_eq (h : log.RefersTo calls content) {view : View} {f : PropertyFilter}
    {p : Property} (hp : p ∈ log.properties view f) :
    p.resolve (BlobStore.after calls).load = .ok (p.inlined content) := by
  obtain ⟨r, hr, m, he, hle⟩ := exists_setValue_of_mem_properties hp
  obtain ⟨i, value, metadata, time, hidden⟩ := p
  cases value with
  | ref ref =>
    obtain ⟨w, hw, hout⟩ := h r hr ref m he
    have hload := load_of_isHandedOut hout (Int64.le_trans hw hle)
    simp only [Property.resolve, PropValue.load, hload]
    rfl
  | _ => rfl

/-- A record's value is loaded as of the record's time. -/
theorem RefersTo.load_eq (h : log.RefersTo calls content) {r : PropertyRecord}
    (hr : r ∈ log.propertyRecords) :
    r.load (BlobStore.after calls).load = .ok (r.inlined content) := by
  obtain ⟨time, i, edit⟩ := r
  cases edit with
  | setValue value m =>
    cases value with
    | ref ref =>
      obtain ⟨w, hw, hout⟩ := h _ hr ref m rfl
      simp only [PropertyRecord.load, PropValue.load, load_of_isHandedOut hout hw]
      rfl
    | _ => rfl
  | _ => rfl

/-- With the values in it the log has no references. -/
theorem RefersTo.storesInline (h : log.RefersTo calls content) :
    (log.inlined content).StoresInline := by
  intro r hr value m he
  rw [propertyRecords_inlined, List.mem_map] at hr
  obtain ⟨r, hr, rfl⟩ := hr
  obtain ⟨time, i, edit⟩ := r
  cases edit with
  | setValue stored _ =>
    cases he
    cases stored with
    | ref ref =>
      obtain ⟨w, -, hout⟩ := h _ hr ref m rfl
      exact reference?_of_isHandedOut hout
    | _ => rfl
  | _ => cases he

end Log

/-! ## Reads -/

namespace ElementState

/-- A state is refused as a vertex for what it is, not for what it has. -/
theorem kind_of_toVertex_eq_error {s : ElementState} {view : View} {e : Error}
    (h : toVertex s view = .error e) : e.kind = .invalid := by
  rw [toVertex] at h
  cases hkind : s.kind with
  | vertex =>
    rw [hkind] at h
    cases h
  | edge =>
    rw [hkind] at h
    cases h
    rfl

/-- So it is as an edge. -/
theorem kind_of_toEdge_eq_error {s : ElementState} {view : View} {e : Error}
    (h : toEdge s view = .error e) : e.kind = .invalid := by
  rw [toEdge] at h
  cases hkind : s.kind with
  | vertex =>
    rw [hkind] at h
    cases h
    rfl
  | edge =>
    cases hlabel : s.facts.edgeLabel with
    | none =>
      rw [hkind, hlabel] at h
      cases h
      rfl
    | some label =>
      rw [hkind, hlabel] at h
      cases h

end ElementState

/-- Whatever is asked of either session, the same is read, and no value fails to load: a property or
a history is read, and an element is made unless the materializer refuses it. -/
structure Session.LoadsAs (s s' : Session) : Prop where
  properties (v : View) (taken : Option Nat) : ∃ ps : List Property,
    (s.properties v taken).2.1 = ps.map .ok ∧ (s'.properties v taken).2.1 = ps.map .ok
  property (v : View) (i : PropertyIdentity) : ∃ p,
    (s.property v i).1 = .ok p ∧ (s'.property v i).1 = .ok p
  allProperties (v : View) : ∃ ps,
    (s.allProperties v).1 = .ok ps ∧ (s'.allProperties v).1 = .ok ps
  history (f : PropertyFilter) (range : TimeRange) (reader : Reader) : ∃ es,
    (s.history f range reader).1 = .ok es ∧ (s'.history f range reader).1 = .ok es
  materialize {α : Type} (m : Materializer α) (v : View) :
    (s.materialize m v).1 = (s'.materialize m v).1
      ∧ ∀ e, (s.materialize m v).1 = .error e → ∃ state, m state v = .error e

namespace Log

variable {log : Log} {content : ValueRef → PropValue}

/-- All values load, and what is read has the contents in it. -/
theorem RefersTo.resolved_eq (h : log.RefersTo calls content) (v : View) (f : PropertyFilter) :
    log.resolved v f (BlobStore.after calls).load
      = ((log.inlined content).properties v f).map .ok := by
  rw [resolved, properties_inlined, List.map_map]
  exact List.map_congr_left fun p hp => h.resolve_eq hp

/-- A history of records that all load is drafted from the loaded ones. -/
theorem history_of_load {fetch : Load} {loaded : PropertyRecord → PropertyRecord}
    (h : ∀ r ∈ log.propertyRecords, r.load fetch = .ok (loaded r)) (s : HistoryScope)
    (f : PropertyFilter) :
    log.history s f fetch
      = .ok (HistoryDraft.ofRecords
          ((s.admitted ((log.recordsOf f).map PropertyRecord.guarded)).map loaded)).entries := by
  have hrun : ((s.admitted ((log.recordsOf f).map PropertyRecord.guarded)).mapM
      fun r => r.load fetch)
      = .ok ((s.admitted ((log.recordsOf f).map PropertyRecord.guarded)).map loaded) := by
    rw [mapM_eq_ok_iff, List.map_map]
    refine List.map_congr_left fun r hr => h r ?_
    rw [HistoryScope.admitted_guarded] at hr
    exact (List.mem_filter.1 (List.mem_filter.1 hr).1).1
  rw [history, HistoryScope.history, HistoryScope.reconstruct, hrun]
  rfl

theorem load_of_storesInline (h : log.StoresInline) (fetch : Load) {r : PropertyRecord}
    (hr : r ∈ log.propertyRecords) : r.load fetch = .ok r := by
  obtain ⟨time, i, edit⟩ := r
  cases edit with
  | setValue value m =>
    cases value with
    | ref ref => cases h _ hr (.ref ref) m rfl
    | _ => rfl
  | _ => rfl

/-- The same history is read of the log with the contents in it. -/
theorem RefersTo.history_eq (h : log.RefersTo calls content) (s : HistoryScope)
    (f : PropertyFilter) (fetch : Load) : ∃ es,
    log.history s f (BlobStore.after calls).load = .ok es
      ∧ (log.inlined content).history s f fetch = .ok es := by
  have hplain : ∀ r ∈ (log.inlined content).propertyRecords, r.load fetch = .ok (id r) :=
    fun r hr => load_of_storesInline h.storesInline fetch hr
  refine ⟨_, history_of_load (fun r hr => h.load_eq hr) s f, ?_⟩
  rw [history_of_load hplain, List.map_id, admitted_inlined]

end Log

namespace Element

theorem stateWith_inlined (e : Element) (v : View) (ps : List Property) :
    (e.inlined content).stateWith v ps = e.stateWith v ps := by
  rw [inlined, stateWith, stateWith, Log.facts_inlined, Log.firstTimestamp_inlined,
    Log.hiders_inlined]

/-- The same is made of an element, whose properties load, and of the one with the values in its
log, unless the materializer refuses it. -/
theorem materialize_inlined {e : Element} {v : View} {fetch fetch' : Load} {ps : List Property}
    (h : e.log.allProperties v fetch = .ok ps)
    (h' : (e.inlined content).log.allProperties v fetch' = .ok ps) {α : Type}
    (m : Materializer α) :
    e.materialize m v fetch = (e.inlined content).materialize m v fetch'
      ∧ ∀ cause, e.materialize m v fetch = .error cause → ∃ state, m state v = .error cause := by
  have hpresent := e.isPresent_inlined content v
  cases hthere : e.isPresent v with
  | false =>
    rw [materialize, materialize, hpresent, hthere]
    refine ⟨rfl, fun cause hcause => ?_⟩
    cases hcause
  | true =>
    rw [materialize_of_present hthere, materialize_of_present (hpresent.trans hthere), h, h']
    dsimp only
    rw [stateWith_inlined]
    refine ⟨rfl, fun cause hcause => ⟨e.stateWith v ps, ?_⟩⟩
    cases hmade : m (e.stateWith v ps) v with
    | error cause' =>
      rw [hmade] at hcause
      cases hcause
      rfl
    | ok a =>
      rw [hmade] at hcause
      cases hcause

end Element

namespace Session

theorem results_properties (s : Session) (v : View) (taken : Option Nat) :
    (s.properties v taken).2.1
      = (s.element.log.resolved v .any s.engine.loader.load).take
          (taken.getD (s.element.log.properties v .any).length) := by
  cases taken with
  | none =>
    rw [Option.getD_none, Log.resolved, ← List.map_take, List.take_length]
    rfl
  | some n =>
    rw [Option.getD_some, Log.resolved, ← List.map_take]
    rfl

variable {s s' : Session} {content : ValueRef → PropValue}

/-- A session whose log refers to what is kept is read as one that has the contents in its log and
loads nothing. -/
theorem loadsAs_of_refersTo (h : s.element.log.RefersTo calls content)
    (hload : s.engine.loader.load = (BlobStore.after calls).load)
    (hmarker : s'.engine.marker = s.engine.marker)
    (helement : s'.element = s.element.inlined content) : s.LoadsAs s' := by
  have hlog : s'.element.log = s.element.log.inlined content := by
    rw [helement]
    rfl
  -- a read of either session finds the same properties, and none of them fails to load
  have hresolved : ∀ v f, s.element.log.resolved v f s.engine.loader.load
      = (s'.element.log.properties v f).map .ok := by
    intro v f
    rw [hload, hlog]
    exact h.resolved_eq v f
  have hresolved' : ∀ v f, s'.element.log.resolved v f s'.engine.loader.load
      = (s'.element.log.properties v f).map .ok := by
    intro v f
    rw [hlog]
    exact Log.resolved_of_storesInline h.storesInline v f _
  have hall : ∀ v, s.element.log.allProperties v s.engine.loader.load
      = .ok (s'.element.log.properties v .any) := by
    intro v
    exact Log.allProperties_eq_ok_iff.2 (hresolved v .any)
  have hall' : ∀ v, s'.element.log.allProperties v s'.engine.loader.load
      = .ok (s'.element.log.properties v .any) := by
    intro v
    exact Log.allProperties_eq_ok_iff.2 (hresolved' v .any)
  refine ⟨?_, ?_, ?_, ?_, ?_⟩
  · intro v taken
    refine ⟨(s'.element.log.properties v .any).take
      (taken.getD (s'.element.log.properties v .any).length), ?_, ?_⟩
    · have hcount : (s.element.log.properties v .any).length
          = (s'.element.log.properties v .any).length := by
        rw [hlog, Log.properties_inlined, List.length_map]
      rw [results_properties, hresolved, hcount, List.map_take]
    · rw [results_properties, hresolved', List.map_take]
  · intro v i
    refine ⟨(s'.element.log.properties v (.only i)).head?, ?_, ?_⟩
    · show s.element.log.property v i s.engine.loader.load = _
      rw [Log.property, hresolved]
      cases s'.element.log.properties v (.only i) <;> rfl
    · show s'.element.log.property v i s'.engine.loader.load = _
      rw [Log.property, hresolved']
      cases s'.element.log.properties v (.only i) <;> rfl
  · intro v
    exact ⟨_, hall v, hall' v⟩
  · intro f range reader
    obtain ⟨es, hes, hes'⟩ :=
      h.history_eq ⟨range, reader, s.engine.marker⟩ f s'.engine.loader.load
    refine ⟨es, ?_, ?_⟩
    · rw [history_fst, hload, hes]
    · rw [history_fst, hmarker, hlog, hes']
  · intro α m v
    rw [materialize_fst, materialize_fst]
    have hread := hall v
    have hread' := hall' v
    rw [helement] at hread hread' ⊢
    exact Element.materialize_inlined hread hread' m

end Session

/-! ## Runs -/

/-- A step of work with large values: a call of the blob store, or records appended to the
element. -/
inductive WorkStep where
  | store (c : BlobCall)
  | append (batch : List Mutation)

/-- The loader after a call of the blob store, if it is one. -/
def Loader.afterCall (c : BlobCall) : Loader → Loader
  | .blobs store => .blobs (c.on store).2
  | l => l

namespace WorkStep

/-- The session after the step. -/
def on (s : Session) : WorkStep → Session
  | store c => { s with engine := { s.engine with loader := s.engine.loader.afterCall c } }
  | append batch => (s.append batch).2

/-- The session after the steps. -/
def run (s : Session) (steps : List WorkStep) : Session := steps.foldl on s

/-- The call of the blob store, if the step is one. -/
def call? : WorkStep → Option BlobCall
  | store c => some c
  | append _ => none

/-- The records that the step appends, if it does. -/
def batch? : WorkStep → Option (List Mutation)
  | store _ => none
  | append batch => some batch

/-- The step with the contents in the records. -/
def inlined (content : ValueRef → PropValue) : WorkStep → WorkStep
  | store c => store c
  | append batch => append (batch.map (Mutation.inlined content))

theorem run_append_singleton (s : Session) (steps : List WorkStep) (step : WorkStep) :
    run s (steps ++ [step]) = on (run s steps) step := by
  rw [run, List.foldl_append]
  rfl

theorem log_append (s : Session) (batch : List Mutation) :
    (on s (append batch)).element = { s.element with log := s.element.log.extend batch } := rfl

/-- Appending is counted, and changes nothing else of the engine. -/
theorem engine_append (s : Session) (batch : List Mutation) :
    (on s (append batch)).engine.marker = s.engine.marker
      ∧ (on s (append batch)).engine.loader = s.engine.loader := by
  rw [on, Session.append]
  cases batch <;> exact ⟨rfl, rfl⟩

/-- After a run the element has what was appended, and the loader what the calls left. -/
theorem run_spec (engine : Engine) (id : ElementId) (kind : ElementKind)
    (steps : List WorkStep) :
    let s := run ⟨engine, ⟨id, kind, .empty⟩⟩ steps
    s.element = ⟨id, kind, Log.ofAppends (steps.filterMap batch?)⟩
      ∧ s.engine.marker = engine.marker
      ∧ s.engine.loader
        = (steps.filterMap call?).foldl (fun l c => l.afterCall c) engine.loader := by
  induction steps using List.reverseRecOn with
  | nil => exact ⟨rfl, rfl, rfl⟩
  | append_singleton steps step ih =>
    obtain ⟨helement, hmarker, hloader⟩ := ih
    rw [run_append_singleton]
    cases step with
    | store c =>
      have hbatches : (steps ++ [store c]).filterMap batch? = steps.filterMap batch? := by
        simp [batch?]
      have hcalls : (steps ++ [store c]).filterMap call? = steps.filterMap call? ++ [c] := by
        simp [call?]
      rw [hbatches, hcalls, List.foldl_append, ← hloader]
      exact ⟨helement, hmarker, rfl⟩
    | append batch =>
      have hbatches : (steps ++ [append batch]).filterMap batch?
          = steps.filterMap batch? ++ [batch] := by
        simp [batch?]
      have hcalls : (steps ++ [append batch]).filterMap call? = steps.filterMap call? := by
        simp [call?]
      obtain ⟨hmarker', hloader'⟩ := engine_append (run ⟨engine, ⟨id, kind, .empty⟩⟩ steps) batch
      refine ⟨?_, hmarker'.trans hmarker, ?_⟩
      · rw [log_append, helement, hbatches, Log.ofAppends_append_singleton]
      · rw [hloader', hloader, hcalls]

/-- A blob store that is worked on is the store after the calls. -/
theorem foldl_afterCall (calls : List BlobCall) :
    calls.foldl (fun l c => Loader.afterCall c l) (.blobs .fresh)
      = .blobs (BlobStore.after calls) := by
  induction calls using List.reverseRecOn with
  | nil => rfl
  | append_singleton calls c ih =>
    rw [List.foldl_append, ih, BlobStore.after_append_singleton]
    rfl

/-- Putting the contents in changes what is appended and nothing else. -/
theorem batches_inlined (content : ValueRef → PropValue) (steps : List WorkStep) :
    (steps.map (inlined content)).filterMap batch?
      = (steps.filterMap batch?).map (List.map (Mutation.inlined content)) := by
  rw [List.filterMap_map, List.map_filterMap]
  refine List.filterMap_congr fun step _ => ?_
  cases step <;> rfl

end WorkStep

/-- **Large values in a store load as if they were in the log.**  In a run of puts, other calls of a
blob store, and appends to an element, let every record that sets a value by reference use a
reference that was handed out for the value no later than the record, and let what was put be kept.
Then every property, every history and every element is read as after a run that appends the values
themselves and has no store to load from, and no read fails to load a value: to no reader, as of no
moment, in no range of time and whatever is asked for. -/
theorem Session.loadsAs_inlined (engine : Engine) (id : ElementId) (kind : ElementKind)
    (steps : List WorkStep) (content : ValueRef → PropValue)
    (h : ∀ batch ∈ steps.filterMap WorkStep.batch?, ∀ r, Mutation.property r ∈ batch →
      ∀ ref m, r.edit = .setValue (.ref ref) m →
        ∃ w ≤ r.timestamp, IsHandedOut (steps.filterMap WorkStep.call?) ref (content ref) w) :
    let s := WorkStep.run ⟨{ engine with loader := .blobs .fresh }, ⟨id, kind, .empty⟩⟩ steps
    let s' := WorkStep.run ⟨{ engine with loader := .nothing }, ⟨id, kind, .empty⟩⟩
      (steps.map (WorkStep.inlined content))
    s.LoadsAs s' ∧ s'.element.log.StoresInline
      ∧ ∀ v e, (s.materialize ElementState.toVertex v).1 = .error e
          ∨ (s.materialize ElementState.toEdge v).1 = .error e → e.kind = .invalid := by
  intro s s'
  obtain ⟨helement, hmarker, hloader⟩ :=
    WorkStep.run_spec { engine with loader := .blobs .fresh } id kind steps
  obtain ⟨helement', hmarker', -⟩ := WorkStep.run_spec { engine with loader := .nothing } id kind
    (steps.map (WorkStep.inlined content))
  rw [WorkStep.foldl_afterCall] at hloader
  rw [WorkStep.batches_inlined, ← Log.inlined_ofAppends] at helement'
  have hrefers : s.element.log.RefersTo (steps.filterMap WorkStep.call?) content := by
    intro r hr ref m he
    obtain ⟨mutation, hmem, hproperty⟩ := List.mem_filterMap.1 hr
    cases mutation with
    | element _ => cases hproperty
    | property r' =>
      cases hproperty
      rw [helement, Log.mem_ofAppends, List.mem_flatten] at hmem
      obtain ⟨batch, hbatch, hmem⟩ := hmem
      exact h batch hbatch r hmem ref m he
  have hloads : s.LoadsAs s' := by
    refine Session.loadsAs_of_refersTo hrefers (congrArg Loader.load hloader)
      (hmarker'.trans hmarker.symm) ?_
    rw [helement', helement]
    rfl
  refine ⟨hloads, ?_, ?_⟩
  · rw [helement']
    rw [helement] at hrefers
    exact hrefers.storesInline
  · rintro v e (he | he)
    · obtain ⟨state, hstate⟩ := (hloads.materialize _ v).2 e he
      exact ElementState.kind_of_toVertex_eq_error hstate
    · obtain ⟨state, hstate⟩ := (hloads.materialize _ v).2 e he
      exact ElementState.kind_of_toEdge_eq_error hstate

/-- The reference to a report that was put as a text. -/
def reportRef : ValueRef := BlobStore.reference 1 (.ofText "snow") true

/-- The reference to a picture that was put as bytes. -/
def pictureRef : ValueRef := BlobStore.reference 2 [7, 8] false

/-- A report is put and recorded later, annotated as of an earlier time and hidden as of the first;
a picture is put and recorded as of the same time. -/
def expedition : List WorkStep :=
  [.store (.putText "snow" 3),
    .append [.elementTimestamp 1,
      .property ⟨5, ⟨"report", "", .empty⟩, .setValue (.ref reportRef) .empty⟩],
    .store (.putBytes [7, 8] 4),
    .append [.property ⟨2, ⟨"report", "", .empty⟩, .annotate .empty⟩,
      .property ⟨0, ⟨"report", "", .empty⟩, .hide ⟨"base"⟩⟩,
      .property ⟨4, ⟨"picture", "", .empty⟩, .setValue (.ref pictureRef) .empty⟩],
    .store (.remove 9)]

/-- What was put. -/
def findings (ref : ValueRef) : PropValue := if ref.id = 1 then .str "snow" else .bytes [7, 8]

/-- Both values load, for whoever sees what is hidden and for whoever does not. -/
theorem Session.loadsAs_inlined_expedition :
    let engine : Engine := ⟨.manual (.still 0), .nothing, none, "", 0⟩
    let peak : ElementId := ⟨"peak", by decide⟩
    let s := WorkStep.run ⟨{ engine with loader := .blobs .fresh }, ⟨peak, .vertex, .empty⟩⟩
      expedition
    let s' := WorkStep.run ⟨{ engine with loader := .nothing }, ⟨peak, .vertex, .empty⟩⟩
      (expedition.map (WorkStep.inlined findings))
    IsHandedOut (expedition.filterMap WorkStep.call?) reportRef (.str "snow") 3
      ∧ IsHandedOut (expedition.filterMap WorkStep.call?) pictureRef (.bytes [7, 8]) 4
      ∧ s.LoadsAs s' ∧ s'.element.log.StoresInline
      ∧ (s.allProperties ⟨.allIncludingHidden, none, .all⟩).1.map (List.map Property.value)
        = .ok [.bytes [7, 8], .str "snow"] := by
  intro engine peak s s'
  have hcalls : expedition.filterMap WorkStep.call?
      = [.putText "snow" 3, .putBytes [7, 8] 4, .remove 9] := rfl
  have hbatches : expedition.filterMap WorkStep.batch?
      = [[.elementTimestamp 1,
          .property ⟨5, ⟨"report", "", .empty⟩, .setValue (.ref reportRef) .empty⟩],
        [.property ⟨2, ⟨"report", "", .empty⟩, .annotate .empty⟩,
          .property ⟨0, ⟨"report", "", .empty⟩, .hide ⟨"base"⟩⟩,
          .property ⟨4, ⟨"picture", "", .empty⟩, .setValue (.ref pictureRef) .empty⟩]] := rfl
  have hreport : IsHandedOut (expedition.filterMap WorkStep.call?) reportRef (.str "snow") 3 := by
    rw [hcalls]
    exact isHandedOut_of_not_removed
      (o := ⟨[], .putText "snow" 3, [.putBytes [7, 8] 4, .remove 9]⟩) (by decide)
      (by simp [occurrences, occurrencesFrom]) rfl (by decide +kernel) (by decide)
  have hpicture :
      IsHandedOut (expedition.filterMap WorkStep.call?) pictureRef (.bytes [7, 8]) 4 := by
    rw [hcalls]
    exact isHandedOut_of_not_removed
      (o := ⟨[.putText "snow" 3], .putBytes [7, 8] 4, [.remove 9]⟩) (by decide)
      (by simp [occurrences, occurrencesFrom]) rfl (by decide +kernel) (by decide)
  have hrefers : ∀ batch ∈ expedition.filterMap WorkStep.batch?, ∀ r, .property r ∈ batch →
      ∀ ref m, r.edit = .setValue (.ref ref) m → ∃ w ≤ r.timestamp,
        IsHandedOut (expedition.filterMap WorkStep.call?) ref (findings ref) w := by
    intro batch hbatch r hr ref m he
    rw [hbatches] at hbatch
    simp only [List.mem_cons, List.not_mem_nil, or_false] at hbatch
    -- two records set a value, each by its own reference
    rcases hbatch with rfl | rfl
    · simp only [Mutation.elementTimestamp, List.mem_cons, Mutation.property.injEq,
        List.not_mem_nil, or_false, reduceCtorEq, false_or] at hr
      subst hr
      cases he
      exact ⟨3, by decide, hreport⟩
    · simp only [List.mem_cons, Mutation.property.injEq, List.not_mem_nil, or_false] at hr
      rcases hr with rfl | rfl | rfl
      · cases he
      · cases he
      · cases he
        exact ⟨4, by decide, hpicture⟩
  obtain ⟨hloads, hinline, -⟩ :=
    Session.loadsAs_inlined engine peak .vertex expedition findings hrefers
  exact ⟨hreport, hpicture, hloads, hinline, by decide +kernel⟩

end Chronicle
