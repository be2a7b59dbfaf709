import Chronicle.Proofs.BlobStore.Retrieval
import Chronicle.Proofs.Deletion
import Chronicle.Proofs.Property.Newest

/-!
# The time at which a value is loaded

Metadata, hiding and unhiding leave the value of a property alone: whatever is recorded of this
kind, and at whatever time, the last record that sets a value or deletes stays the last.  But a
current read loads the value as of the latest time that is recorded of the property, and each record
counts for that.  A blob store gives nothing before a blob was written, and the same ever after.  So
a record that leaves the value alone changes what is read in one case only: if the value is in a
blob that was written too late for all records so far, and not too late for the new one.

* `exists_recordsOf_insert` : a new record takes its place among those of its property;
* `fold_insert` : if it settles nothing, the value stays and only the time moves on;
* `load_eq_ok_iff_of_le` : what a blob store gives at a later time;
* `currentValue_insert` : what is read after the record, and what was read before.
-/

namespace Chronicle

/-! ## Where a new record stands -/

theorem exists_place (m : Mutation) (l : List Mutation) :
    ∃ before after, l = before ++ after ∧ Log.place m l = before ++ m :: after := by
  induction l with
  | nil => exact ⟨[], [], rfl, rfl⟩
  | cons x rest ih =>
    rw [Log.place]
    split
    · obtain ⟨before, after, hrest, hplace⟩ := ih
      exact ⟨x :: before, after, by rw [hrest]; rfl, by rw [hplace]; rfl⟩
    · exact ⟨[], x :: rest, rfl, rfl⟩

/-- A new record takes its place among those of its property. -/
theorem Log.exists_recordsOf_insert (log : Log) (r : PropertyRecord) :
    ∃ before after, log.recordsOf (.only r.identity) = before ++ after
      ∧ (log.insert (.property r)).recordsOf (.only r.identity) = before ++ r :: after := by
  obtain ⟨before, after, hentries, hplace⟩ := exists_place (.property r) log.entries
  let own (l : List Mutation) : List PropertyRecord :=
    (l.filterMap Mutation.property?).filter fun a =>
      (PropertyFilter.only r.identity).admits a.identity
  have hown : own (.property r :: after) = r :: own after :=
    List.filter_cons_of_pos (PropertyFilter.admits_only.2 rfl)
  refine ⟨own before, own after, ?_, ?_⟩
  · rw [recordsOf, propertyRecords, hentries, List.filterMap_append, List.filter_append]
  · rw [recordsOf, propertyRecords, entries_insert, hplace, List.filterMap_append,
      List.filter_append, ← hown]

/-! ## What it changes -/

theorem settled_insert (before after : List PropertyRecord) {r : PropertyRecord}
    (hr : r.edit.settles = false) : settled (before ++ r :: after) = settled (before ++ after) := by
  rw [settled, settled, List.filter_append, List.filter_append,
    List.filter_cons_of_neg (by simp [hr])]

/-- Every record counts for the reader who is granted everything. -/
theorem Fold.mem_countedTimes_all {records : List PropertyRecord} {ts : Timestamp} :
    ts ∈ countedTimes .all records ↔ ∃ r ∈ records, r.timestamp = ts := by
  constructor
  · rintro ⟨r, hr, -, hts⟩
    exact ⟨r, hr, hts⟩
  · rintro ⟨r, hr, hts⟩
    exact ⟨r, hr, fun _ => Reader.canRead_all _, hts⟩

theorem Fold.countedTimes_insert (before after : List PropertyRecord) (r : PropertyRecord) :
    countedTimes .all (before ++ r :: after)
      = insert r.timestamp (countedTimes .all (before ++ after)) := by
  ext ts
  rw [Set.mem_insert_iff, mem_countedTimes_all, mem_countedTimes_all]
  constructor
  · rintro ⟨a, ha, rfl⟩
    rcases List.mem_append.1 ha with ha | ha
    · exact Or.inr ⟨a, List.mem_append_left _ ha, rfl⟩
    · rcases List.mem_cons.1 ha with rfl | ha
      · exact Or.inl rfl
      · exact Or.inr ⟨a, List.mem_append_right _ ha, rfl⟩
  · rintro (rfl | ⟨a, ha, rfl⟩)
    · exact ⟨r, List.mem_append_cons_self, rfl⟩
    · rcases List.mem_append.1 ha with ha | ha
      · exact ⟨a, List.mem_append_left _ ha, rfl⟩
      · exact ⟨a, List.mem_append_right _ (List.mem_cons_of_mem r ha), rfl⟩

/-- A record that settles nothing leaves the value as it is, or missing, and moves the time on if it
is later. -/
theorem Property.fold_insert (before after : List PropertyRecord) {r : PropertyRecord}
    (hr : r.edit.settles = false) :
    (Property.fold .allIncludingHidden .all (before ++ r :: after)).map
        (fun p => (p.value, p.timestamp))
      = (Property.fold .allIncludingHidden .all (before ++ after)).map
        fun p => (p.value, Fold.later (some p.timestamp) r.timestamp) := by
  have hvalues : (Property.fold .allIncludingHidden .all (before ++ r :: after)).map (·.value)
      = (Property.fold .allIncludingHidden .all (before ++ after)).map (·.value) := by
    rw [map_value_fold _ _ _ rfl, map_value_fold _ _ _ rfl, settled_insert before after hr]
  cases hold : Property.fold .allIncludingHidden .all (before ++ after) with
  | none =>
    rw [hold, Option.map_none, Option.map_eq_none_iff] at hvalues
    rw [hvalues]
    rfl
  | some p =>
    rw [hold, Option.map_some, Option.map_eq_some_iff] at hvalues
    obtain ⟨p', hnew, hvalue⟩ := hvalues
    -- both times are the greatest of the times that were there and the new one
    have htime' := timestamp_fold hnew
    rw [Fold.countedTimes_insert] at htime'
    have hlater : IsGreatest (insert r.timestamp (Fold.countedTimes .all (before ++ after)))
        (Fold.later (some p.timestamp) r.timestamp) := by
      refine Fold.isGreatest_later r.timestamp (fun hnone => ?_) fun t ht => ?_
      · cases hnone
      · cases ht
        exact timestamp_fold hold
    have htime : p'.timestamp = Fold.later (some p.timestamp) r.timestamp :=
      Int64.le_antisymm (hlater.2 htime'.1) (htime'.2 hlater.1)
    rw [hnew, Option.map_some, Option.map_some, hvalue, htime]

/-! ## Loading at a later time -/

/-- At a later time a blob store gives what it gave before and what has been written since. -/
theorem BlobStore.load_eq_ok_iff_of_le {s : BlobStore} {ref : ValueRef} {t t' : Timestamp}
    {v : PropValue} (h : t ≤ t') :
    s.load ref t' = .ok v ↔ s.load ref t = .ok v
      ∨ ∃ b, s.blobs.get? ref.id = some b ∧ t < b.writtenAt ∧ b.writtenAt ≤ t'
        ∧ s.load ref t' = .ok v := by
  constructor
  · intro hload
    obtain ⟨b, hb, hwritten, hrest⟩ := load_eq_ok_iff.1 hload
    by_cases hearly : b.writtenAt ≤ t
    · exact Or.inl (load_eq_ok_iff.2 ⟨b, hb, hearly, hrest⟩)
    · exact Or.inr ⟨b, hb, Int64.not_le.1 hearly, hwritten, hload⟩
  · rintro (hload | ⟨b, -, -, -, hload⟩)
    · obtain ⟨b, hb, hwritten, hrest⟩ := load_eq_ok_iff.1 hload
      exact load_eq_ok_iff.2 ⟨b, hb, Int64.le_trans hwritten h, hrest⟩
    · exact hload

theorem BlobStore.load_of_early {s : BlobStore} {ref : ValueRef} {t : Timestamp} {b : Blob}
    (hb : s.blobs.get? ref.id = some b) (hearly : t < b.writtenAt) :
    s.load ref t = .error .referencePredatesBlob := by
  rw [load, bytes, hb]
  show (if t < b.writtenAt then _ else _) >>= _ = _
  rw [if_pos hearly]
  rfl

/-- A value that is no reference stands for itself, and a reference for what is loaded. -/
theorem PropValue.load_eq_ok_iff {w v : PropValue} {fetch : Load} {i : PropertyIdentity}
    {ts : Timestamp} : w.load fetch i ts = .ok v
      ↔ (w.reference? = none ∧ w = v) ∨ ∃ ref, w = .ref ref ∧ fetch ref ts = .ok v := by
  cases w with
  | ref ref =>
    rw [load]
    cases h : fetch ref ts <;> simp [reference?, h]
  | _ => simp [load, reference?]

/-- What is loaded as of the later of two times is what is loaded as of the first, and what has been
written between them. -/
theorem PropValue.load_later_eq_ok_iff {w v : PropValue} {s : BlobStore} {i i' : PropertyIdentity}
    {t ts : Timestamp} : w.load s.load i' (Fold.later (some t) ts) = .ok v
      ↔ w.load s.load i t = .ok v
        ∨ ∃ ref b, (w = .ref ref ∧ s.blobs.get? ref.id = some b ∧ t < b.writtenAt)
          ∧ b.writtenAt ≤ ts ∧ s.load ref ts = .ok v := by
  rw [load_eq_ok_iff, load_eq_ok_iff, Fold.later]
  split
  · next hlt =>
    constructor
    · rintro (hplain | ⟨ref, rfl, hload⟩)
      · exact Or.inl (Or.inl hplain)
      · rcases (BlobStore.load_eq_ok_iff_of_le (Int64.le_of_lt hlt)).1 hload with
          hbefore | ⟨b, hb, hlate, hwritten, hload⟩
        · exact Or.inl (Or.inr ⟨ref, rfl, hbefore⟩)
        · exact Or.inr ⟨ref, b, ⟨rfl, hb, hlate⟩, hwritten, hload⟩
    · rintro ((hplain | ⟨ref, rfl, hload⟩) | ⟨ref, b, ⟨rfl, -, -⟩, -, hload⟩)
      · exact Or.inl hplain
      · exact Or.inr ⟨ref, rfl,
          (BlobStore.load_eq_ok_iff_of_le (Int64.le_of_lt hlt)).2 (Or.inl hload)⟩
      · exact Or.inr ⟨ref, rfl, hload⟩
  · next hlt =>
    refine (or_iff_left ?_).symm
    rintro ⟨ref, b, ⟨-, -, hlate⟩, hwritten, -⟩
    exact hlt (Int64.lt_of_lt_of_le hlate hwritten)

/-! ## What is read -/

namespace Log

/-- The value of the property, as it is read now by someone who is granted everything and asks for
what is hidden too. -/
def currentValue (log : Log) (i : PropertyIdentity) (fetch : Load) :
    Except Error (Option PropValue) :=
  (log.property ⟨.allIncludingHidden, none, .all⟩ i fetch).map (Option.map (·.value))

/-- The value of the property is in a blob that was written after all that is recorded of it. -/
structure AwaitsBlob (log : Log) (store : BlobStore) (i : PropertyIdentity) (ref : ValueRef)
    (b : Blob) : Prop where
  stored : (settled (log.recordsOf (.only i))).getLast?.bind (fun a => a.edit.value?)
    = some (.ref ref)
  kept : store.blobs.get? ref.id = some b
  late : ∀ a ∈ log.recordsOf (.only i), a.timestamp < b.writtenAt

variable {log : Log} {store : BlobStore} {i : PropertyIdentity} {ref : ValueRef} {b : Blob}
  {v : PropValue} {p : Property} {fetch : Load}

/-- The current value is loaded as of the time of the property. -/
theorem currentValue_eq (log : Log) (i : PropertyIdentity) (fetch : Load) :
    log.currentValue i fetch
      = match Property.fold .allIncludingHidden .all (log.recordsOf (.only i)) with
        | none => .ok none
        | some p => (p.value.load fetch p.identity p.timestamp).map some := by
  have hshown : log.shown? ⟨.allIncludingHidden, none, .all⟩ i
      = Property.fold .allIncludingHidden .all (log.recordsOf (.only i)) := by
    rw [shown?, if_pos (Reader.canRead_all _), reached_none]
  rw [currentValue, property_eq_shown?, hshown]
  cases Property.fold .allIncludingHidden .all (log.recordsOf (.only i)) with
  | none => rfl
  | some p =>
    show ((p.resolve fetch).map some).map _ = (p.value.load fetch p.identity p.timestamp).map some
    rw [Property.resolve]
    cases p.value.load fetch p.identity p.timestamp <;> rfl

theorem currentValue_eq_none_iff : log.currentValue i fetch = .ok none
    ↔ Property.fold .allIncludingHidden .all (log.recordsOf (.only i)) = none := by
  rw [currentValue_eq]
  cases Property.fold .allIncludingHidden .all (log.recordsOf (.only i)) with
  | none => simp
  | some p => cases h : p.value.load fetch p.identity p.timestamp <;> simp [h, Except.map]

theorem currentValue_eq_some_iff : log.currentValue i fetch = .ok (some v)
    ↔ ∃ p, Property.fold .allIncludingHidden .all (log.recordsOf (.only i)) = some p
      ∧ p.value.load fetch p.identity p.timestamp = .ok v := by
  rw [currentValue_eq]
  cases Property.fold .allIncludingHidden .all (log.recordsOf (.only i)) with
  | none => simp
  | some p => cases h : p.value.load fetch p.identity p.timestamp <;> simp [h, Except.map]

/-- The blob was written after all records if it was after the latest of them. -/
theorem awaitsBlob_iff
    (hp : Property.fold .allIncludingHidden .all (log.recordsOf (.only i)) = some p) :
    log.AwaitsBlob store i ref b
      ↔ p.value = .ref ref ∧ store.blobs.get? ref.id = some b ∧ p.timestamp < b.writtenAt := by
  have hvalue := Property.map_value_fold .allIncludingHidden .all (log.recordsOf (.only i)) rfl
  rw [hp, Option.map_some] at hvalue
  obtain ⟨hmem, hle⟩ := Property.timestamp_fold hp
  constructor
  · rintro ⟨hstored, hkept, hlate⟩
    obtain ⟨a, ha, hts⟩ := Fold.mem_countedTimes_all.1 hmem
    rw [hstored] at hvalue
    exact ⟨Option.some.inj hvalue, hkept, hts ▸ hlate a ha⟩
  · rintro ⟨hstored, hkept, hlate⟩
    refine ⟨?_, hkept, fun a ha => ?_⟩
    · rw [← hvalue, hstored]
    · exact Int64.lt_of_le_of_lt (hle (Fold.mem_countedTimes_all.2 ⟨a, ha, rfl⟩)) hlate

theorem AwaitsBlob.exists_fold (h : log.AwaitsBlob store i ref b) :
    ∃ p, Property.fold .allIncludingHidden .all (log.recordsOf (.only i)) = some p := by
  have hvalue := Property.map_value_fold .allIncludingHidden .all (log.recordsOf (.only i)) rfl
  rw [h.stored, Option.map_eq_some_iff] at hvalue
  obtain ⟨p, hp, -⟩ := hvalue
  exact ⟨p, hp⟩

/-- The read of a value whose blob was written too late says so. -/
theorem AwaitsBlob.currentValue_eq_error (h : log.AwaitsBlob store i ref b) :
    ∃ ts, IsGreatest (Fold.countedTimes .all (log.recordsOf (.only i))) ts
      ∧ log.currentValue i store.load
        = .error (.valueLoad i.key i.name ts .referencePredatesBlob) := by
  obtain ⟨p, hp⟩ := h.exists_fold
  obtain ⟨href, hkept, hearly⟩ := (awaitsBlob_iff hp).1 h
  have hi : p.identity = i :=
    Property.identity_of_fold (fun a ha => PropertyFilter.admits_only.1 (List.mem_filter.1 ha).2) hp
  refine ⟨p.timestamp, Property.timestamp_fold hp, ?_⟩
  have hload : p.value.load store.load p.identity p.timestamp
      = .error (.valueLoad i.key i.name p.timestamp .referencePredatesBlob) := by
    rw [href, hi]
    simp only [PropValue.load, BlobStore.load_of_early hkept hearly]
  rw [currentValue_eq, hp]
  show (p.value.load store.load p.identity p.timestamp).map some = _
  rw [hload]
  rfl

section Insert

variable {r : PropertyRecord}

/-- The value of a property after a record that settles nothing, and its time. -/
theorem fold_recordsOf_insert (log : Log) (hr : r.edit.settles = false) :
    (Property.fold .allIncludingHidden .all
          ((log.insert (.property r)).recordsOf (.only r.identity))).map
        (fun p => (p.value, p.timestamp))
      = (Property.fold .allIncludingHidden .all (log.recordsOf (.only r.identity))).map
        fun p => (p.value, Fold.later (some p.timestamp) r.timestamp) := by
  obtain ⟨before, after, hold, hnew⟩ := log.exists_recordsOf_insert r
  rw [hold, hnew]
  exact Property.fold_insert before after hr

/-- Such a record makes no property and takes none away. -/
theorem currentValue_insert_eq_none_iff (hr : r.edit.settles = false) :
    (log.insert (.property r)).currentValue r.identity fetch = .ok none
      ↔ log.currentValue r.identity fetch = .ok none := by
  have hnone := congrArg Option.isNone (log.fold_recordsOf_insert hr)
  rw [Option.isNone_map, Option.isNone_map] at hnone
  rw [currentValue_eq_none_iff, currentValue_eq_none_iff, ← Option.isNone_iff_eq_none,
    ← Option.isNone_iff_eq_none, hnone]

/-- After such a record the value is read that was read before, or that of a blob which was written
too late until now. -/
theorem currentValue_insert_eq_some_iff (hr : r.edit.settles = false) :
    (log.insert (.property r)).currentValue r.identity store.load = .ok (some v)
      ↔ log.currentValue r.identity store.load = .ok (some v)
        ∨ ∃ ref b, log.AwaitsBlob store r.identity ref b ∧ b.writtenAt ≤ r.timestamp
          ∧ store.load ref r.timestamp = .ok v := by
  have hfold := log.fold_recordsOf_insert hr
  rw [currentValue_eq_some_iff, currentValue_eq_some_iff]
  cases hp : Property.fold .allIncludingHidden .all (log.recordsOf (.only r.identity)) with
  | none =>
    -- nothing is read before or after, and no blob is awaited
    rw [hp, Option.map_none, Option.map_eq_none_iff] at hfold
    rw [hfold]
    constructor
    · rintro ⟨p', hp', -⟩
      cases hp'
    · rintro (⟨p, hp', -⟩ | ⟨ref, b, hawaits, -⟩)
      · cases hp'
      · obtain ⟨p, hp'⟩ := hawaits.exists_fold
        rw [hp] at hp'
        cases hp'
  | some p =>
    -- the same value is loaded, as of the later time
    rw [hp, Option.map_some, Option.map_eq_some_iff] at hfold
    obtain ⟨p', hp', heq⟩ := hfold
    obtain ⟨hvalue, htime⟩ := Prod.mk.inj heq
    simp only [hp', Option.some.injEq, exists_eq_left', awaitsBlob_iff hp, hvalue, htime]
    exact PropValue.load_later_eq_ok_iff

end Insert

/-- **Later records decide whether a value can be loaded.**  Let a record be added that leaves the
value of a property alone, at whatever time.  If there was no property there is none, and what was
read before is still read.  But a value is read as well that could not be read before, for one
reason only: its blob was written after all that had been recorded of the property, and not after
the new record.  Before, such a read failed because the reference predates the blob. -/
theorem currentValue_insert (log : Log) (store : BlobStore) {r : PropertyRecord}
    (hr : r.edit.settles = false) :
    let before := log.currentValue r.identity store.load
    let after := (log.insert (.property r)).currentValue r.identity store.load
    (after = .ok none ↔ before = .ok none)
      ∧ (∀ v, after = .ok (some v) ↔ before = .ok (some v)
          ∨ ∃ ref b, log.AwaitsBlob store r.identity ref b ∧ b.writtenAt ≤ r.timestamp
            ∧ store.load ref r.timestamp = .ok v)
      ∧ ∀ ref b, log.AwaitsBlob store r.identity ref b →
          ∃ ts, IsGreatest (Fold.countedTimes .all (log.recordsOf (.only r.identity))) ts
            ∧ before = .error (.valueLoad r.identity.key r.identity.name ts
                .referencePredatesBlob) := by
  intro before after
  exact ⟨currentValue_insert_eq_none_iff hr, fun v => currentValue_insert_eq_some_iff hr,
    fun ref b hawaits => hawaits.currentValue_eq_error⟩

/-- A store with one text, put at time 5. -/
def lateLetter : BlobStore := .after [.putText "x" 5]

/-- A log that refers to the text from time 1 on. -/
def earlyReference : Log :=
  Log.empty.extend [.property ⟨1, ⟨"n", "k", .empty⟩,
    .setValue (.ref (BlobStore.reference 1 (.ofText "x") true)) OrderedMap.empty⟩]

/-- The reference is too early, but with metadata from time 5 the text is read. -/
theorem currentValue_insert_earlyReference :
    let i : PropertyIdentity := ⟨"n", "k", .empty⟩
    let note : PropertyRecord := ⟨5, i, .annotate OrderedMap.empty⟩
    note.edit.settles = false
      ∧ (∃ ts, earlyReference.currentValue i lateLetter.load
        = .error (.valueLoad "k" "n" ts .referencePredatesBlob))
      ∧ (earlyReference.insert (.property note)).currentValue i lateLetter.load
        = .ok (some (.str "x")) := by
  intro i note
  let ref := BlobStore.reference 1 (.ofText "x") true
  have hawaits : earlyReference.AwaitsBlob lateLetter i ref ⟨5, .ofText "x"⟩ :=
    ⟨by decide +kernel, by decide +kernel, by decide +kernel⟩
  have hload : lateLetter.load ref 5 = .ok (.str "x") := by decide +kernel
  obtain ⟨-, hvalue, herror⟩ := currentValue_insert earlyReference lateLetter (r := note) rfl
  obtain ⟨ts, -, hbefore⟩ := herror ref _ hawaits
  exact ⟨rfl, ⟨ts, hbefore⟩, (hvalue _).2 (Or.inr ⟨ref, _, hawaits, by decide, hload⟩)⟩

/-- A record that hides the property makes its value readable, although the history of the property
cannot be read before or after: not every record that leaves the value alone leaves alone what is
read. -/
theorem not_currentValue_insert_hidden :
    let i : PropertyIdentity := ⟨"n", "k", .empty⟩
    let hidden := earlyReference.insert (.property ⟨5, i, .hide ⟨"board"⟩⟩)
    let tooEarly : Error := .valueLoad "k" "n" 1 .referencePredatesBlob
    earlyReference.currentValue i lateLetter.load = .error tooEarly
      ∧ hidden.currentValue i lateLetter.load = .ok (some (.str "x"))
      ∧ (∀ log ∈ [earlyReference, hidden],
          log.history ⟨⟨none, none⟩, .all, ""⟩ (.only i) lateLetter.load = .error tooEarly)
      ∧ ¬∀ (log : Log) (store : BlobStore) (r : PropertyRecord) (v : PropValue),
          r.edit.settles = false →
            ((log.insert (.property r)).currentValue r.identity store.load = .ok (some v)
              ↔ log.currentValue r.identity store.load = .ok (some v)) := by
  intro i hidden tooEarly
  have hbefore : earlyReference.currentValue i lateLetter.load = .error tooEarly := by
    decide +kernel
  have hafter : hidden.currentValue i lateLetter.load = .ok (some (.str "x")) := by
    decide +kernel
  refine ⟨hbefore, hafter, by decide +kernel, fun hall => ?_⟩
  have hread := (hall earlyReference lateLetter ⟨5, i, .hide ⟨"board"⟩⟩ _ rfl).1 hafter
  rw [hbefore] at hread
  cases hread

end Log

end Chronicle
