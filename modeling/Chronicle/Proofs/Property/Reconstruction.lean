import Chronicle.Proofs.Property.Drafting

/-!
# What a history says

A history is made of the eligible records alone: those in its range of time, under a label that the
reader may read, and of no property whose label has the marker.  If one of them sets a value that
is refused when it is loaded, the first refusal is the answer.  Otherwise the records, with their
values loaded, leave their entries.

* `admits_iff` : the records that are let in are the eligible ones;
* `loaded_cases` : what loading changes in a record;
* `load_eq`, `mapM_load` : loading one record, and a list of records;
* `get?_metadata_of_emitted?` : what the entry of a deletion has under each name;
* `reconstruct_closedForm` : the whole history.
-/

namespace Chronicle

namespace PropertyRecord

/-- Why the value that the record sets cannot be loaded, if it cannot. -/
def refusal? (fetch : Load) (r : PropertyRecord) : Option Error :=
  match r.edit with
  | .setValue (.ref ref) _ =>
    match fetch ref r.timestamp with
    | .ok _ => none
    | .error cause => some (.valueLoad r.identity.key r.identity.name r.timestamp cause)
  | _ => none

/-- The record with what its value points at in place of the reference. -/
def loaded (fetch : Load) (r : PropertyRecord) : PropertyRecord :=
  match r.edit with
  | .setValue (.ref ref) m =>
    match fetch ref r.timestamp with
    | .ok v => { r with edit := .setValue v m }
    | .error _ => r
  | _ => r

/-- Loading leaves a record as it is or puts another value in the place of the one that it sets. -/
theorem loaded_cases (fetch : Load) (r : PropertyRecord) :
    r.loaded fetch = r
      ∨ ∃ v w m, r.edit = .setValue v m ∧ r.loaded fetch = { r with edit := .setValue w m } := by
  unfold loaded
  split
  · next ref m he =>
    split
    · next w _ => exact Or.inr ⟨.ref ref, w, m, he, rfl⟩
    · exact Or.inl rfl
  · exact Or.inl rfl

/-- Loading a record does not change whose it is. -/
@[simp] theorem identity_loaded (fetch : Load) (r : PropertyRecord) :
    (r.loaded fetch).identity = r.identity := by
  rcases r.loaded_cases fetch with h | ⟨v, w, m, -, h⟩
  · rw [h]
  · rw [h]

/-- Loading a record does not change its time. -/
@[simp] theorem timestamp_loaded (fetch : Load) (r : PropertyRecord) :
    (r.loaded fetch).timestamp = r.timestamp := by
  rcases r.loaded_cases fetch with h | ⟨v, w, m, -, h⟩
  · rw [h]
  · rw [h]

/-- Loading a record does not change its label. -/
@[simp] theorem visibility_loaded (fetch : Load) (r : PropertyRecord) :
    (r.loaded fetch).visibility = r.visibility := by
  rcases r.loaded_cases fetch with h | ⟨v, w, m, he, h⟩
  · rw [h]
  · rw [h, visibility, visibility, he]

/-- Loading a record does not change whether it settles its property. -/
@[simp] theorem settles_loaded (fetch : Load) (r : PropertyRecord) :
    (r.loaded fetch).edit.settles = r.edit.settles := by
  rcases r.loaded_cases fetch with h | ⟨v, w, m, he, h⟩
  · rw [h]
  · rw [h, he]
    rfl

/-- Loading a record does not change whether it sets a value. -/
@[simp] theorem setsValue_loaded (fetch : Load) (r : PropertyRecord) :
    (r.loaded fetch).edit.setsValue = r.edit.setsValue := by
  rcases r.loaded_cases fetch with h | ⟨v, w, m, he, h⟩
  · rw [h]
  · rw [h, he]
    rfl

/-- Loading a record does not change whether it deletes. -/
theorem softDelete_loaded_iff {fetch : Load} {r : PropertyRecord} :
    (r.loaded fetch).edit = .softDelete ↔ r.edit = .softDelete := by
  rcases r.loaded_cases fetch with h | ⟨v, w, m, he, h⟩
  · rw [h]
  · rw [h, he]
    simp

/-- Dropping records by what loading does not change can be done before or after. -/
theorem map_loaded_filter {p : PropertyRecord → Bool} {fetch : Load}
    (hp : ∀ r, p (r.loaded fetch) = p r) (records : List PropertyRecord) :
    (records.filter p).map (loaded fetch) = (records.map (loaded fetch)).filter p := by
  rw [List.filter_map]
  exact congrArg (List.map _) (List.filter_congr fun r _ => (hp r).symm)

/-- Loading a record is refused or gives the loaded record. -/
theorem load_eq (fetch : Load) (r : PropertyRecord) :
    r.load fetch
      = match r.refusal? fetch with
        | some e => .error e
        | none => .ok (r.loaded fetch) := by
  obtain ⟨ts, i, edit⟩ := r
  cases edit with
  | setValue v m =>
    cases v with
    | ref ref =>
      simp only [load, PropValue.load, refusal?, loaded]
      cases fetch ref ts <;> rfl
    | _ => rfl
  | _ => rfl

/-- Loading records ends at the first that is refused. -/
theorem mapM_load (fetch : Load) (records : List PropertyRecord) :
    (records.mapM fun r => r.load fetch)
      = match records.findSome? (refusal? fetch) with
        | some e => .error e
        | none => .ok (records.map (loaded fetch)) := by
  induction records with
  | nil => rfl
  | cons r rest ih =>
    rw [List.mapM_cons, ih, load_eq, List.findSome?_cons]
    cases r.refusal? fetch with
    | some e => rfl
    | none => cases rest.findSome? (refusal? fetch) <;> rfl

end PropertyRecord

/-- The entry of a deletion has under each name what stood there before the deletion. -/
theorem Occurrence.get?_metadata_of_emitted? {o : Occurrence PropertyRecord} {e : HistoryEntry}
    (h : o.emitted? = some e) (hdel : e.isDeleted = true) (name : String) :
    e.metadata.get? name = standingEntry? o.earlier name := by
  unfold emitted? at h
  split at h
  · cases h
    cases hdel
  · split at h
    · cases h
    · cases h
      exact get?_metadataOf o.earlier name
  · cases h

namespace HistoryScope

/-- The record counts for the history. -/
structure Eligible (s : HistoryScope) (g : GuardedRecord) : Prop where
  notBefore : ∀ ts, s.range.start = some ts → ts ≤ g.record.timestamp
  notAfter : ∀ ts, s.range.stop = some ts → g.record.timestamp ≤ ts
  readable : g.label = .empty ∨ s.reader.grants g.label = true
  /-- The empty marker keeps nothing out. -/
  unmarked : s.marker = "" ∨ ¬ s.marker.toList <:+: g.record.identity.visibility.label.toList

theorem contains_iff {range : TimeRange} {ts : Timestamp} :
    range.contains ts = true
      ↔ (∀ t, range.start = some t → t ≤ ts) ∧ ∀ t, range.stop = some t → ts ≤ t := by
  obtain ⟨start, stop⟩ := range
  cases start <;> cases stop <;> simp [TimeRange.contains]

theorem excludes_iff {s : HistoryScope} {v : Visibility} :
    s.excludes v = true ↔ s.marker ≠ "" ∧ s.marker.toList <:+: v.label.toList := by
  rw [excludes, Bool.and_eq_true, Visibility.mentions, Text.occursIn_iff, Bool.not_eq_true',
    ← Bool.not_eq_true, String.isEmpty_iff]

/-- A history lets in the eligible records. -/
theorem admits_iff {s : HistoryScope} {g : GuardedRecord} : s.admits g = true ↔ s.Eligible g := by
  rw [admits, Bool.and_eq_true, Bool.and_eq_true, contains_iff, Reader.canRead_iff,
    Bool.not_eq_true', ← Bool.not_eq_true, excludes_iff, not_and_or, not_not]
  constructor
  · rintro ⟨⟨⟨hstart, hstop⟩, hread⟩, hmark⟩
    exact ⟨hstart, hstop, hread, hmark⟩
  · rintro ⟨hstart, hstop, hread, hmark⟩
    exact ⟨⟨⟨hstart, hstop⟩, hread⟩, hmark⟩

instance (s : HistoryScope) (g : GuardedRecord) : Decidable (s.Eligible g) :=
  decidable_of_iff (s.admits g = true) admits_iff

/-- The eligible ones among the records. -/
def eligible (s : HistoryScope) (guarded : List GuardedRecord) : List PropertyRecord :=
  (guarded.filter fun g => decide (s.Eligible g)).map (·.record)

theorem admitted_eq_eligible (s : HistoryScope) (guarded : List GuardedRecord) :
    s.admitted guarded = s.eligible guarded := by
  rw [admitted, eligible]
  refine congrArg (List.map GuardedRecord.record) (List.filter_congr fun g _ => ?_)
  rw [Bool.eq_iff_iff, admits_iff, decide_eq_true_iff]

/-- The first refusal, or else the entries of the loaded records. -/
theorem reconstruct_eq (s : HistoryScope) (fetch : Load) (guarded : List GuardedRecord) :
    s.reconstruct fetch guarded
      = match (s.admitted guarded).findSome? (PropertyRecord.refusal? fetch) with
        | some e => .error e
        | none =>
          .ok ((occurrences ((s.admitted guarded).map (PropertyRecord.loaded fetch))).filterMap
            Occurrence.emitted?).reverse := by
  rw [reconstruct, PropertyRecord.mapM_load]
  cases (s.admitted guarded).findSome? (PropertyRecord.refusal? fetch) with
  | some e => rfl
  | none => exact congrArg Except.ok (HistoryDraft.entries_ofRecords _)

/-- **The closed form of a history.**  The first eligible record whose value is refused gives the
answer.  If there is none, every eligible record leaves its entry, newest first: a value leaves one,
and so does a deletion unless its property is revived.  The metadata of a deletion is known by what
stands under each name. -/
theorem reconstruct_closedForm (s : HistoryScope) (fetch : Load) (guarded : List GuardedRecord) :
    (s.reconstruct fetch guarded
        = match (s.eligible guarded).findSome? (PropertyRecord.refusal? fetch) with
          | some e => .error e
          | none =>
            .ok ((occurrences ((s.eligible guarded).map (PropertyRecord.loaded fetch))).filterMap
              Occurrence.emitted?).reverse)
      ∧ ∀ o ∈ occurrences ((s.eligible guarded).map (PropertyRecord.loaded fetch)),
          ∀ e, o.emitted? = some e → e.isDeleted = true →
            ∀ name, e.metadata.get? name = standingEntry? o.earlier name := by
  rw [← admitted_eq_eligible]
  exact ⟨reconstruct_eq s fetch guarded,
    fun o _ e he hdel name => Occurrence.get?_metadata_of_emitted? he hdel name⟩

/-- A title is annotated too early, set by reference with metadata of its own, annotated twice, once
under a label of the staff, and deleted; a note is set and annotated in between. -/
def translatedTitle : List GuardedRecord :=
  let title : PropertyIdentity := ⟨"title", "k", .empty⟩
  let note : PropertyIdentity := ⟨"note", "k", .empty⟩
  let entry (n : Int64) : MetadataEntry := ⟨.int n, .empty⟩
  [PropertyRecord.guarded ⟨1, title, .annotate (.ofList [("draft", entry 10)])⟩,
    PropertyRecord.guarded ⟨2, title,
      .setValue (.ref ⟨1, 5, 0, true⟩) (.ofList [("by", entry 20), ("for", entry 21)])⟩,
    PropertyRecord.guarded ⟨2, note, .setValue (.int 2) OrderedMap.empty⟩,
    PropertyRecord.guarded ⟨3, title, .annotate (.ofList [("by", entry 30), ("from", entry 31)])⟩,
    ⟨⟨"staff"⟩, ⟨3, title, .annotate (.ofList [("by", entry 40)])⟩⟩,
    PropertyRecord.guarded ⟨3, note, .annotate (.ofList [("for", entry 50)])⟩,
    PropertyRecord.guarded ⟨4, title, .softDelete⟩]

/-- Who does not read what the staff does sees the title with its own metadata, and its deletion
with what stood under each name before. -/
theorem reconstruct_closedForm_translatedTitle :
    let s : HistoryScope := ⟨.all, .holding (.ofLabels []), ""⟩
    let fetch : Load := fun _ _ => .ok (.str "Faust")
    let title : PropertyIdentity := ⟨"title", "k", .empty⟩
    let entry (n : Int64) : MetadataEntry := ⟨.int n, .empty⟩
    let records := (s.eligible translatedTitle).map (PropertyRecord.loaded fetch)
    let o : Occurrence PropertyRecord := ⟨records.dropLast, ⟨4, title, .softDelete⟩, []⟩
    let e : HistoryEntry := ⟨title, some (.str "Faust"),
      .ofList [("by", entry 30), ("for", entry 21), ("from", entry 31)], 4, true⟩
    s.reconstruct fetch translatedTitle
        = .ok [e, ⟨⟨"note", "k", .empty⟩, some (.int 2), OrderedMap.empty, 2, false⟩,
            ⟨title, some (.str "Faust"), .ofList [("by", entry 20), ("for", entry 21)], 2, false⟩]
      ∧ o ∈ occurrences records ∧ o.emitted? = some e ∧ e.isDeleted = true
      ∧ ∀ name, e.metadata.get? name = standingEntry? o.earlier name := by
  intro s fetch title entry records o e
  have ho : o ∈ occurrences records := mem_occurrences_iff.2 (by decide)
  have he : o.emitted? = some e := by decide
  obtain ⟨-, hentries⟩ := reconstruct_closedForm s fetch translatedTitle
  exact ⟨by decide, ho, he, rfl, hentries o ho e he rfl⟩

end HistoryScope

end Chronicle
