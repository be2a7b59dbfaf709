import Chronicle.Mutation
import Chronicle.Proofs.Occurrence

/-!
# What the records of a property leave standing

The value that stands is the last one set.  Its metadata is the metadata that came with it, with
all later annotations laid over it in order.  A label hides the property if the last record that
hides or unhides under that label hides.  All of this is said of the records as they are listed,
without folding them.

* `valueOf_append_singleton`, `metadataOf_append_singleton`, `netHiding_append_singleton` : what one
  more record changes;
* `get?_overlaid`, `get?_metadataOf` : what stands under each name of the metadata;
* `valueOf_eq_some_iff` : where the value comes from;
* `lastOccurrence?_setsValue_of_settles` : a value that is not deleted is the last value.
-/

namespace Chronicle

namespace PropertyEdit

/-- The value that the edit sets. -/
def value? : PropertyEdit → Option PropValue
  | .setValue v _ => some v
  | _ => none

/-- The metadata that comes with a value. -/
def ownMetadata : PropertyEdit → Metadata
  | .setValue _ m => m
  | _ => OrderedMap.empty

/-- The metadata that the edit lays over what is there. -/
def annotation? : PropertyEdit → Option Metadata
  | .annotate m => some m
  | _ => none

/-- Whether the edit sets a value. -/
def setsValue (e : PropertyEdit) : Bool := e.value?.isSome

/-- Whether the edit sets a value or deletes the property. -/
def settles : PropertyEdit → Bool
  | .setValue _ _ | .softDelete => true
  | _ => false

/-- Whether the edit hides or unhides under the label. -/
def toggles (label : Visibility) : PropertyEdit → Bool
  | .hide l | .unhide l => l == label
  | _ => false

theorem settles_of_setsValue {e : PropertyEdit} (h : e.setsValue = true) : e.settles = true := by
  cases e with
  | setValue v m => rfl
  | _ => cases h

theorem not_toggle_of_settles {e : PropertyEdit} (h : e.settles = true) : e.isToggle = false := by
  cases e with
  | hide l => cases h
  | unhide l => cases h
  | _ => rfl

theorem setsValue_of_settles {e : PropertyEdit} (h : e.settles = true) (hd : e ≠ .softDelete) :
    e.setsValue = true := by
  cases e with
  | setValue v m => rfl
  | softDelete => exact absurd rfl hd
  | _ => cases h

theorem setsValue_iff {e : PropertyEdit} : e.setsValue = true ↔ ∃ v m, e = .setValue v m := by
  constructor
  · intro h
    cases e with
    | setValue v m => exact ⟨v, m, rfl⟩
    | _ => cases h
  · rintro ⟨v, m, rfl⟩
    rfl

end PropertyEdit

/-! ## Value and metadata -/

/-- The annotations among the records laid over `m` in order. -/
def overlaid (m : Metadata) (records : List PropertyRecord) : Metadata :=
  (records.filterMap fun r => r.edit.annotation?).foldl OrderedMap.overlay m

/-- The last record that sets a value, where it stands. -/
def lastValue? (records : List PropertyRecord) : Option (Occurrence PropertyRecord) :=
  lastOccurrence? (fun r => r.edit.setsValue) records

/-- The last record that sets a value or deletes the property, where it stands. -/
def lastSettled? (records : List PropertyRecord) : Option (Occurrence PropertyRecord) :=
  lastOccurrence? (fun r => r.edit.settles) records

/-- The value that stands: the last one set. -/
def valueOf (records : List PropertyRecord) : Option PropValue :=
  (lastValue? records).bind fun o => o.item.edit.value?

/-- The metadata that stands: that of the last value, or none, under all later annotations. -/
def metadataOf (records : List PropertyRecord) : Metadata :=
  match lastValue? records with
  | some o => overlaid o.item.edit.ownMetadata o.after
  | none => overlaid OrderedMap.empty records

/-- What stands under a name of the metadata: what the last annotation that has the name puts there,
or else what `m` has there. -/
def overlaidEntry? (m : Metadata) (records : List PropertyRecord) (name : String) :
    Option MetadataEntry :=
  (records.filterMap fun r => r.edit.annotation?.bind fun a => a.get? name).getLast?.or
    (m.get? name)

/-- What stands under a name of the metadata of all records: the last annotation with the name since
the last value decides, or else what came with that value. -/
def standingEntry? (records : List PropertyRecord) (name : String) : Option MetadataEntry :=
  match lastValue? records with
  | some o => overlaidEntry? o.item.edit.ownMetadata o.after name
  | none => overlaidEntry? OrderedMap.empty records name

/-- Annotations in order leave under each name what the last one with the name puts there. -/
theorem get?_overlaid (m : Metadata) (records : List PropertyRecord) (name : String) :
    (overlaid m records).get? name = overlaidEntry? m records name := by
  have hfold := part_foldl (fun m : Metadata => m.get? name)
    (fun m a => m.get?_overlay a name) m (records.filterMap fun r => r.edit.annotation?)
  rw [List.filterMap_filterMap] at hfold
  exact hfold

theorem get?_metadataOf (records : List PropertyRecord) (name : String) :
    (metadataOf records).get? name = standingEntry? records name := by
  rw [metadataOf, standingEntry?]
  cases lastValue? records with
  | some o => exact get?_overlaid o.item.edit.ownMetadata o.after name
  | none => exact get?_overlaid OrderedMap.empty records name

theorem overlaid_append_singleton (m : Metadata) (records : List PropertyRecord)
    (r : PropertyRecord) :
    overlaid m (records ++ [r])
      = match r.edit.annotation? with
        | some a => (overlaid m records).overlay a
        | none => overlaid m records := by
  simp only [overlaid, List.filterMap_append, List.foldl_append]
  cases h : r.edit.annotation? with
  | none => simp [h]
  | some a => simp [h]

theorem valueOf_append_singleton (records : List PropertyRecord) (r : PropertyRecord) :
    valueOf (records ++ [r])
      = match r.edit with
        | .setValue v _ => some v
        | _ => valueOf records := by
  rw [valueOf, lastValue?, lastOccurrence?_append_singleton, valueOf, lastValue?]
  cases h : r.edit with
  | setValue v m => simp [PropertyEdit.setsValue, PropertyEdit.value?, h]
  | _ =>
    rw [if_neg (by simp [PropertyEdit.setsValue, PropertyEdit.value?]), Option.bind_map]
    rfl

theorem metadataOf_append_singleton (records : List PropertyRecord) (r : PropertyRecord) :
    metadataOf (records ++ [r])
      = match r.edit with
        | .setValue _ m => m
        | .annotate m => (metadataOf records).overlay m
        | _ => metadataOf records := by
  rw [metadataOf, lastValue?, lastOccurrence?_append_singleton, metadataOf, lastValue?]
  cases hr : r.edit with
  | setValue v m => simp [PropertyEdit.setsValue, PropertyEdit.value?, PropertyEdit.ownMetadata,
      hr, overlaid]
  | _ =>
    cases lastOccurrence? (fun r => r.edit.setsValue) records <;>
      simp [PropertyEdit.setsValue, PropertyEdit.value?, PropertyEdit.annotation?, hr,
        Occurrence.extend, overlaid_append_singleton]

/-- A value that stands was set by the last record that sets one. -/
theorem valueOf_eq_some_iff {records : List PropertyRecord} {v : PropValue} :
    valueOf records = some v
      ↔ ∃ o m, lastValue? records = some o ∧ o.item.edit = .setValue v m := by
  rw [valueOf, Option.bind_eq_some_iff]
  constructor
  · rintro ⟨o, ho, hv⟩
    cases he : o.item.edit with
    | setValue w m =>
      rw [he] at hv
      cases hv
      exact ⟨o, m, ho, he⟩
    | _ =>
      rw [he] at hv
      cases hv
  · rintro ⟨o, m, ho, he⟩
    exact ⟨o, ho, by rw [he]; rfl⟩

/-- If the property is not deleted in the end, what settled it last is the last value. -/
theorem lastOccurrence?_setsValue_of_settles {records : List PropertyRecord}
    {o : Occurrence PropertyRecord} (ho : lastSettled? records = some o)
    (hv : o.item.edit.setsValue = true) : lastValue? records = some o := by
  obtain ⟨hlist, -, hafter⟩ := lastOccurrence?_eq_some_iff.1 ho
  refine lastOccurrence?_eq_some_iff.2 ⟨hlist, hv, fun a ha => ?_⟩
  have hno := hafter a ha
  by_contra hset
  rw [Bool.not_eq_false] at hset
  rw [PropertyEdit.settles_of_setsValue hset] at hno
  cases hno

/-- Hiding and unhiding have no part in the value. -/
theorem valueOf_append_toggle (records : List PropertyRecord) {r : PropertyRecord}
    (hr : r.edit.isToggle = true) : valueOf (records ++ [r]) = valueOf records := by
  rw [valueOf_append_singleton]
  cases he : r.edit with
  | setValue v m =>
    rw [he] at hr
    cases hr
  | _ => rfl

/-- Hiding and unhiding have no part in the metadata. -/
theorem metadataOf_append_toggle (records : List PropertyRecord) {r : PropertyRecord}
    (hr : r.edit.isToggle = true) : metadataOf (records ++ [r]) = metadataOf records := by
  rw [metadataOf_append_singleton]
  cases he : r.edit with
  | setValue v m =>
    rw [he] at hr
    cases hr
  | annotate m =>
    rw [he] at hr
    cases hr
  | _ => rfl

/-- What stands is left alone when only records that hide or unhide are dropped. -/
theorem standing_filter {p : PropertyRecord → Bool} {records : List PropertyRecord}
    (hp : ∀ r ∈ records, p r = false → r.edit.isToggle = true) :
    valueOf (records.filter p) = valueOf records
      ∧ metadataOf (records.filter p) = metadataOf records := by
  induction records using List.reverseRecOn with
  | nil => exact ⟨rfl, rfl⟩
  | append_singleton records r ih =>
    obtain ⟨hv, hm⟩ := ih fun a ha => hp a (by simp [ha])
    rw [filter_append_singleton]
    cases hr : p r with
    | true =>
      rw [if_pos rfl, valueOf_append_singleton, valueOf_append_singleton,
        metadataOf_append_singleton, metadataOf_append_singleton, hv, hm]
      exact ⟨rfl, rfl⟩
    | false =>
      have htog := hp r (by simp) hr
      rw [if_neg (by simp), List.append_nil, valueOf_append_toggle records htog,
        metadataOf_append_toggle records htog]
      exact ⟨hv, hm⟩

/-! ## Hiding -/

/-- The label hides the property in the end: the last record that hides or unhides under it
hides. -/
def NetHiding (records : List PropertyRecord) (label : Visibility) : Prop :=
  ∃ o, lastOccurrence? (fun r => r.edit.toggles label) records = some o
    ∧ o.item.edit = .hide label

theorem netHiding_iff {records : List PropertyRecord} {label : Visibility} :
    NetHiding records label ↔ ∃ r, (records.filter fun r => r.edit.toggles label).getLast? = some r
      ∧ r.edit = .hide label :=
  exists_lastOccurrence?_iff _ records fun r => r.edit = .hide label

theorem netHiding_append_singleton (records : List PropertyRecord) (r : PropertyRecord)
    (label : Visibility) :
    NetHiding (records ++ [r]) label
      ↔ r.edit = .hide label ∨ (r.edit ≠ .unhide label ∧ NetHiding records label) := by
  rw [NetHiding, NetHiding, lastOccurrence?_append_singleton]
  cases htog : r.edit.toggles label with
  | true =>
    have hedit : r.edit = .hide label ∨ r.edit = .unhide label := by
      cases he : r.edit with
      | hide l => rw [he] at htog; exact Or.inl (congrArg _ (eq_of_beq htog))
      | unhide l => rw [he] at htog; exact Or.inr (congrArg _ (eq_of_beq htog))
      | _ => rw [he] at htog; cases htog
    rcases hedit with he | he <;> simp [he]
  | false =>
    have hhide : r.edit ≠ .hide label := by
      intro he
      rw [he] at htog
      simp [PropertyEdit.toggles] at htog
    have hunhide : r.edit ≠ .unhide label := by
      intro he
      rw [he] at htog
      simp [PropertyEdit.toggles] at htog
    simp [hhide, hunhide, Occurrence.extend]

end Chronicle
