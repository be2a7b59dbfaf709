import Chronicle.Property.History
import Chronicle.Proofs.Property.Standing

/-!
# What drafting a history gives

Each record that sets a value leaves an entry with that value.  A record that deletes leaves one
unless the next thing that settles its property is a value.  Records of other properties that come
between do not matter, although all properties share one list of slots.

* `Occurrence.emitted?` : the entry that a record leaves where it stands;
* `HistoryDraft.Reflects` : what a draft knows of the records so far, slot by slot;
* `reflects_step`, `reflects_run` : every record keeps this true, hence every run does;
* `entries_ofRecords` : the entries of a draft are those that the records leave, newest first.
-/

namespace Chronicle

/-! ## Entries where they stand -/

namespace Occurrence

/-- Whether a record settles the property that the item is of. -/
def settledBy (o : Occurrence PropertyRecord) (a : PropertyRecord) : Bool :=
  a.identity == o.item.identity && a.edit.settles

/-- Whether the next thing that settles the item's property is a value. -/
def isRevived (o : Occurrence PropertyRecord) : Bool :=
  (o.after.find? o.settledBy).any fun a => a.edit.setsValue

/-- The records of the item's property before it. -/
def earlier (o : Occurrence PropertyRecord) : List PropertyRecord :=
  o.before.filter fun a => a.identity == o.item.identity

/-- The entry that the item leaves in the history: a value, or a deletion that is not revived with
the value and the metadata that it ended. -/
def emitted? (o : Occurrence PropertyRecord) : Option HistoryEntry :=
  match o.item.edit with
  | .setValue v m => some ⟨o.item.identity, some v, m, o.item.timestamp, false⟩
  | .softDelete =>
    if o.isRevived then none
    else
      some ⟨o.item.identity, valueOf o.earlier, metadataOf o.earlier, o.item.timestamp, true⟩
  | _ => none

/-- Whether the record, coming next, is what revives the item's property. -/
def revivedBy (o : Occurrence PropertyRecord) (r : PropertyRecord) : Bool :=
  !o.after.any o.settledBy && o.settledBy r && r.edit.setsValue

theorem find?_settledBy_eq_none_iff {o : Occurrence PropertyRecord} :
    o.after.find? o.settledBy = none ↔ o.after.any o.settledBy = false := by
  rw [List.find?_eq_none, List.any_eq_false]

theorem isRevived_extend (o : Occurrence PropertyRecord) (r : PropertyRecord) :
    (o.extend [r]).isRevived = (o.isRevived || o.revivedBy r) := by
  have hfind : (o.extend [r]).after.find? (o.extend [r]).settledBy
      = (o.after.find? o.settledBy).or ([r].find? o.settledBy) := List.find?_append
  rw [isRevived, hfind, isRevived, revivedBy]
  cases h : o.after.find? o.settledBy with
  | some a =>
    have hany : o.after.any o.settledBy = true := by
      rw [← Bool.not_eq_false, ← find?_settledBy_eq_none_iff, h]
      exact Option.some_ne_none a
    simp [hany]
  | none =>
    rw [find?_settledBy_eq_none_iff.1 h]
    cases hr : o.settledBy r <;> simp [hr]

/-- A record that does not revive the item's property leaves its entry alone. -/
theorem emitted?_extend_of_not_revivedBy {o : Occurrence PropertyRecord} {r : PropertyRecord}
    (hr : o.revivedBy r = false) : (o.extend [r]).emitted? = o.emitted? := by
  have hrev : (o.extend [r]).isRevived = o.isRevived := by
    rw [isRevived_extend, hr, Bool.or_false]
  unfold emitted?
  rw [hrev]
  rfl

/-- A record of another property leaves an entry alone. -/
theorem emitted?_extend_of_other {o : Occurrence PropertyRecord} {r : PropertyRecord}
    (h : o.item.identity ≠ r.identity) : (o.extend [r]).emitted? = o.emitted? := by
  have hno : o.settledBy r = false := by
    rw [settledBy, beq_eq_false_iff_ne.2 h.symm, Bool.false_and]
  refine o.emitted?_extend_of_not_revivedBy ?_
  rw [revivedBy, hno, Bool.and_false, Bool.false_and]

/-- An entry is left alone once its property has been settled again. -/
theorem emitted?_extend_of_settled {o : Occurrence PropertyRecord} {a : PropertyRecord}
    (ha : a ∈ o.after) (hby : o.settledBy a = true) (r : PropertyRecord) :
    (o.extend [r]).emitted? = o.emitted? := by
  have hany : o.after.any o.settledBy = true := List.any_eq_true.2 ⟨a, ha, hby⟩
  refine o.emitted?_extend_of_not_revivedBy ?_
  rw [revivedBy, hany]
  rfl

/-- A deletion has no entry once its property is revived. -/
theorem emitted?_extend_of_revivedBy {o : Occurrence PropertyRecord} {r : PropertyRecord}
    (ho : o.item.edit = .softDelete) (hr : o.revivedBy r = true) :
    (o.extend [r]).emitted? = none := by
  have hrev : (o.extend [r]).isRevived = true := by
    rw [isRevived_extend, hr, Bool.or_true]
  unfold emitted?
  rw [show (o.extend [r]).item = o.item from rfl, ho, hrev]
  rfl

/-- The entry of a value does not depend on what comes next. -/
theorem emitted?_extend_of_setValue {o : Occurrence PropertyRecord} {v : PropValue} {m : Metadata}
    (r : PropertyRecord) (ho : o.item.edit = .setValue v m) :
    (o.extend [r]).emitted? = o.emitted? := by
  unfold emitted?
  rw [show (o.extend [r]).item = o.item from rfl, ho]

end Occurrence

/-! ## Slots -/

/-- The records that take a slot. -/
def settled (records : List PropertyRecord) : List PropertyRecord :=
  records.filter fun r => r.edit.settles

/-- The records that take a slot, where they stand. -/
def settledOccurrences (records : List PropertyRecord) : List (Occurrence PropertyRecord) :=
  (occurrences records).filter fun o => o.item.edit.settles

theorem settled_append_singleton (records : List PropertyRecord) (r : PropertyRecord) :
    settled (records ++ [r]) = settled records ++ if r.edit.settles then [r] else [] := by
  exact filter_append_singleton (fun r => r.edit.settles) records r

theorem settledOccurrences_append_singleton (records : List PropertyRecord) (r : PropertyRecord) :
    settledOccurrences (records ++ [r])
      = (settledOccurrences records).map (·.extend [r])
        ++ if r.edit.settles then [⟨records, r, []⟩] else [] := by
  rw [settledOccurrences, occurrences_append_singleton, filter_append_singleton, List.filter_map]
  rfl

theorem map_item_settledOccurrences (records : List PropertyRecord) :
    (settledOccurrences records).map Occurrence.item = settled records := by
  rw [settled, ← map_item_occurrences records, List.filter_map, map_item_occurrences]
  rfl

theorem length_settledOccurrences (records : List PropertyRecord) :
    (settledOccurrences records).length = (settled records).length := by
  rw [← map_item_settledOccurrences, List.length_map]

/-- The slot of the property's latest entry. -/
def lastSlotOf (records : List PropertyRecord) (i : PropertyIdentity) : Option Nat :=
  (lastOccurrence? (fun r => r.identity == i) (settled records)).map (·.before.length)

theorem lastSlotOf_append_singleton (records : List PropertyRecord) (r : PropertyRecord)
    (i : PropertyIdentity) :
    lastSlotOf (records ++ [r]) i
      = if r.identity = i ∧ r.edit.settles = true then some (settled records).length
        else lastSlotOf records i := by
  rw [lastSlotOf, settled_append_singleton]
  cases hset : r.edit.settles with
  | false => simp [lastSlotOf]
  | true =>
    rw [if_pos rfl, lastOccurrence?_append_singleton]
    by_cases hi : r.identity = i
    · simp [hi]
    · simp [hi, lastSlotOf, Occurrence.extend, Function.comp_def]

namespace HistoryDraft

/-- What a draft knows of the records that it has taken in. -/
structure Reflects (d : HistoryDraft) (records : List PropertyRecord) : Prop where
  value (i : PropertyIdentity) :
    (d.builder i).value = valueOf (records.filter fun r => r.identity == i)
  metadata (i : PropertyIdentity) :
    (d.builder i).metadata = metadataOf (records.filter fun r => r.identity == i)
  lastSlot (i : PropertyIdentity) : (d.builder i).lastSlot = lastSlotOf records i
  slots : d.slots.toList = (settledOccurrences records).map Occurrence.emitted?

/-! ## Parts of a draft after one record -/

theorem builder_withBuilder (d : HistoryDraft) (i j : PropertyIdentity) (b : HistoryBuilder) :
    (d.withBuilder i b).builder j = if j = i then b else d.builder j := by
  rw [builder, withBuilder, OrderedMap.get?_insert]
  split <;> rfl

theorem builder_emit (d : HistoryDraft) (i j : PropertyIdentity) (b : HistoryBuilder)
    (ts : Timestamp) (isDeleted : Bool) :
    (d.emit i b ts isDeleted).builder j
      = if j = i then { b with lastSlot := some d.slots.size } else d.builder j := by
  rw [builder, emit, OrderedMap.get?_insert]
  split <;> rfl

theorem builder_revive (d : HistoryDraft) (b : HistoryBuilder) (j : PropertyIdentity) :
    (d.revive b).builder j = d.builder j := by
  unfold revive
  split
  · split <;> rfl
  · rfl

theorem size_slots_revive (d : HistoryDraft) (b : HistoryBuilder) :
    (d.revive b).slots.size = d.slots.size := by
  unfold revive
  split
  · split
    · exact Array.size_setIfInBounds
    · rfl
  · rfl

theorem slots_emit (d : HistoryDraft) (i : PropertyIdentity) (b : HistoryBuilder) (ts : Timestamp)
    (isDeleted : Bool) :
    (d.emit i b ts isDeleted).slots.toList
      = d.slots.toList ++ [some ⟨i, b.value, b.metadata, ts, isDeleted⟩] := by
  rw [emit, Array.toList_push]

theorem Reflects.size_slots {d : HistoryDraft} {records : List PropertyRecord}
    (h : d.Reflects records) : d.slots.size = (settled records).length := by
  rw [← Array.length_toList, h.slots, List.length_map, length_settledOccurrences]

/-! ## Revival -/

theorem holdsDeletion_of_split {d : HistoryDraft} {left right : List (Option HistoryEntry)}
    {e : Option HistoryEntry} {slot : Nat} (h : d.slots.toList = left ++ e :: right)
    (hslot : left.length = slot) : d.holdsDeletion slot = e.any (·.isDeleted) := by
  have hget : d.slots[slot]? = some e := by
    rw [← Array.getElem?_toList, h, ← hslot, List.getElem?_append_right (Nat.le_refl _),
      Nat.sub_self, List.getElem?_cons_zero]
  rw [holdsDeletion, hget]
  cases e <;> rfl

/-- Reviving empties the slot that it names if that holds a deletion. -/
theorem slots_revive_of_split {d : HistoryDraft} {b : HistoryBuilder}
    {left right : List (Option HistoryEntry)} {e : Option HistoryEntry}
    (h : d.slots.toList = left ++ e :: right) (hb : b.lastSlot = some left.length) :
    (d.revive b).slots.toList
      = left ++ (if e.any (·.isDeleted) then none else e) :: right := by
  rw [revive, hb]
  simp only [holdsDeletion_of_split h rfl]
  split
  · rw [Array.toList_setIfInBounds, h, List.set_append_right _ _ (Nat.le_refl _), Nat.sub_self,
      List.set_cons_zero]
  · exact h

/-- The latest entry of a property is emptied by the record that revives the property, and by no
other. -/
theorem emitted?_extend_of_last {o : Occurrence PropertyRecord} {r : PropertyRecord}
    (hset : o.item.edit.settles = true) (hlast : o.after.any o.settledBy = false)
    (hid : r.identity = o.item.identity) (hr : r.edit.setsValue = true) :
    (o.extend [r]).emitted? = if o.emitted?.any (·.isDeleted) then none else o.emitted? := by
  have hrev : o.isRevived = false := by
    rw [Occurrence.isRevived, Occurrence.find?_settledBy_eq_none_iff.2 hlast]
    rfl
  cases he : o.item.edit with
  | setValue v m =>
    rw [Occurrence.emitted?_extend_of_setValue r he]
    simp [Occurrence.emitted?, he]
  | softDelete =>
    have hby : o.revivedBy r = true := by
      simp [Occurrence.revivedBy, Occurrence.settledBy, hlast, hid, hr,
        PropertyEdit.settles_of_setsValue hr]
    rw [Occurrence.emitted?_extend_of_revivedBy he hby]
    simp [Occurrence.emitted?, he, hrev]
  | _ =>
    rw [he] at hset
    cases hset

/-- What settled a property last has nothing behind it that settles the property; all that settled
it before has. -/
theorem settledOccurrences_split {records : List PropertyRecord} {i : PropertyIdentity}
    {w : Occurrence PropertyRecord}
    (hlast : lastOccurrence? (fun a => a.identity == i) (settled records) = some w) :
    ∃ left o right, settledOccurrences records = left ++ o :: right
      ∧ left.length = w.before.length
      ∧ o.item.identity = i ∧ o.item.edit.settles = true ∧ o.after.any o.settledBy = false
      ∧ (∀ e ∈ left, e.item.identity = i → ∃ a ∈ e.after, e.settledBy a = true)
      ∧ ∀ e ∈ right, e.item.identity ≠ i := by
  obtain ⟨hlist, hid, hafter⟩ := lastOccurrence?_eq_some_iff.1 hlast
  obtain ⟨left, o, right, hsplit, hlen, hitem, hbehind, hleft, hright⟩ :=
    filter_occurrences_split hlist.symm
  have hset : w.item.edit.settles = true :=
    (List.mem_filter.1 (item_mem_of_lastOccurrence? hlast)).2
  have hwid : w.item.identity = i := eq_of_beq hid
  refine ⟨left, o, right, hsplit, hlen, ?_, ?_, ?_, fun e he heq => ?_, fun e he heq => ?_⟩
  · rw [hitem, hwid]
  · rw [hitem, hset]
  · rw [List.any_eq_false]
    intro a ha hby
    rw [Occurrence.settledBy, Bool.and_eq_true, hitem, hwid] at hby
    have hno := hafter a (by rw [← hbehind]; exact List.mem_filter.2 ⟨ha, hby.2⟩)
    rw [hby.1] at hno
    cases hno
  · exact ⟨w.item, hleft e he, by simp [Occurrence.settledBy, hwid, heq, hset]⟩
  · have hno := hafter e.item (hright e he)
    simp [heq] at hno

/-- Reviving a property changes the slots as the record that revives it changes the entries. -/
theorem slots_revive {d : HistoryDraft} {records : List PropertyRecord} (h : d.Reflects records)
    {r : PropertyRecord} (hr : r.edit.setsValue = true) {b : HistoryBuilder}
    (hb : b.lastSlot = lastSlotOf records r.identity) :
    (d.revive b).slots.toList
      = (settledOccurrences records).map fun o => (o.extend [r]).emitted? := by
  rw [lastSlotOf] at hb
  -- the slot that the builder remembers is that of the last record that settled the property
  cases hlast : lastOccurrence? (fun a => a.identity == r.identity) (settled records) with
  | none =>
    rw [hlast] at hb
    rw [revive, hb, Option.map_none, h.slots]
    refine List.map_congr_left fun o ho => (o.emitted?_extend_of_other fun heq => ?_).symm
    have hmem : o.item ∈ settled records := by
      rw [← map_item_settledOccurrences]
      exact List.mem_map_of_mem ho
    have hno := lastOccurrence?_eq_none_iff.1 hlast o.item hmem
    simp [heq] at hno
  | some w =>
    obtain ⟨left, o, right, hE, hlen, hid, hset, hnone, hleft, hright⟩ :=
      settledOccurrences_split hlast
    have hl : ∀ e ∈ left, (e.extend [r]).emitted? = e.emitted? := by
      intro e he
      by_cases heq : e.item.identity = r.identity
      · obtain ⟨a, ha, hby⟩ := hleft e he heq
        exact Occurrence.emitted?_extend_of_settled ha hby r
      · exact e.emitted?_extend_of_other heq
    have hrt : ∀ e ∈ right, (e.extend [r]).emitted? = e.emitted? :=
      fun e he => e.emitted?_extend_of_other (hright e he)
    have hslots : d.slots.toList
        = left.map Occurrence.emitted? ++ o.emitted? :: right.map Occurrence.emitted? := by
      rw [h.slots, hE, List.map_append, List.map_cons]
    have hslot : b.lastSlot = some (left.map Occurrence.emitted?).length := by
      rw [hb, hlast, List.length_map, hlen]
      rfl
    rw [slots_revive_of_split hslots hslot, hE, List.map_append, List.map_cons,
      List.map_congr_left hl, List.map_congr_left hrt,
      emitted?_extend_of_last hset hnone hid.symm hr]

/-! ## One record -/

variable {d : HistoryDraft} {records : List PropertyRecord}

/-- What a record changes for its own property. -/
theorem filter_append_own (records : List PropertyRecord) (r : PropertyRecord) :
    ((records ++ [r]).filter fun a => a.identity == r.identity)
      = (records.filter fun a => a.identity == r.identity) ++ [r] := by
  rw [filter_append_singleton, if_pos (beq_self_eq_true _)]

/-- What a record changes for other properties: nothing. -/
theorem filter_append_other (records : List PropertyRecord) {r : PropertyRecord}
    {i : PropertyIdentity} (h : i ≠ r.identity) :
    ((records ++ [r]).filter fun a => a.identity == i)
      = records.filter fun a => a.identity == i := by
  rw [filter_append_singleton, if_neg (by simpa using Ne.symm h), List.append_nil]

/-- A draft in which only the record's own builder has changed is true to the records if that
builder and the slots are. -/
theorem Reflects.of_own (h : d.Reflects records) {d' : HistoryDraft} {r : PropertyRecord}
    {b : HistoryBuilder} (hd : ∀ i, d'.builder i = if i = r.identity then b else d.builder i)
    (hvalue : b.value = valueOf ((records.filter fun a => a.identity == r.identity) ++ [r]))
    (hmetadata :
      b.metadata = metadataOf ((records.filter fun a => a.identity == r.identity) ++ [r]))
    (hlast : b.lastSlot = lastSlotOf (records ++ [r]) r.identity)
    (hslots : d'.slots.toList = (settledOccurrences (records ++ [r])).map Occurrence.emitted?) :
    d'.Reflects (records ++ [r]) := by
  have hother : ∀ i, i ≠ r.identity → d'.builder i = d.builder i := by
    intro i hi
    rw [hd, if_neg hi]
  have hown : d'.builder r.identity = b := by rw [hd, if_pos rfl]
  refine ⟨fun i => ?_, fun i => ?_, fun i => ?_, hslots⟩
  · by_cases hi : i = r.identity
    · rw [hi, hown, filter_append_own, hvalue]
    · rw [hother i hi, filter_append_other records hi, h.value]
  · by_cases hi : i = r.identity
    · rw [hi, hown, filter_append_own, hmetadata]
    · rw [hother i hi, filter_append_other records hi, h.metadata]
  · by_cases hi : i = r.identity
    · rw [hi, hown, hlast]
    · rw [hother i hi, lastSlotOf_append_singleton, if_neg fun hand => hi hand.1.symm, h.lastSlot]

/-- A record that takes no slot leaves the slots and what names them alone. -/
theorem slots_of_not_settles (h : d.Reflects records) {r : PropertyRecord}
    (hr : r.edit.settles = false) :
    d.slots.toList = (settledOccurrences (records ++ [r])).map Occurrence.emitted? := by
  have hset : r.edit.setsValue = false := by
    rw [← Bool.not_eq_true]
    intro hv
    rw [PropertyEdit.settles_of_setsValue hv] at hr
    cases hr
  rw [h.slots, settledOccurrences_append_singleton, hr, if_neg (by simp), List.append_nil,
    List.map_map]
  refine List.map_congr_left fun o _ => (o.emitted?_extend_of_not_revivedBy ?_).symm
  rw [Occurrence.revivedBy, hset, Bool.and_false]

theorem lastSlot_of_not_settles (h : d.Reflects records) {r : PropertyRecord}
    (hr : r.edit.settles = false) :
    (d.builder r.identity).lastSlot = lastSlotOf (records ++ [r]) r.identity := by
  rw [h.lastSlot, lastSlotOf_append_singleton, if_neg (by simp [hr])]

/-- A record that takes a slot takes the next one. -/
theorem lastSlot_of_settles (h : d.Reflects records) {r : PropertyRecord}
    (hr : r.edit.settles = true) :
    some d.slots.size = lastSlotOf (records ++ [r]) r.identity := by
  rw [lastSlotOf_append_singleton, if_pos ⟨rfl, hr⟩, h.size_slots]

/-- The entry of the record that came last. -/
theorem emitted?_last_setValue {r : PropertyRecord} {v : PropValue} {m : Metadata}
    (hr : r.edit = .setValue v m) :
    (Occurrence.mk records r []).emitted? = some ⟨r.identity, some v, m, r.timestamp, false⟩ := by
  rw [Occurrence.emitted?, hr]

theorem emitted?_last_softDelete (h : d.Reflects records) {r : PropertyRecord}
    (hr : r.edit = .softDelete) :
    (Occurrence.mk records r []).emitted?
      = some ⟨r.identity, (d.builder r.identity).value, (d.builder r.identity).metadata,
          r.timestamp, true⟩ := by
  rw [h.value, h.metadata, Occurrence.emitted?, hr]
  rfl

theorem reflects_setValue (h : d.Reflects records) {r : PropertyRecord} {v : PropValue}
    {m : Metadata} (hr : r.edit = .setValue v m) : (d.step r).Reflects (records ++ [r]) := by
  have hset : r.edit.settles = true := by rw [hr]; rfl
  have hrev : r.edit.setsValue = true := by rw [hr]; rfl
  have hb : HistoryBuilder.lastSlot ⟨some v, m, (d.builder r.identity).lastSlot⟩
      = lastSlotOf records r.identity := h.lastSlot r.identity
  simp only [step, hr]
  refine h.of_own (b := ⟨some v, m, some d.slots.size⟩) (fun i => ?_) ?_ ?_
    (lastSlot_of_settles h hset) ?_
  · rw [builder_emit, builder_revive, size_slots_revive]
  · rw [valueOf_append_singleton, hr]
  · rw [metadataOf_append_singleton, hr]
  · -- the revival changes the slots that were there, and the new one follows
    rw [slots_emit, slots_revive h hrev hb, settledOccurrences_append_singleton, hset,
      if_pos rfl, List.map_append, List.map_map, List.map_singleton, emitted?_last_setValue hr]
    rfl

theorem reflects_softDelete (h : d.Reflects records) {r : PropertyRecord}
    (hr : r.edit = .softDelete) : (d.step r).Reflects (records ++ [r]) := by
  have hset : r.edit.settles = true := by rw [hr]; rfl
  simp only [step, hr]
  refine h.of_own (fun i => builder_emit d _ i _ _ true) ?_ ?_ (lastSlot_of_settles h hset) ?_
  · rw [valueOf_append_singleton, hr]
    exact h.value r.identity
  · rw [metadataOf_append_singleton, hr]
    exact h.metadata r.identity
  · rw [slots_emit, settledOccurrences_append_singleton, hset, if_pos rfl, List.map_append,
      List.map_map, List.map_singleton, emitted?_last_softDelete h hr, h.slots]
    refine congrArg (· ++ _) (List.map_congr_left fun o _ => ?_)
    refine (o.emitted?_extend_of_not_revivedBy ?_).symm
    rw [Occurrence.revivedBy, hr]
    exact Bool.and_false _

theorem reflects_annotate (h : d.Reflects records) {r : PropertyRecord} {m : Metadata}
    (hr : r.edit = .annotate m) : (d.step r).Reflects (records ++ [r]) := by
  have hset : r.edit.settles = false := by rw [hr]; rfl
  simp only [step, hr]
  refine h.of_own (fun i => builder_withBuilder d _ i _) ?_ ?_ (lastSlot_of_not_settles h hset)
    (slots_of_not_settles h hset)
  · rw [valueOf_append_singleton, hr]
    exact h.value r.identity
  · rw [metadataOf_append_singleton, hr, ← h.metadata]

theorem reflects_toggle (h : d.Reflects records) {r : PropertyRecord}
    (hr : r.edit.isToggle = true) : d.Reflects (records ++ [r]) := by
  have hset : r.edit.settles = false := by
    rw [← Bool.not_eq_true]
    intro hs
    rw [PropertyEdit.not_toggle_of_settles hs] at hr
    cases hr
  refine h.of_own (fun i => ?_) ?_ ?_ (lastSlot_of_not_settles h hset)
    (slots_of_not_settles h hset)
  · split
    · next hi => rw [hi]
    · rfl
  · rw [valueOf_append_toggle _ hr, h.value]
  · rw [metadataOf_append_toggle _ hr, h.metadata]

/-- Every record keeps the draft true to the records. -/
theorem reflects_step (h : d.Reflects records) (r : PropertyRecord) :
    (d.step r).Reflects (records ++ [r]) := by
  cases hr : r.edit with
  | setValue v m => exact reflects_setValue h hr
  | annotate m => exact reflects_annotate h hr
  | softDelete => exact reflects_softDelete h hr
  | hide l =>
    have hstep : d.step r = d := by simp only [step, hr]
    rw [hstep]
    exact reflects_toggle h (by rw [hr]; rfl)
  | unhide l =>
    have hstep : d.step r = d := by simp only [step, hr]
    rw [hstep]
    exact reflects_toggle h (by rw [hr]; rfl)

/-! ## All records -/

theorem reflects_start : start.Reflects [] := ⟨fun _ => rfl, fun _ => rfl, fun _ => rfl, rfl⟩

/-- A draft is true to the records that it has taken in. -/
theorem reflects_run (records : List PropertyRecord) : (ofRecords records).Reflects records := by
  induction records using List.reverseRecOn with
  | nil => exact reflects_start
  | append_singleton records r ih =>
    rw [ofRecords, List.foldl_append]
    exact reflects_step ih r

/-- A record that takes no slot leaves no entry. -/
theorem settles_of_emitted? {o : Occurrence PropertyRecord} {e : HistoryEntry}
    (h : o.emitted? = some e) : o.item.edit.settles = true := by
  cases he : o.item.edit with
  | setValue v m => rfl
  | softDelete => rfl
  | _ =>
    rw [Occurrence.emitted?, he] at h
    cases h

/-- The entries of a draft are those that its records leave where they stand, newest first. -/
theorem entries_ofRecords (records : List PropertyRecord) :
    (ofRecords records).entries
      = ((occurrences records).filterMap Occurrence.emitted?).reverse := by
  rw [entries, (reflects_run records).slots, ← List.map_reverse, List.filterMap_map,
    List.filterMap_reverse, settledOccurrences, List.filterMap_filter]
  refine congrArg (fun f => ((occurrences records).filterMap f).reverse) (funext fun o => ?_)
  cases he : o.emitted? with
  | none => simp [he]
  | some e => simp [he, settles_of_emitted? he]

end HistoryDraft

end Chronicle
