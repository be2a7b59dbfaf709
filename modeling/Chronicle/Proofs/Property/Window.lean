import Mathlib.Data.List.Forall2
import Chronicle.Proofs.Property.Newest

/-!
# A window on a history

The history in a range of time is not cut out of the whole history: it is drafted anew from the
records in the range.  What lies before the range is not known then, so a deletion may have lost the
value that it ended; and what lies after it is not known either, so a deletion shows whose property
comes back only later.  Nothing else is changed.  Records are sorted by time, hence those in the
range are a middle part of them, and each property has but one last record there.

* `find?_filter_of_closed` : the next record of a kind, as far as it is in the range;
* `standing_filter_of_closed` : what stood before, as far as it was set in the range;
* `emitted?_window` : the entry that a record leaves in the range, and the one that it leaves;
* `history_window` : the history in a range and the whole history.
-/

namespace Chronicle

/-! ## Lists -/

section Lists

variable {α β : Type} {p q : α → Bool} {l : List α} {f g : α → Option β} {R : β → β → Prop}

/-- If `p` holds of a front part of the list, the first item of a kind there is the first of that
kind, if this is still in the front part. -/
theorem find?_filter_of_closed (h : l.Pairwise fun a b => p b = true → p a = true) :
    (l.filter p).find? q = (l.find? q).filter p := by
  induction l with
  | nil => rfl
  | cons a rest ih =>
    obtain ⟨ha, hrest⟩ := List.pairwise_cons.1 h
    have ih := ih hrest
    cases hp : p a with
    | true =>
      rw [List.filter_cons_of_pos hp, List.find?_cons, List.find?_cons]
      cases q a with
      | true => exact (if_pos hp).symm
      | false => exact ih
    | false =>
      -- the front part has ended
      have hnil : rest.filter p = [] := by
        refine List.filter_eq_nil_iff.2 fun b hb hpb => ?_
        rw [ha b hb hpb] at hp
        cases hp
      rw [hnil, List.find?_nil] at ih
      rw [List.filter_cons_of_neg (by simp [hp]), hnil, List.find?_nil, List.find?_cons]
      cases q a with
      | true => exact (if_neg (by simp [hp])).symm
      | false => exact ih

/-- Where the first item of a kind is not in the front part, none of that kind is. -/
theorem forall_of_find?_of_closed (h : l.Pairwise fun a b => p b = true → p a = true) {a : α}
    (ha : l.find? q = some a) (hp : p a = false) : ∀ b ∈ l, q b = true → p b = false := by
  have hnone := find?_filter_of_closed (q := q) h
  rw [ha, Option.filter_some, hp, if_neg (by simp), List.find?_eq_none] at hnone
  intro b hb hq
  rw [← Bool.not_eq_true]
  exact fun hpb => hnone b (List.mem_filter.2 ⟨hb, hpb⟩) hq

/-- What is made of the items can be filtered by what is known of the items. -/
theorem filter_filterMap_of_eq {r : β → Bool}
    (h : ∀ a ∈ l, ∀ x, f a = some x → r x = p a) :
    (l.filterMap f).filter r = (l.filter p).filterMap f := by
  rw [List.filter_filterMap, List.filterMap_filter]
  refine List.filterMap_congr fun a ha => ?_
  cases hf : f a with
  | none => simp
  | some x => rw [Option.filter_some, h a ha x hf]

theorem sublistForall₂_filterMap
    (h : ∀ a ∈ l, ∀ x, f a = some x → ∃ y, g a = some y ∧ R x y) :
    List.SublistForall₂ R (l.filterMap f) (l.filterMap g) := by
  induction l with
  | nil => exact .nil
  | cons a rest ih =>
    have ih := ih fun b hb => h b (List.mem_cons_of_mem a hb)
    cases hf : f a with
    | some x =>
      obtain ⟨y, hg, hR⟩ := h a List.mem_cons_self x hf
      rw [List.filterMap_cons_some hf, List.filterMap_cons_some hg]
      exact .cons hR ih
    | none =>
      rw [List.filterMap_cons_none hf]
      cases hg : g a with
      | some y =>
        rw [List.filterMap_cons_some hg]
        exact .cons_right ih
      | none =>
        rw [List.filterMap_cons_none hg]
        exact ih

theorem forall₂_filterMap (h : ∀ a ∈ l, Option.Rel R (f a) (g a)) :
    List.Forall₂ R (l.filterMap f) (l.filterMap g) := by
  induction l with
  | nil => exact .nil
  | cons a rest ih =>
    have ih := ih fun b hb => h b (List.mem_cons_of_mem a hb)
    have ha := h a List.mem_cons_self
    cases hf : f a with
    | some x =>
      cases hg : g a with
      | some y =>
        rw [hf, hg] at ha
        cases ha with
        | some hR =>
          rw [List.filterMap_cons_some hf, List.filterMap_cons_some hg]
          exact .cons hR ih
      | none =>
        rw [hf, hg] at ha
        cases ha
    | none =>
      cases hg : g a with
      | some y =>
        rw [hf, hg] at ha
        cases ha
      | none =>
        rw [List.filterMap_cons_none hf, List.filterMap_cons_none hg]
        exact ih

end Lists

/-! ## Ranges -/

namespace TimeRange

variable {range : TimeRange} {s t u : Timestamp}

/-- Whether the record is in the range. -/
def covers (range : TimeRange) (r : PropertyRecord) : Bool := range.contains r.timestamp

/-- What lies between two moments of a range is in the range. -/
theorem contains_of_between (hs : range.contains s = true) (hu : range.contains u = true)
    (hst : s ≤ t) (htu : t ≤ u) : range.contains t = true := by
  rw [HistoryScope.contains_iff] at hs hu ⊢
  exact ⟨fun a ha => Int64.le_trans (hs.1 a ha) hst, fun b hb => Int64.le_trans htu (hu.2 b hb)⟩

/-- A later moment that is not in the range is after its end. -/
theorem exists_stop_lt (hs : range.contains s = true) (hst : s ≤ t)
    (ht : range.contains t = false) : ∃ stop, range.stop = some stop ∧ stop < t := by
  rw [← Bool.not_eq_true, HistoryScope.contains_iff, not_and_or] at ht
  rw [HistoryScope.contains_iff] at hs
  rcases ht with hstart | hstop
  · exact absurd (fun a ha => Int64.le_trans (hs.1 a ha) hst) hstart
  · simp only [not_forall, Int64.not_le] at hstop
    obtain ⟨stop, hstop, hlt⟩ := hstop
    exact ⟨stop, hstop, hlt⟩

/-- A moment that is not after one in the range is in the range, if the range has no start. -/
theorem contains_of_le (hu : range.contains u = true) (htu : t ≤ u) (hstart : range.start = none) :
    range.contains t = true := by
  rw [HistoryScope.contains_iff] at hu ⊢
  refine ⟨fun a ha => ?_, fun b hb => Int64.le_trans htu (hu.2 b hb)⟩
  rw [hstart] at ha
  cases ha

end TimeRange

/-! ## One record -/

/-- The entry `e'` is what is left of `e` in a range: the same, or a deletion without the value that
it ended. -/
inductive HistoryEntry.Trims (range : TimeRange) : HistoryEntry → HistoryEntry → Prop
  | same (e : HistoryEntry) : Trims range e e
  | deletion {i : PropertyIdentity} {v : Option PropValue} {m m' : Metadata} {ts : Timestamp} :
    range.start.isSome = true → Trims range ⟨i, v, m, ts, true⟩ ⟨i, none, m', ts, true⟩

/-- What stood, as far as it was set in an end part of the records: the same, or no value. -/
theorem standing_filter_of_closed {p : PropertyRecord → Bool} {records : List PropertyRecord}
    (h : records.Pairwise fun a b => p a = true → p b = true) :
    (valueOf (records.filter p) = valueOf records
        ∧ metadataOf (records.filter p) = metadataOf records)
      ∨ valueOf (records.filter p) = none := by
  induction records using List.reverseRecOn with
  | nil => exact Or.inl ⟨rfl, rfl⟩
  | append_singleton records r ih =>
    obtain ⟨hrecords, -, hr⟩ := List.pairwise_append.1 h
    rw [filter_append_singleton]
    cases hp : p r with
    | true =>
      rw [if_pos rfl, valueOf_append_singleton, valueOf_append_singleton,
        metadataOf_append_singleton, metadataOf_append_singleton]
      rcases ih hrecords with ⟨hvalue, hmetadata⟩ | hnone
      · rw [hvalue, hmetadata]
        exact Or.inl ⟨rfl, rfl⟩
      · -- only a new value makes up for one that is missing
        cases r.edit with
        | setValue v m => exact Or.inl ⟨rfl, rfl⟩
        | _ => exact Or.inr hnone
    | false =>
      -- the end part has not begun
      have hnil : records.filter p = [] := by
        refine List.filter_eq_nil_iff.2 fun a ha hpa => ?_
        rw [hr a ha r List.mem_cons_self hpa] at hp
        cases hp
      rw [hnil]
      exact Or.inr rfl

namespace Occurrence

variable {range : TimeRange} {o : Occurrence PropertyRecord}

/-- The item and its neighbours are sorted by time. -/
def Sorted (o : Occurrence PropertyRecord) : Prop :=
  o.list.Pairwise fun a b => a.timestamp ≤ b.timestamp

/-- The item is a deletion whose property comes back, but not in the range. -/
def RevivedOutside (range : TimeRange) (o : Occurrence PropertyRecord) : Prop :=
  o.item.edit = .softDelete ∧ ∃ a, o.after.find? o.settledBy = some a ∧ a.edit.setsValue = true
    ∧ range.covers a = false

/-- The entry that the item leaves among the records in the range. -/
def emittedWithin? (range : TimeRange) (o : Occurrence PropertyRecord) : Option HistoryEntry :=
  (o.filter range.covers).emitted?

/-- The entry of a value is the same in every range. -/
theorem emittedWithin?_of_setsValue (range : TimeRange) (h : o.item.edit.setsValue = true) :
    o.emittedWithin? range = o.emitted? := by
  obtain ⟨v, m, he⟩ := PropertyEdit.setsValue_iff.1 h
  unfold emittedWithin? emitted?
  rw [show (o.filter range.covers).item = o.item from rfl, he]

/-- Behind an item in the range, what is in the range comes first. -/
theorem Sorted.after_closed (h : o.Sorted) (hin : range.covers o.item = true) :
    o.after.Pairwise fun a b => range.covers b = true → range.covers a = true := by
  obtain ⟨-, hbehind, -⟩ := List.pairwise_append.1 h
  obtain ⟨hitem, hafter⟩ := List.pairwise_cons.1 hbehind
  refine List.Pairwise.imp_of_mem (fun {a b} ha _ hab hb => ?_) hafter
  exact TimeRange.contains_of_between hin hb (hitem a ha) hab

/-- Before an item in the range, what is in the range comes last. -/
theorem Sorted.before_closed (h : o.Sorted) (hin : range.covers o.item = true) :
    o.before.Pairwise fun a b => range.covers a = true → range.covers b = true := by
  obtain ⟨hbefore, -, hitem⟩ := List.pairwise_append.1 h
  refine List.Pairwise.imp_of_mem (fun {a b} _ hb hab ha => ?_) hbefore
  exact TimeRange.contains_of_between ha hin hab (hitem b hb o.item List.mem_cons_self)

/-- In the range a property comes back if it does, unless what brings it back is outside. -/
theorem isRevived_window (h : o.Sorted) (hin : range.covers o.item = true) :
    (o.filter range.covers).isRevived = o.isRevived
      ∨ (o.isRevived = true ∧ (o.filter range.covers).isRevived = false
        ∧ ∃ a, o.after.find? o.settledBy = some a ∧ a.edit.setsValue = true
          ∧ range.covers a = false) := by
  have hwindow : (o.filter range.covers).isRevived
      = ((o.after.find? o.settledBy).filter range.covers).any fun a => a.edit.setsValue := by
    rw [← find?_filter_of_closed (h.after_closed hin)]
    rfl
  rw [hwindow, isRevived]
  cases o.after.find? o.settledBy with
  | none => exact Or.inl rfl
  | some a =>
    rw [Option.filter_some]
    cases hcovers : range.covers a with
    | true => exact Or.inl rfl
    | false =>
      cases hset : a.edit.setsValue with
      | true => exact Or.inr ⟨hset, rfl, a, rfl, hset, hcovers⟩
      | false => exact Or.inl hset.symm

/-- What stood before the item, as far as it was set in the range. -/
theorem standing_window (h : o.Sorted) (hin : range.covers o.item = true) :
    (valueOf (o.filter range.covers).earlier = valueOf o.earlier
        ∧ metadataOf (o.filter range.covers).earlier = metadataOf o.earlier)
      ∨ (range.start.isSome = true ∧ valueOf (o.filter range.covers).earlier = none) := by
  have hearlier : (o.filter range.covers).earlier = o.earlier.filter range.covers := by
    show (o.before.filter range.covers).filter (fun a => a.identity == o.item.identity) = _
    rw [earlier, List.filter_filter, List.filter_filter]
    exact List.filter_congr fun a _ => Bool.and_comm _ _
  rw [hearlier]
  cases hstart : range.start with
  | some start =>
    have hclosed := (h.before_closed hin).filter fun a => a.identity == o.item.identity
    rcases standing_filter_of_closed hclosed with hsame | hnone
    · exact Or.inl hsame
    · exact Or.inr ⟨rfl, hnone⟩
  | none =>
    have hall : ∀ a ∈ o.earlier, range.covers a = true := by
      intro a ha
      obtain ⟨-, -, hitem⟩ := List.pairwise_append.1 h
      refine TimeRange.contains_of_le hin ?_ hstart
      exact hitem a (List.mem_filter.1 ha).1 o.item List.mem_cons_self
    rw [List.filter_eq_self.2 hall]
    exact Or.inl ⟨rfl, rfl⟩

/-- Among the records in the range a record leaves what is left of its entry; only a deletion whose
property comes back outside leaves an entry there that it does not leave among all records. -/
theorem emitted?_window (h : o.Sorted) (hin : range.covers o.item = true) :
    Option.Rel (HistoryEntry.Trims range) o.emitted? (o.emittedWithin? range)
      ∨ (o.RevivedOutside range ∧ o.emitted? = none
        ∧ ∃ e, o.emittedWithin? range = some e ∧ e.isDeleted = true) := by
  unfold emittedWithin? emitted?
  rw [show (o.filter range.covers).item = o.item from rfl]
  cases he : o.item.edit with
  | setValue v m => exact Or.inl (.some (.same _))
  | softDelete =>
    simp only
    rcases isRevived_window h hin with hsame | ⟨hrevived, hwindow, hback⟩
    · rw [hsame]
      cases o.isRevived with
      | true => exact Or.inl .none
      | false =>
        refine Or.inl (.some ?_)
        rcases standing_window h hin with ⟨hvalue, hmetadata⟩ | ⟨hstart, hnone⟩
        · rw [hvalue, hmetadata]
          exact .same _
        · rw [hnone]
          exact .deletion hstart
    · rw [hrevived, hwindow]
      exact Or.inr ⟨⟨he, hback⟩, rfl, _, rfl, rfl⟩
  | _ => exact Or.inl .none

/-- What is so deleted is not settled again in the range. -/
theorem RevivedOutside.last (hr : o.RevivedOutside range) (h : o.Sorted)
    (hin : range.covers o.item = true) :
    ∀ b ∈ o.after, o.settledBy b = true → range.covers b = false := by
  obtain ⟨-, a, hfind, -, hcovers⟩ := hr
  exact forall_of_find?_of_closed (h.after_closed hin) hfind hcovers

end Occurrence

/-! ## The history -/

/-- The entry is one of the last deletion in the range, and the property comes back with the next
record that settles it, which is after the end of the range. -/
def RevivedLate (range : TimeRange) (records : List PropertyRecord) (e : HistoryEntry) : Prop :=
  ∃ o ∈ occurrences records, o.item.edit = .softDelete
    ∧ o.item.identity = e.identity ∧ o.item.timestamp = e.timestamp ∧ range.covers o.item = true
    ∧ (∀ b ∈ o.after, o.settledBy b = true → range.covers b = false)
    ∧ ∃ a stop, o.after.find? o.settledBy = some a ∧ a.edit.setsValue = true
      ∧ range.stop = some stop ∧ stop < a.timestamp

/-- `cut` is the history in a range of the records whose whole history is `full`.  It has the values
in the range, and of each deletion there what is left of it.  A property has at most one deletion
besides, its newest entry, and comes back after the range. -/
structure IsWindow (range : TimeRange) (records : List PropertyRecord)
    (full cut : List HistoryEntry) : Prop where
  values : (cut.filter fun e => !e.isDeleted)
    = full.filter fun e => !e.isDeleted && range.contains e.timestamp
  inOrder : List.SublistForall₂ (HistoryEntry.Trims range)
    (full.filter fun e => range.contains e.timestamp) cut
  atMostOneMore (i : PropertyIdentity) : ∃ (more : Option HistoryEntry) (rest : List HistoryEntry),
    (cut.filter fun e => e.identity == i) = more.toList ++ rest
      ∧ List.Forall₂ (HistoryEntry.Trims range)
        (full.filter fun e => e.identity == i && range.contains e.timestamp) rest
      ∧ ∀ e ∈ more, e.isDeleted = true ∧ RevivedLate range records e

section Entries

variable {range : TimeRange} {records : List PropertyRecord} {o : Occurrence PropertyRecord}

/-- The records in the range, where they stand among all. -/
def coveredOccurrences (range : TimeRange) (records : List PropertyRecord) :
    List (Occurrence PropertyRecord) :=
  (occurrences records).filter fun o => range.covers o.item

theorem sorted_of_mem_covered (h : records.Pairwise fun a b => a.timestamp ≤ b.timestamp)
    (ho : o ∈ coveredOccurrences range records) : o.Sorted ∧ range.covers o.item = true := by
  obtain ⟨hmem, hin⟩ := List.mem_filter.1 ho
  rw [← list_of_mem_occurrences hmem] at h
  exact ⟨h, hin⟩

/-- The entries of the records in the range are those that these leave there. -/
theorem filterMap_emitted?_covered (range : TimeRange) (records : List PropertyRecord) :
    (occurrences (records.filter range.covers)).filterMap Occurrence.emitted?
      = (coveredOccurrences range records).filterMap (Occurrence.emittedWithin? range) := by
  rw [occurrences_filter, List.filterMap_map]
  rfl

/-- The entries in the range are those of the records in the range. -/
theorem filter_contains_emitted? (range : TimeRange) (records : List PropertyRecord) :
    (((occurrences records).filterMap Occurrence.emitted?).filter
        fun e => range.contains e.timestamp)
      = (coveredOccurrences range records).filterMap Occurrence.emitted? := by
  refine filter_filterMap_of_eq fun o _ e he => ?_
  rw [o.timestamp_of_emitted? he]
  rfl

/-- The records that settle the property in the range. -/
def settledWithin (range : TimeRange) (records : List PropertyRecord) (i : PropertyIdentity) :
    List (Occurrence PropertyRecord) :=
  (coveredOccurrences range records).filter fun o =>
    o.item.identity == i && o.item.edit.settles

/-- If records leave entries of their own property and only if they settle it, those of a property
are left by the records that settle it. -/
theorem filter_identity_covered {leaves? : Occurrence PropertyRecord → Option HistoryEntry}
    (h : ∀ o e, leaves? o = some e →
      e.identity = o.item.identity ∧ o.item.edit.settles = true) (i : PropertyIdentity) :
    (((coveredOccurrences range records).filterMap leaves?).filter fun e => e.identity == i)
      = (settledWithin range records i).filterMap leaves? := by
  refine filter_filterMap_of_eq fun o _ e he => ?_
  obtain ⟨hid, hset⟩ := h o e he
  rw [hid, hset, Bool.and_true]

/-- Only the last record that settles a property in the range can be a deletion whose property comes
back outside. -/
theorem trims_of_not_last (h : records.Pairwise fun a b => a.timestamp ≤ b.timestamp)
    {i : PropertyIdentity} {init : List (Occurrence PropertyRecord)}
    {last : Occurrence PropertyRecord} (hsplit : settledWithin range records i = init ++ [last]) :
    ∀ o ∈ init, Option.Rel (HistoryEntry.Trims range) o.emitted?
      (o.emittedWithin? range) := by
  intro o ho
  have hpairwise : (settledWithin range records i).Pairwise fun o o' => o'.item ∈ o.after :=
    ((occurrencesFrom_pairwise [] records).filter _).filter _
  rw [hsplit] at hpairwise
  have hbehind := (List.pairwise_append.1 hpairwise).2.2 o ho last List.mem_cons_self
  have hmem : ∀ w ∈ init ++ [last], w.Sorted ∧ range.covers w.item = true
      ∧ w.item.identity = i ∧ w.item.edit.settles = true := by
    intro w hw
    rw [← hsplit] at hw
    obtain ⟨hcovered, hown⟩ := List.mem_filter.1 hw
    obtain ⟨hsorted, hin⟩ := sorted_of_mem_covered h hcovered
    rw [Bool.and_eq_true] at hown
    exact ⟨hsorted, hin, eq_of_beq hown.1, hown.2⟩
  obtain ⟨hsorted, hin, hi, -⟩ := hmem o (List.mem_append_left _ ho)
  obtain ⟨-, hin', hi', hset'⟩ := hmem last List.mem_append_cons_self
  rcases Occurrence.emitted?_window hsorted hin with htrims | ⟨hback, -⟩
  · exact htrims
  · -- else the last record would settle the property behind it, in the range
    have hby : o.settledBy last.item = true := by
      rw [Occurrence.settledBy, hi, hi', hset', beq_self_eq_true, Bool.and_true]
    rw [hback.last hsorted hin last.item hbehind hby] at hin'
    cases hin'

/-- A deletion in the range whose property comes back outside comes back late. -/
theorem revivedLate_of_outside (hmem : o ∈ occurrences records) (hsorted : o.Sorted)
    (hin : range.covers o.item = true) (hback : o.RevivedOutside range) {e : HistoryEntry}
    (he : o.emittedWithin? range = some e) : RevivedLate range records e := by
  have hlast := hback.last hsorted hin
  obtain ⟨hdelete, a, hfind, hset, hcovers⟩ := hback
  have hitem : o.item.timestamp ≤ a.timestamp := by
    obtain ⟨-, hbehind, -⟩ := List.pairwise_append.1 hsorted
    exact (List.pairwise_cons.1 hbehind).1 a (List.mem_of_find?_eq_some hfind)
  obtain ⟨stop, hstop, hlt⟩ := TimeRange.exists_stop_lt hin hitem hcovers
  have hid := Occurrence.identity_of_emitted? (o := o.filter range.covers) he
  have hts := Occurrence.timestamp_of_emitted? (o := o.filter range.covers) he
  exact ⟨o, hmem, hdelete, hid.symm, hts.symm, hin, hlast, a, stop, hfind, hset, hstop, hlt⟩

/-- The same values are left in the range as among all records. -/
theorem values_covered (range : TimeRange) (records : List PropertyRecord) :
    (((coveredOccurrences range records).filterMap
        (Occurrence.emittedWithin? range)).filter fun e => !e.isDeleted)
      = ((coveredOccurrences range records).filterMap Occurrence.emitted?).filter
          fun e => !e.isDeleted := by
  have hvalue : ∀ (o : Occurrence PropertyRecord) (e : HistoryEntry), o.emitted? = some e →
      (!e.isDeleted) = o.item.edit.setsValue := by
    intro o e he
    rw [o.isDeleted_of_emitted? he, Bool.not_not]
  rw [filter_filterMap_of_eq (p := fun o => o.item.edit.setsValue) fun o _ e he =>
      hvalue (o.filter range.covers) e he,
    filter_filterMap_of_eq (p := fun o => o.item.edit.setsValue) fun o _ e he => hvalue o e he]
  exact List.filterMap_congr fun o ho =>
    Occurrence.emittedWithin?_of_setsValue range (List.mem_filter.1 ho).2

/-- Of one property the range has what is left of its entries there, and at most one deletion
more. -/
theorem atMostOneMore_covered (h : records.Pairwise fun a b => a.timestamp ≤ b.timestamp)
    (range : TimeRange) (i : PropertyIdentity) :
    ∃ (more : Option HistoryEntry) (rest : List HistoryEntry),
      ((settledWithin range records i).filterMap
          (Occurrence.emittedWithin? range)) = rest ++ more.toList
        ∧ List.Forall₂ (HistoryEntry.Trims range)
          ((settledWithin range records i).filterMap Occurrence.emitted?) rest
        ∧ ∀ e ∈ more, e.isDeleted = true ∧ RevivedLate range records e := by
  rcases List.eq_nil_or_concat (settledWithin range records i) with hnil | ⟨init, last, hsplit⟩
  · rw [hnil]
    exact ⟨none, [], rfl, .nil, by simp⟩
  · rw [List.concat_eq_append] at hsplit
    have hinit := trims_of_not_last h hsplit
    have hlast : last ∈ settledWithin range records i := by
      rw [hsplit]
      exact List.mem_append_cons_self
    have hcovered := (List.mem_filter.1 hlast).1
    obtain ⟨hsorted, hin⟩ := sorted_of_mem_covered h hcovered
    rw [hsplit]
    -- only of the last record it is open whether it leaves one more
    rcases Occurrence.emitted?_window hsorted hin with htrims | ⟨hback, hnone, e, he, hdel⟩
    · refine ⟨none, _, (List.append_nil _).symm, forall₂_filterMap fun o ho => ?_, by simp⟩
      rcases List.mem_append.1 ho with ho | ho
      · exact hinit o ho
      · rw [List.mem_singleton.1 ho]
        exact htrims
    · refine ⟨some e, init.filterMap (Occurrence.emittedWithin? range), ?_, ?_, ?_⟩
      · rw [List.filterMap_append, List.filterMap_cons_some he]
        rfl
      · rw [List.filterMap_append, List.filterMap_cons_none hnone, List.filterMap_nil,
          List.append_nil]
        exact forall₂_filterMap hinit
      · intro e' he'
        cases he'
        exact ⟨hdel, revivedLate_of_outside (List.mem_filter.1 hcovered).1 hsorted hin hback he⟩

/-- The records in the range have the window on the history of all records as their history. -/
theorem isWindow_filter (h : records.Pairwise fun a b => a.timestamp ≤ b.timestamp)
    (range : TimeRange) :
    IsWindow range records ((occurrences records).filterMap Occurrence.emitted?).reverse
      ((occurrences (records.filter range.covers)).filterMap Occurrence.emitted?).reverse where
  values := by
    rw [← List.filter_filter, List.filter_reverse, List.filter_reverse, List.filter_reverse,
      filter_contains_emitted?, filterMap_emitted?_covered, values_covered]
  inOrder := by
    rw [List.filter_reverse, filter_contains_emitted?, filterMap_emitted?_covered,
      ← List.filterMap_reverse, ← List.filterMap_reverse]
    refine sublistForall₂_filterMap fun o ho e he => ?_
    obtain ⟨hsorted, hin⟩ := sorted_of_mem_covered h (List.mem_reverse.1 ho)
    rcases Occurrence.emitted?_window hsorted hin with htrims | ⟨-, hnone, -⟩
    · rw [he] at htrims
      cases hcut : o.emittedWithin? range with
      | none =>
        rw [hcut] at htrims
        cases htrims
      | some e' =>
        rw [hcut] at htrims
        cases htrims with
        | some htrims => exact ⟨e', rfl, htrims⟩
    · rw [he] at hnone
      cases hnone
  atMostOneMore i := by
    obtain ⟨more, rest, hcut, htrims, hmore⟩ := atMostOneMore_covered h range i
    refine ⟨more, rest.reverse, ?_, ?_, hmore⟩
    · rw [List.filter_reverse, filterMap_emitted?_covered, filter_identity_covered, hcut,
        List.reverse_append]
      · cases more <;> rfl
      · exact fun o e he => ⟨Occurrence.identity_of_emitted? (o := o.filter range.covers) he,
          HistoryDraft.settles_of_emitted? (o := o.filter range.covers) he⟩
    · rw [← List.filter_filter, List.filter_reverse, List.filter_reverse,
        filter_contains_emitted?, filter_identity_covered]
      · exact List.forall₂_reverse_iff.2 htrims
      · exact fun o e he =>
          ⟨Occurrence.identity_of_emitted? he, HistoryDraft.settles_of_emitted? he⟩

end Entries

/-! ## Records of a log -/

/-- Loading values does not change what comes back when. -/
theorem RevivedLate.of_loaded {range : TimeRange} {records : List PropertyRecord} {fetch : Load}
    {e : HistoryEntry} (h : RevivedLate range (records.map (PropertyRecord.loaded fetch)) e) :
    RevivedLate range records e := by
  obtain ⟨⟨before, item, after⟩, hmem, hdelete, hid, hts, hin, hlast, a, stop, hfind, hset, hstop,
    hlt⟩ := h
  -- the occurrence is one of the records themselves, with the values loaded
  have hlist : records.map (PropertyRecord.loaded fetch) = before ++ item :: after :=
    (list_of_mem_occurrences hmem).symm
  obtain ⟨before', rest', hrecords, -, hrest⟩ := List.map_eq_append_iff.1 hlist
  obtain ⟨item', after', rfl, rfl, rfl⟩ := List.map_eq_cons_iff.1 hrest
  let o : Occurrence PropertyRecord := ⟨before', item', after'⟩
  have hby : ∀ b, Occurrence.settledBy ⟨before, item'.loaded fetch, after'.map (·.loaded fetch)⟩
      (b.loaded fetch) = o.settledBy b := by
    intro b
    rw [Occurrence.settledBy, PropertyRecord.identity_loaded, PropertyRecord.settles_loaded]
    exact congrArg (b.identity == · && b.edit.settles) (item'.identity_loaded fetch)
  have hcovers : ∀ b : PropertyRecord, range.covers (b.loaded fetch) = range.covers b :=
    fun b => congrArg range.contains (b.timestamp_loaded fetch)
  rw [List.find?_map, Option.map_eq_some_iff] at hfind
  obtain ⟨a', hfind, rfl⟩ := hfind
  refine ⟨o, mem_occurrences_iff.2 hrecords.symm,
    PropertyRecord.softDelete_loaded_iff.1 hdelete, ?_, ?_, ?_, fun b hb hsettled => ?_,
    a', stop, ?_, ?_, hstop, ?_⟩
  · rw [← hid, PropertyRecord.identity_loaded]
  · rw [← hts, PropertyRecord.timestamp_loaded]
  · rw [← hcovers, hin]
  · rw [← hcovers]
    exact hlast _ (List.mem_map_of_mem hb) ((hby b).trans hsettled)
  · rw [← hfind]
    exact congrArg (after'.find? ·) (funext fun b => (hby b).symm)
  · rw [← hset, PropertyRecord.setsValue_loaded]
  · rwa [PropertyRecord.timestamp_loaded] at hlt

namespace Log

/-- The records of a history, if its range is all of time. -/
def recordsInScope (log : Log) (s : HistoryScope) (f : PropertyFilter) : List PropertyRecord :=
  HistoryScope.admitted { s with range := .all } ((log.recordsOf f).map PropertyRecord.guarded)

/-- The records of a log are sorted by time. -/
theorem pairwise_recordsOf (log : Log) (f : PropertyFilter) :
    (log.recordsOf f).Pairwise fun a b => a.timestamp ≤ b.timestamp := by
  refine (List.Pairwise.filterMap Mutation.property? (fun m m' hle r hr r' hr' => ?_)
    log.sorted).filter _
  cases m with
  | element _ => cases hr
  | property _ =>
    cases m' with
    | element _ => cases hr'
    | property _ =>
      cases hr
      cases hr'
      exact hle

/-- The records of a history in a range are those of the whole history that are in the range. -/
theorem admitted_eq_filter_recordsInScope (log : Log) (s : HistoryScope) (f : PropertyFilter) :
    s.admitted ((log.recordsOf f).map PropertyRecord.guarded)
      = (log.recordsInScope s f).filter s.range.covers := by
  rw [recordsInScope, HistoryScope.admitted_guarded, HistoryScope.admitted_guarded,
    List.filter_filter]
  refine List.filter_congr fun r _ => ?_
  show (_ && _ && _) = (s.range.contains r.timestamp && (TimeRange.all.contains _ && _ && _))
  rw [TimeRange.contains_all, Bool.true_and, ← Bool.and_assoc]
  rfl

/-- A history is that of the loaded records in its range, unless one of them is refused. -/
theorem history_eq_recordsInScope (log : Log) (s : HistoryScope) (f : PropertyFilter)
    (fetch : Load) :
    log.history s f fetch
      = match ((log.recordsInScope s f).filter s.range.covers).findSome?
          (PropertyRecord.refusal? fetch) with
        | some e => .error e
        | none =>
          .ok ((occurrences (((log.recordsInScope s f).map (PropertyRecord.loaded fetch)).filter
            s.range.covers)).filterMap Occurrence.emitted?).reverse := by
  have hloaded := PropertyRecord.map_loaded_filter (p := s.range.covers)
    (fun r => congrArg s.range.contains (r.timestamp_loaded fetch)) (log.recordsInScope s f)
  rw [history, HistoryScope.history, HistoryScope.reconstruct_eq,
    admitted_eq_filter_recordsInScope]
  cases ((log.recordsInScope s f).filter s.range.covers).findSome?
      (PropertyRecord.refusal? fetch) with
  | some e => rfl
  | none =>
    exact congrArg (fun l => Except.ok ((occurrences l).filterMap Occurrence.emitted?).reverse)
      hloaded

variable {log : Log} {s : HistoryScope} {f : PropertyFilter} {fetch : Load}
  {full : List HistoryEntry}

/-- If the whole history can be read, none of its records is refused. -/
theorem recordsInScope_of_history (h : log.history { s with range := .all } f fetch = .ok full) :
    (log.recordsInScope s f).findSome? (PropertyRecord.refusal? fetch) = none
      ∧ full = ((occurrences ((log.recordsInScope s f).map (PropertyRecord.loaded fetch))).filterMap
          Occurrence.emitted?).reverse := by
  have hall : ∀ records : List PropertyRecord, records.filter TimeRange.all.covers = records :=
    fun records => List.filter_eq_self.2 fun _ _ => rfl
  rw [history_eq_recordsInScope, hall, hall] at h
  have hscope : log.recordsInScope { s with range := .all } f = log.recordsInScope s f := rfl
  rw [hscope] at h
  cases hrefusal : (log.recordsInScope s f).findSome? (PropertyRecord.refusal? fetch) with
  | some e =>
    rw [hrefusal] at h
    cases h
  | none =>
    rw [hrefusal] at h
    cases h
    exact ⟨rfl, rfl⟩

/-- **The history in a range is a window on the whole history.**  Whatever the range, the reader and
the properties asked for: if the whole history can be read, so can that in the range.  It has the
same values, with the same metadata and in the same order, and all deletions in the range; of a
deletion the value that it ended may be missing, if the range has a start.  A property has at most
one deletion more, its newest entry: the last deletion in the range, if the property is set again
and this only after the end. -/
theorem history_window (h : log.history { s with range := .all } f fetch = .ok full) :
    ∃ cut, log.history s f fetch = .ok cut
      ∧ IsWindow s.range (log.recordsInScope s f) full cut := by
  obtain ⟨hrefusal, rfl⟩ := recordsInScope_of_history h
  have hkept : ((log.recordsInScope s f).filter s.range.covers).findSome?
      (PropertyRecord.refusal? fetch) = none := by
    rw [List.findSome?_eq_none_iff] at hrefusal ⊢
    exact fun r hr => hrefusal r (List.mem_filter.1 hr).1
  have hsorted : (log.recordsInScope s f).Pairwise fun a b => a.timestamp ≤ b.timestamp := by
    rw [recordsInScope, HistoryScope.admitted_guarded]
    exact (log.pairwise_recordsOf f).filter _
  have hloaded : ((log.recordsInScope s f).map (PropertyRecord.loaded fetch)).Pairwise
      fun a b => a.timestamp ≤ b.timestamp := by
    refine List.pairwise_map.2 (hsorted.imp fun {a b} hle => ?_)
    rwa [PropertyRecord.timestamp_loaded, PropertyRecord.timestamp_loaded]
  refine ⟨_, by rw [history_eq_recordsInScope, hkept], ?_⟩
  obtain ⟨hvalues, hinOrder, hmore⟩ := isWindow_filter hloaded s.range
  refine ⟨hvalues, hinOrder, fun i => ?_⟩
  obtain ⟨more, rest, hcut, hrest, hlate⟩ := hmore i
  exact ⟨more, rest, hcut, hrest, fun e he => ⟨(hlate e he).1, (hlate e he).2.of_loaded⟩⟩

/-- A title that is set, deleted and set again twice, and a note that is set and deleted. -/
def rewrittenTitle : Log :=
  let title : PropertyIdentity := ⟨"title", "k", .empty⟩
  let note : PropertyIdentity := ⟨"note", "k", .empty⟩
  Log.empty.extend [
    .property ⟨1, title, .setValue (.int 1) OrderedMap.empty⟩,
    .property ⟨2, note, .setValue (.int 2) OrderedMap.empty⟩,
    .property ⟨3, title, .softDelete⟩,
    .property ⟨4, title, .setValue (.int 4) OrderedMap.empty⟩,
    .property ⟨5, note, .softDelete⟩,
    .property ⟨6, title, .softDelete⟩,
    .property ⟨9, title, .setValue (.int 9) OrderedMap.empty⟩]

/-- From 3 to 7 the title is deleted in the end, as it is set again only at 9, and the deleted note
has lost its value, which is older; the deletion at 3 shows in neither history. -/
theorem history_window_rewrittenTitle :
    let title : PropertyIdentity := ⟨"title", "k", .empty⟩
    let note : PropertyIdentity := ⟨"note", "k", .empty⟩
    let s : HistoryScope := ⟨⟨some 3, some 7⟩, .all, ""⟩
    let entry (i : PropertyIdentity) (v : Option PropValue) (ts : Timestamp) (isDeleted : Bool) :
      HistoryEntry := ⟨i, v, OrderedMap.empty, ts, isDeleted⟩
    let full := [entry title (some (.int 9)) 9 false, entry note (some (.int 2)) 5 true,
      entry title (some (.int 4)) 4 false, entry note (some (.int 2)) 2 false,
      entry title (some (.int 1)) 1 false]
    let cut := [entry title (some (.int 4)) 6 true, entry note none 5 true,
      entry title (some (.int 4)) 4 false]
    rewrittenTitle.history { s with range := .all } .any Load.nothing = .ok full
      ∧ rewrittenTitle.history s .any Load.nothing = .ok cut
      ∧ IsWindow s.range (rewrittenTitle.recordsInScope s .any) full cut := by
  intro title note s entry full cut
  have hfull : rewrittenTitle.history { s with range := .all } .any Load.nothing = .ok full := by
    decide +kernel
  have hcut : rewrittenTitle.history s .any Load.nothing = .ok cut := by decide +kernel
  obtain ⟨cut', hcut', hwindow⟩ := history_window hfull
  obtain rfl : cut' = cut := Except.ok.inj (hcut'.symm.trans hcut)
  exact ⟨hfull, hcut, hwindow⟩

end Log

end Chronicle
