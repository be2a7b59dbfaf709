import Mathlib.Data.List.Perm.Subperm
import Chronicle.Proofs.Log.Presence
import Chronicle.Proofs.Property.Newest

/-!
# Hiding that the reader may not read of

Whoever hides a property hides it from everyone, also from readers who may not read the label that
it is hidden under.  These readers lose the property and nothing else: neither its value nor its
metadata, its time, the labels that they are told or the moment as of which a reference is loaded
tells that such a record is there.  So the log is compared with what is left when all hiding and
unhiding is dropped that the reader may not read.

* `netHiding_noticed` : what hides the property in what is left;
* `Property.fold_noticed` : a property that comes out of all records comes out the same of those
  that are left;
* `presents_iff_left` : what the dropped records withhold;
* `reads_conceal` : the reads of properties on both logs.
-/

namespace Chronicle

attribute [ext] Property

/-! ## Records -/

/-- Whether the record hides or unhides a property under a label that the reader may not read. -/
def Mutation.isUnreadableToggle (reader : Reader) : Mutation → Bool
  | .property r => r.edit.isToggle && !reader.canRead r.visibility
  | .element _ => false

/-- The log without the hiding and unhiding of properties that the reader may not read. -/
def Log.withoutUnreadableToggles (log : Log) (reader : Reader) : Log :=
  log.keep fun m => !m.isUnreadableToggle reader

/-- The records that are left when the hiding and unhiding is dropped that the reader may not
read. -/
def noticed (reader : Reader) (records : List PropertyRecord) : List PropertyRecord :=
  records.filter (Fold.countsForTime reader)

variable {reader : Reader} {records : List PropertyRecord} {label : Visibility}

/-- What hides or unhides under a label has that label in force. -/
theorem PropertyRecord.isToggle_of_toggles {r : PropertyRecord}
    (h : r.edit.toggles label = true) : r.edit.isToggle = true ∧ r.visibility = label := by
  rw [visibility]
  cases he : r.edit with
  | hide l =>
    rw [he] at h
    exact ⟨rfl, eq_of_beq h⟩
  | unhide l =>
    rw [he] at h
    exact ⟨rfl, eq_of_beq h⟩
  | _ =>
    rw [he] at h
    cases h

theorem settled_noticed (reader : Reader) (records : List PropertyRecord) :
    settled (noticed reader records) = settled records := by
  rw [settled, settled, noticed, List.filter_filter]
  refine List.filter_congr fun r _ => ?_
  -- what settles neither hides nor unhides, so it is left
  cases hset : r.edit.settles with
  | false => rfl
  | true =>
    rw [Fold.countsForTime, PropertyEdit.not_toggle_of_settles hset]
    rfl

theorem endsOnValue_noticed : EndsOnValue (noticed reader records) ↔ EndsOnValue records := by
  rw [endsOnValue_iff, endsOnValue_iff, settled_noticed]

theorem standing_noticed (reader : Reader) (records : List PropertyRecord) :
    valueOf (noticed reader records) = valueOf records
      ∧ metadataOf (noticed reader records) = metadataOf records := by
  refine standing_filter fun r _ hdrop => ?_
  rw [Fold.countsForTime] at hdrop
  cases htog : r.edit.isToggle with
  | true => rfl
  | false =>
    rw [htog] at hdrop
    cases hdrop

theorem countedTimes_noticed (reader : Reader) (records : List PropertyRecord) :
    Fold.countedTimes reader (noticed reader records) = Fold.countedTimes reader records := by
  ext ts
  constructor
  · rintro ⟨r, hr, hcount, hts⟩
    exact ⟨r, (List.mem_filter.1 hr).1, hcount, hts⟩
  · rintro ⟨r, hr, hcount, hts⟩
    exact ⟨r, List.mem_filter.2 ⟨hr, (Fold.countsForTime_iff reader r).2 hcount⟩, hcount, hts⟩

/-- In what is left the property is hidden by the labels that hid it before and that the reader may
read. -/
theorem netHiding_noticed :
    NetHiding (noticed reader records) label
      ↔ NetHiding records label ∧ reader.canRead label = true := by
  -- of the records under one label either all are left or none
  have htoggles : (noticed reader records).filter (fun r => r.edit.toggles label)
      = (records.filter fun r => r.edit.toggles label).filter fun _ => reader.canRead label := by
    rw [noticed, List.filter_filter, List.filter_filter]
    refine List.filter_congr fun r _ => ?_
    cases htog : r.edit.toggles label with
    | false => simp
    | true =>
      obtain ⟨htoggle, hvis⟩ := PropertyRecord.isToggle_of_toggles htog
      rw [Fold.countsForTime, htoggle, hvis]
      simp
  rw [netHiding_iff, netHiding_iff, htoggles]
  cases reader.canRead label with
  | false => simp
  | true => simp

/-! ## One property -/

namespace Property

variable {hints : FetchHints} {p q : Property}

/-- If a property comes out of all records and of those that are left, it is the same. -/
theorem eq_of_fold_noticed {i : PropertyIdentity} (hi : ∀ r ∈ records, r.identity = i)
    (hp : Property.fold hints reader records = some p)
    (hq : Property.fold hints reader (noticed reader records) = some q) : p = q := by
  have hi' : ∀ r ∈ noticed reader records, r.identity = i := fun r hr =>
    hi r (List.mem_filter.1 hr).1
  obtain ⟨hvalue, hmetadata⟩ := standing_noticed reader records
  apply Property.ext
  · rw [identity_of_fold hi hp, identity_of_fold hi' hq]
  · exact Option.some.inj ((value_fold hp).symm.trans (hvalue.symm.trans (value_fold hq)))
  · rw [metadata_fold hp, metadata_fold hq, hmetadata]
  · -- both are the latest of the same times
    have hgreatest := timestamp_fold hp
    have hgreatest' := timestamp_fold hq
    rw [countedTimes_noticed] at hgreatest'
    exact Int64.le_antisymm (hgreatest'.2 hgreatest.1) (hgreatest.2 hgreatest'.1)
  · refine OrderedMap.ext_keys fun label => ?_
    rw [mem_hiddenUnder_fold hp, mem_hiddenUnder_fold hq, netHiding_noticed, and_assoc, and_self]

/-- A property that comes out of all records comes out the same of those that are left. -/
theorem fold_noticed {i : PropertyIdentity} (hi : ∀ r ∈ records, r.identity = i)
    (hp : Property.fold hints reader records = some p) :
    Property.fold hints reader (noticed reader records) = some p := by
  obtain ⟨hends, hshown⟩ := (isSome_fold_iff hints reader records).1 (by rw [hp]; rfl)
  have hsome : (Property.fold hints reader (noticed reader records)).isSome = true := by
    refine (isSome_fold_iff hints reader _).2 ⟨endsOnValue_noticed.2 hends, ?_⟩
    refine hshown.imp_right fun hfree label hnet => hfree label (netHiding_noticed.1 hnet).1
  obtain ⟨q, hq⟩ := Option.isSome_iff_exists.1 hsome
  rw [hq, eq_of_fold_noticed hi hp hq]

end Property

/-! ## Logs -/

namespace Log

variable {log : Log} {v : View} {f : PropertyFilter} {i : PropertyIdentity} {p : Property}

theorem reached_withoutUnreadableToggles (log : Log) (reader : Reader) (asOf : Option Timestamp)
    (f : PropertyFilter) :
    (log.withoutUnreadableToggles reader).reached asOf f = noticed reader (log.reached asOf f) := by
  rw [withoutUnreadableToggles, reached, propertyRecords_keep, noticed, reached, List.filter_filter,
    List.filter_filter]
  refine List.filter_congr fun r _ => ?_
  rw [Mutation.isUnreadableToggle, Bool.not_and, Bool.not_not, Bool.and_comm]
  rfl

/-- A property is shown on the log if it is shown on what is left and no label hides it that the
reader may not read. -/
theorem presents_iff_left :
    log.Presents v i ↔ (log.withoutUnreadableToggles v.reader).Presents v i
      ∧ (v.hints.includeHidden = true
        ∨ ∀ label, NetHiding (log.reached v.asOf (.only i)) label →
            v.reader.canRead label = true) := by
  have hreached := log.reached_withoutUnreadableToggles v.reader v.asOf (.only i)
  constructor
  · rintro ⟨hread, hends, hshown⟩
    refine ⟨⟨hread, ?_, ?_⟩, ?_⟩
    · rw [hreached]
      exact endsOnValue_noticed.2 hends
    · rw [hreached]
      exact hshown.imp_right fun hfree label hnet => hfree label (netHiding_noticed.1 hnet).1
    · exact hshown.imp_right fun hfree label hnet => absurd hnet (hfree label)
  · rintro ⟨⟨hread, hends, hshown⟩, hreadable⟩
    rw [hreached] at hends hshown
    refine ⟨hread, endsOnValue_noticed.1 hends, ?_⟩
    rcases hshown with hall | hfree
    · exact Or.inl hall
    · exact hreadable.imp_right fun hcan label hnet =>
        hfree label (netHiding_noticed.2 ⟨hnet, hcan label hnet⟩)

/-- What is shown on the log is shown the same on what is left. -/
theorem shown?_withoutUnreadableToggles (h : log.shown? v i = some p) :
    (log.withoutUnreadableToggles v.reader).shown? v i = some p := by
  obtain ⟨hread, hfold⟩ := fold_of_shown? h
  rw [shown?, if_pos hread, reached_withoutUnreadableToggles]
  exact Property.fold_noticed (fun r hr => identity_of_mem_reached hr) hfold

theorem mem_properties_withoutUnreadableToggles (h : p ∈ log.properties v f) :
    p ∈ (log.withoutUnreadableToggles v.reader).properties v f := by
  rw [mem_properties_iff] at h ⊢
  exact ⟨h.1, shown?_withoutUnreadableToggles h.2⟩

/-- What is listed on the log is listed, in the same order, on what is left. -/
theorem properties_sublist (log : Log) (v : View) (f : PropertyFilter) :
    (log.properties v f).Sublist ((log.withoutUnreadableToggles v.reader).properties v f) :=
  List.sublist_of_subperm_of_pairwise
    (List.subperm_of_subset (log.properties_ascending v f).nodup
      fun _ => mem_properties_withoutUnreadableToggles)
    (log.properties_ascending v f) (properties_ascending _ v f)

/-- If hidden properties are asked for, the dropped records withhold nothing. -/
theorem shown?_eq_of_includeHidden (hhidden : v.hints.includeHidden = true) (log : Log)
    (i : PropertyIdentity) :
    (log.withoutUnreadableToggles v.reader).shown? v i = log.shown? v i := by
  cases hshown : log.shown? v i with
  | some p => exact shown?_withoutUnreadableToggles hshown
  | none =>
    rw [← Option.not_isSome_iff_eq_none, isSome_shown?_iff]
    intro hbare
    have hsome := isSome_shown?_iff.2 (presents_iff_left.2 ⟨hbare, Or.inl hhidden⟩)
    rw [hshown] at hsome
    cases hsome

theorem properties_eq_of_includeHidden (hhidden : v.hints.includeHidden = true) (log : Log)
    (f : PropertyFilter) :
    (log.withoutUnreadableToggles v.reader).properties v f = log.properties v f := by
  refine (properties_ascending _ v f).eq_of_mem_iff (log.properties_ascending v f) fun p => ?_
  rw [mem_properties_iff, mem_properties_iff, shown?_eq_of_includeHidden hhidden]

/-- **Hiding that the reader may not read of withholds, and does nothing else.**  If hidden
properties are asked for, the reads of the log are those of what is left when such hiding is
dropped.  If not, what is read of the log is read the same of what is left, failures to load
included, and what is left has besides only properties that are hidden under a label that the reader
may not read; so no such record makes a property appear. -/
theorem reads_conceal (log : Log) (v : View) (fetch : Load) :
    let left := log.withoutUnreadableToggles v.reader
    (v.hints.includeHidden = true → left.resolved v .any fetch = log.resolved v .any fetch)
      ∧ (log.properties v .any).Sublist (left.properties v .any)
      ∧ (log.resolved v .any fetch).Sublist (left.resolved v .any fetch)
      ∧ (∀ i, left.property v i fetch = .ok none → log.property v i fetch = .ok none)
      ∧ ∀ i, log.Presents v i ↔ left.Presents v i
          ∧ (v.hints.includeHidden = true
            ∨ ∀ label, NetHiding (log.reached v.asOf (.only i)) label →
                v.reader.canRead label = true) := by
  intro left
  refine ⟨fun hhidden => ?_, log.properties_sublist v .any, ?_, fun i hnone => ?_,
    fun i => presents_iff_left⟩
  · rw [resolved, resolved, properties_eq_of_includeHidden hhidden]
  · exact (log.properties_sublist v .any).map _
  · rw [property_eq_none_iff] at hnone ⊢
    exact fun hthere => hnone (presents_iff_left.1 hthere).1

/-- A plan whose text is in a blob and which the board hides, and a note which the board hides and
shows again. -/
def boardMatters : Log :=
  Log.empty.extend [
    .property ⟨1, ⟨"plan", "k", .empty⟩, .setValue (.ref ⟨1, 8, 0, false⟩) OrderedMap.empty⟩,
    .property ⟨2, ⟨"note", "k", .empty⟩, .setValue (.int 2) OrderedMap.empty⟩,
    .property ⟨3, ⟨"note", "k", .empty⟩, .hide ⟨"board"⟩⟩,
    .property ⟨4, ⟨"plan", "k", .empty⟩, .hide ⟨"board"⟩⟩,
    .property ⟨5, ⟨"note", "k", .empty⟩, .unhide ⟨"board"⟩⟩]

/-- The team, who may not read of the board's hiding, does not get the plan unless they ask for
hidden properties; then it is loaded as of the time at which it was set, as if it were not
hidden. -/
theorem reads_conceal_boardMatters :
    let team : Reader := .holding (.ofLabels ["team"])
    let left := boardMatters.withoutUnreadableToggles team
    let fetch : Load := fun _ ts => if ts = 1 then .ok (.int 7) else .error .notFound
    let everything : View := ⟨.allIncludingHidden, none, team⟩
    let unhidden : View := ⟨.all, none, team⟩
    let note : Property := ⟨⟨"note", "k", .empty⟩, .int 2, OrderedMap.empty, 2, OrderedMap.empty⟩
    let plan : Property := ⟨⟨"plan", "k", .empty⟩, .int 7, OrderedMap.empty, 1, OrderedMap.empty⟩
    boardMatters.length = 5 ∧ left.length = 2 ∧ everything.hints.includeHidden = true
      ∧ left.resolved everything .any fetch = boardMatters.resolved everything .any fetch
      ∧ boardMatters.resolved everything .any fetch = [.ok note, .ok plan]
      ∧ (boardMatters.resolved unhidden .any fetch).Sublist (left.resolved unhidden .any fetch)
      ∧ boardMatters.resolved unhidden .any fetch = [.ok note]
      ∧ left.resolved unhidden .any fetch = [.ok note, .ok plan]
      ∧ ¬boardMatters.Presents unhidden plan.identity
      ∧ left.property unhidden ⟨"memo", "k", .empty⟩ fetch = .ok none
      ∧ boardMatters.property unhidden ⟨"memo", "k", .empty⟩ fetch = .ok none := by
  intro team left fetch everything unhidden note plan
  obtain ⟨heverything, -⟩ := reads_conceal boardMatters everything fetch
  obtain ⟨-, -, hsublist, hnone, -⟩ := reads_conceal boardMatters unhidden fetch
  have hplan : boardMatters.property unhidden plan.identity fetch = .ok none := by decide
  have hmemo : left.property unhidden ⟨"memo", "k", .empty⟩ fetch = .ok none := by decide
  exact ⟨by decide, by decide, rfl, heverything rfl, by decide, hsublist, by decide, by decide,
    property_eq_none_iff.1 hplan, hmemo, hnone _ hmemo⟩

end Log

end Chronicle
