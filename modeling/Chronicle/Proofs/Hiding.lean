import Chronicle.Proofs.Deletion
import Chronicle.Proofs.Property.Toggling

/-!
# Hiding a property and taking that back

A call that hides a property, or takes that back, first looks at the property as it stands, hidden
or not, and then puts one record into the log.  A property is out of sight as long as some label
hides it, and each call is about its own label only.  So a label that did not hide the property can
hide it and give it up again, and the property reads as before, but for the time of the second call
for readers who may read the label.  Of several calls under several labels, in any order, the last
under each label counts.

* `editAfterPeek_records` : what a call answers and what it puts into the log;
* `hidesUnder_insert_iff`, `hidesUnder_toggleAll_iff` : which labels hide after one call, and after
  any;
* `hide_unhide` : the two calls one after the other.
-/

namespace Chronicle

/-- A view that reaches a moment reaches every earlier one. -/
theorem View.reaches_of_le {v : View} {a b : Timestamp} (h : a ≤ b) (hb : v.reaches b = true) :
    v.reaches a = true := by
  rw [reaches] at hb ⊢
  cases hasOf : v.asOf with
  | none => rfl
  | some e =>
    rw [hasOf, TimeRange.contains_upTo_some, decide_eq_true_iff] at hb
    rw [TimeRange.contains_upTo_some, decide_eq_true_iff]
    exact Int64.le_trans h hb

namespace Log

variable {log : Log} {v : View} {r : PropertyRecord} {i : PropertyIdentity} {label : Visibility}
  {ts : Timestamp}

/-! ## A record at the end -/

/-- No record is later than the time. -/
def EndsBy (log : Log) (ts : Timestamp) : Prop := ∀ m ∈ log.entries, m.timestamp ≤ ts

instance (log : Log) (ts : Timestamp) : Decidable (log.EndsBy ts) :=
  inferInstanceAs (Decidable (∀ _ ∈ _, _))

/-- The label hides the property: the last record that hides or unhides under it hides. -/
def HidesUnder (log : Log) (i : PropertyIdentity) (label : Visibility) : Prop :=
  NetHiding (log.recordsOf (.only i)) label

theorem mem_propertyRecords_iff : r ∈ log.propertyRecords ↔ .property r ∈ log.entries := by
  rw [propertyRecords, List.mem_filterMap]
  constructor
  · rintro ⟨m, hm, hr⟩
    cases m with
    | element e => cases hr
    | property r' =>
      cases hr
      exact hm
  · exact fun hr => ⟨.property r, hr, rfl⟩

theorem entries_insert_of_endsBy (h : log.EndsBy r.timestamp) :
    (log.insert (.property r)).entries = log.entries ++ [.property r] := by
  rw [entries_insert, place_of_forall_le (m := .property r) h]

/-- A log that takes in a record at its end still ends by every later time. -/
theorem endsBy_insert (h : log.EndsBy r.timestamp) (hle : r.timestamp ≤ ts) :
    (log.insert (.property r)).EndsBy ts := by
  intro a ha
  rw [entries_insert, mem_place] at ha
  rcases ha with rfl | ha
  · exact hle
  · exact Int64.le_trans (h a ha) hle

/-- A record at the end is the last of its property. -/
theorem recordsOf_insert_of_endsBy (h : log.EndsBy r.timestamp) :
    (log.insert (.property r)).recordsOf (.only r.identity)
      = log.recordsOf (.only r.identity) ++ [r] := by
  rw [recordsOf, propertyRecords, entries_insert_of_endsBy h, List.filterMap_append,
    List.filter_append]
  refine congrArg _ (List.filter_cons_of_pos ?_)
  exact PropertyFilter.admits_only.2 rfl

/-- A moment that the record is not later than comes after the record. -/
theorem reached_insert_of_endsBy (h : log.EndsBy r.timestamp) (v : View) :
    (log.insert (.property r)).reached v.asOf (.only r.identity)
      = log.reached v.asOf (.only r.identity) ++ if v.reaches r.timestamp then [r] else [] := by
  rw [reached_eq_filter_recordsOf, recordsOf_insert_of_endsBy h, List.filter_append,
    ← reached_eq_filter_recordsOf]
  refine congrArg _ ?_
  rw [List.filter_cons, List.filter_nil]
  rfl

theorem EndsBy.timestamp_le {f : PropertyFilter} (h : log.EndsBy ts) (hr : r ∈ log.recordsOf f) :
    r.timestamp ≤ ts :=
  h (.property r) (mem_propertyRecords_iff.1 (List.mem_filter.1 hr).1)

/-- A moment after the end of the log is a moment after all of its records. -/
theorem reached_of_endsBy (h : log.EndsBy ts) (hv : v.reaches ts = true) (f : PropertyFilter) :
    log.reached v.asOf f = log.recordsOf f := by
  rw [reached_eq_filter_recordsOf, List.filter_eq_self]
  intro r hr
  exact View.reaches_of_le (h.timestamp_le hr) hv

/-- One record at the end is about its own label only. -/
theorem hidesUnder_insert_iff (h : log.EndsBy r.timestamp) (label : Visibility) :
    (log.insert (.property r)).HidesUnder r.identity label
      ↔ r.edit = .hide label ∨ (r.edit ≠ .unhide label ∧ log.HidesUnder r.identity label) := by
  rw [HidesUnder, recordsOf_insert_of_endsBy h, netHiding_append_singleton]
  rfl

/-- While a label hides the property, whoever does not ask for what is hidden reads nothing. -/
theorem property_of_hidesUnder (h : log.HidesUnder i label) (hhints : v.hints.includeHidden = false)
    (hnow : v.asOf = none) (fetch : Load) : log.property v i fetch = .ok none := by
  rw [property_eq_none_iff]
  intro hpresents
  rcases hpresents.unhidden with hhidden | hnone
  · rw [hhints] at hhidden
    cases hhidden
  · rw [hnow, reached_none] at hnone
    exact hnone label h

/-- Hiding and unhiding store no value. -/
theorem storesInline_insert (h : log.StoresInline) (hr : r.edit.isToggle = true) :
    (log.insert (.property r)).StoresInline := by
  intro a ha value m he
  rw [mem_propertyRecords_iff, entries_insert, mem_place] at ha
  rcases ha with heq | ha
  · cases heq
    rw [he] at hr
    cases hr
  · exact h a (mem_propertyRecords_iff.2 ha) value m he

/-! ## What is shown of the property -/

/-- Between hiding and unhiding nobody is shown the property without asking for what is hidden. -/
theorem shown?_insert_hide (h : log.EndsBy ts) (hhints : v.hints.includeHidden = false)
    (hv : v.reaches ts = true) (i : PropertyIdentity) (label : Visibility) :
    (log.insert (.property ⟨ts, i, .hide label⟩)).shown? v i = none := by
  rw [shown?, reached_insert_of_endsBy (r := ⟨ts, i, .hide label⟩) h, if_pos hv,
    Property.fold_hide hhints, ite_self]

/-- After unhiding the property is shown as before, if the label did not hide it. -/
theorem shown?_insert_hide_unhide {t₁ t₂ : Timestamp} (h : log.EndsBy t₁) (hle : t₁ ≤ t₂)
    (hnot : ¬log.HidesUnder i label) (hv : v.reaches t₂ = true) :
    ((log.insert (.property ⟨t₁, i, .hide label⟩)).insert
        (.property ⟨t₂, i, .unhide label⟩)).shown? v i
      = (log.shown? v i).map (Property.restamped v.reader label t₂) := by
  have hend : (log.insert (.property ⟨t₁, i, .hide label⟩)).EndsBy t₂ :=
    endsBy_insert (r := ⟨t₁, i, .hide label⟩) h hle
  have hv₁ := View.reaches_of_le hle hv
  rw [shown?, reached_insert_of_endsBy (r := ⟨t₂, i, .unhide label⟩) hend, if_pos hv,
    reached_insert_of_endsBy (r := ⟨t₁, i, .hide label⟩) h, if_pos hv₁, reached_of_endsBy h hv₁,
    shown?, reached_of_endsBy h hv₁]
  split
  · exact Property.fold_hide_unhide
      (fun r hr => PropertyFilter.admits_only.1 (List.mem_filter.1 hr).2) hnot
      (fun r hr => h.timestamp_le hr) hle v.hints v.reader
  · rfl

/-- A moment before the record shows what it showed. -/
theorem shown?_insert_of_not_reaches (h : log.EndsBy r.timestamp)
    (hv : v.reaches r.timestamp = false) :
    (log.insert (.property r)).shown? v r.identity = log.shown? v r.identity := by
  rw [shown?, reached_insert_of_endsBy h, hv, if_neg Bool.false_ne_true, List.append_nil, shown?]

end Log

/-! ## Calls -/

/-- A call that hides a property under a label, or takes that back. -/
structure Toggle where
  hides : Bool
  label : Visibility
  timestamp : Timestamp
  reader : Reader

namespace Toggle

/-- What the call records. -/
def record (t : Toggle) (i : PropertyIdentity) : PropertyRecord :=
  ⟨t.timestamp, i, if t.hides then .hide t.label else .unhide t.label⟩

/-- The last call under the label. -/
def lastUnder? (label : Visibility) (toggles : List Toggle) : Option Toggle :=
  toggles.findRev? fun t => t.label == label

/-- The calls come in the order of their times, and none before the end of the log. -/
def Continue (log : Log) (toggles : List Toggle) : Prop :=
  (∀ t ∈ toggles, log.EndsBy t.timestamp)
    ∧ toggles.Pairwise fun a b => a.timestamp ≤ b.timestamp

instance (log : Log) (toggles : List Toggle) : Decidable (Continue log toggles) :=
  inferInstanceAs (Decidable (_ ∧ _))

end Toggle

namespace Session

variable {s : Session} {i : PropertyIdentity} {label : Visibility}

/-- The label hides the property. -/
def HidesUnder (s : Session) (i : PropertyIdentity) (label : Visibility) : Prop :=
  s.element.log.HidesUnder i label

/-- Hides the property, or takes that back. -/
def toggle (s : Session) (i : PropertyIdentity) (t : Toggle) :
    Except Error (Option Property) × Session :=
  if t.hides then s.hideProperty i t.label (some t.timestamp) t.reader
  else s.unhideProperty i t.label (some t.timestamp) t.reader

/-- Takes the calls one after the other. -/
def toggleAll (s : Session) (i : PropertyIdentity) (toggles : List Toggle) : Session :=
  toggles.foldl (fun s t => (s.toggle i t).2) s

/-- The call does not fail, gives the property as it stands, hidden or not, and puts the record at
the end of the log. -/
structure Records (s : Session) (r : PropertyRecord) (reader : Reader)
    (call : Except Error (Option Property) × Session) : Prop where
  succeeds : ∃ before, call.1 = .ok before
  answer : call.1 = (s.property ⟨.allIncludingHidden, none, reader⟩ r.identity).1
  entries : call.2.element.log.entries = s.element.log.entries ++ [.property r]
  id : call.2.element.id = s.element.id
  kind : call.2.element.kind = s.element.kind

theorem property_fst (s : Session) (v : View) (i : PropertyIdentity) :
    (s.property v i).1 = s.element.log.property v i s.engine.loader.load := rfl

/-- Without references a read of one property gives what is shown of it. -/
theorem property_of_storesInline (h : s.element.log.StoresInline) (v : View)
    (i : PropertyIdentity) : (s.property v i).1 = .ok (s.element.log.shown? v i) := by
  rw [property_fst, Log.property, Log.resolved_of_storesInline h, Log.properties_only_eq_toList]
  cases s.element.log.shown? v i <;> rfl

/-- A call gives what is shown of the property, hidden or not, with its value as stored. -/
theorem editAfterPeek_fst (s : Session) (i : PropertyIdentity) (e : PropertyEdit)
    (ts : Option Timestamp) (reader : Reader) :
    (s.editAfterPeek i e ts reader).1
      = .ok (s.element.log.shown? ⟨.allIncludingHidden, none, reader⟩ i) := by
  rw [editAfterPeek, peek, Log.firstStored_eq, Log.properties_only_eq_toList, Option.head?_toList]

/-- A call has its record put into the log. -/
theorem editAfterPeek_element (s : Session) (i : PropertyIdentity) (e : PropertyEdit)
    (ts : Timestamp) (reader : Reader) :
    (s.editAfterPeek i e (some ts) reader).2.element
      = { s.element with log := s.element.log.insert (.property ⟨ts, i, e⟩) } := by
  obtain ⟨before, s', heq, htakes⟩ := s.editAfterPeek_spec i e (some ts) reader
  rw [heq]
  exact htakes.element

theorem log_hideProperty (s : Session) (i : PropertyIdentity) (label : Visibility)
    (ts : Timestamp) (reader : Reader) :
    (s.hideProperty i label (some ts) reader).2.element.log
      = s.element.log.insert (.property ⟨ts, i, .hide label⟩) := by
  rw [hideProperty, editAfterPeek_element]

theorem log_unhideProperty (s : Session) (i : PropertyIdentity) (label : Visibility)
    (ts : Timestamp) (reader : Reader) :
    (s.unhideProperty i label (some ts) reader).2.element.log
      = s.element.log.insert (.property ⟨ts, i, .unhide label⟩) := by
  rw [unhideProperty, editAfterPeek_element]

theorem editAfterPeek_records (hinline : s.element.log.StoresInline) {ts : Timestamp}
    (hend : s.element.log.EndsBy ts) (i : PropertyIdentity) (e : PropertyEdit) (reader : Reader) :
    s.Records ⟨ts, i, e⟩ reader (s.editAfterPeek i e (some ts) reader) where
  succeeds := ⟨_, s.editAfterPeek_fst i e (some ts) reader⟩
  answer := by rw [editAfterPeek_fst, property_of_storesInline hinline]
  entries := by
    rw [editAfterPeek_element]
    exact Log.entries_insert_of_endsBy (r := ⟨ts, i, e⟩) hend
  id := by rw [editAfterPeek_element]
  kind := by rw [editAfterPeek_element]

/-! ## Several calls -/

theorem toggle_element (s : Session) (i : PropertyIdentity) (t : Toggle) :
    (s.toggle i t).2.element
      = { s.element with log := s.element.log.insert (.property (t.record i)) } := by
  rw [toggle, Toggle.record]
  cases t.hides <;> exact s.editAfterPeek_element i _ t.timestamp t.reader

/-- After one call its own label hides the property or does not, and any other does if it did. -/
theorem hidesUnder_toggle_iff {t : Toggle} (hend : s.element.log.EndsBy t.timestamp)
    (i : PropertyIdentity) (label : Visibility) :
    (s.toggle i t).2.HidesUnder i label
      ↔ if t.label = label then t.hides = true else s.HidesUnder i label := by
  rw [HidesUnder, toggle_element]
  refine (Log.hidesUnder_insert_iff (r := t.record i) hend label).trans ?_
  rw [Toggle.record]
  by_cases hlabel : t.label = label
  · cases t.hides <;> simp [hlabel]
  · cases t.hides <;> simp [hlabel, HidesUnder]

/-- The calls that come after one come after its record. -/
theorem continue_toggle {t : Toggle} {rest : List Toggle}
    (h : Toggle.Continue s.element.log (t :: rest)) (i : PropertyIdentity) :
    Toggle.Continue (s.toggle i t).2.element.log rest := by
  obtain ⟨hend, hsorted⟩ := h
  obtain ⟨hlater, hsorted⟩ := List.pairwise_cons.1 hsorted
  refine ⟨fun a ha => ?_, hsorted⟩
  rw [toggle_element]
  exact Log.endsBy_insert (r := t.record i) (hend t List.mem_cons_self) (hlater a ha)

/-- After several calls the last one under a label says whether the label hides the property. -/
theorem hidesUnder_toggleAll_iff {toggles : List Toggle}
    (h : Toggle.Continue s.element.log toggles) (i : PropertyIdentity) (label : Visibility) :
    (s.toggleAll i toggles).HidesUnder i label
      ↔ match Toggle.lastUnder? label toggles with
        | some t => t.hides = true
        | none => s.HidesUnder i label := by
  induction toggles generalizing s with
  | nil => exact Iff.rfl
  | cons t rest ih =>
    refine (ih (continue_toggle h i)).trans ?_
    rw [hidesUnder_toggle_iff (h.1 t List.mem_cons_self)]
    rw [Toggle.lastUnder?, Toggle.lastUnder?, List.findRev?]
    cases rest.findRev? fun t => t.label == label with
    | some last => rfl
    | none => by_cases hlabel : t.label = label <;> simp [hlabel]

/-! ## Hiding and taking that back -/

/-- The property as it stood is back after it was hidden at `t₁` and unhidden at `t₂`. -/
structure IsBack (s hidden shown : Session) (i : PropertyIdentity) (label : Visibility)
    (t₁ t₂ : Timestamp) : Prop where
  /-- In between nobody reads it without asking for what is hidden. -/
  absent (v : View) : v.hints.includeHidden = false → v.reaches t₁ = true →
    (hidden.property v i).1 = .ok none
  /-- Every earlier moment reads as it did. -/
  earlier (v : View) : (v.reaches t₁ = false → (hidden.property v i).1 = (s.property v i).1)
    ∧ (v.reaches t₂ = false → (shown.property v i).1 = (hidden.property v i).1)
  released : ¬shown.HidesUnder i label
  back (v : View) : ¬s.HidesUnder i label → v.reaches t₂ = true →
    (shown.property v i).1 = (s.property v i).1.map (·.map (Property.restamped v.reader label t₂))
  others (other : Visibility) : other ≠ label →
    (hidden.HidesUnder i other ↔ s.HidesUnder i other)
      ∧ (shown.HidesUnder i other ↔ s.HidesUnder i other)

/-- Two logs, one with one record more and the other with two, are enough for the property to be
back. -/
theorem isBack_of_log {hidden shown : Session} {t₁ t₂ : Timestamp}
    (hinline : s.element.log.StoresInline) (hend : s.element.log.EndsBy t₁) (hle : t₁ ≤ t₂)
    (hhidden : hidden.element.log = s.element.log.insert (.property ⟨t₁, i, .hide label⟩))
    (hshown : shown.element.log = hidden.element.log.insert (.property ⟨t₂, i, .unhide label⟩)) :
    IsBack s hidden shown i label t₁ t₂ := by
  have hinline₁ : hidden.element.log.StoresInline := by
    rw [hhidden]
    exact Log.storesInline_insert hinline rfl
  have hinline₂ : shown.element.log.StoresInline := by
    rw [hshown]
    exact Log.storesInline_insert hinline₁ rfl
  have hend₁ : hidden.element.log.EndsBy t₂ := by
    rw [hhidden]
    exact Log.endsBy_insert (r := ⟨t₁, i, .hide label⟩) hend hle
  have hside₁ : ∀ other, hidden.HidesUnder i other
      ↔ PropertyEdit.hide label = .hide other ∨ s.HidesUnder i other := by
    intro other
    rw [HidesUnder, hhidden,
      Log.hidesUnder_insert_iff (r := ⟨t₁, i, .hide label⟩) hend, HidesUnder]
    simp
  have hside₂ : ∀ other, shown.HidesUnder i other
      ↔ PropertyEdit.unhide label ≠ .unhide other ∧ hidden.HidesUnder i other := by
    intro other
    rw [HidesUnder, hshown,
      Log.hidesUnder_insert_iff (r := ⟨t₂, i, .unhide label⟩) hend₁, HidesUnder]
    simp
  refine ⟨fun v hhints hv => ?_, fun v => ⟨fun hv => ?_, fun hv => ?_⟩, ?_, fun v hnot hv => ?_,
    fun other hother => ⟨?_, ?_⟩⟩
  · rw [property_of_storesInline hinline₁, hhidden, Log.shown?_insert_hide hend hhints hv]
  · rw [property_of_storesInline hinline₁, property_of_storesInline hinline, hhidden,
      Log.shown?_insert_of_not_reaches (r := ⟨t₁, i, .hide label⟩) hend hv]
  · rw [property_of_storesInline hinline₂, property_of_storesInline hinline₁, hshown,
      Log.shown?_insert_of_not_reaches (r := ⟨t₂, i, .unhide label⟩) hend₁ hv]
  · simp [hside₂]
  · rw [property_of_storesInline hinline₂, property_of_storesInline hinline, hshown, hhidden,
      Log.shown?_insert_hide_unhide hend hle hnot hv]
    rfl
  · simp [hside₁, Ne.symm hother]
  · simp [hside₂, hside₁, Ne.symm hother]

/-- **Hiding and unhiding undo each other, and every label is on its own.**  Let values be stored
inline, and let a property be hidden under a label, and unhidden at the same time or later, neither
before the end of the log.  Both calls succeed, give the property as it stands, hidden or not, and
add one record.  In between nobody reads the property who does not ask for what is hidden.
Afterwards the label does not hide it, and if it did not before, every reader reads what they read
before, but for the time if they may read the label.  Other labels hide it if they did before; and
after any such calls, in any order, those hide it under which the last call hides, or under which
there was none and which hid it before. -/
theorem hide_unhide (s : Session) (i : PropertyIdentity) (label : Visibility) (reader : Reader)
    {t₁ t₂ : Timestamp} (hinline : s.element.log.StoresInline) (hend : s.element.log.EndsBy t₁)
    (hle : t₁ ≤ t₂) :
    let hide := s.hideProperty i label (some t₁) reader
    let unhide := hide.2.unhideProperty i label (some t₂) reader
    s.Records ⟨t₁, i, .hide label⟩ reader hide
      ∧ hide.2.Records ⟨t₂, i, .unhide label⟩ reader unhide
      ∧ IsBack s hide.2 unhide.2 i label t₁ t₂
      ∧ ∀ toggles, Toggle.Continue s.element.log toggles → ∀ l,
        ((s.toggleAll i toggles).HidesUnder i l
            ↔ match Toggle.lastUnder? l toggles with
              | some t => t.hides = true
              | none => s.HidesUnder i l)
          ∧ ((s.toggleAll i toggles).HidesUnder i l → ∀ v : View, v.hints.includeHidden = false →
            v.asOf = none → ((s.toggleAll i toggles).property v i).1 = .ok none) := by
  intro hide unhide
  have hhide : hide = s.hideProperty i label (some t₁) reader := rfl
  have hunhide : unhide = hide.2.unhideProperty i label (some t₂) reader := rfl
  clear_value unhide hide
  have hhidden : hide.2.element.log = s.element.log.insert (.property ⟨t₁, i, .hide label⟩) := by
    rw [hhide, log_hideProperty]
  have hshown : unhide.2.element.log
      = hide.2.element.log.insert (.property ⟨t₂, i, .unhide label⟩) := by
    rw [hunhide, log_unhideProperty]
  have hinline₁ : hide.2.element.log.StoresInline := by
    rw [hhidden]
    exact Log.storesInline_insert hinline rfl
  have hend₁ : hide.2.element.log.EndsBy t₂ := by
    rw [hhidden]
    exact Log.endsBy_insert (r := ⟨t₁, i, .hide label⟩) hend hle
  refine ⟨?_, ?_, isBack_of_log hinline hend hle hhidden hshown, fun toggles hcontinue l =>
    ⟨hidesUnder_toggleAll_iff hcontinue i l, fun hhides v hhints hnow => ?_⟩⟩
  · rw [hhide]
    exact editAfterPeek_records hinline hend i (.hide label) reader
  · rw [hunhide]
    exact editAfterPeek_records hinline₁ hend₁ i (.unhide label) reader
  · rw [property_fst]
    exact Log.property_of_hidesUnder hhides hhints hnow _

/-- A recipe that was hidden from the guests and shown to them again. -/
def kitchen : Session where
  engine := ⟨.manual (.still 0), .nothing, none, "", 0⟩
  element := {
    id := ⟨"cookbook", by decide⟩
    kind := .vertex
    log := Log.empty.extend [
      .property ⟨1, ⟨"recipe", "k", .empty⟩, .setValue (.int 7) OrderedMap.empty⟩,
      .property ⟨2, ⟨"recipe", "k", .empty⟩, .hide ⟨"guests"⟩⟩,
      .property ⟨3, ⟨"recipe", "k", .empty⟩, .unhide ⟨"guests"⟩⟩] }

/-- The recipe is hidden from the press at 5 and shown again at 8.  The reader of every label sees
that in its time, the reader of none does not.  If the cooks hide it in between, it is still out of
sight at the end. -/
theorem hide_unhide_kitchen :
    let i : PropertyIdentity := ⟨"recipe", "k", .empty⟩
    let press : Visibility := ⟨"press"⟩
    let recipe (ts : Timestamp) : Property := ⟨i, .int 7, OrderedMap.empty, ts, OrderedMap.empty⟩
    let outsider : Reader := ⟨fun _ => false⟩
    let hide := kitchen.hideProperty i press (some 5) .all
    let unhide := hide.2.unhideProperty i press (some 8) .all
    let toggles : List Toggle := [⟨true, press, 5, .all⟩, ⟨true, ⟨"cooks"⟩, 6, .all⟩,
      ⟨false, press, 8, .all⟩]
    hide.1 = .ok (some (recipe 3))
      ∧ (hide.2.property ⟨.all, none, .all⟩ i).1 = .ok none
      ∧ (unhide.2.property ⟨.all, none, .all⟩ i).1 = .ok (some (recipe 8))
      ∧ (unhide.2.property ⟨.all, none, outsider⟩ i).1 = .ok (some (recipe 1))
      ∧ ((kitchen.toggleAll i toggles).property ⟨.all, none, .all⟩ i).1 = .ok none := by
  intro i press recipe outsider hide unhide toggles
  have hinline : kitchen.element.log.StoresInline := by
    have hall : ∀ r ∈ kitchen.element.log.propertyRecords,
        r.edit.value?.all (fun v => v.reference?.isNone) = true := by decide
    intro r hr v m he
    have hv := hall r hr
    rw [he] at hv
    exact Option.isNone_iff_eq_none.1 hv
  have hnot : ¬kitchen.HidesUnder i press :=
    mt ((Fold.summarizes_run .all _).hiders press).2 (by decide)
  have hend : kitchen.element.log.EndsBy 5 := by decide
  have hle : (5 : Timestamp) ≤ 8 := by decide
  obtain ⟨hhide, -, hback, htoggles⟩ := kitchen.hide_unhide i press .all hinline hend hle
  have hcooks := htoggles toggles (by decide) ⟨"cooks"⟩
  refine ⟨?_, hback.absent _ rfl (by decide), ?_, ?_, hcooks.2 (hcooks.1.2 (by rfl)) _ rfl rfl⟩
  · rw [hhide.answer]
    decide
  · rw [hback.back _ hnot (by decide)]
    decide
  · rw [hback.back _ hnot (by decide)]
    decide

end Session

end Chronicle
