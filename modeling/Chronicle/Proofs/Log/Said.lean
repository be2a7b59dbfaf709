import Chronicle.Element
import Chronicle.Proofs.Occurrence

/-!
# Reads as what a log says

Every fact of an element is the first or the last thing of some kind that its log says.  `Log.said`
lists all that a log says of a kind, and each fact is a member of such a list: the element's label
is the last label given to it, it is deleted if the last marker deletes it, and a label hides it if
the last record under that label hides.  Dropping records that say nothing of the kind leaves the
list, and hence the fact, as it is.

* `Mutation.ElementOnly` : the kinds of which no record of a property says anything;
* `said_keep` : what is said is said by the records that say it;
* `firstTimestamp_eq_said` … `isDeleted_eq_said` : the facts that are looked up;
* `facts_visibility` … `facts_conceptType`, `contains_hiders` : the facts that are scanned for.
-/

namespace Chronicle

universe u v

/-! ## First and last things -/

section Lists

variable {α : Type u} {β : Type v}

/-- The first item of which something is true, and what is true of it. -/
theorem bind_find?_isSome (f : α → Option β) (l : List α) :
    (l.find? fun a => (f a).isSome).bind f = (l.filterMap f).head? := by
  induction l with
  | nil => rfl
  | cons a l ih =>
    rw [List.find?_cons, List.filterMap_cons]
    cases h : f a with
    | none => exact ih
    | some b => exact h

/-- The last item of which something is true, and what is true of it. -/
theorem bind_findRev?_isSome (f : α → Option β) (l : List α) :
    (l.findRev? fun a => (f a).isSome).bind f = (l.filterMap f).getLast? := by
  rw [List.findRev?_eq_find?_reverse, bind_find?_isSome, List.filterMap_reverse, List.head?_reverse]

/-- The last item that satisfies `p`, and what is known of it. -/
theorem map_findRev? (p : α → Bool) (g : α → β) (l : List α) :
    (l.findRev? p).map g = (l.filterMap fun a => if p a then some (g a) else none).getLast? := by
  rw [List.findRev?_eq_find?_reverse, ← List.head?_filter, List.filter_reverse, List.head?_reverse,
    ← List.getLast?_map, ← List.filterMap_eq_map, List.filterMap_filter]
  rfl

end Lists

variable {β : Type v}

/-! ## What is said -/

namespace Mutation

/-- What the record says, if it is not later than the moment. -/
def told (asOf : Option Timestamp) (tells : Mutation → Option β) (m : Mutation) : Option β :=
  if (TimeRange.upTo asOf).contains m.timestamp then tells m else none

/-- What the record says, if the reader may read it. -/
def openTo (reader : Reader) (tells : Mutation → Option β) (m : Mutation) : Option β :=
  if reader.canRead m.visibility then tells m else none

/-- Whether a marker says that the element is deleted. -/
def deletes? (m : Mutation) : Option Bool :=
  if m.isExistenceMarker then some m.isSoftDelete else none

/-- Whether the record hides or unhides the element under the label. -/
def hiding? (label : Visibility) : Mutation → Option Bool
  | .element ⟨_, v, .hide⟩ => if label = v then some true else none
  | .element ⟨_, v, .unhide⟩ => if label = v then some false else none
  | _ => none

theorem told_none (tells : Mutation → Option β) : told none tells = tells := rfl

theorem eq_some_of_told {asOf : Option Timestamp} {tells : Mutation → Option β} {m : Mutation}
    {b : β} (h : told asOf tells m = some b) : tells m = some b := by
  unfold told at h
  split at h
  · exact h
  · cases h

theorem eq_some_of_openTo {reader : Reader} {tells : Mutation → Option β} {m : Mutation} {b : β}
    (h : openTo reader tells m = some b) :
    tells m = some b ∧ reader.canRead m.visibility = true := by
  unfold openTo at h
  split at h
  · next hread => exact ⟨h, hread⟩
  · cases h

/-- What is told of a deletion is told by the markers up to the moment that the reader may read. -/
theorem told_openTo_deletes? (asOf : Option Timestamp) (reader : Reader) (m : Mutation) :
    told asOf (openTo reader deletes?) m
      = if m.isExistenceMarker && (TimeRange.upTo asOf).contains m.timestamp
            && reader.canRead m.visibility
        then some m.isSoftDelete else none := by
  rw [told, openTo, deletes?]
  cases m.isExistenceMarker <;> cases (TimeRange.upTo asOf).contains m.timestamp <;>
    cases reader.canRead m.visibility <;> rfl

/-- Only records of the element say something of the kind. -/
def ElementOnly (tells : Mutation → Option β) : Prop := ∀ r, tells (.property r) = none

theorem ElementOnly.openTo {tells : Mutation → Option β} (h : ElementOnly tells)
    (reader : Reader) : ElementOnly (openTo reader tells) := by
  intro r
  unfold Mutation.openTo
  rw [h r]
  exact ite_self none

theorem ElementOnly.told {tells : Mutation → Option β} (h : ElementOnly tells)
    (asOf : Option Timestamp) : ElementOnly (told asOf tells) := by
  intro r
  unfold Mutation.told
  rw [h r]
  exact ite_self none

theorem elementOnly_touch? : ElementOnly touch? := fun _ => rfl

theorem elementOnly_deletes? : ElementOnly deletes? := fun _ => rfl

theorem elementOnly_relabel? : ElementOnly relabel? := fun _ => rfl

theorem elementOnly_edgeLabel? : ElementOnly edgeLabel? := fun _ => rfl

theorem elementOnly_conceptType? : ElementOnly conceptType? := fun _ => rfl

theorem elementOnly_hiding? (label : Visibility) : ElementOnly (hiding? label) := fun _ => rfl

end Mutation

namespace Log

/-- All that the records of a log say, in order. -/
def said (log : Log) (tells : Mutation → Option β) : List β := log.entries.filterMap tells

variable {p : Mutation → Bool} {tells : Mutation → Option β}

theorem said_keep_eq (log : Log) (p : Mutation → Bool) (tells : Mutation → Option β) :
    (log.keep p).said tells = log.said fun m => if p m then tells m else none :=
  List.filterMap_filter

/-- Records that say nothing can be dropped. -/
theorem said_keep (log : Log) (h : ∀ m b, tells m = some b → p m = true) :
    (log.keep p).said tells = log.said tells := by
  rw [said_keep_eq]
  refine congrArg log.said (funext fun m => ?_)
  cases hs : tells m with
  | none => exact ite_self none
  | some b => rw [if_pos (h m b hs)]

/-- Up to a moment is said what is said when all later records are dropped. -/
theorem said_told (log : Log) (ts : Timestamp) (tells : Mutation → Option β) :
    log.said (Mutation.told (some ts) tells)
      = (log.keep fun m => decide (m.timestamp ≤ ts)).said tells := by
  rw [said_keep_eq]
  refine congrArg log.said (funext fun m => ?_)
  rw [Mutation.told, TimeRange.contains_upTo_some]

/-! ## Facts that are looked up -/

theorem firstTimestamp_eq_said (log : Log) :
    log.firstTimestamp = (log.said Mutation.touch?).head? :=
  bind_find?_isSome Mutation.touch? log.entries

theorem latestTimestamp_eq_said (log : Log) :
    log.latestTimestamp = (log.said Mutation.touch?).getLast? :=
  bind_findRev?_isSome Mutation.touch? log.entries

theorem visibility_eq_said (log : Log) :
    log.visibility = (log.said Mutation.relabel?).getLast?.getD .empty :=
  congrArg (·.getD Visibility.empty) (bind_findRev?_isSome Mutation.relabel? log.entries)

theorem edgeLabel_eq_said (log : Log) :
    log.edgeLabel = (log.said Mutation.edgeLabel?).getLast? :=
  bind_findRev?_isSome Mutation.edgeLabel? log.entries

theorem conceptType_eq_said (log : Log) :
    log.conceptType = (log.said Mutation.conceptType?).getLast? :=
  bind_findRev?_isSome Mutation.conceptType? log.entries

/-- The element is deleted if the last marker that the reader may read deletes it. -/
theorem isDeleted_eq_said (log : Log) (asOf : Option Timestamp) (reader : Reader) :
    log.isDeleted asOf reader
      = (log.said (Mutation.told asOf (Mutation.openTo reader Mutation.deletes?))).getLast?.getD
          false := by
  rw [said, funext fun m => Mutation.told_openTo_deletes? asOf reader m, ← map_findRev?]
  rfl

/-! ## Facts that are scanned for -/

/-- A part of the facts that each record sets or leaves alone is what was said last. -/
theorem part_facts (part : ElementFacts → Option β) {v : View}
    (hstep : ∀ f m, part (ElementFacts.step v.reader f m) = (tells m).or (part f)) (log : Log) :
    part (log.facts v)
      = (log.said (Mutation.told v.asOf tells)).getLast?.or (part ElementFacts.start) := by
  rw [facts, snapshot, List.foldl_filter]
  refine part_foldl part (fun f m => ?_) ElementFacts.start log.entries
  rw [View.reaches, Mutation.told]
  split
  · exact hstep f m
  · rfl

theorem facts_visibility (log : Log) (v : View) :
    (log.facts v).visibility
      = (log.said (Mutation.told v.asOf Mutation.relabel?)).getLast?.getD .empty := by
  have hstep : ∀ f m, some (ElementFacts.step v.reader f m).visibility
      = (Mutation.relabel? m).or (some f.visibility) := by
    rintro f (⟨ts, label, change⟩ | r)
    · cases change <;> cases hread : v.reader.canRead label <;>
        simp [ElementFacts.step, Mutation.relabel?, hread]
    · rfl
  have hpart := part_facts (fun f => some f.visibility) hstep log
  rw [Option.or_some] at hpart
  exact Option.some.inj hpart

theorem facts_timestamp (log : Log) (v : View) :
    (log.facts v).timestamp
      = (log.said (Mutation.told v.asOf (Mutation.openTo v.reader Mutation.touch?))).getLast? := by
  have hstep : ∀ f m, (ElementFacts.step v.reader f m).timestamp
      = (Mutation.openTo v.reader Mutation.touch? m).or f.timestamp := by
    rintro f (⟨ts, label, change⟩ | r)
    · cases change <;> cases hread : v.reader.canRead label <;>
        simp [ElementFacts.step, Mutation.touch?, Mutation.openTo, Mutation.visibility, hread]
    · simp [ElementFacts.step, Mutation.touch?, Mutation.openTo]
  exact (part_facts ElementFacts.timestamp hstep log).trans Option.or_none

theorem facts_edgeLabel (log : Log) (v : View) :
    (log.facts v).edgeLabel
      = (log.said
          (Mutation.told v.asOf (Mutation.openTo v.reader Mutation.edgeLabel?))).getLast? := by
  have hstep : ∀ f m, (ElementFacts.step v.reader f m).edgeLabel
      = (Mutation.openTo v.reader Mutation.edgeLabel? m).or f.edgeLabel := by
    rintro f (⟨ts, label, change⟩ | r)
    · cases change <;> cases hread : v.reader.canRead label <;>
        simp [ElementFacts.step, Mutation.edgeLabel?, Mutation.openTo, Mutation.visibility, hread]
    · simp [ElementFacts.step, Mutation.edgeLabel?, Mutation.openTo]
  exact (part_facts ElementFacts.edgeLabel hstep log).trans Option.or_none

theorem facts_conceptType (log : Log) (v : View) :
    (log.facts v).conceptType
      = (log.said
          (Mutation.told v.asOf (Mutation.openTo v.reader Mutation.conceptType?))).getLast? := by
  have hstep : ∀ f m, (ElementFacts.step v.reader f m).conceptType
      = (Mutation.openTo v.reader Mutation.conceptType? m).or f.conceptType := by
    rintro f (⟨ts, label, change⟩ | r)
    · cases change <;> cases hread : v.reader.canRead label <;>
        simp [ElementFacts.step, Mutation.conceptType?, Mutation.openTo, Mutation.visibility, hread]
    · simp [ElementFacts.step, Mutation.conceptType?, Mutation.openTo]
  exact (part_facts ElementFacts.conceptType hstep log).trans Option.or_none

/-- A label hides the element if the last record that hides or unhides under it hides. -/
theorem contains_hiders (log : Log) (label : Visibility) :
    log.hiders.contains label = (log.said (Mutation.hiding? label)).getLast?.getD false := by
  have hstep : ∀ (s : LabelSet) m, some (OrderedMap.contains (Mutation.toggle s m) label)
      = (Mutation.hiding? label m).or (some (s.contains label)) := by
    rintro s (⟨ts, v, change⟩ | r)
    · by_cases hv : label = v <;> cases change <;>
        simp [Mutation.toggle, Mutation.hiding?, hv, LabelSet.add, OrderedMap.contains,
          OrderedMap.get?_insert, OrderedMap.get?_erase]
    · rfl
  have hpart := part_foldl (fun s : LabelSet => some (s.contains label)) hstep
    OrderedMap.empty log.entries
  rw [Option.or_some] at hpart
  exact Option.some.inj hpart

end Log

end Chronicle
