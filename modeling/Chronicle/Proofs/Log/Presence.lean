import Mathlib.Data.List.Sort
import Chronicle.Proofs.Log.Agreement

/-!
# Which properties a log shows

A view shows a property or not, whatever else the log holds and whatever else is asked for: the
reader must be able to read the property, its records must end on a value as of the moment, and
hiding must not leave it out.  A read lists the properties that are shown and that its filter
admits, each once, in the order of their identities.

* `Log.shown?`, `Log.Presents` : what a view shows of one identity, and when it shows something;
* `mem_properties_iff`, `properties_ascending` : a read lists what is shown, in order;
* `properties_eq_filter` : a filtered read is the filtered read of everything;
* `property_eq_shown?` : a read of one property.
-/

namespace Chronicle

/-! ## Order -/

namespace Property

/-- The one property comes before the other in the order of identities. -/
def Precedes (p q : Property) : Prop := compare p.identity q.identity = .lt

instance : Std.Irrefl Precedes :=
  ⟨fun p h => by
    rw [Precedes, Std.compare_eq_iff_eq.2 rfl] at h
    cases h⟩

instance : Std.Antisymm Precedes :=
  ⟨fun p _ hpq hqp => absurd (Std.TransCmp.lt_trans hpq hqp) (Std.Irrefl.irrefl (r := Precedes) p)⟩

end Property

/-! ## Runs that stop at the first failure -/

/-- Of the results the failure `e` comes first. -/
def FailsFirst {α : Type} (results : List (Except Error α)) (e : Error) : Prop :=
  ∃ (before : List α) (after : List (Except Error α)),
    results = before.map .ok ++ .error e :: after

section Runs

variable {α β : Type} {f : α → Except Error β} {l : List α}

/-- A run succeeds if nothing in it fails. -/
theorem mapM_eq_ok_iff {bs : List β} : l.mapM f = .ok bs ↔ l.map f = bs.map .ok := by
  induction l generalizing bs with
  | nil => cases bs <;> simp [pure, Except.pure]
  | cons a l ih =>
    rw [List.mapM_cons, List.map_cons]
    cases ha : f a with
    | error e => cases bs <;> simp [bind, Except.bind]
    | ok b =>
      cases bs with
      | nil => cases l.mapM f <;> simp [bind, Except.bind, pure, Except.pure]
      | cons b' bs =>
        rw [List.map_cons, List.cons.injEq, ← ih]
        cases l.mapM f <;> simp [bind, Except.bind, pure, Except.pure]

/-- A run fails with the failure that comes first. -/
theorem mapM_eq_error_iff {e : Error} : l.mapM f = .error e ↔ FailsFirst (l.map f) e := by
  induction l with
  | nil => simp [FailsFirst, pure, Except.pure]
  | cons a l ih =>
    rw [List.mapM_cons, List.map_cons]
    cases ha : f a with
    | error e' =>
      constructor
      · intro h
        cases h
        exact ⟨[], l.map f, rfl⟩
      · rintro ⟨_ | ⟨b, bs⟩, rest, h⟩
        · cases h
          rfl
        · cases h
    | ok b =>
      have hrest : (Except.ok b >>= fun b => l.mapM f >>= fun bs => pure (b :: bs)) = .error e
          ↔ l.mapM f = .error e := by
        cases l.mapM f <;> simp [bind, Except.bind, pure, Except.pure]
      rw [hrest, ih]
      constructor
      · rintro ⟨bs, rest, h⟩
        exact ⟨b :: bs, rest, by rw [h]; rfl⟩
      · rintro ⟨_ | ⟨b', bs⟩, rest, h⟩
        · cases h
        · exact ⟨bs, rest, (List.cons.inj h).2⟩

/-- A run that fails does so at one of its items. -/
theorem exists_of_mapM_eq_error {e : Error} (h : l.mapM f = .error e) :
    ∃ a ∈ l, f a = .error e := by
  obtain ⟨before, after, hsplit⟩ := mapM_eq_error_iff.1 h
  refine List.mem_map.1 ?_
  rw [hsplit]
  exact List.mem_append_right _ List.mem_cons_self

end Runs

namespace Log

variable {log : Log} {v : View} {f : PropertyFilter} {i : PropertyIdentity} {p : Property}

/-! ## One identity -/

/-- What the view shows of one identity, its value as stored. -/
def shown? (log : Log) (v : View) (i : PropertyIdentity) : Option Property :=
  if v.reader.canRead i.visibility then
    Property.fold v.hints v.reader (log.reached v.asOf (.only i))
  else none

/-- The view shows something of the identity. -/
structure Presents (log : Log) (v : View) (i : PropertyIdentity) : Prop where
  readable : v.reader.canRead i.visibility = true
  endsOnValue : EndsOnValue (log.reached v.asOf (.only i))
  unhidden : v.hints.includeHidden = true
    ∨ ∀ label, ¬NetHiding (log.reached v.asOf (.only i)) label

theorem isSome_shown?_iff : (log.shown? v i).isSome = true ↔ log.Presents v i := by
  rw [shown?]
  cases hread : v.reader.canRead i.visibility with
  | false =>
    refine ⟨fun h => ?_, fun h => ?_⟩
    · cases h
    · rw [h.readable] at hread
      cases hread
  | true =>
    rw [if_pos rfl, Property.isSome_fold_iff]
    exact ⟨fun ⟨hends, hshown⟩ => ⟨hread, hends, hshown⟩, fun h => ⟨h.endsOnValue, h.unhidden⟩⟩

theorem fold_of_shown? (h : log.shown? v i = some p) :
    v.reader.canRead i.visibility = true
      ∧ Property.fold v.hints v.reader (log.reached v.asOf (.only i)) = some p := by
  rw [shown?] at h
  split at h
  · next hread => exact ⟨hread, h⟩
  · cases h

/-- What is shown of an identity is a property of that identity. -/
theorem identity_of_shown? (h : log.shown? v i = some p) : p.identity = i :=
  Property.identity_of_fold (fun _ hr => identity_of_mem_reached hr) (fold_of_shown? h).2

/-! ## Reads of several properties -/

/-- The group of an identity is the same in every read that admits the identity. -/
theorem group_reached_of_admits (log : Log) (asOf : Option Timestamp) (hi : f.admits i = true) :
    group (log.reached asOf f) i = log.reached asOf (.only i) := by
  rw [group, reached, reached, List.filter_filter]
  refine List.filter_congr fun r _ => ?_
  cases hr : r.identity == i with
  | true =>
    rw [eq_of_beq hr, hi, PropertyFilter.admits_only.2 rfl]
    rfl
  | false =>
    have hno : (PropertyFilter.only i).admits r.identity = false := by
      rw [← Bool.not_eq_true, PropertyFilter.admits_only]
      exact ne_of_beq_false hr
    rw [hno]
    rfl

theorem admits_of_mem_identities {asOf : Option Timestamp}
    (hi : i ∈ PropertyRecord.identities (log.reached asOf f)) : f.admits i = true := by
  obtain ⟨r, hr, rfl⟩ := PropertyRecord.mem_identities_iff.1 hi
  have hadmits := (List.mem_filter.1 hr).2
  rw [Bool.and_eq_true] at hadmits
  exact hadmits.1

/-- A read goes through the identities in order and lists what is shown of each. -/
theorem properties_eq_filterMap_shown? (log : Log) (v : View) (f : PropertyFilter) :
    log.properties v f
      = (PropertyRecord.identities (log.reached v.asOf f)).filterMap (log.shown? v) := by
  rw [properties_eq, List.filterMap_filter]
  refine List.filterMap_congr fun i hi => ?_
  rw [shown?, group_reached_of_admits log v.asOf (admits_of_mem_identities hi)]

/-- A property is listed if the filter admits it and it is what is shown of its identity. -/
theorem mem_properties_iff :
    p ∈ log.properties v f ↔ f.admits p.identity = true ∧ log.shown? v p.identity = some p := by
  rw [properties_eq_filterMap_shown?, List.mem_filterMap]
  constructor
  · rintro ⟨i, hi, hp⟩
    rw [identity_of_shown? hp]
    exact ⟨admits_of_mem_identities hi, hp⟩
  · rintro ⟨hadmits, hp⟩
    refine ⟨p.identity, PropertyRecord.mem_identities_iff_group.2 ?_, hp⟩
    rw [group_reached_of_admits log v.asOf hadmits]
    -- a property that is shown was set by a record
    intro hnil
    have hfold := (fold_of_shown? hp).2
    rw [hnil, Property.fold_eq_none_of_toggles (by simp)] at hfold
    cases hfold

/-- Properties are listed in the strict order of their identities, so none is listed twice. -/
theorem properties_ascending (log : Log) (v : View) (f : PropertyFilter) :
    (log.properties v f).Pairwise Property.Precedes := by
  rw [properties_eq_filterMap_shown?]
  refine List.Pairwise.filterMap (log.shown? v) ?_ (OrderedMap.keys_ascending _)
  intro i j hij p hp q hq
  rw [Property.Precedes, identity_of_shown? hp, identity_of_shown? hq]
  exact hij

/-- A filtered read lists what a read of everything lists and the filter admits. -/
theorem properties_eq_filter (log : Log) (v : View) (f : PropertyFilter) :
    log.properties v f = (log.properties v .any).filter fun p => f.admits p.identity := by
  refine (properties_ascending log v f).eq_of_mem_iff ((properties_ascending log v .any).filter _)
    fun p => ?_
  rw [List.mem_filter, mem_properties_iff, mem_properties_iff, PropertyFilter.admits_any]
  exact ⟨fun ⟨hadmits, hp⟩ => ⟨⟨rfl, hp⟩, hadmits⟩, fun ⟨⟨_, hp⟩, hadmits⟩ => ⟨hadmits, hp⟩⟩

/-- The identities that are listed are those of which something is shown. -/
theorem mem_identities_properties_iff :
    i ∈ (log.properties v f).map (·.identity) ↔ f.admits i = true ∧ log.Presents v i := by
  rw [List.mem_map, ← isSome_shown?_iff]
  constructor
  · rintro ⟨p, hp, rfl⟩
    obtain ⟨hadmits, hshown⟩ := mem_properties_iff.1 hp
    exact ⟨hadmits, by rw [hshown]; rfl⟩
  · rintro ⟨hadmits, hsome⟩
    obtain ⟨p, hp⟩ := Option.isSome_iff_exists.1 hsome
    obtain rfl := identity_of_shown? hp
    exact ⟨p, mem_properties_iff.2 ⟨hadmits, hp⟩, rfl⟩

/-! ## Reads of one property -/

/-- A choice of one identity lists what is shown of it. -/
theorem properties_only_eq_toList (log : Log) (v : View) (i : PropertyIdentity) :
    log.properties v (.only i) = (log.shown? v i).toList := by
  rw [properties_only, shown?]
  split <;> rfl

/-- A read of one property loads what is shown of it. -/
theorem property_eq_shown? (log : Log) (v : View) (i : PropertyIdentity) (fetch : Load) :
    log.property v i fetch
      = match log.shown? v i with
        | none => .ok none
        | some p => (p.resolve fetch).map some := by
  rw [property, resolved, properties_only_eq_toList]
  cases log.shown? v i <;> rfl

/-- A read of one property finds nothing exactly when nothing of it is shown. -/
theorem property_eq_none_iff {fetch : Load} :
    log.property v i fetch = .ok none ↔ ¬log.Presents v i := by
  rw [property_eq_shown?, ← isSome_shown?_iff]
  cases log.shown? v i with
  | none => simp
  | some p =>
    simp only [Option.isSome_some, not_true_eq_false, iff_false]
    cases p.resolve fetch <;> exact nofun

/-! ## Reads of all properties at once -/

/-- A read of all properties at once succeeds if each of them is loaded. -/
theorem allProperties_eq_ok_iff {fetch : Load} {ps : List Property} :
    log.allProperties v fetch = .ok ps ↔ log.resolved v .any fetch = ps.map .ok :=
  mapM_eq_ok_iff

/-- It fails with the failure that comes first. -/
theorem allProperties_eq_error_iff {fetch : Load} {err : Error} :
    log.allProperties v fetch = .error err ↔ FailsFirst (log.resolved v .any fetch) err :=
  mapM_eq_error_iff

end Log

end Chronicle
