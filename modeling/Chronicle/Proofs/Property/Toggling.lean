import Chronicle.Proofs.Log.Grouping

/-!
# Hiding and unhiding a property

Records that hide or unhide leave the value and the metadata alone.  If a label that does not hide
the property hides it and then unhides it, no label hides it that did not before, so the property
is back as it was.  All that is left of the two records is the time of the second, for readers who
may read the label.

* `Fold.step_hide_unhide` : the two records one after the other, on any fold;
* `Property.fold_hide` : after the first the property is out of sight;
* `Property.fold_hide_unhide` : after the second it is back.
-/

namespace Chronicle

/-- A label that is put in and taken out again leaves a set that it was not in. -/
theorem LabelSet.erase_add {s : LabelSet} {label : Visibility} (h : label ∉ s.keys) :
    (s.add label).erase label = s := by
  refine OrderedMap.ext_get? fun k => ?_
  rw [OrderedMap.get?_erase, add, OrderedMap.get?_insert]
  by_cases hk : k = label
  · rw [OrderedMap.mem_keys_iff, Option.isSome_iff_ne_none, not_not] at h
    rw [if_pos hk, hk, h]
  · rw [if_neg hk, if_neg hk]

namespace Fold

variable {f : Fold} {reader : Reader} {records : List PropertyRecord} {i : PropertyIdentity}
  {label : Visibility} {t₁ t₂ : Timestamp}

/-! ## One record -/

theorem step_hide (reader : Reader) (f : Fold) (ts : Timestamp) (i : PropertyIdentity)
    (label : Visibility) :
    f.step reader ⟨ts, i, .hide label⟩
      = { f with
          identity := some i
          timestamp := if reader.canRead label then some (later f.timestamp ts) else f.timestamp
          hiders := f.hiders.add label } := rfl

theorem step_unhide (reader : Reader) (f : Fold) (ts : Timestamp) (i : PropertyIdentity)
    (label : Visibility) :
    f.step reader ⟨ts, i, .unhide label⟩
      = { f with
          identity := some i
          timestamp := if reader.canRead label then some (later f.timestamp ts) else f.timestamp
          hiders := f.hiders.erase label } := rfl

/-! ## One after the other -/

/-- A time that is not earlier than the one before is the later of the two. -/
theorem later_of_forall_le {before : Option Timestamp} {ts : Timestamp}
    (h : ∀ b, before = some b → b ≤ ts) : later before ts = ts := by
  cases before with
  | none => rfl
  | some b =>
    rw [later]
    split
    · rfl
    · next hlt => exact Int64.le_antisymm (h b rfl) (Int64.not_lt.1 hlt)

/-- The fold as of another time, if the reader may read the label under which it was given one. -/
def restamped (reader : Reader) (label : Visibility) (ts : Timestamp) (f : Fold) : Fold :=
  { f with timestamp := if reader.canRead label then some ts else f.timestamp }

/-- If a label that does not hide the property hides it and then unhides it, a fold knows as much as
before, but for the time. -/
theorem step_hide_unhide (hi : f.identity = some i) (hlabel : label ∉ f.hiders.keys)
    (hlate : ∀ b, f.timestamp = some b → b ≤ t₁) (hle : t₁ ≤ t₂) :
    (f.step reader ⟨t₁, i, .hide label⟩).step reader ⟨t₂, i, .unhide label⟩
      = f.restamped reader label t₂ := by
  have htime : later (some (later f.timestamp t₁)) t₂ = t₂ := by
    rw [later_of_forall_le hlate]
    refine later_of_forall_le fun b hb => ?_
    rw [← Option.some.inj hb]
    exact hle
  rw [step_unhide, step_hide, LabelSet.erase_add hlabel, restamped, ← hi]
  cases reader.canRead label with
  | false => rfl
  | true => simp only [if_true, htime]

/-- A fold of records of one identity knows that identity. -/
theorem Summarizes.identity_eq (h : f.Summarizes reader records) (hne : records ≠ [])
    (hi : ∀ r ∈ records, r.identity = i) : f.identity = some i := by
  obtain ⟨r, hr⟩ := Option.isSome_iff_exists.1 (List.getLast?_isSome.2 hne)
  rw [h.identity, hr, Option.map_some, hi r (List.mem_of_getLast? hr)]

end Fold

namespace Property

variable {hints : FetchHints} {reader : Reader} {records : List PropertyRecord}
  {i : PropertyIdentity} {label : Visibility} {t₁ t₂ : Timestamp}

/-- The property as of another time, if the reader may read the label under which it was given
one. -/
def restamped (reader : Reader) (label : Visibility) (ts : Timestamp) (p : Property) : Property :=
  if reader.canRead label then { p with timestamp := ts } else p

/-- A fold of records ends in the same property as of another time. -/
theorem finish_restamped {f : Fold} (h : f.Summarizes reader records) (hints : FetchHints)
    (label : Visibility) (ts : Timestamp) :
    (f.restamped reader label ts).finish hints reader
      = (f.finish hints reader).map (restamped reader label ts) := by
  have htime : f.timestamp = none → f.value = none := by
    intro hnone
    by_contra hvalue
    have hsome := h.isSome_timestamp (Option.isSome_iff_ne_none.2 hvalue)
    rw [hnone] at hsome
    cases hsome
  cases hread : reader.canRead label with
  | false =>
    have hsame : restamped reader label ts = id := by
      funext p
      rw [restamped, hread]
      rfl
    rw [Fold.restamped, hread, hsame, Option.map_id]
    rfl
  | true =>
    have hstamp : restamped reader label ts = fun p => { p with timestamp := ts } := by
      funext p
      rw [restamped, if_pos hread]
    rw [Fold.restamped, if_pos hread, hstamp, Fold.finish, Fold.finish]
    split
    · rfl
    · split
      · rfl
      · cases hf : f.timestamp with
        | none => simp [htime hf]
        | some b => cases f.identity <;> cases f.value <;> rfl

/-- Whoever does not ask for what is hidden is not shown a property that was hidden last. -/
theorem fold_hide (hhints : hints.includeHidden = false) (records : List PropertyRecord)
    (ts : Timestamp) (i : PropertyIdentity) (label : Visibility) :
    Property.fold hints reader (records ++ [⟨ts, i, .hide label⟩]) = none := by
  rw [← Option.not_isSome_iff_eq_none, isSome_fold_iff]
  rintro ⟨-, hshown | hnone⟩
  · rw [hhints] at hshown
    cases hshown
  · exact hnone label ((netHiding_append_singleton _ _ _).2 (Or.inl rfl))

/-- A label that does not hide the property, and hides it and unhides it in the end, leaves the
property as it was, as of the time of the unhiding. -/
theorem fold_hide_unhide (hi : ∀ r ∈ records, r.identity = i) (hnot : ¬NetHiding records label)
    (hlast : ∀ r ∈ records, r.timestamp ≤ t₁) (hle : t₁ ≤ t₂) (hints : FetchHints)
    (reader : Reader) :
    Property.fold hints reader (records ++ [⟨t₁, i, .hide label⟩] ++ [⟨t₂, i, .unhide label⟩])
      = (Property.fold hints reader records).map (restamped reader label t₂) := by
  rcases eq_or_ne records [] with rfl | hne
  · have htoggles : ∀ r ∈ [⟨t₁, i, .hide label⟩] ++ [⟨t₂, i, .unhide label⟩],
        PropertyEdit.isToggle (PropertyRecord.edit r) = true := by simp [PropertyEdit.isToggle]
    rw [List.nil_append, fold_eq_none_of_toggles htoggles, fold_eq_none_of_toggles (by simp)]
    rfl
  · have h := Fold.summarizes_run reader records
    have hlate : ∀ b, (records.foldl (Fold.step reader) .start).timestamp = some b → b ≤ t₁ := by
      intro b hb
      obtain ⟨r, hr, -, rfl⟩ := (h.timestamp_some b hb).1
      exact hlast r hr
    rw [fold, fold, List.foldl_append, List.foldl_append, ← finish_restamped h]
    exact congrArg (Fold.finish · hints reader) (Fold.step_hide_unhide (h.identity_eq hne hi)
      (fun hmem => hnot ((h.hiders label).1 hmem)) hlate hle)

end Property

end Chronicle
