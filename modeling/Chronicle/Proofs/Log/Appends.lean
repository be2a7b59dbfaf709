import Chronicle.Proofs.Log.StableOrder
import Chronicle.Proofs.Log.Said

/-!
# Logs made by appending

A log that was made by appends alone, in whatever order of times, lists what was appended by time,
and what has one time in the order in which it was appended.  So the log is determined by the order
of the appends within each time, and leaving mutations out of the batches leaves them out of the
log.

* `ofAppends` : the log after some appends;
* `ofAppends_keep` : a log made of some of the mutations has those mutations of the whole log;
* `filter_ofAppends_congr` : appends that agree at each time on some mutations make logs that agree
  on them.
-/

namespace Chronicle

namespace Log

/-- The log after some appends, the first of them to the empty log. -/
def ofAppends (batches : List (List Mutation)) : Log := batches.foldl extend .empty

theorem ofAppends_append_singleton (batches : List (List Mutation)) (batch : List Mutation) :
    ofAppends (batches ++ [batch]) = (ofAppends batches).extend batch := by
  rw [ofAppends, List.foldl_append]
  rfl

theorem ext_entries {l l' : Log} (h : l.entries = l'.entries) : l = l' := by
  cases l
  cases l'
  cases h
  rfl

/-- A log lists what was appended by time, and what has one time as it was appended. -/
theorem isStableSort_ofAppends (batches : List (List Mutation)) :
    IsStableSort (ofAppends batches).entries batches.flatten := by
  induction batches using List.reverseRecOn with
  | nil => exact ⟨List.Pairwise.nil, List.Perm.refl _, fun _ => rfl⟩
  | append_singleton batches batch ih =>
    rw [ofAppends_append_singleton, List.flatten_append, List.flatten_singleton]
    exact isStableSort_extend ih batch

@[simp] theorem mem_ofAppends {batches : List (List Mutation)} {m : Mutation} :
    m ∈ (ofAppends batches).entries ↔ m ∈ batches.flatten :=
  (isStableSort_ofAppends batches).perm.mem_iff

/-- The batches with only those mutations that satisfy `p`. -/
def keepBatches (p : Mutation → Bool) (batches : List (List Mutation)) : List (List Mutation) :=
  batches.map fun batch => batch.filter p

@[simp] theorem flatten_keepBatches (p : Mutation → Bool) (batches : List (List Mutation)) :
    (keepBatches p batches).flatten = batches.flatten.filter p := by
  rw [keepBatches, List.filter_flatten]

/-- Appends that agree at each time on the mutations that satisfy `p` make logs that agree on
them. -/
theorem filter_ofAppends_congr {p : Mutation → Bool} {batches batches' : List (List Mutation)}
    (h : ∀ ts, atTime ts (batches.flatten.filter p) = atTime ts (batches'.flatten.filter p)) :
    (ofAppends batches).entries.filter p = (ofAppends batches').entries.filter p := by
  have hsort := isStableSort_filter (isStableSort_ofAppends batches) p
  have hsort' := isStableSort_filter (isStableSort_ofAppends batches') p
  refine eq_of_ascending_of_ties hsort.ascending hsort'.ascending fun ts => ?_
  rw [hsort.ties, hsort'.ties, h]

/-- A log made of some of the mutations has those mutations of the whole log. -/
theorem ofAppends_keep (p : Mutation → Bool) (batches : List (List Mutation)) :
    (ofAppends batches).keep p = ofAppends (keepBatches p batches) := by
  apply ext_entries
  have hsort := isStableSort_filter (isStableSort_ofAppends batches) p
  have hsort' := isStableSort_ofAppends (keepBatches p batches)
  rw [flatten_keepBatches] at hsort'
  exact hsort.unique hsort'

end Log

end Chronicle
