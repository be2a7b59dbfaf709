import Mathlib.Data.List.Induction
import Chronicle.Log

/-!
# A log is a bag in stable order

Whatever is appended to a log and removed from it, and in whatever order of times, the log lists
what a plain list would hold that takes every batch at its end: sorted by time, with mutations of
equal time in the order in which they came.

* `IsStableSort` : what it means to be sorted in this way;
* `IsStableSort.unique` : there is one such list;
* `isStableSort_place`, `isStableSort_step` : one mutation and one operation keep the log sorted;
* `run_eq_sortByTime_bag` : so does every run.
-/

namespace Chronicle

/-! ## Stable sorting by time -/

/-- The mutations of one time. -/
def atTime (ts : Timestamp) (l : List Mutation) : List Mutation :=
  l.filter fun m => m.timestamp == ts

/-- `sorted` has the mutations of `l` by time, those of equal time as they stand in `l`. -/
structure IsStableSort (sorted l : List Mutation) : Prop where
  ascending : sorted.Pairwise fun a b => a.timestamp ≤ b.timestamp
  perm : sorted.Perm l
  ties (ts : Timestamp) : atTime ts sorted = atTime ts l

/-- The mutations by time, those of equal time as they stand. -/
def sortByTime (l : List Mutation) : List Mutation :=
  l.mergeSort fun a b => decide (a.timestamp ≤ b.timestamp)

theorem isStableSort_sortByTime (l : List Mutation) : IsStableSort (sortByTime l) l := by
  have htrans : ∀ a b c : Mutation, decide (a.timestamp ≤ b.timestamp) = true →
      decide (b.timestamp ≤ c.timestamp) = true → decide (a.timestamp ≤ c.timestamp) = true := by
    intro a b c hab hbc
    exact decide_eq_true (Int64.le_trans (of_decide_eq_true hab) (of_decide_eq_true hbc))
  have htotal : ∀ a b : Mutation,
      (decide (a.timestamp ≤ b.timestamp) || decide (b.timestamp ≤ a.timestamp)) = true := by
    intro a b
    simpa using Int64.le_total a.timestamp b.timestamp
  have hperm : (sortByTime l).Perm l := List.mergeSort_perm l _
  refine ⟨?_, hperm, fun ts => ?_⟩
  · exact (List.pairwise_mergeSort htrans htotal l).imp fun h => of_decide_eq_true h
  · -- the mutations of one time are already in order, so sorting keeps them as a sublist
    have htie : (atTime ts l).Pairwise fun a b => decide (a.timestamp ≤ b.timestamp) = true := by
      refine List.pairwise_of_forall_mem_list fun a ha b hb => decide_eq_true ?_
      rw [eq_of_beq (List.mem_filter.1 ha).2, eq_of_beq (List.mem_filter.1 hb).2]
      exact Int64.le_refl ts
    have hsub : (atTime ts l).Sublist (sortByTime l) :=
      List.sublist_mergeSort htrans htotal htie List.filter_sublist
    have hsub' := hsub.filter fun m => m.timestamp == ts
    rw [atTime, List.filter_filter] at hsub'
    simp only [Bool.and_self] at hsub'
    exact (hsub'.eq_of_length (hperm.filter _).length_eq.symm).symm

/-- Lists that agree at every time have the same members. -/
theorem mem_iff_of_ties {s t : List Mutation} (h : ∀ ts, atTime ts s = atTime ts t)
    (a : Mutation) : a ∈ s ↔ a ∈ t := by
  have ha := congrArg (a ∈ ·) (h a.timestamp)
  simpa [atTime] using ha

/-- Lists that agree at every time and have the same head agree at every time behind it. -/
theorem atTime_tail {a : Mutation} {s t : List Mutation}
    (h : ∀ ts, atTime ts (a :: s) = atTime ts (a :: t)) (ts : Timestamp) :
    atTime ts s = atTime ts t := by
  have hcons := h ts
  simp only [atTime, List.filter_cons] at hcons ⊢
  split at hcons
  · exact (List.cons.inj hcons).2
  · exact hcons

/-- The head of a sorted list is not later than any member. -/
theorem head_le_of_mem {a b : Mutation} {s : List Mutation}
    (hs : (a :: s).Pairwise fun a b => a.timestamp ≤ b.timestamp) (hb : b ∈ a :: s) :
    a.timestamp ≤ b.timestamp := by
  rcases List.mem_cons.1 hb with rfl | hb
  · exact Int64.le_refl _
  · exact (List.pairwise_cons.1 hs).1 b hb

/-- Sorted lists that agree at every time are equal. -/
theorem eq_of_ascending_of_ties {s t : List Mutation}
    (hs : s.Pairwise fun a b => a.timestamp ≤ b.timestamp)
    (ht : t.Pairwise fun a b => a.timestamp ≤ b.timestamp)
    (h : ∀ ts, atTime ts s = atTime ts t) : s = t := by
  induction s generalizing t with
  | nil =>
    cases t with
    | nil => rfl
    | cons b t => exact absurd ((mem_iff_of_ties h b).2 (by simp)) (by simp)
  | cons a s ih =>
    cases t with
    | nil => exact absurd ((mem_iff_of_ties h a).1 (by simp)) (by simp)
    | cons b t =>
      have hab : a.timestamp ≤ b.timestamp :=
        head_le_of_mem hs ((mem_iff_of_ties h b).2 (by simp))
      have hba : b.timestamp ≤ a.timestamp :=
        head_le_of_mem ht ((mem_iff_of_ties h a).1 (by simp))
      have hts : b.timestamp = a.timestamp := Int64.le_antisymm hba hab
      have hhead := h a.timestamp
      simp only [atTime, List.filter_cons, hts, beq_self_eq_true, if_true] at hhead
      obtain rfl : a = b := (List.cons.inj hhead).1
      exact congrArg (a :: ·)
        (ih (List.pairwise_cons.1 hs).2 (List.pairwise_cons.1 ht).2 (atTime_tail h))

/-- There is one stable sort of a list. -/
theorem IsStableSort.unique {s t l : List Mutation} (hs : IsStableSort s l)
    (ht : IsStableSort t l) : s = t :=
  eq_of_ascending_of_ties hs.ascending ht.ascending fun ts => (hs.ties ts).trans (ht.ties ts).symm

theorem IsStableSort.eq_sortByTime {s l : List Mutation} (hs : IsStableSort s l) :
    s = sortByTime l :=
  hs.unique (isStableSort_sortByTime l)

/-! ## Operations on a log and on a bag -/

/-- An operation that changes a log. -/
inductive LogOp where
  /-- Adds a batch. -/
  | append (batch : List Mutation)
  /-- Drops the mutations that satisfy `p`. -/
  | remove (p : Mutation → Bool)

namespace LogOp

/-- The operation on a log, with its answer. -/
def onLog (log : Log) : LogOp → Nat × Log
  | .append batch => log.append batch
  | .remove p => log.remove p

/-- The operation on a plain list that takes batches at its end, with its answer. -/
def onBag (bag : List Mutation) : LogOp → Nat × List Mutation
  | .append batch => (batch.length, bag ++ batch)
  | .remove p =>
    let left := bag.filter fun m => !p m
    (bag.length - left.length, left)

/-- The log after some operations, the first of them on the empty log. -/
def runLog (ops : List LogOp) : Log := ops.foldl (fun log op => (op.onLog log).2) .empty

/-- The bag after some operations, the first of them on the empty bag. -/
def runBag (ops : List LogOp) : List Mutation := ops.foldl (fun bag op => (op.onBag bag).2) []

end LogOp

/-! ## One step -/

theorem perm_place (m : Mutation) (l : List Mutation) : (Log.place m l).Perm (m :: l) := by
  induction l with
  | nil => exact List.Perm.refl _
  | cons x rest ih =>
    rw [Log.place]
    split
    · exact (ih.cons x).trans (List.Perm.swap m x rest)
    · exact List.Perm.refl _

/-- A mutation takes its place behind those of its own time. -/
theorem atTime_place {m : Mutation} {l : List Mutation}
    (h : l.Pairwise fun a b => a.timestamp ≤ b.timestamp) (ts : Timestamp) :
    atTime ts (Log.place m l) = atTime ts l ++ atTime ts [m] := by
  induction l with
  | nil => rfl
  | cons x rest ih =>
    rw [Log.place]
    split
    · have hrest := ih (List.pairwise_cons.1 h).2
      simp only [atTime, List.filter_cons] at hrest ⊢
      split
      · rw [hrest, List.cons_append]
      · exact hrest
    · next hlt =>
      -- all that follows is later than the mutation, so none of it is of the mutation's time
      by_cases hm : m.timestamp = ts
      · have hno : atTime ts (x :: rest) = [] := by
          refine List.filter_eq_nil_iff.2 fun a ha hat => hlt ?_
          rw [hm, ← eq_of_beq hat]
          exact head_le_of_mem h ha
        rw [hno, ← List.singleton_append, atTime, List.filter_append]
        exact (congrArg (atTime ts [m] ++ ·) hno).trans (List.append_nil _)
      · have hno : atTime ts [m] = [] := by simp [atTime, hm]
        rw [hno, List.append_nil, atTime, List.filter_cons_of_neg (by simpa using hm), atTime]

/-- Placing a mutation in a sorted list adds it at the end of the bag. -/
theorem isStableSort_place {l bag : List Mutation} (h : IsStableSort l bag) (m : Mutation) :
    IsStableSort (Log.place m l) (bag ++ [m]) where
  ascending := Log.pairwise_place h.ascending
  perm := ((perm_place m l).trans (h.perm.cons m)).trans (List.perm_append_singleton m bag).symm
  ties ts := by
    rw [atTime_place h.ascending, h.ties ts, atTime, atTime, atTime, List.filter_append]

theorem isStableSort_extend {log : Log} {bag : List Mutation} (h : IsStableSort log.entries bag)
    (batch : List Mutation) : IsStableSort (log.extend batch).entries (bag ++ batch) := by
  -- log and bag both grow with each mutation of the batch
  induction batch generalizing log bag with
  | nil => simpa using h
  | cons m batch ih =>
    have hm : IsStableSort (log.insert m).entries (bag ++ [m]) := by
      rw [Log.entries_insert]
      exact isStableSort_place h m
    have hbatch := ih hm
    rwa [List.append_assoc, List.singleton_append] at hbatch

theorem atTime_filter (ts : Timestamp) (p : Mutation → Bool) (l : List Mutation) :
    atTime ts (l.filter p) = (atTime ts l).filter p := by
  rw [atTime, atTime, List.filter_filter, List.filter_filter]
  exact List.filter_congr fun m _ => Bool.and_comm _ _

/-- Dropping mutations from a sorted list drops them from the bag. -/
theorem isStableSort_filter {l bag : List Mutation} (h : IsStableSort l bag)
    (p : Mutation → Bool) : IsStableSort (l.filter p) (bag.filter p) where
  ascending := h.ascending.filter p
  perm := h.perm.filter p
  ties ts := by rw [atTime_filter, atTime_filter, h.ties ts]

/-- Every operation keeps the log a stable sort of the bag. -/
theorem isStableSort_step {log : Log} {bag : List Mutation} (h : IsStableSort log.entries bag)
    (op : LogOp) : IsStableSort (op.onLog log).2.entries (op.onBag bag).2 := by
  cases op with
  | append batch => exact isStableSort_extend h batch
  | remove p => exact isStableSort_filter h fun m => !p m

/-- Every operation gives the same answer on both. -/
theorem answer_onLog {log : Log} {bag : List Mutation} (h : IsStableSort log.entries bag)
    (op : LogOp) : (op.onLog log).1 = (op.onBag bag).1 := by
  cases op with
  | append batch => rfl
  | remove p =>
    have hleft := (isStableSort_filter h fun m => !p m).perm.length_eq
    have hall := h.perm.length_eq
    show log.entries.length - (log.entries.filter fun m => !p m).length
      = bag.length - (bag.filter fun m => !p m).length
    rw [hleft, hall]

/-! ## All runs -/

theorem isStableSort_run (ops : List LogOp) :
    IsStableSort (LogOp.runLog ops).entries (LogOp.runBag ops) := by
  induction ops using List.reverseRecOn with
  | nil => exact ⟨List.Pairwise.nil, List.Perm.refl _, fun _ => rfl⟩
  | append_singleton ops op ih =>
    rw [LogOp.runLog, LogOp.runBag, List.foldl_append, List.foldl_append]
    exact isStableSort_step ih op

/-- After every run the log is the stable sort of the bag, and whatever comes next, a change or a
query, has the answer that the sorted bag gives. -/
theorem run_eq_sortByTime_bag (ops : List LogOp) :
    (LogOp.runLog ops).entries = sortByTime (LogOp.runBag ops)
      ∧ IsStableSort (LogOp.runLog ops).entries (LogOp.runBag ops)
      ∧ (∀ op : LogOp, (op.onLog (LogOp.runLog ops)).1 = (op.onBag (LogOp.runBag ops)).1)
      ∧ ∀ p : Mutation → Bool,
        (LogOp.runLog ops).snapshot p = (sortByTime (LogOp.runBag ops)).filter p
          ∧ (LogOp.runLog ops).first? p = (sortByTime (LogOp.runBag ops)).find? p
          ∧ (LogOp.runLog ops).last? p = (sortByTime (LogOp.runBag ops)).reverse.find? p := by
  have hsort := isStableSort_run ops
  have heq := hsort.eq_sortByTime
  refine ⟨heq, hsort, answer_onLog hsort, fun p => ?_⟩
  rw [Log.snapshot, Log.first?, Log.last?, heq]
  exact ⟨rfl, rfl, List.findRev?_eq_find?_reverse⟩

end Chronicle
