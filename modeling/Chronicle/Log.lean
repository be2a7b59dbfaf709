import Chronicle.Mutation

/-!
# Mutation logs

A log lists mutations by time, and those of equal time in the order in which they were appended.
Records may be appended in any order of their times.  One that is not earlier than the last goes
to the end; any other is put before the first that is later.  As the log is sorted, both are the
same rule: each takes its place behind all records that are not later.

* `put_eq_place` : the two ways to add a mutation are one;
* `mem_extend` : an append adds its batch and nothing else;
* `length_extend` : it adds each mutation of the batch once.
-/

namespace Chronicle

/-- Mutations in the order of their timestamps. -/
structure Log where
  entries : List Mutation
  sorted : entries.Pairwise fun a b => a.timestamp ≤ b.timestamp
  deriving DecidableEq

namespace Log

/-- Puts a mutation behind all that are not later. -/
def place (m : Mutation) : List Mutation → List Mutation
  | [] => [m]
  | x :: rest => if x.timestamp ≤ m.timestamp then x :: place m rest else m :: x :: rest

theorem mem_place {m a : Mutation} {l : List Mutation} : a ∈ place m l ↔ a = m ∨ a ∈ l := by
  induction l with
  | nil => simp [place]
  | cons x rest ih =>
    rw [place]
    split
    · simp only [List.mem_cons, ih]
      grind
    · simp

theorem length_place (m : Mutation) (l : List Mutation) : (place m l).length = l.length + 1 := by
  induction l with
  | nil => rfl
  | cons x rest ih =>
    rw [place]
    split <;> simp [ih]

theorem pairwise_place {m : Mutation} {l : List Mutation}
    (h : l.Pairwise fun a b => a.timestamp ≤ b.timestamp) :
    (place m l).Pairwise fun a b => a.timestamp ≤ b.timestamp := by
  induction l with
  | nil => simp [place]
  | cons x rest ih =>
    obtain ⟨hx, hrest⟩ := List.pairwise_cons.1 h
    rw [place]
    split
    · next hle =>
      refine List.pairwise_cons.2 ⟨fun a ha => ?_, ih hrest⟩
      rcases mem_place.1 ha with rfl | ha
      · exact hle
      · exact hx a ha
    · next hgt =>
      have hlt : m.timestamp ≤ x.timestamp := Int64.le_of_lt (Int64.not_le.1 hgt)
      refine List.pairwise_cons.2 ⟨fun a ha => ?_, h⟩
      rcases List.mem_cons.1 ha with rfl | ha
      · exact hlt
      · exact Int64.le_trans hlt (hx a ha)

/-- How many mutations stand before the first that is later than `ts`. -/
def rank (ts : Timestamp) (l : List Mutation) : Nat :=
  (l.takeWhile fun a => decide (a.timestamp ≤ ts)).length

/-- Adds a mutation at the end, or before the first later one if the last is later. -/
def put (m : Mutation) (l : List Mutation) : List Mutation :=
  match l.getLast? with
  | none => [m]
  | some last =>
    if m.timestamp < last.timestamp then l.insertIdx (rank m.timestamp l) m else l ++ [m]

/-- A mutation that is not earlier than any takes the last place. -/
theorem place_of_forall_le {m : Mutation} {l : List Mutation}
    (h : ∀ a ∈ l, a.timestamp ≤ m.timestamp) : place m l = l ++ [m] := by
  induction l with
  | nil => rfl
  | cons x rest ih =>
    rw [place, if_pos (h x (by simp)), ih fun a ha => h a (by simp [ha]), List.cons_append]

/-- The place of a mutation is before the first that is later. -/
theorem insertIdx_rank (m : Mutation) (l : List Mutation) :
    l.insertIdx (rank m.timestamp l) m = place m l := by
  induction l with
  | nil => rfl
  | cons x rest ih =>
    rw [place, rank, List.takeWhile_cons]
    by_cases h : x.timestamp ≤ m.timestamp
    · rw [if_pos h, if_pos (decide_eq_true h), List.length_cons, List.insertIdx_succ_cons, ← ih,
        rank]
    · rw [if_neg h, if_neg (by simpa using h), List.length_nil, List.insertIdx_zero]

/-- In a sorted list a mutation is put behind all that are not later. -/
theorem put_eq_place {m : Mutation} {l : List Mutation}
    (h : l.Pairwise fun a b => a.timestamp ≤ b.timestamp) : put m l = place m l := by
  rw [put]
  split
  · next hnone =>
    rw [List.getLast?_eq_none_iff.1 hnone]
    rfl
  · next last hlast =>
    split
    · exact insertIdx_rank m l
    · next hlt =>
      obtain ⟨before, rfl⟩ := List.getLast?_eq_some_iff.1 hlast
      have hle : last.timestamp ≤ m.timestamp := Int64.not_lt.1 hlt
      refine (place_of_forall_le fun a ha => ?_).symm
      rcases List.mem_append.1 ha with ha | ha
      · exact Int64.le_trans ((List.pairwise_append.1 h).2.2 a ha last (by simp)) hle
      · rw [List.mem_singleton.1 ha]
        exact hle

theorem pairwise_put {m : Mutation} {l : List Mutation}
    (h : l.Pairwise fun a b => a.timestamp ≤ b.timestamp) :
    (put m l).Pairwise fun a b => a.timestamp ≤ b.timestamp := by
  rw [put_eq_place h]
  exact pairwise_place h

/-! ## Operations -/

/-- The log without mutations. -/
def empty : Log := ⟨[], List.Pairwise.nil⟩

instance : EmptyCollection Log := ⟨empty⟩
instance : Inhabited Log := ⟨empty⟩

/-- The log with one more mutation at its place. -/
def insert (log : Log) (m : Mutation) : Log := ⟨put m log.entries, pairwise_put log.sorted⟩

/-- The log with a batch of mutations, each at its place. -/
def extend (log : Log) (batch : List Mutation) : Log := batch.foldl insert log

/-- The log with the batch, and how many mutations were added. -/
def append (log : Log) (batch : List Mutation) : Nat × Log := (batch.length, log.extend batch)

/-- The number of mutations. -/
def length (log : Log) : Nat := log.entries.length

/-- Whether there is no mutation. -/
def isEmpty (log : Log) : Bool := log.entries.isEmpty

/-- The mutations that satisfy `p`, in order. -/
def snapshot (log : Log) (p : Mutation → Bool) : List Mutation := log.entries.filter p

/-- The first mutation that satisfies `p`. -/
def first? (log : Log) (p : Mutation → Bool) : Option Mutation := log.entries.find? p

/-- The last mutation that satisfies `p`. -/
def last? (log : Log) (p : Mutation → Bool) : Option Mutation := log.entries.findRev? p

/-- The log of the mutations that satisfy `p`. -/
def keep (log : Log) (p : Mutation → Bool) : Log := ⟨log.entries.filter p, log.sorted.filter p⟩

/-- The log without the mutations that satisfy `p`, and how many there were. -/
def remove (log : Log) (p : Mutation → Bool) : Nat × Log :=
  let left := log.keep fun m => !p m
  (log.length - left.length, left)

/-- The records of properties, in order. -/
def propertyRecords (log : Log) : List PropertyRecord := log.entries.filterMap Mutation.property?

/-! ## One law per operation -/

@[simp] theorem entries_empty : empty.entries = [] := rfl

@[simp] theorem entries_insert (log : Log) (m : Mutation) :
    (log.insert m).entries = place m log.entries :=
  put_eq_place log.sorted

@[simp] theorem extend_nil (log : Log) : log.extend [] = log := rfl

@[simp] theorem extend_cons (log : Log) (m : Mutation) (batch : List Mutation) :
    log.extend (m :: batch) = (log.insert m).extend batch := rfl

theorem mem_extend {log : Log} {batch : List Mutation} {a : Mutation} :
    a ∈ (log.extend batch).entries ↔ a ∈ batch ∨ a ∈ log.entries := by
  induction batch generalizing log with
  | nil => simp
  | cons m batch ih =>
    rw [extend_cons, ih, entries_insert, mem_place, List.mem_cons]
    grind

theorem length_extend (log : Log) (batch : List Mutation) :
    (log.extend batch).length = log.length + batch.length := by
  induction batch generalizing log with
  | nil => rfl
  | cons m batch ih =>
    rw [extend_cons, ih, length, entries_insert, length_place, List.length_cons, length]
    omega

end Log

end Chronicle
