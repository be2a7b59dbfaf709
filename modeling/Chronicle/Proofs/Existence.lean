import Chronicle.Proofs.Log.Appends
import Chronicle.Proofs.Occurrence

/-!
# Deleted, and there again

An element is touched and deleted by markers.  As of a moment one of them decides: among the markers
up to the moment that the reader may read, the one of the latest time, and of several of that time
the one that was appended last.  As the moment moves on, the answer changes only at a marker that
the reader may read: what is deleted stays deleted until it is touched, and what is there stays
until it is deleted.

* `isDeleted_eq_or_between` : what can change the answer from one moment to a later one;
* `Decides`, `isDeleted_of_decides`, `exists_decides` : the marker that decides, where it stands
  among all that was appended;
* `isDeleted_persists` : the answer over time, for every order of appends.
-/

namespace Chronicle

/-! ## Moments -/

namespace TimeRange

/-- The one moment is not later than the other; now, which is not given, is not earlier than any. -/
def NotLater : Option Timestamp → Option Timestamp → Prop
  | _, none => True
  | none, some _ => False
  | some a, some b => a ≤ b

/-- The time is later than the one moment and not later than the other. -/
def IsBetween (t₁ t₂ : Option Timestamp) (ts : Timestamp) : Prop :=
  (upTo t₁).contains ts = false ∧ (upTo t₂).contains ts = true

variable {t₁ t₂ : Option Timestamp} {ts : Timestamp}

instance : Decidable (IsBetween t₁ t₂ ts) := inferInstanceAs (Decidable (_ ∧ _))

/-- What is reached by a moment is reached by every later one. -/
theorem contains_upTo_of_notLater (h : NotLater t₁ t₂) (hts : (upTo t₁).contains ts = true) :
    (upTo t₂).contains ts = true := by
  cases t₂ with
  | none => rfl
  | some b =>
    cases t₁ with
    | none => exact absurd h id
    | some a =>
      rw [contains_upTo_some, decide_eq_true_iff] at hts ⊢
      exact Int64.le_trans hts h

end TimeRange

open TimeRange

/-! ## Markers -/

namespace Mutation

/-- Whether the record is a marker up to the moment that the reader may read. -/
def bears (asOf : Option Timestamp) (reader : Reader) (m : Mutation) : Bool :=
  m.isExistenceMarker && (upTo asOf).contains m.timestamp && reader.canRead m.visibility

variable {asOf t₁ t₂ : Option Timestamp} {reader : Reader} {m : Mutation}

theorem bears_iff : m.bears asOf reader = true
    ↔ m.isExistenceMarker = true ∧ (upTo asOf).contains m.timestamp = true
      ∧ reader.canRead m.visibility = true := by
  rw [bears, Bool.and_eq_true, Bool.and_eq_true, and_assoc]

/-- A marker that does not delete touches. -/
theorem isSome_touch?_of_not_isSoftDelete (hm : m.isExistenceMarker = true)
    (hd : m.isSoftDelete = false) : m.touch?.isSome = true := by
  unfold isExistenceMarker at hm
  split at hm
  · rfl
  · cases hd
  · cases hm

/-- The markers up to a moment are those up to a later one that are not later than the first. -/
theorem bears_of_notLater (h : NotLater t₁ t₂) (reader : Reader) (m : Mutation) :
    m.bears t₁ reader = (m.bears t₂ reader && (upTo t₁).contains m.timestamp) := by
  rw [bears, bears]
  cases hreach : (upTo t₁).contains m.timestamp with
  | false => simp
  | true => simp [contains_upTo_of_notLater h hreach]

end Mutation

/-! ## From one moment to another -/

namespace Log

/-- Between the moments there is a record of a kind that the reader may read. -/
def HasBetween (log : Log) (kind : Mutation → Bool) (reader : Reader) (t₁ t₂ : Option Timestamp) :
    Prop :=
  ∃ m ∈ log.entries, kind m = true ∧ reader.canRead m.visibility = true
    ∧ IsBetween t₁ t₂ m.timestamp

variable {log : Log} {asOf t₁ t₂ : Option Timestamp} {reader : Reader}

instance {kind : Mutation → Bool} : Decidable (log.HasBetween kind reader t₁ t₂) :=
  inferInstanceAs (Decidable (∃ m ∈ log.entries, _))

/-- The element is deleted if the last marker that bears on it deletes. -/
theorem isDeleted_eq_getLast? (log : Log) (asOf : Option Timestamp) (reader : Reader) :
    log.isDeleted asOf reader
      = ((log.entries.filter (Mutation.bears asOf reader)).getLast?.map
          Mutation.isSoftDelete).getD false := by
  rw [isDeleted, last?, List.findRev?_eq_find?_reverse, ← List.head?_filter, List.filter_reverse,
    List.head?_reverse]
  rfl

theorem isDeleted_of_getLast? {m : Mutation}
    (h : (log.entries.filter (Mutation.bears asOf reader)).getLast? = some m) :
    log.isDeleted asOf reader = m.isSoftDelete := by
  rw [isDeleted_eq_getLast?, h]
  rfl

/-- From one moment to a later one the answer stays as it is, unless it is given by a marker in
between. -/
theorem isDeleted_eq_or_between (h : NotLater t₁ t₂) (log : Log) (reader : Reader) :
    log.isDeleted t₂ reader = log.isDeleted t₁ reader
      ∨ ∃ m ∈ log.entries, m.isExistenceMarker = true ∧ reader.canRead m.visibility = true
        ∧ IsBetween t₁ t₂ m.timestamp ∧ log.isDeleted t₂ reader = m.isSoftDelete := by
  have hearlier : log.entries.filter (Mutation.bears t₁ reader)
      = (log.entries.filter (Mutation.bears t₂ reader)).filter
          fun m => (upTo t₁).contains m.timestamp := by
    rw [List.filter_filter]
    refine List.filter_congr fun m _ => ?_
    rw [Mutation.bears_of_notLater h, Bool.and_comm]
  cases hlast : (log.entries.filter (Mutation.bears t₂ reader)).getLast? with
  | none =>
    rw [List.getLast?_eq_none_iff] at hlast
    rw [isDeleted_eq_getLast?, isDeleted_eq_getLast?, hearlier, hlast]
    exact Or.inl rfl
  | some m =>
    obtain ⟨hmem, hbears⟩ := List.mem_filter.1 (List.mem_of_getLast? hlast)
    obtain ⟨hmarker, hreach, hread⟩ := Mutation.bears_iff.1 hbears
    have hdecided := isDeleted_of_getLast? hlast
    cases hm : (upTo t₁).contains m.timestamp with
    | false => exact Or.inr ⟨m, hmem, hmarker, hread, ⟨hm, hreach⟩, hdecided⟩
    | true =>
      -- the last marker is not in between, so it is the last one up to the first moment too
      obtain ⟨before, hsplit⟩ := List.getLast?_eq_some_iff.1 hlast
      have hsame : (log.entries.filter (Mutation.bears t₁ reader)).getLast? = some m := by
        rw [hearlier, hsplit, filter_append_singleton, hm, if_pos rfl, List.getLast?_concat]
      exact Or.inl (hdecided.trans (isDeleted_of_getLast? hsame).symm)

/-- What is deleted stays deleted until it is touched. -/
theorem isDeleted_of_untouched (h : NotLater t₁ t₂) (hdel : log.isDeleted t₁ reader = true)
    (hno : ¬log.HasBetween (fun m => m.touch?.isSome) reader t₁ t₂) :
    log.isDeleted t₂ reader = true := by
  rcases isDeleted_eq_or_between h log reader with heq | ⟨m, hm, hmarker, hread, hbetween, heq⟩
  · rw [heq, hdel]
  · rw [heq]
    by_contra hd
    rw [Bool.not_eq_true] at hd
    have htouch := Mutation.isSome_touch?_of_not_isSoftDelete hmarker hd
    exact hno ⟨m, hm, htouch, hread, hbetween⟩

/-- What is there stays until it is deleted. -/
theorem not_isDeleted_of_undeleted (h : NotLater t₁ t₂) (hdel : log.isDeleted t₁ reader = false)
    (hno : ¬log.HasBetween Mutation.isSoftDelete reader t₁ t₂) :
    log.isDeleted t₂ reader = false := by
  rcases isDeleted_eq_or_between h log reader with heq | ⟨m, hm, -, hread, hbetween, heq⟩
  · rw [heq, hdel]
  · rw [heq, ← Bool.not_eq_true]
    exact fun hd => hno ⟨m, hm, hd, hread, hbetween⟩

/-- Records other than the markers that the reader may read can be dropped. -/
theorem isDeleted_keep {kept : Mutation → Bool}
    (hkept : ∀ m, m.bears asOf reader = true → kept m = true) :
    (log.keep kept).isDeleted asOf reader = log.isDeleted asOf reader := by
  have hsame : (log.entries.filter kept).filter (Mutation.bears asOf reader)
      = log.entries.filter (Mutation.bears asOf reader) := by
    rw [List.filter_filter]
    refine List.filter_congr fun m _ => ?_
    cases hm : m.bears asOf reader with
    | false => rfl
    | true => rw [hkept m hm, Bool.and_true]
  rw [isDeleted_eq_getLast?, isDeleted_eq_getLast?, keep, hsame]

end Log

/-! ## The marker that decides -/

/-- A marker that bears on the answer decides if no other that bears on it is later, and none that
was appended after it is of the same time. -/
structure Decides (asOf : Option Timestamp) (reader : Reader) (o : Occurrence Mutation) : Prop where
  bears : o.item.bears asOf reader = true
  latest : ∀ m ∈ o.list, m.bears asOf reader = true → m.timestamp ≤ o.item.timestamp
  appendedLast : ∀ m ∈ o.after, m.bears asOf reader = true → m.timestamp ≠ o.item.timestamp

/-- No member of a sorted list is later than the last. -/
theorem le_getLast?_of_mem {s : List Mutation} {a x : Mutation}
    (hs : s.Pairwise fun a b => a.timestamp ≤ b.timestamp) (hx : s.getLast? = some x)
    (ha : a ∈ s) : a.timestamp ≤ x.timestamp := by
  obtain ⟨before, rfl⟩ := List.getLast?_eq_some_iff.1 hx
  rcases List.mem_append.1 ha with ha | ha
  · exact (List.pairwise_append.1 hs).2.2 a ha x (by simp)
  · rw [List.mem_singleton.1 ha]
    exact Int64.le_refl _

/-- A sorted list ends on the latest mutation, and of several of that time on the last one. -/
theorem IsStableSort.getLast?_eq {sorted : List Mutation} {o : Occurrence Mutation}
    (h : IsStableSort sorted o.list) (hlatest : ∀ m ∈ o.list, m.timestamp ≤ o.item.timestamp)
    (hlast : ∀ m ∈ o.after, m.timestamp ≠ o.item.timestamp) : sorted.getLast? = some o.item := by
  have hitem : o.item ∈ sorted := by
    rw [h.perm.mem_iff, Occurrence.list]
    simp
  obtain ⟨x, hx⟩ := Option.isSome_iff_exists.1 (List.getLast?_isSome.2 (List.ne_nil_of_mem hitem))
  have htime : x.timestamp = o.item.timestamp :=
    Int64.le_antisymm (hlatest x (h.perm.mem_iff.1 (List.mem_of_getLast? hx)))
      (le_getLast?_of_mem h.ascending hx hitem)
  -- both end the mutations of that time, which stand in the same order in both lists
  have hsorted : (atTime o.item.timestamp sorted).getLast? = some x := by
    obtain ⟨before, rfl⟩ := List.getLast?_eq_some_iff.1 hx
    rw [atTime, filter_append_singleton, htime, beq_self_eq_true, if_pos rfl, List.getLast?_concat]
  have hlisted : (atTime o.item.timestamp o.list).getLast? = some o.item := by
    have ho : lastOccurrence? (fun m => m.timestamp == o.item.timestamp) o.list = some o :=
      lastOccurrence?_eq_some_iff.2
        ⟨rfl, beq_self_eq_true _, fun m hm => beq_false_of_ne (hlast m hm)⟩
    rw [atTime, ← map_item_lastOccurrence?, ho]
    rfl
  rw [h.ties, hlisted] at hsorted
  rw [hx, hsorted]

namespace Log

variable {batches : List (List Mutation)} {asOf : Option Timestamp} {reader : Reader}
  {o : Occurrence Mutation}

theorem getLast?_of_decides (ho : o.list = batches.flatten) (hd : Decides asOf reader o) :
    ((ofAppends batches).entries.filter (Mutation.bears asOf reader)).getLast? = some o.item := by
  have hlist : (o.filter (Mutation.bears asOf reader)).list
      = batches.flatten.filter (Mutation.bears asOf reader) := by
    rw [← ho, Occurrence.list, Occurrence.list, List.filter_append,
      List.filter_cons_of_pos hd.bears]
    rfl
  have hsort := isStableSort_filter (isStableSort_ofAppends batches) (Mutation.bears asOf reader)
  rw [← hlist] at hsort
  refine hsort.getLast?_eq (fun m hm => ?_) fun m hm => ?_
  · rw [hlist, ← ho] at hm
    exact hd.latest m (List.mem_filter.1 hm).1 (List.mem_filter.1 hm).2
  · exact hd.appendedLast m (List.mem_filter.1 hm).1 (List.mem_filter.1 hm).2

theorem isDeleted_of_decides (ho : o.list = batches.flatten) (hd : Decides asOf reader o) :
    (ofAppends batches).isDeleted asOf reader = o.item.isSoftDelete :=
  isDeleted_of_getLast? (getLast?_of_decides ho hd)

/-- If any marker bears on the answer, one of them decides. -/
theorem exists_decides {m : Mutation} (hm : m ∈ batches.flatten)
    (hbears : m.bears asOf reader = true) :
    ∃ o : Occurrence Mutation, o.list = batches.flatten ∧ Decides asOf reader o := by
  have hsort := isStableSort_filter (isStableSort_ofAppends batches) (Mutation.bears asOf reader)
  have hmem := hsort.perm.mem_iff.2 (List.mem_filter.2 ⟨hm, hbears⟩)
  obtain ⟨x, hlatest⟩ :=
    Option.isSome_iff_exists.1 (List.getLast?_isSome.2 (List.ne_nil_of_mem hmem))
  obtain ⟨hxmem, hx⟩ :=
    List.mem_filter.1 (hsort.perm.mem_iff.1 (List.mem_of_getLast? hlatest))
  -- of the markers of the latest time the last one that was appended
  cases hlast : lastOccurrence?
      (fun a => a.bears asOf reader && a.timestamp == x.timestamp) batches.flatten with
  | none =>
    have hno := lastOccurrence?_eq_none_iff.1 hlast x hxmem
    rw [hx, beq_self_eq_true] at hno
    cases hno
  | some o =>
    obtain ⟨ho, hitem, hafter⟩ := lastOccurrence?_eq_some_iff.1 hlast
    rw [Bool.and_eq_true, beq_iff_eq] at hitem
    refine ⟨o, ho, hitem.1, fun a ha hab => ?_, fun a ha hab heq => ?_⟩
    · rw [ho] at ha
      rw [hitem.2]
      exact le_getLast?_of_mem hsort.ascending hlatest
        (hsort.perm.mem_iff.2 (List.mem_filter.2 ⟨ha, hab⟩))
    · have hno := hafter a ha
      rw [hab, heq, hitem.2, beq_self_eq_true] at hno
      cases hno

/-- **Deletion lasts until a touch that can be read, and so does being there until a deletion.**
After appends in any order of times, what is deleted as of a moment is deleted as of every later one
unless it is touched in between, and what is not deleted is not deleted later unless it is deleted
in between.  Only markers that the reader may read have a part in it: all else can be left out of
the appends.  Among several markers of the latest time the one that was appended last decides, and
without any marker the element is not deleted. -/
theorem isDeleted_persists (batches : List (List Mutation)) (reader : Reader) :
    let log := ofAppends batches
    (∀ t₁ t₂, NotLater t₁ t₂ →
        (log.isDeleted t₁ reader = true → ¬log.HasBetween (fun m => m.touch?.isSome) reader t₁ t₂ →
            log.isDeleted t₂ reader = true)
          ∧ (log.isDeleted t₁ reader = false → ¬log.HasBetween Mutation.isSoftDelete reader t₁ t₂ →
            log.isDeleted t₂ reader = false))
      ∧ (∀ asOf (kept : Mutation → Bool),
          (∀ m, m.isExistenceMarker = true → reader.canRead m.visibility = true → kept m = true) →
          (ofAppends (keepBatches kept batches)).isDeleted asOf reader = log.isDeleted asOf reader)
      ∧ (∀ asOf (o : Occurrence Mutation), o.list = batches.flatten → Decides asOf reader o →
          log.isDeleted asOf reader = o.item.isSoftDelete)
      ∧ ∀ asOf, (∃ o : Occurrence Mutation, o.list = batches.flatten ∧ Decides asOf reader o)
          ∨ (∀ m ∈ batches.flatten, m.bears asOf reader = false)
            ∧ log.isDeleted asOf reader = false := by
  intro log
  refine ⟨fun t₁ t₂ h => ⟨isDeleted_of_untouched h, not_isDeleted_of_undeleted h⟩,
    fun asOf kept hkept => ?_, fun asOf o => isDeleted_of_decides, fun asOf => ?_⟩
  · rw [← ofAppends_keep]
    refine isDeleted_keep fun m hm => ?_
    obtain ⟨hmarker, -, hread⟩ := Mutation.bears_iff.1 hm
    exact hkept m hmarker hread
  · by_cases hany : ∃ m ∈ batches.flatten, m.bears asOf reader = true
    · obtain ⟨m, hm, hbears⟩ := hany
      exact Or.inl (exists_decides hm hbears)
    · have hnone : ∀ m ∈ batches.flatten, m.bears asOf reader = false := fun m hm =>
        Bool.not_eq_true _ ▸ fun hbears => hany ⟨m, hm, hbears⟩
      have hnil : log.entries.filter (Mutation.bears asOf reader) = [] :=
        List.filter_eq_nil_iff.2 fun m hm =>
          Bool.not_eq_true _ ▸ hnone m (mem_ofAppends.1 hm)
      exact Or.inr ⟨hnone, by rw [isDeleted_eq_getLast?, hnil]; rfl⟩

/-- A deletion, then that the element was there before it, a touch that only the warden may read,
and a deletion and a touch at one time. -/
def lostAndFound : List (List Mutation) :=
  [[Mutation.softDelete 4], [Mutation.elementTimestamp 1],
    [(Mutation.elementTimestamp 6).withVisibility ⟨"warden"⟩],
    [Mutation.softDelete 9, Mutation.elementTimestamp 9]]

/-- For a stranger the element is deleted from time 4 on, also when the warden has found it, and
is there again from time 9 on. -/
theorem isDeleted_persists_lostAndFound :
    let log := ofAppends lostAndFound
    let stranger : Reader := .holding (.ofLabels [])
    let found : Occurrence Mutation := ⟨[Mutation.softDelete 4, Mutation.elementTimestamp 1,
      (Mutation.elementTimestamp 6).withVisibility ⟨"warden"⟩, Mutation.softDelete 9],
      Mutation.elementTimestamp 9, []⟩
    NotLater (some 4) (some 8) ∧ log.isDeleted (some 4) stranger = true
      ∧ ¬log.HasBetween (fun m => m.touch?.isSome) stranger (some 4) (some 8)
      ∧ log.isDeleted (some 8) stranger = true ∧ log.isDeleted (some 8) .all = false
      ∧ found.list = lostAndFound.flatten ∧ Decides (some 9) stranger found
      ∧ log.isDeleted (some 9) stranger = false
      ∧ NotLater (some 9) none ∧ ¬log.HasBetween Mutation.isSoftDelete stranger (some 9) none
      ∧ log.isDeleted none stranger = false
      ∧ (ofAppends (keepBatches (fun m => m.visibility.isEmpty) lostAndFound)).isDeleted (some 8)
          stranger = true := by
  intro log stranger found
  obtain ⟨hpersists, hkeep, hdecides, -⟩ := isDeleted_persists lostAndFound stranger
  have hlater : NotLater (some 4) (some 8) := (by decide : (4 : Timestamp) ≤ 8)
  have hdel : log.isDeleted (some 4) stranger = true := by decide
  have huntouched : ¬log.HasBetween (fun m => m.touch?.isSome) stranger (some 4) (some 8) := by
    decide
  have hfound : Decides (some 9) stranger found := ⟨by decide, by decide, by decide⟩
  have hundeleted : ¬log.HasBetween Mutation.isSoftDelete stranger (some 9) none := by decide
  have hstill := (hpersists _ _ hlater).1 hdel huntouched
  have hthere : log.isDeleted (some 9) stranger = false := hdecides (some 9) found rfl hfound
  refine ⟨hlater, hdel, huntouched, hstill, by decide, rfl, hfound, hthere, trivial, hundeleted,
    (hpersists _ none trivial).2 hthere hundeleted,
    (hkeep (some 8) _ fun m _ hread => ?_).trans hstill⟩
  rcases Reader.canRead_iff.1 hread with hempty | hgrant
  · exact Visibility.isEmpty_iff.2 hempty
  · cases hgrant

end Log

end Chronicle
