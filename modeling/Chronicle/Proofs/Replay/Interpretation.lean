import Chronicle.Proofs.Log.StableOrder
import Chronicle.Proofs.Occurrence
import Chronicle.Proofs.Replay.Failure

/-!
# What a replay records

What a script says is plain.  Its entries, in order, want records written: the first of an id the
two records that every element starts with, and each one those of its steps.  A time that a record
does not give is the clock's, which counts the times that were not given before it.  A replay into
an empty table is nothing more than that: each element has its records, by time, and those of equal
time as the script has them.

* `Script.writesOf`, `Script.moment`, `Script.recordsOf` : what a script says;
* `Session.Follows`, `Session.Follows.takesIn` : an element keeps up with what was said so far;
* `Table.Interprets`, `Table.Interprets.replayElement` : so does the table;
* `Table.replay_interprets` : what comes of a replay.
-/

namespace Chronicle

/-! ## What a script says -/

/-- Records that a script wants written, and to which element. -/
structure ScriptWrite where
  id : String
  pending : Pending

/-- What an entry wants written behind others.  An element is created by the first entry that has
its id. -/
def ScriptElement.writes (before : List ScriptElement) (item : ScriptElement) : List ScriptWrite :=
  (if before.any fun b => b.id == item.id then []
    else [⟨item.id, .birth item.visibility item.timestamp⟩])
    ++ (item.steps.filterMap ScriptStep.pending?).map fun p => ⟨item.id, p⟩

namespace Script

/-- What the entries want written, in order. -/
def writesOf (items : List ScriptElement) : List ScriptWrite :=
  (occurrences items).flatMap fun o => o.item.writes o.before

/-- How many of the writes give no time. -/
def omitted (writes : List ScriptWrite) : Nat :=
  writes.countP fun w => w.pending.timestamp.isNone

/-- What a clock shows that started at `start` and was read `n` times. -/
def tick (start : Timestamp) (n : Nat) : Timestamp := Int64.ofInt (start.toInt + n)

/-- The time of a write where it stands: the given one, or else that of a clock that is read for
each write that gives none. -/
def moment (start : Timestamp) (o : Occurrence ScriptWrite) : Timestamp :=
  o.item.pending.timestamp.getD (tick start (omitted o.before))

/-- The records that the writes make for one element, in order. -/
def recordsOf (start : Timestamp) (writes : List ScriptWrite) (id : String) : List Mutation :=
  (occurrences writes).flatMap fun o =>
    if o.item.id = id then o.item.pending.records (moment start o) else []

variable {start : Timestamp} {writes : List ScriptWrite} {id : String}

/-! ## One more entry, one more write -/

theorem writesOf_append_singleton (items : List ScriptElement) (item : ScriptElement) :
    writesOf (items ++ [item]) = writesOf items ++ item.writes items := by
  rw [writesOf, occurrences_append_singleton, List.flatMap_append, List.flatMap_map]
  simp only [List.flatMap_cons, List.flatMap_nil, List.append_nil]
  rfl

theorem omitted_append_singleton (writes : List ScriptWrite) (w : ScriptWrite) :
    omitted (writes ++ [w])
      = omitted writes + if w.pending.timestamp.isNone then 1 else 0 := by
  rw [omitted, List.countP_append, List.countP_singleton]
  rfl

theorem tick_succ (start : Timestamp) (n : Nat) : tick start n + 1 = tick start (n + 1) := by
  rw [tick, tick, Int.natCast_succ, ← Int.add_assoc, Int64.ofInt_add _ 1]
  rfl

theorem recordsOf_append_singleton (start : Timestamp) (writes : List ScriptWrite)
    (w : ScriptWrite) (id : String) :
    recordsOf start (writes ++ [w]) id
      = recordsOf start writes id
        ++ if w.id = id then w.pending.records (moment start ⟨writes, w, []⟩) else [] := by
  rw [recordsOf, occurrences_append_singleton, List.flatMap_append, List.flatMap_map]
  simp only [List.flatMap_cons, List.flatMap_nil, List.append_nil]
  rfl

/-- Writes to other elements make no records for this one. -/
theorem recordsOf_append_of_ne {more : List ScriptWrite} (h : ∀ w ∈ more, w.id ≠ id) :
    recordsOf start (writes ++ more) id = recordsOf start writes id := by
  induction more using List.reverseRecOn with
  | nil => rw [List.append_nil]
  | append_singleton more w ih =>
    have hw : w.id ≠ id := h w (by simp)
    rw [← List.append_assoc, recordsOf_append_singleton, if_neg hw, List.append_nil]
    exact ih fun a ha => h a (by simp [ha])

end Script

/-- An entry writes to its own element only. -/
theorem ScriptElement.id_of_mem_writes {before : List ScriptElement} {item : ScriptElement}
    {w : ScriptWrite} (h : w ∈ item.writes before) : w.id = item.id := by
  rcases List.mem_append.1 h with h | h
  · split at h
    · exact absurd h List.not_mem_nil
    · rw [List.mem_singleton.1 h]
  · obtain ⟨p, -, rfl⟩ := List.mem_map.1 h
    rfl

/-- There are no records for an element that no entry names. -/
theorem Script.recordsOf_of_unnamed {start : Timestamp} {items : List ScriptElement} {id : String}
    (h : ∀ item ∈ items, item.id ≠ id) : recordsOf start (writesOf items) id = [] := by
  have hnone : ∀ w ∈ writesOf items, w.id ≠ id := by
    intro w hw
    obtain ⟨o, ho, hmem⟩ := List.mem_flatMap.1 hw
    rw [ScriptElement.id_of_mem_writes hmem]
    refine h o.item ?_
    rw [← map_item_occurrences items]
    exact List.mem_map_of_mem ho
  have hrest : recordsOf start ([] ++ writesOf items) id = recordsOf start [] id :=
    recordsOf_append_of_ne hnone
  exact hrest

/-! ## An element keeps up -/

namespace Session

open Script

/-- The clock has been read as often as was needed so far, and the element has its records. -/
structure Follows (start : Timestamp) (writes : List ScriptWrite) (s : Session) : Prop where
  clock : s.engine.clock = .manual ⟨tick start (omitted writes), 1⟩
  log : IsStableSort s.element.log.entries (recordsOf start writes s.element.id.text)

variable {start : Timestamp} {writes : List ScriptWrite} {s s' : Session} {p : Pending}

/-- The time that a session gives to a record is the moment of the write, and its clock goes on if
it was read. -/
theorem stamp_of_clock (h : s.engine.clock = .manual ⟨tick start (omitted writes), 1⟩)
    (w : ScriptWrite) :
    s.engine.clock.stamp w.pending.timestamp
      = (moment start ⟨writes, w, []⟩, .manual ⟨tick start (omitted (writes ++ [w])), 1⟩) := by
  rw [h, omitted_append_singleton, moment]
  cases w.pending.timestamp with
  | some ts => rfl
  | none =>
    rw [if_pos (by rfl), ← tick_succ]
    rfl

/-- An element that takes in what is wanted next keeps up. -/
theorem Follows.takesIn (h : s.Follows start writes) (htakes : s.TakesIn p s') :
    s'.Follows start (writes ++ [⟨s.element.id.text, p⟩]) := by
  have hstamp := stamp_of_clock h.clock ⟨s.element.id.text, p⟩
  constructor
  · rw [htakes.clock, hstamp]
  · rw [htakes.id_eq, htakes.element, hstamp, recordsOf_append_singleton, if_pos rfl]
    exact isStableSort_extend h.log _

/-- So does one that takes all of an entry's steps. -/
theorem Follows.steps (h : s.Follows start writes) {steps : List ScriptStep}
    (hsteps : ∀ step ∈ steps, step.pending?.isSome) :
    let s' := steps.foldl (fun s step => (step.apply .all s).2) s
    s'.Follows start
        (writes ++ (steps.filterMap ScriptStep.pending?).map fun p => ⟨s.element.id.text, p⟩)
      ∧ s'.element.id = s.element.id ∧ s'.element.kind = s.element.kind := by
  induction steps generalizing s writes with
  | nil => exact ⟨by simpa using h, rfl, rfl⟩
  | cons step rest ih =>
    obtain ⟨p, hp⟩ := Option.isSome_iff_exists.1 (hsteps step (by simp))
    obtain ⟨s₁, heq, htakes⟩ := ScriptStep.apply_of_pending? hp .all s
    obtain ⟨hfollows, hid, hkind⟩ := ih (h.takesIn htakes) fun a ha => hsteps a (by simp [ha])
    rw [htakes.id_eq] at hfollows hid
    rw [htakes.kind_eq] at hkind
    rw [List.append_assoc, List.singleton_append] at hfollows
    rw [List.foldl_cons, heq, List.filterMap_cons_some hp, List.map_cons]
    exact ⟨hfollows, hid, hkind⟩

end Session

/-! ## The table keeps up -/

namespace Table

open Script

/-- The clock has been read as often as was needed so far, and the table has the elements that were
named so far, each with the kind of its first entry and with its records. -/
structure Interprets (start : Timestamp) (items : List ScriptElement) (t : Table) : Prop where
  clock : t.engine.clock = .manual ⟨tick start (omitted (writesOf items)), 1⟩
  kinds (id : ElementId) : (t.elements.get? id).map Element.kind
    = (items.find? fun item => item.id == id.text).map ScriptElement.kind
  ids {id : ElementId} {e : Element} : t.elements.get? id = some e → e.id = id
  logs {id : ElementId} {e : Element} : t.elements.get? id = some e →
    IsStableSort e.log.entries (recordsOf start (writesOf items) id.text)

variable {start : Timestamp} {items : List ScriptElement} {item : ScriptElement} {t : Table}

/-- Before the first entry the table is empty. -/
theorem interprets_empty {engine : Engine} (h : engine.clock = .manual (.ticking start)) :
    (empty engine).Interprets start [] := by
  have hstart : tick start 0 = start := by
    rw [tick, Int.natCast_zero, Int.add_zero, Int64.ofInt_toInt]
  refine ⟨?_, fun id => rfl, nofun, nofun⟩
  show engine.clock = .manual ⟨tick start 0, 1⟩
  rw [h, hstart]
  rfl

/-- An entry works on the element that is there, or on one that is created for it. -/
theorem Interprets.getOrCreate (h : t.Interprets start items) (id : ElementId)
    (hid : item.id = id.text) :
    ∃ e t₁, t.getOrCreate item.id item.kind item.visibility item.timestamp = .ok (e, t₁)
      ∧ e.id = id
      ∧ some e.kind = ((items ++ [item]).find? fun i => i.id == id.text).map ScriptElement.kind
      ∧ (∀ id', id' ≠ id → t₁.elements.get? id' = t.elements.get? id')
      ∧ (⟨t₁.engine, e⟩ : Session).Follows start (writesOf items
        ++ if items.any fun b => b.id == item.id then []
          else [⟨item.id, .birth item.visibility item.timestamp⟩]) := by
  have hkinds := h.kinds id
  rw [List.find?_append, hid, ← List.isSome_find?]
  cases hget : t.elements.get? id with
  | some e =>
    rw [hget, Option.map_some] at hkinds
    obtain ⟨first, hfirst, hkind⟩ := Option.map_eq_some_iff.1 hkinds.symm
    have hown := h.ids hget
    refine ⟨e, t, t.getOrCreate_hit _ _ _ hget, hown, ?_, fun _ _ => rfl, ?_⟩
    · rw [hfirst, Option.some_or, Option.map_some, hkind]
    · rw [hfirst, Option.isSome_some, if_pos rfl, List.append_nil]
      refine ⟨h.clock, ?_⟩
      rw [hown]
      exact h.logs hget
  | none =>
    rw [hget, Option.map_none, eq_comm, Option.map_eq_none_iff] at hkinds
    have hnone : recordsOf start (writesOf items) id.text = [] :=
      recordsOf_of_unnamed fun b hb => by simpa using List.find?_eq_none.1 hkinds b hb
    -- an element with nothing in its log keeps up with what is said of others
    have hblank : (⟨t.engine, ⟨id, item.kind, .empty⟩⟩ : Session).Follows start
        (writesOf items) := by
      refine ⟨h.clock, ?_⟩
      rw [hnone]
      exact ⟨List.Pairwise.nil, List.Perm.refl _, fun _ => rfl⟩
    have htakes := takesIn_newborn t.engine id item.kind item.visibility item.timestamp
    have hborn := hblank.takesIn htakes
    refine ⟨_, _, t.getOrCreate_miss _ _ _ hget, htakes.id_eq, ?_, ?_, ?_⟩
    · rw [hkinds, Option.none_or, List.find?_cons_of_pos (by simp [hid]), Option.map_some,
        htakes.kind_eq]
    · intro id' hne
      show (t.elements.insert _ _).get? id' = _
      rw [OrderedMap.get?_insert_of_ne _ _ (by rwa [htakes.id_eq])]
    · rw [hkinds, Option.isSome_none, if_neg (by simp)]
      exact ⟨hborn.clock, hborn.log⟩

/-- A table that gets back an element that keeps up, with the others as they were, keeps up. -/
theorem Interprets.commit (h : t.Interprets start items) {t₁ : Table} {s : Session} {id : ElementId}
    (hid : item.id = id.text) (hown : s.element.id = id)
    (hkind : some s.element.kind
      = ((items ++ [item]).find? fun i => i.id == id.text).map ScriptElement.kind)
    (hothers : ∀ id', id' ≠ id → t₁.elements.get? id' = t.elements.get? id')
    (hfollows : s.Follows start (writesOf (items ++ [item]))) :
    (t₁.commit s).Interprets start (items ++ [item]) := by
  have hget : ∀ id', (t₁.commit s).elements.get? id'
      = if id' = id then some s.element else t.elements.get? id' := by
    intro id'
    show (t₁.elements.insert s.element.id s.element).get? id' = _
    rw [OrderedMap.get?_insert, hown]
    split
    · rfl
    · next hne => exact hothers id' hne
  have hother : ∀ {id'}, id' ≠ id → item.id ≠ id'.text := by
    intro id' hne heq
    exact hne (ElementId.text_injective (heq.symm.trans hid))
  refine ⟨hfollows.clock, ?_, ?_, ?_⟩
  · intro id'
    rw [hget]
    split
    · next hsame =>
      subst hsame
      exact hkind
    · next hne =>
      rw [h.kinds, List.find?_append, List.find?_cons, beq_eq_false_iff_ne.2 (hother hne),
        List.find?_nil, Option.or_none]
  · intro id' e' he'
    rw [hget] at he'
    split at he'
    · next hsame =>
      cases he'
      exact hown.trans hsame.symm
    · exact h.ids he'
  · intro id' e' he'
    rw [hget] at he'
    split at he'
    · next hsame =>
      cases he'
      rw [hsame, ← hown]
      exact hfollows.log
    · next hne =>
      -- what the entry wants written is none of this element's business
      rw [writesOf_append_singleton, recordsOf_append_of_ne]
      · exact h.logs he'
      · intro w hw heq
        rw [ScriptElement.id_of_mem_writes hw] at heq
        exact hother hne heq

/-- A table that an entry is replayed into keeps up. -/
theorem Interprets.replayElement (h : t.Interprets start items) (hnamed : item.IsNamed)
    (hsteps : ∀ step ∈ item.steps, step.pending?.isSome) :
    (t.replayElement item).2.Interprets start (items ++ [item]) := by
  obtain ⟨e, t₁, hcreate, hown, hkind, hothers, hfollows⟩ :=
    h.getOrCreate ⟨item.id, hnamed⟩ rfl
  obtain ⟨hdone, hdoneId, hdoneKind⟩ := hfollows.steps hsteps
  rw [replayElement_of_created hcreate]
  refine h.commit rfl (hdoneId.trans hown) ?_ hothers ?_
  · rw [hdoneKind]
    exact hkind
  · rw [writesOf_append_singleton, ScriptElement.writes, ← List.append_assoc]
    rwa [hown] at hdone

theorem Interprets.mem_ids (h : t.Interprets start items) {id : ElementId} :
    id ∈ t.ids ↔ ∃ item ∈ items, item.id = id.text := by
  rw [Table.ids, OrderedMap.mem_keys_iff, ← Option.isSome_map, h.kinds, Option.isSome_map,
    List.isSome_find?, List.any_eq_true]
  simp

/-- A table that was empty keeps up with all entries that are replayed into it. -/
theorem interprets_replayed {engine : Engine} (hclock : engine.clock = .manual (.ticking start))
    (hnamed : ∀ item ∈ items, item.IsNamed)
    (hsteps : ∀ item ∈ items, ∀ step ∈ item.steps, step.pending?.isSome) :
    ((empty engine).replayed items).Interprets start items := by
  induction items using List.reverseRecOn with
  | nil => exact interprets_empty hclock
  | append_singleton items item ih =>
    have hitems := ih (fun a ha => hnamed a (by simp [ha])) fun a ha => hsteps a (by simp [ha])
    rw [replayed, List.foldl_append]
    exact hitems.replayElement (hnamed item (by simp)) (hsteps item (by simp))

end Table

/-- Only deleting a property for good writes no record. -/
theorem ScriptStep.isSome_pending?_iff {step : ScriptStep} :
    step.pending?.isSome ↔ ∀ key name v, step ≠ .deleteProperty key name v := by
  cases step <;> simp [pending?]

/-- Times that are not given are one after the other from the start on. -/
theorem Script.toInt_moment {start : Timestamp} {writes : List ScriptWrite}
    (hfits : start.toInt + omitted writes ≤ Int64.maxValue.toInt) {o : Occurrence ScriptWrite}
    (ho : o ∈ occurrences writes) (hnone : o.item.pending.timestamp = none) :
    (moment start o).toInt = start.toInt + omitted o.before := by
  have hcount : omitted o.before ≤ omitted writes :=
    ((List.prefix_append _ _).trans (isPrefix_of_mem_occurrences ho)).sublist.countP_le
  have hlow := start.le_toInt
  rw [Int64.toInt_maxValue] at hfits
  rw [moment, hnone, Option.getD_none, tick, Int64.toInt_ofInt_of_le (by omega) (by omega)]

/-- **A replay into an empty table records what the script says.**  The clock starts at `start` and
goes one further at each reading, and does not overflow.  Every entry has an id, and no property is
deleted for good.  Then all entries and steps are replayed.  The table has the elements that are
named, each of the kind of its first entry.  The log of each lists the records that the script wants
written to it, by time and those of equal time in the order of the script, and the times that the
script leaves out are one after the other from `start` on. -/
theorem Table.replay_interprets (script : Script) (engine : Engine) (start : Timestamp)
    (hclock : engine.clock = .manual (.ticking start))
    (hnamed : ∀ item ∈ script.elements, item.id ≠ "")
    (hkeeps : ∀ item ∈ script.elements, ∀ key name v,
      ScriptStep.deleteProperty key name v ∉ item.steps)
    (hfits : start.toInt + Script.omitted (Script.writesOf script.elements)
      ≤ Int64.maxValue.toInt) :
    let r := (Table.empty engine).replay script
    let writes := Script.writesOf script.elements
    r.1 = .ok ⟨script.elements.length, (script.elements.map fun item => item.steps.length).sum⟩
      ∧ (∀ id, id ∈ r.2.ids.map ElementId.text ↔ ∃ item ∈ script.elements, item.id = id)
      ∧ (∀ before item after, script.elements = before ++ item :: after →
          (∀ b ∈ before, b.id ≠ item.id) →
            ∃ e, r.2.get? item.id = some e ∧ e.id.text = item.id ∧ e.kind = item.kind
              ∧ e.log.entries = sortByTime (Script.recordsOf start writes item.id))
      ∧ ∀ o ∈ occurrences writes, o.item.pending.timestamp = none →
          (Script.moment start o).toInt = start.toInt + Script.omitted o.before := by
  intro r writes
  have hsteps : ∀ item ∈ script.elements, ∀ step ∈ item.steps, step.pending?.isSome := by
    intro item hitem step hstep
    refine ScriptStep.isSome_pending?_iff.2 fun key name v heq => ?_
    rw [heq] at hstep
    exact hkeeps item hitem key name v hstep
  have hreplay : r = _ := (Table.empty engine).replay_of_named hnamed
  have hinterprets := interprets_replayed hclock hnamed hsteps
  rw [hreplay]
  refine ⟨rfl, ?_, ?_, fun o ho hnone => Script.toInt_moment hfits ho hnone⟩
  · intro id
    rw [List.mem_map]
    constructor
    · rintro ⟨i, hi, rfl⟩
      exact hinterprets.mem_ids.1 hi
    · rintro ⟨item, hitem, rfl⟩
      exact ⟨⟨item.id, hnamed item hitem⟩, hinterprets.mem_ids.2 ⟨item, hitem, rfl⟩, rfl⟩
  · intro before item after hsplit hbefore
    have hid : item.id ≠ "" := hnamed item (by simp [hsplit])
    have hkinds := hinterprets.kinds ⟨item.id, hid⟩
    have hfirst : script.elements.find? (fun i => i.id == item.id) = some item := by
      rw [hsplit, List.find?_append, List.find?_eq_none.2 fun b hb => by simpa using hbefore b hb]
      simp
    rw [hfirst, Option.map_some, Option.map_eq_some_iff] at hkinds
    obtain ⟨e, he, hkind⟩ := hkinds
    refine ⟨e, ?_, ?_, hkind, (hinterprets.logs he).eq_sortByTime⟩
    · rw [get?_of_ne _ hid]
      exact he
    · rw [hinterprets.ids he]

/-- A deed that is hidden from the clerk before it was drawn up, a court that was there before it,
and the deed again, of another kind and with another label. -/
def landRegister : Script :=
  ⟨[⟨"deed", .vertex, ⟨"clerk"⟩, none,
      [.setValue ⟨"title", "", ⟨"clerk"⟩⟩ (.str "meadow") .empty none,
        .hideProperty ⟨"title", "", ⟨"clerk"⟩⟩ ⟨"judge"⟩ (some 4),
        .touch none]⟩,
    ⟨"court", .edge, .empty, some 3, [.alterEdgeLabel "hears" none]⟩,
    ⟨"deed", .edge, ⟨"public"⟩, none,
      [.annotate ⟨"title", "", ⟨"clerk"⟩⟩ .empty none, .softDelete (some 11)]⟩]⟩

/-- The deed keeps its kind and its label, and takes no time for itself when it comes again. -/
theorem Table.replay_interprets_landRegister :
    let engine : Engine := ⟨.manual (.ticking 10), .nothing, none, "", 0⟩
    let r := (Table.empty engine).replay landRegister
    let writes := Script.writesOf landRegister.elements
    (10 : Timestamp).toInt + Script.omitted writes ≤ Int64.maxValue.toInt
      ∧ r.1 = .ok ⟨3, 6⟩
      ∧ (∀ id, id ∈ r.2.ids.map ElementId.text ↔ ∃ item ∈ landRegister.elements, item.id = id)
      ∧ Script.recordsOf 10 writes "deed"
        = [.elementTimestamp 10, .alterVisibility 10 ⟨"clerk"⟩,
          .property ⟨11, ⟨"title", "", ⟨"clerk"⟩⟩, .setValue (.str "meadow") .empty⟩,
          .property ⟨4, ⟨"title", "", ⟨"clerk"⟩⟩, .hide ⟨"judge"⟩⟩,
          .elementTimestamp 12,
          .property ⟨14, ⟨"title", "", ⟨"clerk"⟩⟩, .annotate .empty⟩,
          .softDelete 11]
      ∧ ∃ deed, r.2.get? "deed" = some deed ∧ deed.kind = .vertex
        ∧ deed.log.entries = sortByTime (Script.recordsOf 10 writes "deed") := by
  intro engine r writes
  have hfits : (10 : Timestamp).toInt + Script.omitted writes ≤ Int64.maxValue.toInt := by
    decide +kernel
  obtain ⟨hsummary, hids, helements, -⟩ := Table.replay_interprets landRegister engine 10 rfl
    (by decide) (by simp [landRegister]) hfits
  obtain ⟨deed, hget, -, hkind, hlog⟩ := helements [] _ _ rfl nofun
  exact ⟨hfits, hsummary, hids, by decide +kernel, deed, hget, hkind, hlog⟩

end Chronicle
