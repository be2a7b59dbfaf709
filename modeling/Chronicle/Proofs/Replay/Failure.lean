import Mathlib.Algebra.GroupWithZero.Nat
import Mathlib.Data.List.Induction
import Chronicle.Proofs.Table.Creation

/-!
# Where a replay ends

A replay can fail on one thing only, an entry with the empty text for an id.  It then ends before
anything is done for that entry, and what was done for the entries before it stays done, as if they
had been all of the script.  Steps do not fail: those that look at a property look at it as it is
stored, so that no reference is ever followed.

* `replayElement_of_empty`, `replayElement_of_named` : what comes of one entry;
* `replayFrom_of_named`, `replayFrom_append` : what comes of many;
* `replay_fails_iff_unnamed` : where a replay ends.
-/

namespace Chronicle

/-- The entries of a script that have an id. -/
def ScriptElement.IsNamed (item : ScriptElement) : Prop := item.id ≠ ""

/-- What is counted when all entries are replayed. -/
def ReplaySummary.ofElements (items : List ScriptElement) : ReplaySummary :=
  ⟨items.length, (items.map fun item => item.steps.length).sum⟩

namespace Table

variable {t : Table} {item : ScriptElement}

/-- The table after each entry was replayed as far as it could be. -/
def replayed (t : Table) (items : List ScriptElement) : Table :=
  items.foldl (fun t item => (t.replayElement item).2) t

/-! ## One entry -/

/-- An entry without an id is refused, and nothing is done for it. -/
theorem replayElement_of_empty (t : Table) (h : item.id = "") :
    t.replayElement item = (.error .emptyElementId, t) := by
  rw [replayElement, h, getOrCreate_of_empty]

/-- The steps of an entry are all taken, on the element that is there or is created for it. -/
theorem replayElement_of_created {t₁ : Table} {e : Element}
    (h : t.getOrCreate item.id item.kind item.visibility item.timestamp = .ok (e, t₁)) :
    t.replayElement item
      = (.ok (), t₁.commit
          (item.steps.foldl (fun s step => (step.apply .all s).2) ⟨t₁.engine, e⟩)) := by
  simp only [replayElement, h, ScriptStep.applyAll_eq]

/-- An entry with an id is replayed. -/
theorem replayElement_of_named (t : Table) (h : item.IsNamed) :
    ∃ t', t.replayElement item = (.ok (), t') := by
  obtain ⟨e, t₁, hcreate⟩ := t.exists_getOrCreate item.kind item.visibility item.timestamp h
  exact ⟨_, replayElement_of_created hcreate⟩

/-! ## All entries -/

theorem replayFrom_of_named (t : Table) (done : ReplaySummary) {items : List ScriptElement}
    (h : ∀ item ∈ items, item.IsNamed) :
    replayFrom done t items
      = (.ok ⟨done.elements + (ReplaySummary.ofElements items).elements,
            done.steps + (ReplaySummary.ofElements items).steps⟩,
          t.replayed items) := by
  induction items generalizing t done with
  | nil => rfl
  | cons item rest ih =>
    obtain ⟨t', heq⟩ := t.replayElement_of_named (h item (by simp))
    have hrest := ih t' ⟨done.elements + 1, done.steps + item.steps.length⟩
      fun a ha => h a (by simp [ha])
    rw [replayFrom, heq]
    show replayFrom _ t' rest = _
    rw [hrest, replayed, replayed, List.foldl_cons, heq]
    simp only [ReplaySummary.ofElements, List.length_cons, List.map_cons, List.sum_cons]
    congr 3 <;> omega

/-- The entries behind some that have ids are replayed after those. -/
theorem replayFrom_append (t : Table) (done : ReplaySummary) {items : List ScriptElement}
    (h : ∀ item ∈ items, item.IsNamed) (rest : List ScriptElement) :
    ∃ done', replayFrom done t (items ++ rest) = replayFrom done' (t.replayed items) rest := by
  induction items generalizing t done with
  | nil => exact ⟨done, rfl⟩
  | cons item items ih =>
    obtain ⟨t', heq⟩ := t.replayElement_of_named (h item (by simp))
    obtain ⟨done', hrest⟩ := ih t' ⟨done.elements + 1, done.steps + item.steps.length⟩
      fun a ha => h a (by simp [ha])
    refine ⟨done', ?_⟩
    rw [List.cons_append, replayFrom, heq, replayed, List.foldl_cons, heq]
    exact hrest

/-- A script in which every entry has an id is replayed. -/
theorem replay_of_named (t : Table) {items : List ScriptElement}
    (h : ∀ item ∈ items, item.IsNamed) :
    t.replay ⟨items⟩ = (.ok (.ofElements items), t.replayed items) := by
  rw [replay, replayFrom_of_named t ⟨0, 0⟩ h, Nat.zero_add, Nat.zero_add]

/-- A replay ends at the first entry without an id. -/
theorem replay_of_unnamed (t : Table) {before after : List ScriptElement} {bad : ScriptElement}
    (h : ∀ item ∈ before, item.IsNamed) (hbad : bad.id = "") :
    t.replay ⟨before ++ bad :: after⟩ = (.error .emptyElementId, t.replayed before) := by
  obtain ⟨done, heq⟩ := replayFrom_append t ⟨0, 0⟩ h (bad :: after)
  rw [replay, heq, replayFrom, replayElement_of_empty _ hbad]

end Table

/-- The first of the entries without an id has only entries with ids before it. -/
theorem exists_first_unnamed {items : List ScriptElement} (h : ∃ item ∈ items, item.id = "") :
    ∃ before bad after, items = before ++ bad :: after ∧ bad.id = ""
      ∧ ∀ item ∈ before, item.IsNamed := by
  induction items with
  | nil =>
    obtain ⟨item, hmem, -⟩ := h
    exact absurd hmem List.not_mem_nil
  | cons item rest ih =>
    by_cases hitem : item.id = ""
    · exact ⟨[], item, rest, rfl, hitem, by simp⟩
    · obtain ⟨unnamed, hmem, hunnamed⟩ := h
      have hrest : unnamed ∈ rest := by
        rcases List.mem_cons.1 hmem with rfl | hrest
        · exact absurd hunnamed hitem
        · exact hrest
      obtain ⟨before, bad, after, rfl, hbad, hbefore⟩ := ih ⟨unnamed, hrest, hunnamed⟩
      refine ⟨item :: before, bad, after, rfl, hbad, ?_⟩
      intro a ha
      rcases List.mem_cons.1 ha with rfl | ha
      · exact hitem
      · exact hbefore a ha

/-- **A replay fails on an entry without an id, and on nothing else.**  The error says that an
argument was invalid.  The table is then what it is after a replay of the entries before the first
such entry, which succeeds.  No step fails, whatever the element's log holds, wherever values are
loaded from and whoever the step is taken for. -/
theorem Table.replay_fails_iff_unnamed (t : Table) (script : Script) :
    ((∃ e, (t.replay script).1 = .error e) ↔ ∃ item ∈ script.elements, item.id = "")
      ∧ (∀ e, (t.replay script).1 = .error e → e.kind = .invalid)
      ∧ (∀ before bad after, script.elements = before ++ bad :: after →
          (∀ item ∈ before, item.id ≠ "") → bad.id = "" →
            (t.replay ⟨before⟩).1 = .ok (.ofElements before)
              ∧ (t.replay script).2 = (t.replay ⟨before⟩).2)
      ∧ ∀ (step : ScriptStep) (reader : Reader) (s : Session),
          (step.apply reader s).1 = .ok () := by
  obtain ⟨items⟩ := script
  have hnamed : (¬∃ item ∈ items, item.id = "") →
      (t.replay ⟨items⟩).1 = .ok (.ofElements items) := by
    intro h
    rw [t.replay_of_named fun item hmem hid => h ⟨item, hmem, hid⟩]
  have hunnamed : (∃ item ∈ items, item.id = "") →
      (t.replay ⟨items⟩).1 = .error .emptyElementId := by
    intro h
    obtain ⟨before, bad, after, rfl, hbad, hbefore⟩ := exists_first_unnamed h
    rw [t.replay_of_unnamed hbefore hbad]
  refine ⟨⟨?_, ?_⟩, ?_, ?_, ?_⟩
  · rintro ⟨e, he⟩
    by_contra hno
    rw [hnamed hno] at he
    cases he
  · intro h
    exact ⟨_, hunnamed h⟩
  · intro e he
    by_cases h : ∃ item ∈ items, item.id = ""
    · rw [hunnamed h] at he
      cases he
      rfl
    · rw [hnamed h] at he
      cases he
  · intro before bad after hitems hbefore hbad
    obtain rfl : items = before ++ bad :: after := hitems
    rw [t.replay_of_named hbefore, t.replay_of_unnamed hbefore hbad]
    exact ⟨rfl, rfl⟩
  · intro step reader s
    exact step.apply_fst reader s

/-- A memo whose scan is nowhere to be found, is hidden, and is deleted for good; an entry that has
no id; and a letter. -/
def correspondence : Script :=
  ⟨[⟨"memo", .vertex, .empty, none,
      [.setValue ⟨"scan", "", .empty⟩ (.ref ⟨7, 3, 0, false⟩) .empty none,
        .hideProperty ⟨"scan", "", .empty⟩ ⟨"board"⟩ (some 2),
        .deleteProperty "" "scan" none,
        .softDelete none]⟩,
    ⟨"", .edge, ⟨"staff"⟩, none, [.touch none]⟩,
    ⟨"letter", .vertex, .empty, none, []⟩]⟩

/-- The memo is replayed, with all of its steps, and nothing else is. -/
theorem Table.replay_fails_correspondence :
    let t := Table.empty ⟨.manual (.ticking 5), .nothing, none, "", 0⟩
    let memo : Script := ⟨correspondence.elements.take 1⟩
    (∃ e, (t.replay correspondence).1 = .error e ∧ e.kind = .invalid)
      ∧ (t.replay memo).1 = .ok ⟨1, 4⟩
      ∧ (t.replay correspondence).2 = (t.replay memo).2
      ∧ (t.replay correspondence).2.engine.clock = .manual ⟨8, 1⟩
      ∧ (t.replay correspondence).2.ids.map ElementId.text = ["memo"]
      ∧ ((t.replay correspondence).2.get? "memo").map (·.log.entries)
        = some [.elementTimestamp 5, .alterVisibility 5 .empty, .softDelete 7] := by
  intro t memo
  obtain ⟨hfails, hkind, hbefore, -⟩ := t.replay_fails_iff_unnamed correspondence
  obtain ⟨e, he⟩ := hfails.2 ⟨⟨"", .edge, ⟨"staff"⟩, none, [.touch none]⟩, by decide, rfl⟩
  obtain ⟨hmemo, hsame⟩ := hbefore memo.elements _ _ rfl (by decide) rfl
  refine ⟨⟨e, he, hkind e he⟩, hmemo, hsame, ?_⟩
  decide +kernel

end Chronicle
