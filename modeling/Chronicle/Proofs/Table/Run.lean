import Mathlib.Logic.Function.Basic
import Chronicle.Proofs.Occurrence
import Chronicle.Proofs.Table.Creation

/-!
# Runs of a table

A table is worked on by calls, and its elements by whoever was handed them.  What the calls do is
said of a registry, which has an engine and, under some texts, elements.

* `Registry.Takes` : what a call answers and does to a registry;
* `Table.takes_on` : a call answers this and does this to a table;
* `ElementWrite.on_spec` : what writing to an element leaves alone.
-/

namespace Chronicle

/-! ## Writing to elements -/

/-- What may be written to an element: records of any kind, or a step as some reader takes it. -/
inductive ElementWrite where
  | records (batch : List Mutation)
  | step (taken : ScriptStep) (reader : Reader)

namespace ElementWrite

/-- The session after the write. -/
def on (s : Session) : ElementWrite → Session
  | records batch => (s.append batch).2
  | step taken reader => (taken.apply reader s).2

/-- Writing to an element leaves its id and its kind alone, and takes no record of the element
itself out of the log. -/
theorem on_spec (w : ElementWrite) (s : Session) :
    (w.on s).element.id = s.element.id ∧ (w.on s).element.kind = s.element.kind
      ∧ ∀ r, Mutation.element r ∈ s.element.log.entries →
        Mutation.element r ∈ (w.on s).element.log.entries := by
  cases w with
  | records batch => exact ⟨rfl, rfl, fun r hr => Log.mem_extend.2 (Or.inr hr)⟩
  | step taken reader =>
    obtain ⟨s', heq, hspec⟩ := taken.apply_spec reader s
    rw [on, heq]
    cases hp : taken.pending? with
    | some p =>
      rw [hp] at hspec
      refine ⟨hspec.id_eq, hspec.kind_eq, fun r hr => ?_⟩
      rw [hspec.element]
      exact Log.mem_extend.2 (Or.inr hr)
    | none =>
      rw [hp] at hspec
      refine ⟨hspec.id_eq, hspec.kind_eq, fun r hr => ?_⟩
      -- only records of properties are dropped
      rcases hspec.element with he | ⟨i, he⟩
      · rw [he]
        exact hr
      · rw [he]
        exact List.mem_filter.2 ⟨hr, rfl⟩

end ElementWrite

/-! ## Calls -/

/-- A call of a table, or a write to an element that it handed out. -/
inductive TableCall where
  | getOrCreate (id : String) (kind : ElementKind) (v : Visibility) (ts : Option Timestamp)
  | get (id : String)
  | remove (id : String)
  | ids
  | size
  /-- A write to the element that stands under the text. -/
  | write (id : String) (w : ElementWrite)
  /-- Whatever else goes on, such as a write to an element that was removed: it has no part in the
  table but the engine. -/
  | elsewhere (change : Engine → Engine)

/-- A write to an element that the table does not have. -/
def TableCall.writeRemoved (e : Element) (w : ElementWrite) : TableCall :=
  .elsewhere fun g => (w.on ⟨g, e⟩).engine

/-- What a call answers. -/
inductive TableAnswer where
  | handed (outcome : Except Error Element)
  | found (element : Option Element)
  | removed (element : Option Element)
  | listed (ids : List ElementId)
  | counted (n : Nat)
  | done

/-- The answer to a request for an element and the table after it; one that fails leaves the table
as it is. -/
def TableCall.settle (t : Table) : Except Error (Element × Table) → TableAnswer × Table
  | .ok (e, t') => (.handed (.ok e), t')
  | .error cause => (.handed (.error cause), t)

/-- The answer to the call and the table after it. -/
def TableCall.on (t : Table) : TableCall → TableAnswer × Table
  | getOrCreate id kind v ts => settle t (t.getOrCreate id kind v ts)
  | get id => (.found (t.get? id), t)
  | remove id => (.removed (t.remove id).1, (t.remove id).2)
  | ids => (.listed t.ids, t)
  | size => (.counted t.size, t)
  | write id w => (.done, t.update id fun s => w.on s)
  | elsewhere change => (.done, { t with engine := change t.engine })

/-! ## Registries -/

/-- An engine, and an element under each of some texts. -/
structure Registry where
  engine : Engine
  element : String → Option Element

/-- What a call answers and does to a registry. -/
inductive Registry.Takes (r : Registry) : TableCall → TableAnswer → Registry → Prop
  /-- The empty text is refused, and nothing changes. -/
  | refuse {kind v ts cause} (hcause : cause.kind = .invalid) :
    r.Takes (.getOrCreate "" kind v ts) (.handed (.error cause)) r
  /-- An element that is there is handed out as it is, and nothing changes. -/
  | hit {id kind v ts e} (hthere : r.element id = some e) :
    r.Takes (.getOrCreate id kind v ts) (.handed (.ok e)) r
  /-- An element that is not there is created.  Its log has two records of one time, given or else
  read off the clock, and the two events are counted. -/
  | miss {id kind v ts τ clock e} (hid : id ≠ "") (hmissing : r.element id = none)
    (hstamp : r.engine.clock.stamp ts = (τ, clock)) (htext : e.id.text = id)
    (hkind : e.kind = kind)
    (hlog : e.log.entries = [.elementTimestamp τ, .alterVisibility τ v]) :
    r.Takes (.getOrCreate id kind v ts) (.handed (.ok e))
      ⟨({ r.engine with clock }.note (.appended 2)).note .elementCreated,
        Function.update r.element id (some e)⟩
  | get {id} : r.Takes (.get id) (.found (r.element id)) r
  | remove {id} : r.Takes (.remove id) (.removed (r.element id))
    { r with element := Function.update r.element id none }
  /-- The ids are listed in order, each once. -/
  | ids {l} (hascending : l.Pairwise fun a b : ElementId => a.text < b.text)
    (hmem : ∀ id, id ∈ l.map ElementId.text ↔ (r.element id).isSome) : r.Takes .ids (.listed l) r
  /-- There are as many elements as ids. -/
  | size {l} (hlisted : r.Takes .ids (.listed l) r) : r.Takes .size (.counted l.length) r
  | write {id w e} (hthere : r.element id = some e) :
    r.Takes (.write id w) .done
      ⟨(w.on ⟨r.engine, e⟩).engine,
        Function.update r.element id (some (w.on ⟨r.engine, e⟩).element)⟩
  | writeNothing {id w} (hmissing : r.element id = none) : r.Takes (.write id w) .done r
  | elsewhere {change} : r.Takes (.elsewhere change) .done { r with engine := change r.engine }

namespace Table

variable {t : Table}

/-- The table as a registry. -/
def registry (t : Table) : Registry := ⟨t.engine, t.get?⟩

/-- Each element stands under its own id. -/
def KeepsIds (t : Table) : Prop := ∀ {id e}, t.get? id = some e → e.id.text = id

theorem get?_commit (t : Table) (s : Session) :
    (t.commit s).get? = Function.update t.get? s.element.id.text (some s.element) := by
  funext id
  by_cases hid : id = ""
  · subst hid
    rw [Function.update_of_ne s.element.id.nonempty.symm]
    rfl
  · rw [get?_of_ne _ hid]
    show (t.elements.insert s.element.id s.element).get? ⟨id, hid⟩ = _
    by_cases hown : id = s.element.id.text
    · subst hown
      rw [Function.update_self, OrderedMap.get?_insert_self]
    · rw [Function.update_of_ne hown, get?_of_ne _ hid, OrderedMap.get?_insert_of_ne]
      intro heq
      exact hown (congrArg ElementId.text heq)

theorem get?_remove (t : Table) (id : String) :
    (t.remove id).2.get? = Function.update t.get? id none := by
  by_cases hid : id = ""
  · subst hid
    exact (Function.update_eq_self "" t.get?).symm
  · funext id'
    by_cases hid' : id' = ""
    · subst hid'
      rw [Function.update_of_ne (Ne.symm hid)]
      rfl
    · rw [remove, ElementId.ofString_of_ne hid, get?_of_ne _ hid']
      show (t.elements.erase ⟨id, hid⟩).get? ⟨id', hid'⟩ = _
      rw [OrderedMap.get?_erase]
      by_cases hsame : id' = id
      · subst hsame
        rw [if_pos rfl, Function.update_self]
      · rw [Function.update_of_ne hsame, get?_of_ne _ hid', if_neg]
        intro heq
        exact hsame (congrArg ElementId.text heq)

theorem fst_remove (t : Table) (id : String) : (t.remove id).1 = t.get? id := by
  rw [remove, get?]
  cases ElementId.ofString id <;> rfl

/-- The ids are listed in the order of their texts. -/
theorem ids_ascending (t : Table) : t.ids.Pairwise fun a b => a.text < b.text :=
  t.elements.keys_ascending.imp fun h => compareOfLessAndEq_eq_lt.1 h

theorem mem_ids_iff {id : String} : id ∈ t.ids.map ElementId.text ↔ (t.get? id).isSome := by
  rw [List.mem_map]
  constructor
  · rintro ⟨i, hi, rfl⟩
    rw [get?_text]
    exact OrderedMap.mem_keys_iff.1 hi
  · intro h
    by_cases hid : id = ""
    · subst hid
      cases h
    · rw [get?_of_ne _ hid] at h
      exact ⟨⟨id, hid⟩, OrderedMap.mem_keys_iff.2 h, rfl⟩

/-- A table in which an element was created, as a registry. -/
theorem registry_commit_newborn (t : Table) (id : ElementId) (kind : ElementKind) (v : Visibility)
    (ts : Option Timestamp) :
    let s := newborn t.engine id kind v ts
    (t.commit { s with engine := s.engine.note .elementCreated }).registry
      = ⟨({ t.engine with clock := (t.engine.clock.stamp ts).2 }.note (.appended 2)).note
            .elementCreated,
          Function.update t.get? id.text (some s.element)⟩ := by
  intro s
  have hid : s.element.id = id := (takesIn_newborn t.engine id kind v ts).id_eq
  rw [registry, get?_commit]
  show Registry.mk (s.engine.note .elementCreated) (Function.update _ s.element.id.text _) = _
  rw [hid, engine_newborn]

/-- A call answers and does to a table what it does to a registry. -/
theorem takes_on (h : t.KeepsIds) (c : TableCall) :
    t.registry.Takes c (c.on t).1 (c.on t).2.registry := by
  have hids : t.registry.Takes .ids (.listed t.ids) t.registry :=
    .ids t.ids_ascending fun _ => mem_ids_iff
  cases c with
  | getOrCreate id kind v ts =>
    by_cases hid : id = ""
    · subst hid
      exact .refuse rfl
    · obtain ⟨eid, rfl⟩ : ∃ eid : ElementId, eid.text = id := ⟨⟨id, hid⟩, rfl⟩
      cases hget : t.elements.get? eid with
      | some e =>
        rw [TableCall.on, getOrCreate_hit t kind v ts hget]
        exact .hit ((t.get?_text eid).trans hget)
      | none =>
        have htakes := takesIn_newborn t.engine eid kind v ts
        rw [TableCall.on, getOrCreate_miss t kind v ts hget, TableCall.settle,
          registry_commit_newborn]
        exact .miss hid ((t.get?_text eid).trans hget) rfl (congrArg _ htakes.id_eq)
          htakes.kind_eq (entries_newborn ..)
  | get id => exact .get
  | remove id =>
    have hengine : (t.remove id).2.engine = t.engine := by
      rw [remove]
      cases ElementId.ofString id <;> rfl
    have hafter : (t.remove id).2.registry
        = { t.registry with element := Function.update t.get? id none } := by
      rw [registry, hengine, get?_remove]
      rfl
    rw [TableCall.on, fst_remove, hafter]
    exact .remove
  | ids => exact hids
  | size =>
    have hsize : t.size = t.ids.length := (List.length_map ..).symm
    rw [TableCall.on, hsize]
    exact .size hids
  | write id w =>
    rw [TableCall.on, update, session?]
    cases hget : t.get? id with
    | none => exact .writeNothing hget
    | some e =>
      have hid : (w.on ⟨t.engine, e⟩).element.id.text = id := by
        rw [(w.on_spec _).1]
        exact h hget
      have hafter : (t.commit (w.on ⟨t.engine, e⟩)).registry
          = ⟨(w.on ⟨t.engine, e⟩).engine,
            Function.update t.get? id (some (w.on ⟨t.engine, e⟩).element)⟩ := by
        rw [registry, get?_commit, hid]
        rfl
      show t.registry.Takes _ _ (t.commit (w.on ⟨t.engine, e⟩)).registry
      rw [hafter]
      exact .write hget
  | elsewhere change => exact .elsewhere

end Table

end Chronicle
