import Mathlib
import Chronicle.Proofs.Counters.Calls
import Chronicle.Proofs.Table.Run

/-!
# Counters balance with what is stored

Several tables may share one set of counters.  Elements are registered in a table, dropped from it
and still held by whoever was handed them, or created without a table; each of them is written to,
read and has properties deleted.  However all this is mixed, what was appended less what was removed
is what the logs of all elements hold, and every other counter is the number of calls that answered
what it counts.

* `OrderedMap.weigh_insert_of_some`, `weigh_erase` : sums over a map when one entry changes;
* `Site.accounts_on` : each call of a table keeps the books of the table;
* `Works.Balanced.call` : each call keeps the shared counters in balance;
* `Works.counters_balance` : so does every run.
-/

namespace Chronicle

universe u v

/-! ## Sums -/

namespace OrderedMap

variable {κ : Type u} {ν : Type v} [Ord κ] {k : κ} {v old : ν}

/-- The sum of what the values weigh. -/
def weigh (g : ν → Nat) (m : OrderedMap κ ν) : Nat := (m.values.map g).sum

/-- A pair whose key is not listed is added to the list. -/
theorem perm_place {l : List (κ × ν)} (h : find? k l = none) :
    (place k v l).Perm ((k, v) :: l) := by
  induction l with
  | nil => exact List.Perm.refl _
  | cons e rest ih =>
    obtain ⟨k', v'⟩ := e
    rw [find?] at h
    split at h
    · cases h
    · next hne =>
      rw [place]
      split
      · exact List.Perm.refl _
      · next heq => exact absurd heq hne
      · exact ((ih h).cons (k', v')).trans (List.Perm.swap (k, v) (k', v') rest)

variable [Std.TransOrd κ]

theorem weigh_insert_of_none (g : ν → Nat) {m : OrderedMap κ ν} (h : m.get? k = none) :
    (m.insert k v).weigh g = m.weigh g + g v := by
  have hperm : ((m.insert k v).entries.map (·.2)).Perm (v :: m.values) := (perm_place h).map _
  unfold weigh
  rw [show (m.insert k v).values = (m.insert k v).entries.map (·.2) from rfl,
    (hperm.map g).sum_eq, List.map_cons, List.sum_cons]
  omega

variable [Std.LawfulEqOrd κ] [DecidableEq κ]

/-- What is erased from a map is all that is missing. -/
theorem weigh_erase (g : ν → Nat) (m : OrderedMap κ ν) (k : κ) :
    (m.erase k).weigh g + ((m.get? k).map g).getD 0 = m.weigh g := by
  have hgone : (m.erase k).get? k = none := by rw [get?_erase, if_pos rfl]
  cases hget : m.get? k with
  | none =>
    have hsame : m.erase k = m := by
      refine ext_get? fun k' => ?_
      rw [get?_erase]
      split
      · next heq => rw [heq, hget]
      · rfl
    rw [hsame]
    rfl
  | some old =>
    have hback : (m.erase k).insert k old = m := by
      refine ext_get? fun k' => ?_
      rw [get?_insert, get?_erase]
      split
      · next heq => rw [heq, hget]
      · rfl
    have hweigh := weigh_insert_of_none (v := old) g hgone
    rw [hback] at hweigh
    exact hweigh.symm

/-- A value that takes the place of another weighs in for it. -/
theorem weigh_insert_of_some (g : ν → Nat) {m : OrderedMap κ ν} (h : m.get? k = some old) :
    (m.insert k v).weigh g + g old = m.weigh g + g v := by
  have hgone : (m.erase k).get? k = none := by rw [get?_erase, if_pos rfl]
  have hafresh : (m.erase k).insert k v = m.insert k v := by
    refine ext_get? fun k' => ?_
    rw [get?_insert, get?_insert, get?_erase]
    split <;> rfl
  have hinsert := weigh_insert_of_none (v := v) g hgone
  have herase := weigh_erase g m k
  rw [hafresh] at hinsert
  rw [h, Option.map_some, Option.getD_some] at herase
  omega

end OrderedMap

/-- An item that takes the place of another weighs in for it. -/
theorem sum_map_set {α : Type u} (g : α → Nat) {l : List α} {k : Nat} {a : α} (h : l[k]? = some a)
    (b : α) : ((l.set k b).map g).sum + g a = (l.map g).sum + g b := by
  induction l generalizing k with
  | nil => cases h
  | cons x rest ih =>
    rcases k with _ | k
    · cases h
      simp only [List.set_cons_zero, List.map_cons, List.sum_cons]
      omega
    · have hrest := ih (k := k) h
      simp only [List.set_cons_succ, List.map_cons, List.sum_cons]
      omega

/-! ## Tables with all their elements -/

/-- A table, and the elements that were dropped from it or created without it, which are still
served by its engine. -/
structure Site where
  table : Table
  strays : List Element

/-- A call of a table, or of one of its elements. -/
inductive SiteCall : Type 1 where
  | getOrCreate (id : String) (kind : ElementKind) (v : Visibility) (ts : Option Timestamp)
  | create (id : String) (kind : ElementKind)
  | remove (id : String)
  | read {α : Type} (id : String) (m : Materializer α) (v : View)
  /-- A call of the element that stands under the id. -/
  | registered (id : String) (call : ElementCall)
  /-- A call of an element that no table has. -/
  | stray (n : Nat) (call : ElementCall)
  /-- Time goes by, and what can be loaded changes. -/
  | meanwhile (clock : Clock) (loader : Loader)

namespace Site

/-- All elements, registered or not. -/
def elements (s : Site) : List Element := s.table.elements.values ++ s.strays

/-- The sum of what all elements weigh. -/
def weigh (g : Element → Nat) (s : Site) : Nat := s.table.elements.weigh g + (s.strays.map g).sum

/-- How many records an element has. -/
def records (e : Element) : Nat := e.log.length

/-- The answer to the call, and the site after it. -/
def on (s : Site) : SiteCall → Answer × Site
  | .getOrCreate id kind v ts =>
    match s.table.getOrCreate id kind v ts with
    | .ok (e, t) => (.handed (.ok e) (s.table.get? id).isNone, { s with table := t })
    | .error cause => (.handed (.error cause) false, s)
  | .create id kind =>
    match Element.create id kind with
    | .ok e => (.created (.ok e), { s with strays := s.strays ++ [e] })
    | .error cause => (.created (.error cause), s)
  | .remove id =>
    (.dropped (s.table.remove id).1,
      ⟨(s.table.remove id).2, s.strays ++ (s.table.remove id).1.toList⟩)
  | .read id m v => (.made (s.table.read id m v).1, { s with table := (s.table.read id m v).2 })
  | .registered id call =>
    match s.table.session? id with
    | none => (.silent, s)
    | some session =>
      ((call.on session).1, { s with table := s.table.commit (call.on session).2 })
  | .stray n call =>
    match s.strays[n]? with
    | none => (.silent, s)
    | some e =>
      let session := (call.on ⟨s.table.engine, e⟩).2
      ((call.on ⟨s.table.engine, e⟩).1,
        ⟨{ s.table with engine := session.engine }, s.strays.set n session.element⟩)
  | .meanwhile clock loader =>
    (.silent, { s with table := { s.table with engine := { s.table.engine with clock, loader } } })

/-- A call that answered `a` kept the ids, lost no element and kept the books. -/
structure Accounts (s : Site) (a : Answer) (s' : Site) : Prop where
  keepsIds : s'.table.KeepsIds
  population : s'.weigh (fun _ => 1) = s.weigh (fun _ => 1) + if a.creates then 1 else 0
  books : ∀ c, s.table.engine.counters = some c → ∃ c', s'.table.engine.counters = some c'
    ∧ Counters.Books a (s.weigh records) (s'.weigh records) c c'

variable {s : Site} {a : Answer} {id : String} {e : Element} {session : Session}

theorem weigh_eq (g : Element → Nat) (s : Site) : s.weigh g = (s.elements.map g).sum := by
  rw [elements, List.map_append, List.sum_append]
  rfl

/-- A call that leaves a site as it is keeps the books if its answer is idle. -/
theorem accounts_same (h : s.table.KeepsIds) (ha : a.isIdle = true) (hcreates : a.creates = false) :
    s.Accounts a s where
  keepsIds := h
  population := by rw [hcreates]; rfl
  books c hc := ⟨c, hc, .of_onlyFolds _ ha (.refl c)⟩

end Site

/-- The books of one log are the books of all logs when the others do not change. -/
theorem Counters.Books.widen {a : Answer} {m n before after : Nat} {c c' : Counters}
    (h : Books a m n c c') (hwhole : after + m = before + n) : Books a before after c c' := by
  obtain ⟨balance, created, appends, reads, entries, made, idle⟩ := h
  refine ⟨?_, created, appends, reads, entries, made, idle⟩
  omega

/-- A call on an element brings no other into being. -/
theorem ElementCall.creates_on (call : ElementCall) (s : Session) :
    (call.on s).1.creates = false := by
  cases call <;> rfl

namespace Table

variable {t : Table}

theorem KeepsIds.commit (h : t.KeepsIds) (s : Session) : (t.commit s).KeepsIds := by
  intro id e he
  rw [get?_commit] at he
  by_cases hid : id = s.element.id.text
  · subst hid
    rw [Function.update_self] at he
    cases he
    rfl
  · rw [Function.update_of_ne hid] at he
    exact h he

theorem KeepsIds.remove (h : t.KeepsIds) (id : String) : (t.remove id).2.KeepsIds := by
  intro id' e he
  rw [get?_remove] at he
  by_cases hid : id' = id
  · subst hid
    rw [Function.update_self] at he
    cases he
  · rw [Function.update_of_ne hid] at he
    exact h he

/-- An element that is found under a text stands under its own id. -/
theorem KeepsIds.get?_id (h : t.KeepsIds) {id : String} {e : Element} (he : t.get? id = some e) :
    t.elements.get? e.id = some e := by
  rw [← h he, get?_text] at he
  exact he

/-- What a table loses by a removal is what it hands over. -/
theorem weigh_remove (g : Element → Nat) (t : Table) (id : String) :
    (t.remove id).2.elements.weigh g + ((t.remove id).1.toList.map g).sum = t.elements.weigh g := by
  unfold remove
  cases ElementId.ofString id with
  | error cause => rfl
  | ok eid =>
    have herase := t.elements.weigh_erase g eid
    show (t.elements.erase eid).weigh g + ((t.elements.get? eid).toList.map g).sum = _
    cases hget : t.elements.get? eid with
    | none =>
      rw [hget] at herase
      exact herase
    | some e =>
      rw [hget] at herase
      simpa using herase

end Table

namespace Site

variable {s : Site} {a : Answer} {id : String} {e : Element} {session : Session}

/-- Work on one element keeps the books of its site if every other element stays as it is. -/
theorem accounts_of_one {s' : Site} (h : s'.table.KeepsIds) (hcreates : a.creates = false)
    (hwork : Session.Accounts ⟨s.table.engine, e⟩ a session)
    (hengine : s'.table.engine = session.engine)
    (hweigh : ∀ g, s'.weigh g + g e = s.weigh g + g session.element) : s.Accounts a s' where
  keepsIds := h
  population := by
    have hone := hweigh fun _ => 1
    rw [hcreates]
    simpa using hone
  books c hc := by
    obtain ⟨c', hc', hb⟩ := hwork.2 c hc
    rw [hengine]
    exact ⟨c', hc', hb.widen (hweigh records)⟩

theorem accounts_commit (h : s.table.KeepsIds) (hget : s.table.get? id = some e)
    (hwork : Session.Accounts ⟨s.table.engine, e⟩ a session) (hcreates : a.creates = false) :
    s.Accounts a { s with table := s.table.commit session } := by
  have hid : session.element.id = e.id := hwork.1
  refine accounts_of_one (h.commit session) hcreates hwork rfl fun g => ?_
  have hinsert := OrderedMap.weigh_insert_of_some (v := session.element) g (h.get?_id hget)
  rw [← hid] at hinsert
  simp only [weigh, Table.commit]
  omega

/-- An element is registered with two records, which are one append. -/
theorem accounts_newborn (h : s.table.KeepsIds) {eid : ElementId} (kind : ElementKind)
    (v : Visibility) (ts : Option Timestamp) (hget : s.table.elements.get? eid = none) :
    let session := Table.newborn s.table.engine eid kind v ts
    s.Accounts (.handed (.ok session.element) true)
      ⟨s.table.commit { session with engine := session.engine.note .elementCreated },
        s.strays⟩ := by
  intro session
  have hid : session.element.id = eid :=
    (Table.takesIn_newborn s.table.engine eid kind v ts).id_eq
  have hrecords : records session.element = 2 :=
    congrArg List.length (Table.entries_newborn s.table.engine eid kind v ts)
  have hweigh : ∀ g engine, weigh g ⟨s.table.commit ⟨engine, session.element⟩, s.strays⟩
      = s.weigh g + g session.element := by
    intro g engine
    have hinsert := OrderedMap.weigh_insert_of_none (v := session.element) g hget
    rw [← hid] at hinsert
    simp only [weigh, Table.commit]
    omega
  constructor
  · exact h.commit _
  · rw [hweigh]
    rfl
  · intro c hc
    refine ⟨(c.record (.appended 2)).record .elementCreated, ?_, ?_⟩
    · show Option.map _ session.engine.counters = _
      rw [Table.engine_newborn]
      show Option.map _ (Option.map _ s.table.engine.counters) = _
      rw [hc]
      rfl
    · rw [hweigh, hrecords]
      refine ⟨?_, rfl, rfl, rfl, rfl, rfl, fun hidle => by cases hidle⟩
      show c.mutationsAppended + 2 + c.mutationsRemoved + s.weigh records
        = c.mutationsAppended + c.mutationsRemoved + (s.weigh records + 2)
      omega

theorem accounts_getOrCreate (h : s.table.KeepsIds) (id : String) (kind : ElementKind)
    (v : Visibility) (ts : Option Timestamp) :
    s.Accounts (s.on (.getOrCreate id kind v ts)).1 (s.on (.getOrCreate id kind v ts)).2 := by
  by_cases hid : id = ""
  · subst hid
    rw [on, Table.getOrCreate_of_empty]
    exact accounts_same h rfl rfl
  · obtain ⟨eid, rfl⟩ : ∃ eid : ElementId, eid.text = id := ⟨⟨id, hid⟩, rfl⟩
    cases hget : s.table.elements.get? eid with
    | some e =>
      rw [on, Table.getOrCreate_hit s.table kind v ts hget]
      dsimp only
      rw [Table.get?_text, hget]
      exact accounts_same h rfl rfl
    | none =>
      rw [on, Table.getOrCreate_miss s.table kind v ts hget]
      dsimp only
      rw [Table.get?_text, hget]
      exact accounts_newborn h kind v ts hget

/-- An element that is created by itself has no record. -/
theorem accounts_create (h : s.table.KeepsIds) (id : String) (kind : ElementKind) :
    s.Accounts (s.on (.create id kind)).1 (s.on (.create id kind)).2 := by
  rw [on, Element.create]
  cases ElementId.ofString id with
  | error cause => exact accounts_same h rfl rfl
  | ok eid =>
    have hweigh : ∀ g, ({ s with strays := s.strays ++ [⟨eid, kind, .empty⟩] } : Site).weigh g
        = s.weigh g + g ⟨eid, kind, .empty⟩ := by
      intro g
      unfold weigh
      rw [List.map_append, List.sum_append, List.map_singleton, List.sum_singleton]
      exact (Nat.add_assoc _ _ _).symm
    refine ⟨h, hweigh _, fun c hc => ⟨c, hc, ?_⟩⟩
    show Counters.Books _ _ (Site.weigh records { s with strays := _ }) c c
    rw [hweigh]
    exact .of_onlyFolds _ rfl (.refl c)

/-- An element that is dropped from a table is kept by whoever holds it. -/
theorem accounts_remove (h : s.table.KeepsIds) (id : String) :
    s.Accounts (s.on (.remove id)).1 (s.on (.remove id)).2 := by
  have hweigh : ∀ g, (s.on (.remove id)).2.weigh g = s.weigh g := by
    intro g
    have hremove := s.table.weigh_remove g id
    simp only [on, weigh, List.map_append, List.sum_append]
    omega
  have hengine : (s.table.remove id).2.engine = s.table.engine := by
    unfold Table.remove
    cases ElementId.ofString id <;> rfl
  refine ⟨h.remove id, hweigh _, fun c hc => ⟨c, ?_, ?_⟩⟩
  · show (s.table.remove id).2.engine.counters = _
    rw [hengine, hc]
  · rw [hweigh]
    exact .of_onlyFolds _ rfl (.refl c)

/-- A read of a table makes an element, or leaves the table as it is. -/
theorem accounts_read {α : Type} (h : s.table.KeepsIds) (id : String) (m : Materializer α)
    (v : View) : s.Accounts (s.on (.read id m v)).1 (s.on (.read id m v)).2 := by
  rw [on, Table.read, Table.session?]
  cases hget : s.table.get? id with
  | none => exact accounts_same h rfl rfl
  | some e =>
    simp only [Option.map_some]
    split
    · exact accounts_commit h hget (Session.accounts_materialize ⟨s.table.engine, e⟩ m v) rfl
    · exact accounts_same h rfl rfl

theorem accounts_stray (h : s.table.KeepsIds) (n : Nat) (call : ElementCall) :
    s.Accounts (s.on (.stray n call)).1 (s.on (.stray n call)).2 := by
  cases hn : s.strays[n]? with
  | none =>
    rw [on, hn]
    exact accounts_same h rfl rfl
  | some e =>
    have hwork := call.accounts_on ⟨s.table.engine, e⟩
    have hcreates := call.creates_on ⟨s.table.engine, e⟩
    have hon : s.on (.stray n call)
        = ((call.on ⟨s.table.engine, e⟩).1,
          ⟨⟨(call.on ⟨s.table.engine, e⟩).2.engine, s.table.elements⟩,
            s.strays.set n (call.on ⟨s.table.engine, e⟩).2.element⟩) := by
      rw [on, hn]
    rw [hon]
    generalize call.on ⟨s.table.engine, e⟩ = r at hwork hcreates ⊢
    refine accounts_of_one h hcreates hwork rfl fun g => ?_
    have hset := sum_map_set g hn r.2.element
    simp only [weigh]
    omega

/-- **Each call of a table keeps its books.** -/
theorem accounts_on (h : s.table.KeepsIds) (call : SiteCall) :
    s.Accounts (s.on call).1 (s.on call).2 := by
  cases call with
  | getOrCreate id kind v ts => exact accounts_getOrCreate h id kind v ts
  | create id kind => exact accounts_create h id kind
  | remove id => exact accounts_remove h id
  | read id m v => exact accounts_read h id m v
  | registered id call =>
    rw [on, Table.session?]
    cases hget : s.table.get? id with
    | none => exact accounts_same h rfl rfl
    | some e => exact accounts_commit h hget (call.accounts_on _) (call.creates_on _)
  | stray n call => exact accounts_stray h n call
  | meanwhile clock loader =>
    exact ⟨h, rfl, fun c hc => ⟨c, hc, .of_onlyFolds _ rfl (.refl c)⟩⟩

end Site

/-! ## Tables that share their counters -/

/-- Counters, and the tables that share them. -/
structure Works where
  counters : Counters
  sites : List Site

namespace Works

/-- The site with the counters in its engine. -/
def lend (c : Counters) (s : Site) : Site :=
  { s with table := { s.table with engine := { s.table.engine with counters := some c } } }

/-- Tables without elements, and counters that have counted nothing. -/
def fresh (engines : List Engine) : Works := ⟨.zero, engines.map fun g => ⟨.empty g, []⟩⟩

/-- The answer to a call of the table with this number, and everything after it.  The counters are
lent to the table for the call. -/
def call (w : Works) (k : Nat) (call : SiteCall) : Answer × Works :=
  match w.sites[k]? with
  | none => (.silent, w)
  | some s =>
    let (a, s') := (lend w.counters s).on call
    (a, ⟨s'.table.engine.counters.getD w.counters, w.sites.set k s'⟩)

/-- The answers to some calls, and everything after them. -/
def run (w : Works) (calls : List (Nat × SiteCall)) : List Answer × Works :=
  calls.foldl (fun r c => (r.1 ++ [(r.2.call c.1 c.2).1], (r.2.call c.1 c.2).2)) ([], w)

/-- All elements that ever came into being. -/
def elements (w : Works) : List Element := w.sites.flatMap Site.elements

/-- The sum of what all elements weigh. -/
def weigh (g : Element → Nat) (w : Works) : Nat := (w.sites.map (Site.weigh g)).sum

/-- The counters are what is stored, and what was answered. -/
structure Balanced (answers : List Answer) (w : Works) : Prop where
  keepsIds : ∀ s ∈ w.sites, s.table.KeepsIds
  population : w.weigh (fun _ => 1) = answers.countP Answer.creates
  balance : w.counters.mutationsAppended = w.counters.mutationsRemoved + w.weigh Site.records
  elementsCreated : w.counters.elementsCreated = answers.countP Answer.registers
  appendCalls : w.counters.appendCalls = answers.countP Answer.appends
  historyReads : w.counters.historyReads = answers.countP Answer.tells
  historyEntries : w.counters.historyEntries = (answers.map Answer.entries).sum
  elementsMaterialized : w.counters.elementsMaterialized = answers.countP Answer.makes

variable {w : Works} {answers : List Answer}

theorem run_append_singleton (w : Works) (calls : List (Nat × SiteCall)) (c : Nat × SiteCall) :
    w.run (calls ++ [c])
      = ((w.run calls).1 ++ [((w.run calls).2.call c.1 c.2).1],
        ((w.run calls).2.call c.1 c.2).2) := by
  rw [run, List.foldl_append]
  rfl

theorem weigh_eq (g : Element → Nat) (w : Works) : w.weigh g = (w.elements.map g).sum := by
  unfold weigh elements
  induction w.sites with
  | nil => rfl
  | cons s rest ih =>
    rw [List.map_cons, List.sum_cons, ih, List.flatMap_cons, List.map_append, List.sum_append,
      s.weigh_eq]

/-- Nothing is stored in fresh tables. -/
theorem weigh_fresh (g : Element → Nat) (engines : List Engine) : (fresh engines).weigh g = 0 := by
  unfold weigh fresh
  rw [List.map_map]
  refine List.sum_eq_zero fun n hn => ?_
  obtain ⟨engine, -, rfl⟩ := List.mem_map.1 hn
  rfl

theorem balanced_fresh (engines : List Engine) : (fresh engines).Balanced [] where
  keepsIds s hs := by
    obtain ⟨g, -, rfl⟩ := List.mem_map.1 hs
    intro id e he
    cases hid : ElementId.ofString id <;> simp [Table.get?, hid, Table.empty] at he
  population := weigh_fresh _ engines
  balance := by
    rw [weigh_fresh]
    rfl
  elementsCreated := rfl
  appendCalls := rfl
  historyReads := rfl
  historyEntries := rfl
  elementsMaterialized := rfl

/-- What a call does to the table that it is made of, it does to the whole. -/
structure Accounts (w : Works) (a : Answer) (w' : Works) : Prop where
  keepsIds : ∀ s ∈ w'.sites, s.table.KeepsIds
  population : w'.weigh (fun _ => 1) = w.weigh (fun _ => 1) + if a.creates then 1 else 0
  books : Counters.Books a (w.weigh Site.records) (w'.weigh Site.records) w.counters w'.counters

theorem accounts_call (h : ∀ s ∈ w.sites, s.table.KeepsIds) (k : Nat) (call : SiteCall) :
    w.Accounts (w.call k call).1 (w.call k call).2 := by
  cases hk : w.sites[k]? with
  | none =>
    rw [Works.call, hk]
    exact ⟨h, rfl, .of_onlyFolds _ rfl (.refl _)⟩
  | some s =>
    have hs : s.table.KeepsIds := h s (List.mem_of_getElem? hk)
    obtain ⟨hids, hpopulation, hbooks⟩ :=
      Site.accounts_on (s := lend w.counters s) (fun he => hs he) call
    obtain ⟨c', hc', hb⟩ := hbooks w.counters rfl
    have hcall : w.call k call
        = (((lend w.counters s).on call).1,
          ⟨c', w.sites.set k ((lend w.counters s).on call).2⟩) := by
      rw [Works.call, hk]
      dsimp only
      rw [hc', Option.getD_some]
    rw [hcall]
    generalize (lend w.counters s).on call = r at hids hpopulation hb ⊢
    have hweigh : ∀ g, weigh g ⟨c', w.sites.set k r.2⟩ + s.weigh g = w.weigh g + r.2.weigh g :=
      fun g => sum_map_set (Site.weigh g) hk r.2
    constructor
    · intro s' hs'
      rcases List.mem_or_eq_of_mem_set hs' with hold | rfl
      · exact h s' hold
      · exact hids
    · have hone := hweigh fun _ => 1
      have hlent : (lend w.counters s).weigh (fun _ => 1) = s.weigh fun _ => 1 := rfl
      rw [hlent] at hpopulation
      dsimp only
      omega
    · exact hb.widen (hweigh Site.records)

/-- Each call keeps the counters in balance. -/
theorem Balanced.call (h : w.Balanced answers) (k : Nat) (call : SiteCall) :
    (w.call k call).2.Balanced (answers ++ [(w.call k call).1]) := by
  obtain ⟨hids, hpopulation, hbooks⟩ := accounts_call h.keepsIds k call
  generalize w.call k call = r at hids hpopulation hbooks ⊢
  have hbalance := hbooks.balance
  constructor
  · exact hids
  · rw [hpopulation, h.population, List.countP_append, List.countP_singleton]
  · have hbefore := h.balance
    omega
  · rw [hbooks.elementsCreated, h.elementsCreated, List.countP_append, List.countP_singleton]
  · rw [hbooks.appendCalls, h.appendCalls, List.countP_append, List.countP_singleton]
  · rw [hbooks.historyReads, h.historyReads, List.countP_append, List.countP_singleton]
  · rw [hbooks.historyEntries, h.historyEntries, List.map_append, List.sum_append,
      List.map_singleton, List.sum_singleton]
  · rw [hbooks.elementsMaterialized, h.elementsMaterialized, List.countP_append,
      List.countP_singleton]

theorem balanced_run (engines : List Engine) (calls : List (Nat × SiteCall)) :
    ((fresh engines).run calls).2.Balanced ((fresh engines).run calls).1 := by
  induction calls using List.reverseRecOn with
  | nil => exact balanced_fresh engines
  | append_singleton calls c ih =>
    rw [run_append_singleton]
    exact ih.call c.1 c.2

/-- **The counters balance with what is stored.**  After every run what was appended less what was
removed is the number of records in the logs of all elements, no element that came into being is
lost, and the other counters are the number of calls that answered what they count.  A call that
fails, or finds or adds nothing, leaves all of these counters alone. -/
theorem counters_balance (engines : List Engine) (calls : List (Nat × SiteCall)) :
    let answers := ((fresh engines).run calls).1
    let w := ((fresh engines).run calls).2
    w.counters.mutationsAppended
        = w.counters.mutationsRemoved + (w.elements.map fun e => e.log.length).sum
      ∧ w.elements.length = answers.countP Answer.creates
      ∧ w.counters.elementsCreated = answers.countP Answer.registers
      ∧ w.counters.appendCalls = answers.countP Answer.appends
      ∧ w.counters.historyReads = answers.countP Answer.tells
      ∧ w.counters.historyEntries = (answers.map Answer.entries).sum
      ∧ w.counters.elementsMaterialized = answers.countP Answer.makes
      ∧ ∀ k call, (w.call k call).1.isIdle = true →
          w.counters.OnlyFolds (w.call k call).2.counters := by
  intro answers w
  have h : w.Balanced answers := balanced_run engines calls
  have hpopulation : w.elements.length = w.weigh fun _ => 1 := by
    rw [weigh_eq]
    simp
  refine ⟨?_, hpopulation.trans h.population, h.elementsCreated, h.appendCalls, h.historyReads,
    h.historyEntries, h.elementsMaterialized, fun k call hidle => ?_⟩
  · have hbalance := h.balance
    rw [weigh_eq] at hbalance
    exact hbalance
  · exact (accounts_call h.keepsIds k call).books.idle hidle

/-- Two tables are worked on.  Some calls find nothing, add nothing or are refused; the first
element is dropped from its table and still read, and the other never was in one. -/
def errands : List (Nat × SiteCall) :=
  let plan : PropertyIdentity := ⟨"plan", "k", .empty⟩
  [(0, .getOrCreate "a" .vertex .empty (some 1)),
    (0, .getOrCreate "a" .edge .empty none),
    (1, .getOrCreate "" .vertex .empty none),
    (1, .create "b" .edge),
    (1, .stray 0 (.append [])),
    (1, .stray 0 (.write (some 5) Mutation.elementTimestamp)),
    (0, .registered "a" (.write (some 2) fun ts => .property ⟨ts, plan, .setValue .null .empty⟩)),
    (0, .registered "a" (.history .any .all .all)),
    (0, .registered "a" (.deleteProperty ⟨some "k", some "price", none⟩ .all)),
    (0, .registered "a" (.deleteProperty ⟨some "k", some "plan", none⟩ .all)),
    (0, .remove "a"),
    (0, .stray 0 (.materialize ElementState.toVertex ⟨.all, none, .all⟩)),
    (0, .stray 0 (.materialize ElementState.toEdge ⟨.all, none, .all⟩))]

example :
    let w := ((fresh [⟨.manual (.still 0), .nothing, none, "", 0⟩,
      ⟨.manual (.ticking 7), .nothing, none, "", 0⟩]).run errands).2
    w.counters = ⟨1, 4, 3, 1, 1, 0, 1, 1, 1⟩ ∧ w.elements.map (fun e => e.log.length) = [2, 1] := by
  decide +kernel

end Works

end Chronicle
