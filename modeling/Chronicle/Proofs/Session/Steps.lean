import Chronicle.Replay

/-!
# What a step does

A step either puts one record into the log, at the time that it gives or else at one reading of the
clock, or it drops records of one property and leaves the clock alone.  Three kinds of steps look at
a property first.  They look at it as it is stored, so nothing has to be loaded and nothing can be
missing: no step fails, whatever the log holds and wherever values are loaded from.

* `Session.TakesIn`, `Session.Drops` : what comes of a session in either case;
* `ScriptStep.apply_spec` : which of the two a step does;
* `ScriptStep.applyAll_eq` : steps one after the other.
-/

namespace Chronicle

/-! ## Times -/

/-- The given time, or else a reading, and the clock after it. -/
def Clock.stamp (c : Clock) : Option Timestamp → Timestamp × Clock
  | some ts => (ts, c)
  | none => c.now

namespace Engine

/-- Of an engine only the clock has a part in a time. -/
theorem stamp_eq (g : Engine) (ts : Option Timestamp) :
    g.stamp ts = ((g.clock.stamp ts).1, { g with clock := (g.clock.stamp ts).2 }) := by
  cases ts <;> rfl

theorem clock_noteAll (g : Engine) (events : List Event) :
    (g.noteAll events).clock = g.clock := by
  induction events generalizing g with
  | nil => rfl
  | cons e rest ih => exact ih (g.note e)

/-- Counting events changes the counters and nothing else. -/
theorem noteAll_eq (g : Engine) (events : List Event) :
    g.noteAll events = { g with counters := g.counters.map fun c => events.foldl Counters.record c }
    := by
  induction events generalizing g with
  | nil => cases hc : g.counters <;> cases g <;> simp_all [noteAll]
  | cons e rest ih =>
    rw [noteAll, List.foldl_cons]
    refine (ih (g.note e)).trans ?_
    rw [note, Option.map_map]
    rfl

end Engine

/-! ## Two things that can come of a session -/

/-- Records that wait for their time, which is given or else read off the clock. -/
structure Pending where
  timestamp : Option Timestamp
  records : Timestamp → List Mutation

/-- A property as it is stored can be looked at without fail. -/
theorem Log.firstStored_eq (log : Log) (f : PropertyFilter) (reader : Reader) :
    log.firstStored f reader
      = .ok (log.properties ⟨.allIncludingHidden, none, reader⟩ f).head? := by
  rw [firstStored, pulled]
  cases log.properties ⟨.allIncludingHidden, none, reader⟩ f <;> rfl

namespace Session

/-- The records are in the log, all at one time, and the clock was read for it if need be. -/
structure TakesIn (s : Session) (p : Pending) (s' : Session) : Prop where
  element : s'.element
    = { s.element with
        log := s.element.log.extend (p.records (s.engine.clock.stamp p.timestamp).1) }
  clock : s'.engine.clock = (s.engine.clock.stamp p.timestamp).2

/-- Nothing is gone, or all records of one property are, and the clock was not read. -/
structure Drops (s s' : Session) : Prop where
  element : s'.element = s.element
    ∨ ∃ i, s'.element = { s.element with log := s.element.log.keep fun m => !m.isOf i }
  clock : s'.engine.clock = s.engine.clock

variable {s s' : Session} {p : Pending}

theorem TakesIn.id_eq (h : s.TakesIn p s') : s'.element.id = s.element.id := by
  rw [h.element]

theorem TakesIn.kind_eq (h : s.TakesIn p s') : s'.element.kind = s.element.kind := by
  rw [h.element]

theorem Drops.id_eq (h : s.Drops s') : s'.element.id = s.element.id := by
  rcases h.element with he | ⟨i, he⟩ <;> rw [he]

theorem Drops.kind_eq (h : s.Drops s') : s'.element.kind = s.element.kind := by
  rcases h.element with he | ⟨i, he⟩ <;> rw [he]

/-! ## Writes -/

theorem takesIn_write (s : Session) (ts : Option Timestamp) (make : Timestamp → Mutation) :
    s.TakesIn ⟨ts, fun t => [make t]⟩ (s.write ts make) where
  element := by
    rw [write, Engine.stamp_eq]
    rfl
  clock := by
    rw [write, Engine.stamp_eq]
    rfl

/-- Looking at a property is counted, and the clock is not read. -/
theorem clock_noteFolds (s : Session) (v : View) (f : PropertyFilter) :
    (s.noteFolds v f).engine.clock = s.engine.clock :=
  Engine.clock_noteAll s.engine _

/-- An edit is recorded without fail, after a look at the property. -/
theorem editAfterPeek_spec (s : Session) (i : PropertyIdentity) (e : PropertyEdit)
    (ts : Option Timestamp) (reader : Reader) :
    ∃ before s', s.editAfterPeek i e ts reader = (.ok before, s')
      ∧ s.TakesIn ⟨ts, fun t => [.property ⟨t, i, e⟩]⟩ s' := by
  have hwrite := takesIn_write (s.noteFolds ⟨.allIncludingHidden, none, reader⟩ (.only i)) ts
    fun t => .property ⟨t, i, e⟩
  refine ⟨_, (s.noteFolds ⟨.allIncludingHidden, none, reader⟩ (.only i)).edit i e ts,
    by rw [editAfterPeek, peek, Log.firstStored_eq], ⟨?_, ?_⟩⟩
  · have helement := hwrite.element
    rw [clock_noteFolds] at helement
    exact helement
  · have hclock := hwrite.clock
    rw [clock_noteFolds] at hclock
    exact hclock

/-- A property is deleted without fail, if there is one. -/
theorem deleteProperty_spec (s : Session) (f : PropertyFilter) (reader : Reader) :
    ∃ deleted s', s.deleteProperty f reader = (.ok deleted, s') ∧ s.Drops s' := by
  have hclock := s.clock_noteFolds ⟨.allIncludingHidden, none, reader⟩ f
  rw [deleteProperty, peek, Log.firstStored_eq]
  cases (s.element.log.properties ⟨.allIncludingHidden, none, reader⟩ f).head? with
  | none => exact ⟨_, _, rfl, Or.inl rfl, hclock⟩
  | some p => exact ⟨_, _, rfl, Or.inr ⟨p.identity, rfl⟩, hclock⟩

end Session

/-! ## Steps -/

namespace ScriptStep

/-- The record that a step wants written; deleting a property for good writes none. -/
def pending? : ScriptStep → Option Pending
  | .touch ts => some ⟨ts, fun t => [.elementTimestamp t]⟩
  | .softDelete ts => some ⟨ts, fun t => [.softDelete t]⟩
  | .markHidden v ts => some ⟨ts, fun t => [.markHidden t v]⟩
  | .markVisible v ts => some ⟨ts, fun t => [.markVisible t v]⟩
  | .alterVisibility v ts => some ⟨ts, fun t => [.alterVisibility t v]⟩
  | .alterEdgeLabel label ts => some ⟨ts, fun t => [.alterEdgeLabel t label]⟩
  | .alterConceptType name ts => some ⟨ts, fun t => [.alterConceptType t name]⟩
  | .setValue i value metadata ts =>
    some ⟨ts, fun t => [.property ⟨t, i, .setValue value metadata⟩]⟩
  | .annotate i metadata ts => some ⟨ts, fun t => [.property ⟨t, i, .annotate metadata⟩]⟩
  | .softDeleteProperty i ts => some ⟨ts, fun t => [.property ⟨t, i, .softDelete⟩]⟩
  | .hideProperty i label ts => some ⟨ts, fun t => [.property ⟨t, i, .hide label⟩]⟩
  | .unhideProperty i label ts => some ⟨ts, fun t => [.property ⟨t, i, .unhide label⟩]⟩
  | .deleteProperty .. => none

variable {step : ScriptStep} {p : Pending}

/-- A step that wants a record written has it written. -/
theorem apply_of_pending? (h : step.pending? = some p) (reader : Reader) (s : Session) :
    ∃ s', step.apply reader s = (.ok (), s') ∧ s.TakesIn p s' := by
  cases step with
  | hideProperty i label ts =>
    cases h
    obtain ⟨before, s', heq, htakes⟩ := s.editAfterPeek_spec i (.hide label) ts reader
    exact ⟨s', by rw [apply, Session.hideProperty, heq]; rfl, htakes⟩
  | unhideProperty i label ts =>
    cases h
    obtain ⟨before, s', heq, htakes⟩ := s.editAfterPeek_spec i (.unhide label) ts reader
    exact ⟨s', by rw [apply, Session.unhideProperty, heq]; rfl, htakes⟩
  | deleteProperty key name v => cases h
  | _ =>
    cases h
    exact ⟨_, rfl, s.takesIn_write _ _⟩

/-- Any other step drops records. -/
theorem apply_of_pending?_eq_none (h : step.pending? = none) (reader : Reader) (s : Session) :
    ∃ s', step.apply reader s = (.ok (), s') ∧ s.Drops s' := by
  cases step with
  | deleteProperty key name v =>
    obtain ⟨deleted, s', heq, hdrops⟩ := s.deleteProperty_spec ⟨some key, some name, v⟩ reader
    exact ⟨s', by rw [apply, heq]; rfl, hdrops⟩
  | _ => cases h

/-- No step fails; it has the record written that it wants written, or drops records. -/
theorem apply_spec (step : ScriptStep) (reader : Reader) (s : Session) :
    ∃ s', step.apply reader s = (.ok (), s')
      ∧ match step.pending? with
        | some p => s.TakesIn p s'
        | none => s.Drops s' := by
  cases h : step.pending? with
  | some p => exact apply_of_pending? h reader s
  | none => exact apply_of_pending?_eq_none h reader s

theorem apply_fst (step : ScriptStep) (reader : Reader) (s : Session) :
    (step.apply reader s).1 = .ok () := by
  obtain ⟨s', heq, -⟩ := step.apply_spec reader s
  rw [heq]

/-- Steps are all taken, one after the other. -/
theorem applyAll_eq (reader : Reader) (s : Session) (steps : List ScriptStep) :
    applyAll reader s steps = (.ok (), steps.foldl (fun s step => (step.apply reader s).2) s) := by
  induction steps generalizing s with
  | nil => rfl
  | cons step rest ih =>
    obtain ⟨s', heq, -⟩ := step.apply_spec reader s
    rw [applyAll, List.foldl_cons, heq]
    exact ih s'

end ScriptStep

end Chronicle
