import Chronicle.Inspection
import Chronicle.Proofs.Authorization
import Chronicle.Proofs.Log.Presence
import Chronicle.Proofs.Replay.Failure

/-!
# How an inspection fails

An inspection looks at the configuration first, then at the script, then at the element, and ends at
the first thing that is wrong.  The words for it are fixed, except where a document is there but
malformed: what is wrong inside a document may be put in other words.  Nothing that happens once
both documents are read is of that kind, since a replay fails only on an entry without an id, and a
report only on a value that cannot be loaded.

* `Log.kind_of_allProperties`, `Log.kind_of_history` : a read fails only on a value;
* `isFixed_of_configuration`, `isFixed_of_load`, `isFixed_of_report` : how each part fails;
* `exists_not_isFixed_iff` : which inspections fail in words that are not fixed.
-/

namespace Chronicle

/-! ## Results that are errors -/

/-- What is done in two parts fails in the first or in the second. -/
theorem eq_error_of_bind {ε α β : Type} {x : Except ε α} {f : α → Except ε β} {err : ε}
    (h : (x >>= f) = .error err) : x = .error err ∨ ∃ a, x = .ok a ∧ f a = .error err := by
  cases x with
  | error err' =>
    cases h
    exact Or.inl rfl
  | ok a => exact Or.inr ⟨a, rfl, h⟩

/-- What is done with a result does not fail by itself. -/
theorem eq_error_of_map {ε α β : Type} {x : Except ε α} {f : α → β} {err : ε}
    (h : x.map f = .error err) : x = .error err := by
  cases x with
  | error err' =>
    cases h
    rfl
  | ok a => cases h

variable {e : Error}

/-! ## Reads -/

/-- A value that cannot be loaded is reported as that. -/
theorem PropValue.kind_of_load {v : PropValue} {fetch : Load} {i : PropertyIdentity}
    {ts : Timestamp} (h : v.load fetch i ts = .error e) : e.kind = .valueLoad := by
  unfold load at h
  split at h
  · split at h
    · cases h
    · cases h
      rfl
  · cases h

theorem Property.kind_of_resolve {p : Property} {fetch : Load} (h : p.resolve fetch = .error e) :
    e.kind = .valueLoad :=
  PropValue.kind_of_load (eq_error_of_map h)

theorem PropertyRecord.kind_of_load {r : PropertyRecord} {fetch : Load}
    (h : r.load fetch = .error e) : e.kind = .valueLoad := by
  unfold load at h
  split at h
  · exact PropValue.kind_of_load (eq_error_of_map h)
  · cases h

namespace Log

theorem kind_of_allProperties {log : Log} {v : View} {fetch : Load}
    (h : log.allProperties v fetch = .error e) : e.kind = .valueLoad := by
  obtain ⟨p, -, hp⟩ := exists_of_mapM_eq_error h
  exact Property.kind_of_resolve hp

theorem kind_of_history {log : Log} {s : HistoryScope} {f : PropertyFilter} {fetch : Load}
    (h : log.history s f fetch = .error e) : e.kind = .valueLoad := by
  rcases eq_error_of_bind h with hload | ⟨records, -, hdone⟩
  · obtain ⟨r, -, hr⟩ := exists_of_mapM_eq_error hload
    exact PropertyRecord.kind_of_load hr
  · cases hdone

end Log

/-- A replay only fails on an entry without an id. -/
theorem Table.eq_of_replay_eq_error {t : Table} {script : Script}
    (h : (t.replay script).1 = .error e) : e = .emptyElementId := by
  obtain ⟨items⟩ := script
  by_cases hall : ∀ item ∈ items, item.IsNamed
  · rw [t.replay_of_named hall] at h
    cases h
  · have hsome : ∃ item ∈ items, item.id = "" := by
      by_contra hno
      exact hall fun item hmem hid => hno ⟨item, hmem, hid⟩
    obtain ⟨before, bad, after, rfl, hbad, hbefore⟩ := exists_first_unnamed hsome
    rw [t.replay_of_unnamed hbefore hbad] at h
    cases h
    rfl

namespace Inspection

variable {i : Invocation} {config : Option FileContent} {script : FileContent} {c : Config}
  {t : Table} {wall : Timestamp} {err : InspectionError}

/-! ## The configuration -/

/-- The configuration is there, as a text that gives none. -/
def IsMalformedConfig (config : Option FileContent) : Prop :=
  ∃ text, config = some (.ok text) ∧ ∀ c, Config.parse text ≠ .ok c

/-- A text gives a configuration, or an error that says that it does not. -/
theorem parse_cases (text : String) :
    (∃ c, Config.parse text = .ok c) ∨ Config.parse text = .error .unreadableConfig := by
  rw [Config.parse]
  cases (Toml.parse? text).bind Config.ofStatements? with
  | some c => exact Or.inl ⟨c, rfl⟩
  | none => exact Or.inr rfl

theorem configuration_text (text : String) :
    configuration (some (.ok text)) = (Config.parse text).mapError .engine := rfl

theorem isFixed_of_configuration (h : configuration config = .error err) :
    err.isFixed = false ↔ IsMalformedConfig config := by
  match config with
  | none => cases h
  | some (.error f) =>
    cases h
    constructor
    · intro hfixed
      cases hfixed
    · rintro ⟨text, htext, -⟩
      cases htext
  | some (.ok text) =>
    rw [configuration_text] at h
    rcases parse_cases text with ⟨c, hc⟩ | hc
    · rw [hc] at h
      cases h
    · rw [hc] at h
      cases h
      refine ⟨fun _ => ⟨text, rfl, fun c hok => ?_⟩, fun _ => rfl⟩
      rw [hc] at hok
      cases hok

theorem not_isMalformedConfig (h : configuration config = .ok c) : ¬IsMalformedConfig config := by
  rintro ⟨text, rfl, hno⟩
  rw [configuration_text] at h
  rcases parse_cases text with ⟨c, hc⟩ | hc
  · exact hno c hc
  · rw [hc] at h
    cases h

/-! ## The script -/

/-- The script is there, as a text that gives none. -/
def IsMalformedScript (script : FileContent) : Prop :=
  ∃ text, script = .ok text ∧ Script.parse? text = none

theorem load_text (c : Config) (wall : Timestamp) (text : String) :
    load c wall (.ok text)
      = match Script.parse? text with
        | none => .error .badScript
        | some s =>
          match (Table.empty (c.engine wall .nothing none)).replay s with
          | (.ok _, t) => .ok t
          | (.error e, _) => .error (.engine e) := rfl

theorem isFixed_of_load (h : load c wall script = .error err) :
    err.isFixed = false ↔ IsMalformedScript script := by
  cases script with
  | error f =>
    cases h
    constructor
    · intro hfixed
      cases hfixed
    · rintro ⟨text, htext, -⟩
      cases htext
  | ok text =>
    rw [load_text] at h
    cases hparse : Script.parse? text with
    | none =>
      rw [hparse] at h
      cases h
      exact ⟨fun _ => ⟨text, rfl, hparse⟩, fun _ => rfl⟩
    | some s =>
      rw [hparse] at h
      have hnot : ¬IsMalformedScript (.ok text) := by
        rintro ⟨_, htext, hnone⟩
        cases htext
        rw [hparse] at hnone
        cases hnone
      -- the script reads, so it is the replay that failed
      dsimp only at h
      split at h
      · cases h
      · next e t hreplay =>
        cases h
        obtain rfl := Table.eq_of_replay_eq_error (congrArg Prod.fst hreplay)
        constructor
        · intro hfixed
          cases hfixed
        · intro hmalformed
          exact absurd hmalformed hnot

theorem not_isMalformedScript (h : load c wall script = .ok t) : ¬IsMalformedScript script := by
  rintro ⟨text, rfl, hnone⟩
  rw [load_text, hnone] at h
  cases h

/-! ## The report -/

/-- A report fails on a value that cannot be loaded. -/
theorem kind_of_report {s : Session} (h : report i s = .error e) : e.kind = .valueLoad := by
  unfold report at h
  split at h
  · next asOf includeHidden _ =>
    rcases eq_error_of_bind h with hread | ⟨ps, -, hdone⟩
    · exact Log.kind_of_allProperties hread
    · cases hdone
  · next filter range _ =>
    rcases eq_error_of_bind h with hread | ⟨es, -, hdone⟩
    · rw [Session.history_fst] at hread
      exact Log.kind_of_history hread
    · cases hdone
  · cases h

theorem isFixed_of_report {s : Session} (h : (report i s).mapError .engine = .error err) :
    err.isFixed = true := by
  cases hreport : report i s with
  | ok text =>
    rw [hreport] at h
    cases h
  | error e =>
    rw [hreport] at h
    cases h
    rw [InspectionError.isFixed, kind_of_report hreport]
    rfl

/-! ## The whole inspection -/

theorem run_of_configuration_error (h : configuration config = .error err) :
    run i config script wall = .error err := by
  rw [run, h]
  rfl

theorem run_of_load_error (hconfig : configuration config = .ok c)
    (h : load c wall script = .error err) : run i config script wall = .error err := by
  rw [run, hconfig]
  show (load c wall script >>= _) = _
  rw [h]
  rfl

theorem run_of_loaded (hconfig : configuration config = .ok c)
    (hload : load c wall script = .ok t) :
    run i config script wall
      = match t.session? i.id with
        | none => .error (.noSuchElement i.id)
        | some s => (report i s).mapError .engine := by
  rw [run, hconfig]
  show (load c wall script >>= _) = _
  rw [hload]
  rfl

/-- What is left to fail once both documents are read is the element or its report. -/
theorem isFixed_of_loaded (hconfig : configuration config = .ok c)
    (hload : load c wall script = .ok t) (h : run i config script wall = .error err) :
    err.isFixed = true := by
  rw [run_of_loaded hconfig hload] at h
  split at h
  · cases h
    rfl
  · exact isFixed_of_report h

/-- **An inspection fails in words that are not fixed exactly when a document is malformed.**  This
is the configuration, or, once there is a configuration, the script. -/
theorem exists_not_isFixed_iff (i : Invocation) (config : Option FileContent)
    (script : FileContent) (wall : Timestamp) :
    (∃ err, run i config script wall = .error err ∧ err.isFixed = false)
      ↔ IsMalformedConfig config
        ∨ (∃ c, configuration config = .ok c) ∧ IsMalformedScript script := by
  constructor
  · rintro ⟨err, hrun, hfixed⟩
    cases hconfig : configuration config with
    | error err' =>
      rw [run_of_configuration_error hconfig] at hrun
      cases hrun
      exact Or.inl ((isFixed_of_configuration hconfig).1 hfixed)
    | ok c =>
      cases hload : load c wall script with
      | error err' =>
        rw [run_of_load_error hconfig hload] at hrun
        cases hrun
        exact Or.inr ⟨⟨c, rfl⟩, (isFixed_of_load hload).1 hfixed⟩
      | ok t =>
        rw [isFixed_of_loaded hconfig hload hrun] at hfixed
        cases hfixed
  · rintro (hmalformed | ⟨⟨c, hconfig⟩, hmalformed⟩)
    · cases hconfig : configuration config with
      | error err =>
        exact ⟨err, run_of_configuration_error hconfig,
          (isFixed_of_configuration hconfig).2 hmalformed⟩
      | ok c => exact absurd hmalformed (not_isMalformedConfig hconfig)
    · cases hload : load c wall script with
      | error err =>
        exact ⟨err, run_of_load_error hconfig hload, (isFixed_of_load hload).2 hmalformed⟩
      | ok t => exact absurd hmalformed (not_isMalformedScript hload)

end Inspection

end Chronicle
