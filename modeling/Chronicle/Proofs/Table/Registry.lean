import Chronicle.Proofs.PointInTime
import Chronicle.Proofs.Table.Run

/-!
# What a table holds

After any run an element stands under an id if the id was asked for and not removed since.  It is
the one that was created when the id was first asked for after that, of the kind that was asked for
then, and whatever was written to it, the record that says that it was created is still in its log.

* `Registry.Takes.descends` : where an element that is there after a call comes from;
* `Table.exists_birth_after`, `Table.isSome_get?_after` : the elements after a run;
* `Table.run_takes_registry` : all calls of a run.
-/

namespace Chronicle

/-! ## One call -/

namespace Registry.Takes

variable {r r' : Registry} {c : TableCall} {a : TableAnswer} {id : String}

/-- An element that is there after a call was created by it, or was there before and has all records
of itself that it had. -/
theorem descends (h : r.Takes c a r') {e' : Element} (he' : r'.element id = some e') :
    (∃ v ts, c = .getOrCreate id e'.kind v ts ∧ r.element id = none ∧ e'.id.text = id
        ∧ .elementTimestamp (r.engine.clock.stamp ts).1 ∈ e'.log.entries)
      ∨ ∃ e, r.element id = some e ∧ c ≠ .remove id ∧ e'.id = e.id ∧ e'.kind = e.kind
        ∧ ∀ rec, Mutation.element rec ∈ e.log.entries → Mutation.element rec ∈ e'.log.entries := by
  cases h with
  | @miss asked kind v ts τ clock e hid hmissing hstamp htext hkind hlog =>
    dsimp only at he'
    by_cases hsame : id = asked
    · subst hsame
      rw [Function.update_self] at he'
      cases he'
      exact Or.inl ⟨v, ts, by rw [hkind], hmissing, htext, by rw [hlog, hstamp]; simp⟩
    · rw [Function.update_of_ne hsame] at he'
      exact Or.inr ⟨e', he', nofun, rfl, rfl, fun _ hr => hr⟩
  | @remove removed =>
    dsimp only at he'
    by_cases hsame : id = removed
    · subst hsame
      rw [Function.update_self] at he'
      cases he'
    · rw [Function.update_of_ne hsame] at he'
      refine Or.inr ⟨e', he', ?_, rfl, rfl, fun _ hr => hr⟩
      intro heq
      exact hsame (TableCall.remove.inj heq).symm
  | @write written w e hthere =>
    dsimp only at he'
    by_cases hsame : id = written
    · subst hsame
      rw [Function.update_self] at he'
      cases he'
      obtain ⟨hid, hkind, hkeeps⟩ := w.on_spec ⟨r.engine, e⟩
      exact Or.inr ⟨e, hthere, nofun, hid, hkind, hkeeps⟩
    · rw [Function.update_of_ne hsame] at he'
      exact Or.inr ⟨e', he', nofun, rfl, rfl, fun _ hr => hr⟩
  | _ => exact Or.inr ⟨e', he', nofun, rfl, rfl, fun _ hr => hr⟩

/-- Registering an element leaves one where there was one. -/
theorem isSome_update {element : String → Option Element} (hid : (element id).isSome)
    (registered : String) (e : Element) :
    (Function.update element registered (some e) id).isSome := by
  rw [Function.update_apply]
  split
  · rfl
  · exact hid

/-- A call leaves an element where there was one, unless it removes it. -/
theorem isSome_of_isSome (h : r.Takes c a r') (hid : (r.element id).isSome)
    (hc : c ≠ .remove id) : (r'.element id).isSome := by
  cases h with
  | miss => exact isSome_update hid _ _
  | @remove removed =>
    have hne : id ≠ removed := by
      rintro rfl
      exact hc rfl
    dsimp only
    rwa [Function.update_of_ne hne]
  | write => exact isSome_update hid _ _
  | _ => exact hid

/-- Whoever asks for an id has an element there. -/
theorem isSome_of_getOrCreate {kind : ElementKind} {v : Visibility} {ts : Option Timestamp}
    (h : r.Takes (.getOrCreate id kind v ts) a r') (hid : id ≠ "") : (r'.element id).isSome := by
  cases h with
  | refuse => exact absurd rfl hid
  | hit hthere =>
    rw [hthere]
    rfl
  | miss =>
    dsimp only
    rw [Function.update_self]
    rfl

end Registry.Takes

/-! ## Runs -/

namespace Table

/-- The table after the calls, of which the first finds an empty one. -/
def after (engine : Engine) (calls : List TableCall) : Table :=
  calls.foldl (fun t c => (c.on t).2) (.empty engine)

/-- The call created the element that stands under the id, at the time `τ`. -/
structure IsBirth (engine : Engine) (o : Occurrence TableCall) (id : String) (kind : ElementKind)
    (τ : Timestamp) : Prop where
  asked : ∃ v ts, o.item = .getOrCreate id kind v ts
    ∧ τ = ((after engine o.before).engine.clock.stamp ts).1
  missing : (after engine o.before).get? id = none
  kept : .remove id ∉ o.after

variable {engine : Engine} {calls : List TableCall} {id : String} {e : Element}

theorem after_append_singleton (engine : Engine) (calls : List TableCall) (c : TableCall) :
    after engine (calls ++ [c]) = (c.on (after engine calls)).2 := by
  rw [after, List.foldl_append]
  rfl

theorem keepsIds_after (engine : Engine) (calls : List TableCall) :
    (after engine calls).KeepsIds := by
  induction calls using List.reverseRecOn with
  | nil =>
    intro id e he
    cases hid : ElementId.ofString id <;> simp [after, get?, hid, empty] at he
  | append_singleton calls c ih =>
    intro id e he
    rw [after_append_singleton] at he
    rcases (takes_on ih c).descends he with ⟨v, ts, -, -, htext, -⟩ | ⟨e₀, he₀, -, hid, -⟩
    · exact htext
    · rw [hid]
      exact ih he₀

/-- An element that is there was created by a call since which it was not removed, and the record of
its creation is there. -/
theorem exists_birth_after (he : (after engine calls).get? id = some e) :
    ∃ o ∈ occurrences calls, ∃ τ, IsBirth engine o id e.kind τ
      ∧ .elementTimestamp τ ∈ e.log.entries := by
  induction calls using List.reverseRecOn generalizing e with
  | nil =>
    cases hid : ElementId.ofString id <;> simp [after, get?, hid, empty] at he
  | append_singleton calls c ih =>
    have htakes := takes_on (keepsIds_after engine calls) c
    rw [occurrences_append_singleton]
    rw [after_append_singleton] at he
    rcases htakes.descends he with ⟨v, ts, hc, hnone, -, hmem⟩ | ⟨e₀, he₀, hc, -, hkind, hkeeps⟩
    · exact ⟨⟨calls, c, []⟩, by simp, _, ⟨⟨v, ts, hc, rfl⟩, hnone, List.not_mem_nil⟩, hmem⟩
    · obtain ⟨o, ho, τ, hbirth, hmem⟩ := ih he₀
      refine ⟨o.extend [c], List.mem_append_left _ (List.mem_map_of_mem ho), τ, ⟨?_, ?_, ?_⟩,
        hkeeps _ hmem⟩
      · rw [hkind]
        exact hbirth.asked
      · exact hbirth.missing
      · intro hremoved
        rcases List.mem_append.1 hremoved with hremoved | hremoved
        · exact hbirth.kept hremoved
        · exact hc (List.mem_singleton.1 hremoved).symm

/-- An element is there if its id was asked for and not removed since. -/
theorem isSome_get?_after (hid : id ≠ "") : ((after engine calls).get? id).isSome
    ↔ ∃ o ∈ occurrences calls, (∃ kind v ts, o.item = .getOrCreate id kind v ts)
      ∧ .remove id ∉ o.after := by
  constructor
  · intro h
    obtain ⟨e, he⟩ := Option.isSome_iff_exists.1 h
    obtain ⟨o, ho, τ, ⟨⟨v, ts, hasked, -⟩, -, hkept⟩, -⟩ := exists_birth_after he
    exact ⟨o, ho, ⟨_, v, ts, hasked⟩, hkept⟩
  · induction calls using List.reverseRecOn with
    | nil => simp
    | append_singleton calls c ih =>
      have htakes := takes_on (keepsIds_after engine calls) c
      rintro ⟨o, ho, ⟨kind, v, ts, hasked⟩, hkept⟩
      rw [after_append_singleton]
      rw [occurrences_append_singleton] at ho
      rcases List.mem_append.1 ho with ho | ho
      · obtain ⟨o₀, ho₀, rfl⟩ := List.mem_map.1 ho
        refine htakes.isSome_of_isSome (ih ⟨o₀, ho₀, ⟨kind, v, ts, hasked⟩, ?_⟩) ?_
        · intro hremoved
          exact hkept (List.mem_append_left _ hremoved)
        · rintro rfl
          exact hkept (List.mem_append_right _ (List.mem_singleton.2 rfl))
      · obtain rfl := List.mem_singleton.1 ho
        obtain rfl : c = _ := hasked
        exact htakes.isSome_of_getOrCreate hid

/-- **A table is a finite map that creates what it is asked for once.**  After any run, each call
answers and does what it does to a registry: an element that is there is handed out as it is and no
clock is read, one that is not there is created with two records of one time and is counted, and the
empty id is refused with nothing changed.  Exactly those ids have an element that are not empty,
were asked for, and were not removed since.  Each element stands under its own id and is the one
that was created when the id was asked for; its log says when that was, so that it has a first time,
which is not later. -/
theorem run_takes_registry (engine : Engine) (calls : List TableCall) :
    (∀ c : TableCall, (after engine calls).registry.Takes c (c.on (after engine calls)).1
        (after engine (calls ++ [c])).registry)
      ∧ (∀ id, ((after engine calls).get? id).isSome ↔ id ≠ "" ∧ ∃ o ∈ occurrences calls,
          (∃ kind v ts, o.item = .getOrCreate id kind v ts) ∧ .remove id ∉ o.after)
      ∧ ∀ id e, (after engine calls).get? id = some e → e.id.text = id
          ∧ ∃ o ∈ occurrences calls, ∃ τ, IsBirth engine o id e.kind τ
            ∧ .elementTimestamp τ ∈ e.log.entries
            ∧ ∃ first, e.log.firstTimestamp = some first ∧ first ≤ τ := by
  refine ⟨?_, ?_, ?_⟩
  · intro c
    rw [after_append_singleton]
    exact takes_on (keepsIds_after engine calls) c
  · intro id
    by_cases hid : id = ""
    · subst hid
      simp
    · rw [isSome_get?_after hid]
      simp [hid]
  · intro id e he
    obtain ⟨o, ho, τ, hbirth, hmem⟩ := exists_birth_after he
    obtain ⟨first, hle, hfirst, -⟩ :=
      Log.firstTimestamp_upTo ⟨.elementTimestamp τ, hmem, τ, rfl, Int64.le_refl τ⟩
    exact ⟨keepsIds_after engine calls he, o, ho, τ, hbirth, hmem, first, hfirst, hle⟩

/-- A well that is dug, filled in, dug again without a time, and then found to be older; whoever was
handed the first one still writes to it. -/
def wells : List TableCall :=
  [.getOrCreate "well" .vertex ⟨"village"⟩ (some 7),
    .write "well" (.step (.markHidden ⟨"village"⟩ none) .all),
    .getOrCreate "" .vertex .empty none,
    .remove "well",
    .getOrCreate "well" .edge .empty none,
    .writeRemoved ⟨⟨"well", by decide⟩, .vertex, .empty⟩ (.step (.touch none) .all),
    .getOrCreate "well" .vertex ⟨"village"⟩ none,
    .write "well" (.step (.touch (some 2)) .all)]

/-- The clock is read for the record that hides the first well, for the second well, and for the one
that was removed. -/
theorem run_takes_registry_wells :
    let engine : Engine := ⟨.manual (.ticking 4), .nothing, some .zero, "", 0⟩
    let t := after engine wells
    t.registry.Takes .ids (.listed t.ids) t.registry
      ∧ (t.get? "well").isSome ∧ "well" ≠ ""
      ∧ t.engine.clock = .manual ⟨7, 1⟩ ∧ t.engine.counters.map (·.elementsCreated) = some 2
      ∧ ∃ e, t.get? "well" = some e ∧ e.kind = .edge
        ∧ e.log.entries = [.elementTimestamp 2, .elementTimestamp 5, .alterVisibility 5 .empty]
        ∧ ∃ o ∈ occurrences wells, ∃ τ, IsBirth engine o "well" e.kind τ
          ∧ ∃ first, e.log.firstTimestamp = some first ∧ first ≤ τ := by
  intro engine t
  obtain ⟨htakes, hthere, hbirth⟩ := run_takes_registry engine wells
  have hids := htakes .ids
  simp only [after_append_singleton, TableCall.on] at hids
  have hsome : (t.get? "well").isSome := by decide +kernel
  obtain ⟨e, he⟩ := Option.isSome_iff_exists.1 hsome
  obtain ⟨-, o, ho, τ, ho', -, first, hfirst, hle⟩ := hbirth "well" e he
  have hkind : (t.get? "well").map Element.kind = some .edge := by decide +kernel
  have hlog : (t.get? "well").map (fun e => e.log.entries)
      = some [.elementTimestamp 2, .elementTimestamp 5, .alterVisibility 5 .empty] := by
    decide +kernel
  rw [he, Option.map_some] at hkind hlog
  exact ⟨hids, hsome, ((hthere "well").1 hsome).1, by decide +kernel, by decide +kernel, e, he,
    Option.some.inj hkind, Option.some.inj hlog, o, ho, τ, ho', first, hfirst, hle⟩

end Table

end Chronicle
