import Chronicle.Script
import Chronicle.Proofs.Json.Reading
import Chronicle.Proofs.Value.RoundTrip

/-!
# Scripts are read back from their text

Writing a script leaves nothing out: a time or label that is not given is written as `null`, and
everything else as itself, so what is given and what is not stay apart.  Doubles are the exception,
as their text is a decimal that is rounded when it is read.

* `ScriptStep.faithful` : a step of any kind, its own fields found by their names;
* `Script.faithful` : scripts as JSON values;
* `Script.parse?_render_unique` : scripts as texts.
-/

namespace Chronicle

open Json

/-! ## Shared fields -/

theorem Visibility.faithful (depth : Nat) (v : Visibility) :
    Faithful Visibility.toJson Visibility.ofJson? depth v := ⟨rfl, rfl⟩

theorem ElementKind.faithful (depth : Nat) (k : ElementKind) :
    Faithful ElementKind.toJson ElementKind.ofJson? depth k := by
  cases k <;> exact ⟨rfl, rfl⟩

/-- A label is written as a text, so no label is something else than any label. -/
theorem faithful_optionalLabel (depth : Nat) (v : Option Visibility) :
    Faithful (ofOption Visibility.toJson) (nullable Visibility.ofJson?) depth v := by
  refine faithful_ofOption (fun w _ => Visibility.faithful depth w) ?_
  intro w hw
  cases hw

theorem faithful_optionalTime (depth : Nat) (ts : Option Timestamp) :
    Faithful optionalTimeJson (nullable int64?) depth ts := by
  refine faithful_ofOption (fun t _ => faithful_int64 depth t) ?_
  intro t ht
  cases ht

/-! ## Steps -/

namespace ScriptStep

/-- The values that a step gives, those of its annotations included. -/
def values : ScriptStep → List PropValue
  | .setValue _ value metadata _ => value :: Metadata.payloads metadata
  | .annotate _ metadata _ => Metadata.payloads metadata
  | _ => []

/-- Each kind of step has its fields, each with a name of its own that is not `op`. -/
theorem exists_fieldNames? (s : ScriptStep) : ∃ names, fieldNames? s.op = some names
    ∧ names.Nodup ∧ "op" ∉ names ∧ names.length = s.fieldValues.length := by
  cases s <;> exact ⟨_, rfl, by decide, by decide, rfl⟩

theorem isSound_fieldValues {s : ScriptStep} (h : ∀ v ∈ s.values, v.isFloat = false)
    (depth : Nat) : ∀ j ∈ s.fieldValues, j.isSound (depth + 4) = true := by
  have htext : ∀ text, (string text).isSound (depth + 4) = true := fun _ => rfl
  have htime := fun ts => (faithful_optionalTime (depth + 4) ts).sound
  have hlabel := fun v => (Visibility.faithful (depth + 4) v).sound
  have hchoice := fun v => (faithful_optionalLabel (depth + 4) v).sound
  cases s with
  | setValue i value metadata ts =>
    obtain ⟨hv, hm⟩ := List.forall_mem_cons.1 h
    have hvalue : value.toJson.isSound (depth + 4) = true :=
      (PropValue.faithful hv PropValue.nullOrEmpty (depth + 2)).sound
    have hmetadata : (Metadata.toJson metadata).isSound (depth + 4) = true :=
      (Metadata.faithful hm PropValue.nullOrEmpty depth).sound
    simp [fieldValues, htext, htime, hlabel, hvalue, hmetadata]
  | annotate i metadata ts =>
    have hmetadata : (Metadata.toJson metadata).isSound (depth + 4) = true :=
      (Metadata.faithful h PropValue.nullOrEmpty depth).sound
    simp [fieldValues, htext, htime, hlabel, hmetadata]
  | _ => simp [fieldValues, htext, htime, hlabel, hchoice]

/-- A step is read back from its fields, the last of which is the time of all but removals. -/
theorem ofFields?_fieldValues {s : ScriptStep} (h : ∀ v ∈ s.values, v.isFloat = false) :
    ofFields? s.op (s.fieldValues.map some) = some s := by
  have htime : ∀ ts, timestampOfField? (some (optionalTimeJson ts)) = some ts :=
    fun ts => (faithful_optionalTime 0 ts).read_write
  have hlast : ∀ (ts : Option Timestamp) (make : Option Timestamp → ScriptStep),
      (timestampOfField? (some (optionalTimeJson ts))).bind (fun ts => some (make ts))
        = some (make ts) := by
    intro ts make
    rw [htime, Option.bind_some]
  cases s with
  | touch ts => exact congrArg (Option.map touch) (htime ts)
  | softDelete ts => exact congrArg (Option.map softDelete) (htime ts)
  | markHidden v ts => exact hlast ts (markHidden v)
  | markVisible v ts => exact hlast ts (markVisible v)
  | alterVisibility v ts => exact hlast ts (alterVisibility v)
  | alterEdgeLabel label ts => exact hlast ts (alterEdgeLabel label)
  | alterConceptType name ts => exact hlast ts (alterConceptType name)
  | setValue i value metadata ts =>
    obtain ⟨hv, hm⟩ := List.forall_mem_cons.1 h
    have hvalue : value? value.toJson = some value :=
      (PropValue.faithful hv PropValue.nullOrEmpty 0).read_write
    have hmetadata : metadata? (Metadata.toJson metadata) = some metadata :=
      (Metadata.faithful hm PropValue.nullOrEmpty 0).read_write
    show (value? value.toJson).bind (fun value => (metadata? (Metadata.toJson metadata)).bind
      fun metadata => (timestampOfField? (some (optionalTimeJson ts))).bind fun ts =>
        some (setValue i value metadata ts)) = _
    rw [hvalue, Option.bind_some, hmetadata, Option.bind_some]
    exact hlast ts (setValue i value metadata)
  | annotate i metadata ts =>
    have hmetadata : metadata? (Metadata.toJson metadata) = some metadata :=
      (Metadata.faithful h PropValue.nullOrEmpty 0).read_write
    show (metadata? (Metadata.toJson metadata)).bind (fun metadata =>
      (timestampOfField? (some (optionalTimeJson ts))).bind fun ts =>
        some (annotate i metadata ts)) = _
    rw [hmetadata, Option.bind_some]
    exact hlast ts (annotate i metadata)
  | softDeleteProperty i ts => exact hlast ts (softDeleteProperty i)
  | hideProperty i label ts => exact hlast ts (hideProperty i label)
  | unhideProperty i label ts => exact hlast ts (unhideProperty i label)
  | deleteProperty key name v =>
    have hv := (faithful_optionalLabel 0 v).read_write
    show (nullable Visibility.ofJson? (ofOption Visibility.toJson v)).bind (fun v =>
      some (deleteProperty key name v)) = _
    rw [hv, Option.bind_some]

/-- The kind of a step is found by its name, which no field has. -/
theorem partition_op {names : List String} (hop : "op" ∉ names) (kind : Json)
    (values : List Json) : (("op", kind) :: names.zip values).partition (·.1 == "op")
      = ([("op", kind)], names.zip values) := by
  have hother : ∀ m ∈ names.zip values, (m.1 == "op") = false := by
    intro m hm
    rw [beq_eq_false_iff_ne]
    intro heq
    rw [← heq] at hop
    exact hop (List.of_mem_zip hm).1
  have hfound : (names.zip values).filter (·.1 == "op") = [] := by
    refine List.filter_eq_nil_iff.2 fun m hm => ?_
    rw [hother m hm]
    exact Bool.false_ne_true
  have hleft : (names.zip values).filter (fun m => !(m.1 == "op")) = names.zip values := by
    refine List.filter_eq_self.2 fun m hm => ?_
    rw [hother m hm]
    rfl
  rw [List.partition_eq_filter_filter]
  exact Prod.ext (congrArg (("op", kind) :: ·) hfound) hleft

/-- A step of any kind is read back. -/
theorem faithful {s : ScriptStep} (h : ∀ v ∈ s.values, v.isFloat = false) (depth : Nat) :
    Faithful toJson ofJson? (depth + 5) s := by
  obtain ⟨names, hnames, hnodup, hop, hlength⟩ := s.exists_fieldNames?
  have hwrite : s.toJson = .object (("op", .string s.op) :: names.zip s.fieldValues) := by
    rw [toJson, hnames, Option.getD_some]
  have hsound : ∀ depth, s.toJson.isSound (depth + 5) = true := by
    intro depth
    rw [hwrite]
    refine isSound_object fun m hm => ?_
    rcases List.mem_cons.1 hm with rfl | hm
    · rfl
    · exact isSound_fieldValues h depth m.2 (List.of_mem_zip hm).2
  refine ⟨hsound depth, ?_⟩
  -- a step takes up five levels, whatever its kind, so the limit does not bear on it
  have hlimit : s.toJson.isSound nestingLimit = true := hsound 118
  unfold ofJson?
  rw [if_pos hlimit, hwrite]
  dsimp only
  rw [partition_op hop]
  dsimp only
  rw [hnames, Option.bind_eq_bind, Option.bind_some, memberFields?_zip _ hnodup hlength]
  exact ofFields?_fieldValues h

end ScriptStep

/-! ## Elements and scripts -/

namespace ScriptElement

/-- An element whose steps give no doubles is read back. -/
theorem faithful {e : ScriptElement} (h : ∀ s ∈ e.steps, ∀ v ∈ s.values, v.isFloat = false)
    (depth : Nat) : Faithful toJson ofJson? (depth + 7) e := by
  have hkind := ElementKind.faithful (depth + 6) e.kind
  have htime := faithful_optionalTime (depth + 6) e.timestamp
  have hsteps := faithful_array fun s hs => ScriptStep.faithful (h s hs) depth
  constructor
  · refine isSound_object fun m hm => ?_
    simp only [List.mem_cons, List.not_mem_nil, or_false] at hm
    rcases hm with rfl | rfl | rfl | rfl | rfl
    · rfl
    · exact hkind.sound
    · rfl
    · exact htime.sound
    · exact hsteps.sound
  · have hfields : e.toJson.fields? fieldNames .refused = some [some (.string e.id),
        some e.kind.toJson, some e.visibility.toJson, some (optionalTimeJson e.timestamp),
        some (.array (e.steps.map ScriptStep.toJson))] :=
      memberFields?_zip [.string e.id, e.kind.toJson, e.visibility.toJson,
        optionalTimeJson e.timestamp, .array (e.steps.map ScriptStep.toJson)] (by decide) rfl
        .refused
    have hread : steps? (.array (e.steps.map ScriptStep.toJson)) = some e.steps :=
      hsteps.read_write
    have hmoment : timestampOfField? (some (optionalTimeJson e.timestamp)) = some e.timestamp :=
      htime.read_write
    rw [ofJson?, hfields]
    dsimp only
    rw [hkind.read_write, hmoment, withDefault, hread]
    rfl

end ScriptElement

namespace Script

/-- The values that a script gives. -/
def values (s : Script) : List PropValue :=
  s.elements.flatMap fun e => e.steps.flatMap ScriptStep.values

/-- No value that the script gives is a double. -/
def IsExact (s : Script) : Prop := ∀ v ∈ s.values, v.isFloat = false

instance (s : Script) : Decidable s.IsExact := inferInstanceAs (Decidable (∀ v ∈ s.values, _))

/-- A script without doubles is read back. -/
theorem faithful {s : Script} (h : s.IsExact) (depth : Nat) :
    Faithful toJson ofJson? (depth + 9) s := by
  have helement : ∀ e ∈ s.elements, ∀ step ∈ e.steps, ∀ v ∈ step.values, v.isFloat = false := by
    intro e he step hstep v hv
    exact h v (List.mem_flatMap.2 ⟨e, he, List.mem_flatMap.2 ⟨step, hstep, hv⟩⟩)
  have helements := faithful_array fun e he => ScriptElement.faithful (helement e he) depth
  constructor
  · exact isSound_tagged helements.sound
  · have hfields : s.toJson.fields? ["elements"] .refused
        = some [some (.array (s.elements.map ScriptElement.toJson))] :=
      memberFields?_zip [.array (s.elements.map ScriptElement.toJson)] (by decide) rfl .refused
    have hread : (s.elements.map ScriptElement.toJson).mapM ScriptElement.ofJson?
        = some s.elements := helements.read_write
    rw [ofJson?, hfields]
    dsimp only [array?]
    rw [Option.bind_eq_bind, Option.bind_some, hread]
    rfl

theorem parse?_render {s : Script} (h : s.IsExact) : parse? s.render = some s := by
  have hs := s.faithful h 0
  rw [parse?, render, parse?_compact_of_isSound hs.sound, Option.bind_some, hs.read_write]

/-- **A script is read back from its text.**  If no value that it gives is a double, its text is
read as the same script, and no other such script has this text. -/
theorem parse?_render_unique {s : Script} (h : s.IsExact) :
    parse? s.render = some s ∧ ∀ s' : Script, s'.IsExact → s'.render = s.render → s' = s := by
  refine ⟨parse?_render h, ?_⟩
  intro s' h' heq
  have hread := parse?_render h'
  rw [heq, parse?_render h] at hread
  exact (Option.some.inj hread).symm

end Script

/-- A lighthouse whose log has quotes, a line break, a control character and letters beyond the
first 128 in it, and the outermost numbers. -/
def lighthouse (lit : Option Timestamp) (erased : Option Visibility) : Script :=
  ⟨[⟨"Färö \"öst\"", .vertex, ⟨"keeper"⟩, lit,
      [.setValue ⟨"log", "", .empty⟩ (.str "sn\\ö\n\u0001雪")
          (OrderedMap.empty.insert "lamp" ⟨.ref ⟨UInt64.ofNat (2 ^ 64 - 1), 7, 0, true⟩, .empty⟩)
          (some Int64.minValue),
        .annotate ⟨"log", "", .empty⟩ (OrderedMap.empty.insert "ink" ⟨.bytes [0, 255], .empty⟩)
          (some Int64.maxValue),
        .deleteProperty "" "log" erased]⟩]⟩

/-- A time that is not given is not the time zero, and no label is not the label that everyone may
read. -/
theorem Script.parse?_render_unique_lighthouse :
    let s := lighthouse none none
    s.IsExact ∧ parse? s.render = some s
      ∧ (lighthouse (some 0) none).render ≠ s.render
      ∧ (lighthouse none (some .empty)).render ≠ s.render := by
  intro s
  have hs : s.IsExact := by decide
  have hexact : ∀ lit erased, (lighthouse lit erased).IsExact := fun _ _ => hs
  obtain ⟨hread, hunique⟩ := Script.parse?_render_unique hs
  refine ⟨hs, hread, ?_, ?_⟩
  · intro htext
    have heq := hunique _ (hexact _ _) htext
    simp [s, lighthouse] at heq
  · intro htext
    have heq := hunique _ (hexact _ _) htext
    simp [s, lighthouse] at heq

end Chronicle
