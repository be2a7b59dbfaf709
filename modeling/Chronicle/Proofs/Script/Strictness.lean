import Mathlib.Logic.Relation
import Chronicle.Proofs.Json.Strictness
import Chronicle.Proofs.Script.RoundTrip

/-!
# Scripts are read strictly

A script, its elements and their steps are records.  A step is told by the kind that stands under
`op`, wherever that stands among its members, and its kind says which fields it may have and which
of them may be left out.

* `ScriptStep.ofFields?_spelledOut` : a field of a step that is left out is read as its default;
* `ScriptStep.ofJson?_object_iff` : which objects are read as a step;
* `Script.Place.exists_part` : what stands in a place of a script is read on its own;
* `Script.parse?_strict` : scripts written another way are read as the same, and scripts with a
  member too many are refused.
-/

namespace Chronicle

open Json

/-! ## Shared fields -/

theorem timestampOfField?_or (field : Option Json) :
    timestampOfField? (field.or (some .null)) = timestampOfField? field :=
  withDefault_or (by rfl) field

theorem Visibility.ofField?_or (field : Option Json) :
    Visibility.ofField? (field.or (some (.string ""))) = Visibility.ofField? field :=
  withDefault_or (by rfl) field

/-! ## Steps -/

namespace ScriptStep

variable {ms : Members} {g : Lookup} {op k : String} {d : Json} {names : List String}
  {s : ScriptStep}

/-- The fields of a kind of step that may be left out, each with the value that it then has. -/
def defaultsOf : String → Members
  | "touch" | "soft_delete" | "alter_visibility" | "alter_edge_label" | "alter_concept_type" =>
    [("timestamp", .null)]
  | "mark_hidden" | "mark_visible" | "add_property_metadata" | "soft_delete_property" =>
    [("visibility", .string ""), ("timestamp", .null)]
  | "add_property_value" =>
    [("metadata", .object []), ("visibility", .string ""), ("timestamp", .null)]
  | "mark_property_hidden" | "mark_property_visible" =>
    [("visibility", .string ""), ("hide_visibility", .string ""), ("timestamp", .null)]
  | "delete_property" => [("visibility", .null)]
  | _ => []

/-- The kind that stands under `op`. -/
def op? (g : Lookup) : Option String := (g "op").bind string?

/-- The keys that an object may have that writes a step. -/
def declared (g : Lookup) : List String := "op" :: ((op? g).bind fieldNames?).getD []

/-- The fields that may be left out of such an object. -/
def defaults (g : Lookup) : Members := ((op? g).map defaultsOf).getD []

theorem identity?_or (key name : Json) (field : Option Json) :
    identity? key name (field.or (some (.string ""))) = identity? key name field := by
  rw [identity?, identity?, Visibility.ofField?_or]

theorem metadataOfField?_or (field : Option Json) :
    withDefault OrderedMap.empty metadata? (field.or (some (.object [])))
      = withDefault OrderedMap.empty metadata? field :=
  withDefault_or (by rfl) field

theorem optionalLabel_or (field : Option Json) :
    withDefault none (nullable Visibility.ofJson?) (field.or (some .null))
      = withDefault none (nullable Visibility.ofJson?) field :=
  withDefault_or (by rfl) field

theorem op_of_ofFields? {fields : List (Option Json)} (h : ofFields? op fields = some s) :
    s.op = op := by
  unfold ofFields? at h
  split at h
  all_goals simp only [Option.map_eq_some_iff, Option.bind_eq_bind, Option.bind_eq_some_iff,
    Option.pure_def, Option.some.injEq, reduceCtorEq] at h
  all_goals grind [ScriptStep.op]

/-- A field that is left out is read as its default. -/
theorem ofFields?_spelledOut (hnames : fieldNames? op = some names) (g : Lookup) :
    ofFields? op (names.map (g.spelledOut (defaultsOf op))) = ofFields? op (names.map g) := by
  unfold fieldNames? at hnames
  split at hnames <;> cases hnames
  all_goals
    simp only [List.map_cons, List.map_nil, Lookup.spelledOut, defaultsOf, member?_cons,
      member?_nil, String.reduceEq, if_true, if_false, Option.or_none]
  -- steps on the element, of which three have a field that may not be left out
  · simp only [ofFields?, timestampOfField?_or]
  · simp only [ofFields?, timestampOfField?_or]
  · simp only [ofFields?, Visibility.ofField?_or, timestampOfField?_or]
  · simp only [ofFields?, Visibility.ofField?_or, timestampOfField?_or]
  · rcases g "visibility" with _ | v
    · rfl
    · simp only [ofFields?, timestampOfField?_or]
  · rcases g "label" with _ | label
    · rfl
    · simp only [ofFields?, timestampOfField?_or]
  · rcases g "concept_type" with _ | name
    · rfl
    · simp only [ofFields?, timestampOfField?_or]
  -- steps on a property, which all have a key and a name
  all_goals
    rcases g "key" with _ | key
    · rfl
    rcases g "name" with _ | name
    · rfl
  · rcases g "value" with _ | value
    · rfl
    · simp only [ofFields?, identity?_or, metadataOfField?_or, timestampOfField?_or]
  · rcases g "metadata" with _ | metadata
    · rfl
    · simp only [ofFields?, identity?_or, timestampOfField?_or]
  · simp only [ofFields?, identity?_or, timestampOfField?_or]
  · simp only [ofFields?, identity?_or, Visibility.ofField?_or, timestampOfField?_or]
  · simp only [ofFields?, identity?_or, Visibility.ofField?_or, timestampOfField?_or]
  · simp only [ofFields?, optionalLabel_or]

/-- No field is called `op`. -/
theorem op_notMem_fieldNames (hnames : fieldNames? op = some names) : "op" ∉ names := by
  unfold fieldNames? at hnames
  split at hnames <;> cases hnames <;> decide

/-- Every default is that of a field, and means something. -/
theorem of_mem_defaultsOf (hnames : fieldNames? op = some names) :
    ∀ m ∈ defaultsOf op, m.1 ∈ names ∧ m.2.isSound (nestingLimit - 1) = true := by
  unfold fieldNames? at hnames
  split at hnames <;> cases hnames <;> decide

/-- What stands under the keys of an object that writes the step. -/
structure Writes (g : Lookup) (s : ScriptStep) : Prop where
  op : g "op" = some (.string s.op)
  fields : ∃ names, fieldNames? s.op = some names ∧ ofFields? s.op (names.map g) = some s
  sound (key : String) (j : Json) : g key = some j → j.isSound (nestingLimit - 1) = true

theorem Writes.op?_eq (h : Writes g s) : op? g = some s.op := by
  rw [op?, h.op]
  rfl

theorem Writes.declared_eq (h : Writes g s) (hnames : fieldNames? s.op = some names) :
    declared g = "op" :: names := by
  rw [declared, h.op?_eq, Option.bind_some, hnames, Option.getD_some]

theorem isSound_iff_member? (hnodup : (keys ms).Nodup) : (object ms).isSound nestingLimit = true
    ↔ ∀ key j, member? ms key = some j → j.isSound (nestingLimit - 1) = true := by
  rw [isSound, Bool.and_eq_true, areSoundMembers_iff]
  constructor
  · rintro ⟨-, h⟩ key j hj
    exact h (key, j) ((member?_eq_some_iff hnodup).1 hj)
  · exact fun h => ⟨rfl, fun m hm => h m.1 m.2 ((member?_eq_some_iff hnodup).2 hm)⟩

/-- The members of an object beside its kind are read under the same keys as all of them. -/
theorem map_member?_rest {rest : Members} (hnames : fieldNames? op = some names)
    (hnodup : (keys ms).Nodup) (hperm : ms.Perm (("op", .string op) :: rest)) :
    names.map (member? rest) = names.map (member? ms) := by
  rw [← member?_perm hperm.symm hnodup]
  refine List.map_congr_left fun key hkey => ?_
  rw [member?_cons, if_neg]
  rintro rfl
  exact op_notMem_fieldNames hnames hkey

/-- An object with the kind of a step among its members, wherever it stands. -/
theorem ofJson?_object_iff : ofJson? (.object ms) = some s
    ↔ (keys ms).Nodup ∧ (∀ key ∈ keys ms, key ∈ declared (member? ms)) ∧ Writes (member? ms) s := by
  constructor
  · intro h
    unfold ofJson? at h
    split at h
    · next hsound =>
      dsimp only at h
      split at h
      · next k op rest hpartition =>
        obtain ⟨names, hnames, h⟩ := Option.bind_eq_some_iff.1 h
        obtain ⟨fields, hfields, h⟩ := Option.bind_eq_some_iff.1 h
        obtain rfl := op_of_ofFields? h
        obtain ⟨rfl, hop, hperm⟩ := perm_of_partition hpartition
        obtain ⟨hrest, hin, rfl⟩ := memberFields?_eq_some_iff.1 hfields
        have hkeys : (keys ms).Perm ("op" :: keys rest) := hperm.map _
        have hnodup : (keys ms).Nodup := hkeys.nodup_iff.2 (List.nodup_cons.2 ⟨hop, hrest⟩)
        have hwrites : Writes (member? ms) s := by
          refine ⟨?_, ⟨names, hnames, ?_⟩, (isSound_iff_member? hnodup).1 hsound⟩
          · rw [member?_eq_some_iff hnodup, hperm.mem_iff]
            exact List.mem_cons_self
          · rwa [← map_member?_rest hnames hnodup hperm]
        refine ⟨hnodup, fun key hkey => ?_, hwrites⟩
        rw [hwrites.declared_eq hnames]
        rcases List.mem_cons.1 (hkeys.mem_iff.1 hkey) with rfl | hkey
        · exact List.mem_cons_self
        · exact List.mem_cons_of_mem _ (hin key hkey)
      · cases h
    · cases h
  · rintro ⟨hnodup, hdeclared, hwrites⟩
    obtain ⟨names, hnames, hread⟩ := hwrites.fields
    obtain ⟨rest, hpartition⟩ := partition_of_member? hnodup hwrites.op
    obtain ⟨-, hop, hperm⟩ := perm_of_partition hpartition
    have hkeys : (keys ms).Perm ("op" :: keys rest) := hperm.map _
    have hfields : memberFields? names .refused rest = some (names.map (member? ms)) := by
      refine memberFields?_eq_some_iff.2 ⟨(List.nodup_cons.1 (hkeys.nodup_iff.1 hnodup)).2,
        fun key hkey => ?_, map_member?_rest hnames hnodup hperm⟩
      have hin := hdeclared key (hkeys.mem_iff.2 (List.mem_cons_of_mem _ hkey))
      rw [hwrites.declared_eq hnames] at hin
      refine (List.mem_cons.1 hin).resolve_left ?_
      rintro rfl
      exact hop hkey
    unfold ofJson?
    rw [if_pos ((isSound_iff_member? hnodup).2 hwrites.sound)]
    dsimp only
    rw [hpartition]
    dsimp only
    rw [hnames, Option.bind_eq_bind, Option.bind_some, hfields]
    exact hread

theorem readsRecord : ReadsRecord ofJson? declared defaults Writes where
  read_iff _ _ := ofJson?_object_iff
  declared_update {g s k} j hwrites hnone := by
    have hop : k ≠ "op" := by
      rintro rfl
      rw [hwrites.op] at hnone
      cases hnone
    rw [declared, declared, op?, op?, Function.update_of_ne (Ne.symm hop)]
  declared_of_default {g s k d} hwrites hdefault := by
    obtain ⟨names, hnames, -⟩ := hwrites.fields
    rw [defaults, hwrites.op?_eq] at hdefault
    rw [hwrites.declared_eq hnames]
    exact List.mem_cons_of_mem _ (of_mem_defaultsOf hnames _ (mem_of_member? hdefault)).1
  holds_update {g s k d} hwrites hdefault hnone := by
    obtain ⟨names, hnames, hread⟩ := hwrites.fields
    rw [defaults, hwrites.op?_eq] at hdefault
    refine ⟨?_, ⟨names, hnames, ?_⟩, fun key j hj => ?_⟩
    · rw [Function.update_of_ne, hwrites.op]
      rintro rfl
      rw [hwrites.op] at hnone
      cases hnone
    · rw [← ofFields?_spelledOut hnames]
      rw [Option.map_some, Option.getD_some] at hdefault
      rw [spelledOut_update hdefault hnone, ofFields?_spelledOut hnames, hread]
    · rw [Function.update_apply] at hj
      split at hj
      · cases hj
        exact (of_mem_defaultsOf hnames _ (mem_of_member? hdefault)).2
      · exact hwrites.sound key j hj

end ScriptStep

/-! ## Elements -/

namespace ScriptElement

/-- Reads an element from the values of its fields. -/
def ofFields? : List (Option Json) → Option ScriptElement
  | [some id, some kind, visibility, timestamp, steps] => do
    let id ← id.string?
    let kind ← ElementKind.ofJson? kind
    let visibility ← Visibility.ofField? visibility
    let timestamp ← timestampOfField? timestamp
    let steps ← withDefault [] steps? steps
    return ⟨id, kind, visibility, timestamp, steps⟩
  | _ => none

/-- The fields of an element that may be left out, each with the value that it then has. -/
def defaults : Members :=
  [("visibility", .string ""), ("timestamp", .null), ("mutations", .array [])]

theorem ofJson?_object (ms : Members) :
    ofJson? (.object ms) = (memberFields? fieldNames .refused ms).bind ofFields? := by
  rw [ofJson?, fields?]
  cases hfields : memberFields? fieldNames .refused ms with
  | none => rfl
  | some fields =>
    obtain ⟨-, -, rfl⟩ := memberFields?_eq_some_iff.1 hfields
    rw [Option.bind_some, fieldNames, List.map_cons, List.map_cons]
    cases member? ms "id" <;> cases member? ms "kind" <;> rfl

theorem stepsOfField?_or (field : Option Json) :
    withDefault [] steps? (field.or (some (.array []))) = withDefault [] steps? field :=
  withDefault_or (by rfl) field

theorem ofFields?_spelledOut (g : Lookup) :
    ofFields? (fieldNames.map (g.spelledOut defaults)) = ofFields? (fieldNames.map g) := by
  simp only [fieldNames, List.map_cons, List.map_nil, Lookup.spelledOut, defaults, member?_cons,
    member?_nil, String.reduceEq, if_true, if_false, Option.or_none]
  rcases g "id" with _ | id
  · rfl
  rcases g "kind" with _ | kind
  · rfl
  · simp only [ofFields?, Visibility.ofField?_or, timestampOfField?_or, stepsOfField?_or]

theorem readsRecord : ReadsRecord ofJson? (fun _ => fieldNames) (fun _ => defaults)
    fun g e => ofFields? (fieldNames.map g) = some e :=
  readsRecord_of_fields ofJson?_object (by decide) ofFields?_spelledOut

/-- An element reads each of its steps on its own. -/
theorem readsThrough_step (c : Around) :
    ReadsThrough ofJson? ScriptStep.ofJson? (c.fill "mutations") := by
  refine readsThrough_fill ofJson?_object (fun g items e hsteps he => ?_) c
  simp only [fieldNames, List.map_cons, List.map_nil] at he
  rcases hid : g "id" with _ | id
  · rw [hid] at he
    cases he
  rcases hkind : g "kind" with _ | kind
  · rw [hid, hkind] at he
    cases he
  rw [hid, hkind, ofFields?] at he
  simp only [Option.bind_eq_bind, Option.bind_eq_some_iff] at he
  obtain ⟨name, hname, k, hk, v, hv, ts, hts, -⟩ := he
  refine ⟨fun steps => ⟨name, k, v, ts, steps⟩, fun items' => ?_⟩
  simp only [fieldNames, List.map_cons, List.map_nil, Function.update_self, ne_eq,
    String.reduceEq, not_false_eq_true, Function.update_of_ne, hid, hkind, ofFields?,
    Option.bind_eq_bind, hname, hk, hv, hts, Option.bind_some]
  rw [Option.map_eq_bind]
  rfl

end ScriptElement

/-! ## Scripts -/

namespace Script

/-- Reads a script from the value of its field. -/
def ofFields? : List (Option Json) → Option Script
  | [some elements] => do
    let items ← elements.array?
    return ⟨← items.mapM ScriptElement.ofJson?⟩
  | _ => none

theorem ofJson?_object (ms : Members) :
    ofJson? (.object ms) = (memberFields? ["elements"] .refused ms).bind ofFields? := by
  rw [ofJson?, fields?]
  cases hfields : memberFields? ["elements"] .refused ms with
  | none => rfl
  | some fields =>
    obtain ⟨-, -, rfl⟩ := memberFields?_eq_some_iff.1 hfields
    rw [Option.bind_some, List.map_cons]
    cases member? ms "elements" <;> rfl

theorem readsRecord : ReadsRecord ofJson? (fun _ => ["elements"]) (fun _ => [])
    fun g s => ofFields? (["elements"].map g) = some s :=
  readsRecord_of_fields ofJson?_object (by decide) fun g => by
    simp [Lookup.spelledOut]

/-- A script reads each of its elements on its own. -/
theorem readsThrough_element (c : Around) :
    ReadsThrough ofJson? ScriptElement.ofJson? (c.fill "elements") := by
  refine readsThrough_fill ofJson?_object (fun g items s helements hs => ⟨mk, fun items' => ?_⟩) c
  rw [List.map_cons, Function.update_self, List.map_nil]
  show (items'.mapM ScriptElement.ofJson?).bind (fun elements => some (mk elements)) = _
  rw [Option.map_eq_bind]
  rfl

/-! ## Places -/

/-- An object of a script: the script itself, one of its elements, or a step of one of these. -/
inductive Place where
  | script
  | element (c : Around)
  | step (c d : Around)

namespace Place

/-- The script with a value in the place. -/
def fill : Place → Json → Json
  | .script => id
  | .element c => c.fill "elements"
  | .step c d => c.fill "elements" ∘ d.fill "mutations"

/-- The keys that an object in the place may have; those of a step depend on its kind. -/
def declared : Place → Lookup → List String
  | .script => fun _ => ["elements"]
  | .element _ => fun _ => ScriptElement.fieldNames
  | .step _ _ => ScriptStep.declared

/-- The fields that may be left out in the place, each with the value that it then has. -/
def defaults : Place → Lookup → Members
  | .script => fun _ => []
  | .element _ => fun _ => ScriptElement.defaults
  | .step _ _ => ScriptStep.defaults

/-- What stands in a place is read on its own, as a record. -/
theorem exists_part (p : Place) : ∃ (β : Type) (part : Json → Option β)
    (holds : Lookup → β → Prop), ReadsThrough Script.ofJson? part p.fill
      ∧ ReadsRecord part p.declared p.defaults holds := by
  cases p with
  | script => exact ⟨_, _, _, .refl _, Script.readsRecord⟩
  | element c => exact ⟨_, _, _, readsThrough_element c, ScriptElement.readsRecord⟩
  | step c d =>
    exact ⟨_, _, _, (readsThrough_element c).trans (ScriptElement.readsThrough_step d),
      ScriptStep.readsRecord⟩

end Place

/-- The one script is the other with one object written another way. -/
def Respells (j j' : Json) : Prop :=
  ∃ (p : Place) (ms ms' : Members), p.fill (.object ms) = j ∧ p.fill (.object ms') = j'
    ∧ Respelled (p.defaults (member? ms)) ms ms'

/-- The one script is the other with one member too many in one object. -/
def Spoils (j j' : Json) : Prop :=
  ∃ (p : Place) (ms ms' : Members), p.fill (.object ms) = j ∧ p.fill (.object ms') = j'
    ∧ Spoiled (p.declared (member? ms)) ms ms'

variable {j j' : Json} {s : Script}

theorem ofJson?_of_respells (h : Respells j j') (hj : ofJson? j = some s) :
    ofJson? j' = some s := by
  obtain ⟨p, ms, ms', rfl, rfl, hms⟩ := h
  obtain ⟨_, _, _, hpart, hrecord⟩ := p.exists_part
  exact hpart.respelled hrecord hj hms

/-- Nor does it matter in how many objects. -/
theorem ofJson?_of_respells_star (h : Relation.ReflTransGen Respells j j')
    (hj : ofJson? j = some s) : ofJson? j' = some s := by
  induction h with
  | refl => exact hj
  | tail _ hlast ih => exact ofJson?_of_respells hlast ih

theorem ofJson?_of_spoils (h : Spoils j j') (hj : ofJson? j = some s) : ofJson? j' = none := by
  obtain ⟨p, ms, ms', rfl, rfl, hms⟩ := h
  obtain ⟨_, _, _, hpart, hrecord⟩ := p.exists_part
  exact hpart.spoiled hrecord hj hms

/-- **Scripts are read strictly, and their fields in any order.**  A script may be written in any
order of the members of its objects, the kind of a step among them, and any field that is left out
may be spelled out with its default: it is read as the same.  A script with a member too many,
whichever object it is in, is refused: one whose key is not declared there, for a step not among the
fields of its kind, or one whose key the object has already.  So in a script that is read, every key
of every object is declared and stands there once. -/
theorem parse?_strict {text : String} (hj : Json.parse? text = some j)
    (hs : parse? text = some s) :
    (∀ j', Relation.ReflTransGen Respells j j' → ∀ text', Json.parse? text' = some j' →
        parse? text' = some s)
      ∧ (∀ j', Spoils j j' → ∀ text', Json.parse? text' = some j' → parse? text' = none)
      ∧ ∀ (p : Place) (ms : Members), p.fill (.object ms) = j →
        (keys ms).Nodup ∧ ∀ key ∈ keys ms, key ∈ p.declared (member? ms) := by
  rw [parse?, hj, Option.bind_some] at hs
  refine ⟨fun j' h text' htext => ?_, fun j' h text' htext => ?_, fun p ms h => ?_⟩
  · rw [parse?, htext, Option.bind_some]
    exact ofJson?_of_respells_star h hs
  · rw [parse?, htext, Option.bind_some]
    exact ofJson?_of_spoils h hs
  · obtain ⟨_, _, _, hpart, hrecord⟩ := p.exists_part
    rw [← h] at hs
    exact hpart.keys_declared hrecord hs

end Script

/-- The script of an element with one step, the members of both in any order. -/
def ferryJson (element : List Json → Members) (step : Members) : Json :=
  .object [("elements", .array [.object (element [.object step])])]

/-- The kind of the step may come last, with `null` for its time, but its field must not be
misspelled, and it must not have a field of another kind of step. -/
theorem Script.parse?_strict_ferry :
    let element (steps : List Json) : Members :=
      [("id", .string "f"), ("kind", .string "edge"), ("mutations", .array steps)]
    let element' (steps : List Json) : Members :=
      [("mutations", .array steps), ("kind", .string "edge"), ("id", .string "f")]
    let step : Members := [("op", .string "alter_edge_label"), ("label", .string "ferry")]
    let s : Script := ⟨[⟨"f", .edge, .empty, none, [.alterEdgeLabel "ferry" none]⟩]⟩
    parse? (ferryJson element step).compact = some s
      ∧ parse? (ferryJson element' [("label", .string "ferry"), ("timestamp", .null),
          ("op", .string "alter_edge_label")]).compact = some s
      ∧ parse? (ferryJson element (("lable", .string "") :: step)).compact = none
      ∧ parse? (ferryJson element (("visibility", .string "") :: step)).compact = none := by
  intro element element' step s
  have hparsed {j : Json} (h : isSound ScriptStep.nestingLimit j = true) :
      Json.parse? j.compact = some j := parse?_compact_of_isSound h
  let c : Around := ⟨[], [], [], []⟩
  let d : Around := ⟨[("id", .string "f"), ("kind", .string "edge")], [], [], []⟩
  have hs : parse? (ferryJson element step).compact = some s := by
    rw [parse?, hparsed (by decide), Option.bind_some]
    decide
  obtain ⟨hrespelled, hspoiled, -⟩ := parse?_strict (hparsed (by decide)) hs
  have hspelled : Respells (ferryJson element step) (ferryJson element
      [("label", .string "ferry"), ("timestamp", .null), ("op", .string "alter_edge_label")]) :=
    ⟨.step c d, step, _, rfl, rfl, .spelledOut "timestamp" .null rfl (by decide)
      (.trans (.swap _ _ _) (.cons _ (.swap _ _ _)))⟩
  have hreordered (step : Members) : Respells (ferryJson element step) (ferryJson element' step) :=
    ⟨.element c, element [.object step], element' [.object step], rfl, rfl,
      .reordered (List.reverse_perm (element [.object step]))⟩
  have hadded (k : String) (hk : k ∉ ScriptStep.declared (member? step)) :
      Spoils (ferryJson element step) (ferryJson element ((k, .string "") :: step)) :=
    ⟨.step c d, step, _, rfl, rfl, .undeclared k _ hk (.refl _)⟩
  refine ⟨hs, hrespelled _ (.tail (.single hspelled) (hreordered _)) _ (hparsed (by decide)),
    hspoiled _ (hadded "lable" (by decide)) _ (hparsed (by decide)),
    hspoiled _ (hadded "visibility" (by decide)) _ (hparsed (by decide))⟩

end Chronicle
