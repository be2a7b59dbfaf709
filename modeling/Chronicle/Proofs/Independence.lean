import Chronicle.Proofs.Log.Agreement
import Chronicle.Proofs.Log.Appends

/-!
# Independent writes commute

Each record is about one aspect of its element: that the element is there, its label, one of the
labels that hide it, one of its properties.  A read looks at the aspects one by one, and within an
aspect only at the order of the records.  So two neighbouring records can change places if they are
about different aspects, or if their times put them in order anyway; and writers who write about
different aspects make the same element however their writes are mixed.

* `Mutation.aspect` : what a record is about;
* `Log.Alike` : logs of which no read can tell which one it reads;
* `alike_of_sameByAspect` : logs that have the same records of each aspect are alike;
* `alike_of_independent` : exchanged neighbours, and mixed writers.
-/

namespace Chronicle

/-! ## Aspects -/

/-- What of an element a record is about. -/
inductive Aspect where
  /-- That the element is there, or is deleted. -/
  | existence
  /-- The element's label. -/
  | label
  /-- The label of an edge. -/
  | edgeLabel
  /-- The concept type of a vertex. -/
  | conceptType
  /-- Whether the element is hidden under a label. -/
  | hiding (label : Visibility)
  /-- One property. -/
  | property (i : PropertyIdentity)
  deriving DecidableEq

namespace Mutation

/-- What the record is about. -/
def aspect : Mutation → Aspect
  | .element r =>
    match r.change with
    | .touch | .softDelete => .existence
    | .relabel _ => .label
    | .edgeLabel _ => .edgeLabel
    | .conceptType _ => .conceptType
    | .hide | .unhide => .hiding r.visibility
  | .property r => .property r.identity

/-- Whether the record is about the aspect. -/
def isAbout (a : Aspect) (m : Mutation) : Bool := decide (m.aspect = a)

variable {m : Mutation}

theorem aspect_of_touch? {ts : Timestamp} (h : m.touch? = some ts) : m.aspect = .existence := by
  unfold touch? at h
  split at h
  · rfl
  · cases h

theorem aspect_of_deletes? {b : Bool} (h : m.deletes? = some b) : m.aspect = .existence := by
  unfold deletes? at h
  split at h
  · next hmark =>
    unfold isExistenceMarker at hmark
    split at hmark
    · rfl
    · rfl
    · cases hmark
  · cases h

theorem aspect_of_relabel? {label : Visibility} (h : m.relabel? = some label) :
    m.aspect = .label := by
  unfold relabel? at h
  split at h
  · rfl
  · cases h

theorem aspect_of_edgeLabel? {label : String} (h : m.edgeLabel? = some label) :
    m.aspect = .edgeLabel := by
  unfold edgeLabel? at h
  split at h
  · rfl
  · cases h

theorem aspect_of_conceptType? {name : String} (h : m.conceptType? = some name) :
    m.aspect = .conceptType := by
  unfold conceptType? at h
  split at h
  · rfl
  · cases h

theorem aspect_of_hiding? {label : Visibility} {b : Bool} (h : m.hiding? label = some b) :
    m.aspect = .hiding label := by
  unfold hiding? at h
  split at h
  · split at h
    · next hlabel => rw [hlabel]; rfl
    · cases h
  · split at h
    · next hlabel => rw [hlabel]; rfl
    · cases h
  · cases h

theorem aspect_of_recordOf? {i : PropertyIdentity} {r : PropertyRecord}
    (h : m.recordOf? i = some r) : m.aspect = .property i := by
  obtain ⟨rfl, rfl⟩ := eq_property_of_recordOf? h
  rfl

end Mutation

namespace Log

/-! ## Logs that are alike -/

/-- Both logs have the same records of each aspect, in the same order. -/
def SameByAspect (l l' : Log) : Prop :=
  ∀ a, l.entries.filter (Mutation.isAbout a) = l'.entries.filter (Mutation.isAbout a)

/-- No read can tell the logs apart: not of a fact, not of properties, not of the history of one
property, and not of an element that has the log. -/
structure Alike (l l' : Log) : Prop where
  firstTimestamp : l.firstTimestamp = l'.firstTimestamp
  latestTimestamp : l.latestTimestamp = l'.latestTimestamp
  visibility : l.visibility = l'.visibility
  edgeLabel : l.edgeLabel = l'.edgeLabel
  conceptType : l.conceptType = l'.conceptType
  hiders : l.hiders = l'.hiders
  isDeleted (asOf : Option Timestamp) (reader : Reader) :
    l.isDeleted asOf reader = l'.isDeleted asOf reader
  property (v : View) (i : PropertyIdentity) (fetch : Load) :
    l.property v i fetch = l'.property v i fetch
  resolved (v : View) (f : PropertyFilter) (fetch : Load) :
    l.resolved v f fetch = l'.resolved v f fetch
  history (s : HistoryScope) (i : PropertyIdentity) (fetch : Load) :
    l.history s (.only i) fetch = l'.history s (.only i) fetch
  state (id : ElementId) (kind : ElementKind) (v : View) (fetch : Load) :
    Element.state ⟨id, kind, l⟩ v fetch = Element.state ⟨id, kind, l'⟩ v fetch
  materialize {α : Type} (m : Materializer α) (id : ElementId) (kind : ElementKind) (v : View)
    (fetch : Load) :
    Element.materialize ⟨id, kind, l⟩ m v fetch = Element.materialize ⟨id, kind, l'⟩ m v fetch

variable {l l' : Log}

/-- Logs with the same records of each aspect say the same of one aspect. -/
theorem SameByAspect.said_eq {β : Type} {tells : Mutation → Option β} {a : Aspect}
    (h : l.SameByAspect l') (ha : ∀ m b, tells m = some b → m.aspect = a) :
    l.said tells = l'.said tells := by
  have habout : ∀ m b, tells m = some b → Mutation.isAbout a m = true := fun m b hm =>
    decide_eq_true (ha m b hm)
  rw [← l.said_keep habout, ← l'.said_keep habout]
  exact congrArg (List.filterMap tells) (h a)

/-- This is so too of what is said up to a moment. -/
theorem SameByAspect.said_told_eq {β : Type} {tells : Mutation → Option β} {a : Aspect}
    (h : l.SameByAspect l') (ha : ∀ m b, tells m = some b → m.aspect = a)
    (asOf : Option Timestamp) :
    l.said (Mutation.told asOf tells) = l'.said (Mutation.told asOf tells) :=
  h.said_eq fun m b hm => ha m b (Mutation.eq_some_of_told hm)

/-- This is so too of what is said up to a moment and may be read. -/
theorem SameByAspect.said_openTo_eq {β : Type} {tells : Mutation → Option β} {a : Aspect}
    (h : l.SameByAspect l') (ha : ∀ m b, tells m = some b → m.aspect = a)
    (asOf : Option Timestamp) (reader : Reader) :
    l.said (Mutation.told asOf (Mutation.openTo reader tells))
      = l'.said (Mutation.told asOf (Mutation.openTo reader tells)) :=
  h.said_told_eq (fun m b hm => ha m b (Mutation.eq_some_of_openTo hm).1) asOf

theorem SameByAspect.group_eq (h : l.SameByAspect l') (i : PropertyIdentity) :
    group l.propertyRecords i = group l'.propertyRecords i := by
  rw [group_eq_said, group_eq_said]
  exact h.said_eq fun m r => Mutation.aspect_of_recordOf?

theorem SameByAspect.hiders_eq (h : l.SameByAspect l') : l.hiders = l'.hiders :=
  hiders_congr fun _ => h.said_eq fun _ _ => Mutation.aspect_of_hiding?

theorem SameByAspect.properties_eq (h : l.SameByAspect l') (v : View) (f : PropertyFilter) :
    l.properties v f = l'.properties v f :=
  properties_congr (fun i _ => h.group_eq i) f

theorem SameByAspect.firstTimestamp_eq (h : l.SameByAspect l') :
    l.firstTimestamp = l'.firstTimestamp := by
  rw [firstTimestamp_eq_said, firstTimestamp_eq_said,
    h.said_eq fun _ _ => Mutation.aspect_of_touch?]

theorem SameByAspect.isDeleted_eq (h : l.SameByAspect l') (asOf : Option Timestamp)
    (reader : Reader) : l.isDeleted asOf reader = l'.isDeleted asOf reader := by
  rw [isDeleted_eq_said, isDeleted_eq_said,
    h.said_openTo_eq (fun _ _ => Mutation.aspect_of_deletes?) asOf reader]

theorem SameByAspect.showsAs (h : l.SameByAspect l') (v : View) : l.ShowsAs v l' where
  firstTimestamp := h.firstTimestamp_eq
  isDeleted := h.isDeleted_eq v.asOf v.reader
  facts := facts_congr (h.said_told_eq (fun _ _ => Mutation.aspect_of_relabel?) v.asOf)
    (h.said_openTo_eq (fun _ _ => Mutation.aspect_of_touch?) v.asOf v.reader)
    (h.said_openTo_eq (fun _ _ => Mutation.aspect_of_edgeLabel?) v.asOf v.reader)
    (h.said_openTo_eq (fun _ _ => Mutation.aspect_of_conceptType?) v.asOf v.reader)
  properties := h.properties_eq v .any
  hiders := h.hiders_eq

/-- Logs that have the same records of each aspect are alike. -/
theorem alike_of_sameByAspect (h : l.SameByAspect l') : l.Alike l' where
  firstTimestamp := h.firstTimestamp_eq
  latestTimestamp := by
    rw [latestTimestamp_eq_said, latestTimestamp_eq_said,
      h.said_eq fun _ _ => Mutation.aspect_of_touch?]
  visibility := by
    rw [visibility_eq_said, visibility_eq_said, h.said_eq fun _ _ => Mutation.aspect_of_relabel?]
  edgeLabel := by
    rw [edgeLabel_eq_said, edgeLabel_eq_said, h.said_eq fun _ _ => Mutation.aspect_of_edgeLabel?]
  conceptType := by
    rw [conceptType_eq_said, conceptType_eq_said,
      h.said_eq fun _ _ => Mutation.aspect_of_conceptType?]
  hiders := h.hiders_eq
  isDeleted := h.isDeleted_eq
  property v i fetch := by rw [property, property, resolved, resolved, h.properties_eq]
  resolved v f fetch := by rw [resolved, resolved, h.properties_eq]
  history s i fetch := by
    rw [history, history, recordsOf_only, recordsOf_only, h.group_eq]
  state _ _ v fetch := (h.showsAs v).state_eq fetch
  materialize m _ _ v fetch := (h.showsAs v).materialize_eq m fetch

/-! ## Appends -/

/-- Appends that agree at each time on each aspect make logs that are alike. -/
theorem alike_ofAppends {batches batches' : List (List Mutation)}
    (h : ∀ a ts, atTime ts (batches.flatten.filter (Mutation.isAbout a))
      = atTime ts (batches'.flatten.filter (Mutation.isAbout a))) :
    (ofAppends batches).Alike (ofAppends batches') :=
  alike_of_sameByAspect fun a => filter_ofAppends_congr (h a)

/-- Two neighbours of which at most one is chosen can change places before the choice. -/
theorem filter_swap {p : Mutation → Bool} {m n : Mutation} (h : ¬(p m = true ∧ p n = true))
    (before after : List Mutation) :
    (before ++ m :: n :: after).filter p = (before ++ n :: m :: after).filter p := by
  rw [List.filter_append, List.filter_append]
  refine congrArg (before.filter p ++ ·) ?_
  cases hm : p m <;> cases hn : p n
  case true.true => exact absurd ⟨hm, hn⟩ h
  all_goals simp [hm, hn]

/-- Neighbours of different times or aspects can change places. -/
theorem alike_of_exchange {batches batches' : List (List Mutation)} {before after : List Mutation}
    {m n : Mutation} (hrun : batches.flatten = before ++ m :: n :: after)
    (hrun' : batches'.flatten = before ++ n :: m :: after)
    (h : m.timestamp ≠ n.timestamp ∨ m.aspect ≠ n.aspect) :
    (ofAppends batches).Alike (ofAppends batches') := by
  refine alike_ofAppends fun a ts => ?_
  rw [hrun, hrun', atTime, atTime, List.filter_filter, List.filter_filter]
  refine filter_swap (fun hboth => ?_) before after
  simp only [Mutation.isAbout, Bool.and_eq_true, beq_iff_eq, decide_eq_true_eq] at hboth
  obtain ⟨⟨htime, haspect⟩, htime', haspect'⟩ := hboth
  rcases h with hne | hne
  · exact hne (htime.trans htime'.symm)
  · exact hne (haspect.trans haspect'.symm)

/-! ## Writers -/

section Writers

variable {ω : Type} [DecidableEq ω]

/-- What the writer wrote in the run, in order. -/
def writtenBy (w : ω) (run : List (ω × Mutation)) : List Mutation :=
  (run.filter fun e => decide (e.1 = w)).map Prod.snd

/-- Different writers of the run write about different aspects. -/
def WritersDisjoint (run : List (ω × Mutation)) : Prop :=
  ∀ e ∈ run, ∀ e' ∈ run, e.1 ≠ e'.1 → e.2.aspect ≠ e'.2.aspect

instance (run : List (ω × Mutation)) : Decidable (WritersDisjoint run) :=
  inferInstanceAs (Decidable (∀ e ∈ run, ∀ e' ∈ run, e.1 ≠ e'.1 → e.2.aspect ≠ e'.2.aspect))

theorem mem_writtenBy {w : ω} {m : Mutation} {run : List (ω × Mutation)} :
    m ∈ writtenBy w run ↔ (w, m) ∈ run := by
  rw [writtenBy, List.mem_map]
  constructor
  · rintro ⟨⟨w', m'⟩, he, rfl⟩
    obtain ⟨hmem, hw⟩ := List.mem_filter.1 he
    cases of_decide_eq_true hw
    exact hmem
  · intro hmem
    exact ⟨(w, m), List.mem_filter.2 ⟨hmem, decide_eq_true rfl⟩, rfl⟩

/-- If only one writer writes about the aspect, the run has of it what that writer wrote. -/
theorem filter_isAbout_eq_writtenBy {a : Aspect} {w : ω} {run : List (ω × Mutation)}
    (h : ∀ e ∈ run, e.2.aspect = a → e.1 = w) :
    (run.map Prod.snd).filter (Mutation.isAbout a)
      = (writtenBy w run).filter (Mutation.isAbout a) := by
  rw [writtenBy, List.filter_map, List.filter_map, List.filter_filter]
  refine congrArg _ (List.filter_congr fun e he => ?_)
  show Mutation.isAbout a e.2 = (Mutation.isAbout a e.2 && decide (e.1 = w))
  cases habout : Mutation.isAbout a e.2 with
  | false => rfl
  | true => rw [decide_eq_true (h e he (of_decide_eq_true habout)), Bool.and_self]

/-- Two runs of the same writers with disjoint aspects agree on each aspect. -/
theorem filter_isAbout_eq_of_writtenBy_eq {run run' : List (ω × Mutation)}
    (hsame : ∀ w, writtenBy w run = writtenBy w run') (hdisjoint : WritersDisjoint run)
    (a : Aspect) :
    (run.map Prod.snd).filter (Mutation.isAbout a)
      = (run'.map Prod.snd).filter (Mutation.isAbout a) := by
  have hmem : ∀ e, e ∈ run ↔ e ∈ run' := by
    rintro ⟨w, m⟩
    rw [← mem_writtenBy, ← mem_writtenBy, hsame]
  by_cases hsome : ∃ e ∈ run, e.2.aspect = a
  · -- the writer of one record of the aspect wrote all of them, in either run
    obtain ⟨e, he, ha⟩ := hsome
    have honly : ∀ e' ∈ run, e'.2.aspect = a → e'.1 = e.1 := by
      intro e' he' ha'
      by_contra hne
      exact hdisjoint e' he' e he hne (ha'.trans ha.symm)
    rw [filter_isAbout_eq_writtenBy honly, hsame]
    exact (filter_isAbout_eq_writtenBy fun e' he' => honly e' ((hmem e').2 he')).symm
  · have hnone : ∀ r : List (ω × Mutation), (∀ e ∈ r, e ∈ run) →
        (r.map Prod.snd).filter (Mutation.isAbout a) = [] := by
      intro r hr
      refine List.filter_eq_nil_iff.2 fun m hm habout => ?_
      obtain ⟨e, he, rfl⟩ := List.mem_map.1 hm
      exact hsome ⟨e, hr e he, of_decide_eq_true habout⟩
    rw [hnone run fun e he => he, hnone run' fun e he => (hmem e).2 he]

/-- Writers of disjoint aspects make the same element however their writes are mixed. -/
theorem alike_of_interleaving {run run' : List (ω × Mutation)}
    {batches batches' : List (List Mutation)} {before after : List Mutation}
    (hsame : ∀ w, writtenBy w run = writtenBy w run') (hdisjoint : WritersDisjoint run)
    (hrun : batches.flatten = before ++ run.map Prod.snd ++ after)
    (hrun' : batches'.flatten = before ++ run'.map Prod.snd ++ after) :
    (ofAppends batches).Alike (ofAppends batches') := by
  refine alike_ofAppends fun a ts => ?_
  rw [hrun, hrun', List.filter_append, List.filter_append, List.filter_append, List.filter_append,
    filter_isAbout_eq_of_writtenBy_eq hsame hdisjoint]

end Writers

/-- **Independent writes commute.**  Exchanging two neighbouring records that have different times
or are about different aspects leaves every later read as it is, and so does mixing the writes of
writers who write about disjoint aspects in another way. -/
theorem alike_of_independent :
    (∀ (batches batches' : List (List Mutation)) (before after : List Mutation) (m n : Mutation),
        batches.flatten = before ++ m :: n :: after →
        batches'.flatten = before ++ n :: m :: after →
        m.timestamp ≠ n.timestamp ∨ m.aspect ≠ n.aspect →
        (ofAppends batches).Alike (ofAppends batches'))
      ∧ ∀ {ω : Type} [DecidableEq ω] (run run' : List (ω × Mutation))
          (batches batches' : List (List Mutation)) (before after : List Mutation),
          (∀ w, writtenBy w run = writtenBy w run') → WritersDisjoint run →
          batches.flatten = before ++ run.map Prod.snd ++ after →
          batches'.flatten = before ++ run'.map Prod.snd ++ after →
          (ofAppends batches).Alike (ofAppends batches') :=
  ⟨fun _ _ _ _ _ _ hrun hrun' h => alike_of_exchange hrun hrun' h,
    fun _ _ _ _ _ _ hsame hdisjoint hrun hrun' =>
      alike_of_interleaving hsame hdisjoint hrun hrun'⟩

/-- An author writes a title twice while a curator hides the element, all of it at one time. -/
def authorFirst : List (Bool × Mutation) :=
  [(true, .property ⟨3, ⟨"title", "k", .empty⟩, .setValue (.int 1) OrderedMap.empty⟩),
    (true, .property ⟨3, ⟨"title", "k", .empty⟩, .setValue (.int 2) OrderedMap.empty⟩),
    (false, Mutation.markHidden 3 ⟨"board"⟩)]

/-- The same, but the curator comes first. -/
def curatorFirst : List (Bool × Mutation) :=
  [(false, Mutation.markHidden 3 ⟨"board"⟩),
    (true, .property ⟨3, ⟨"title", "k", .empty⟩, .setValue (.int 1) OrderedMap.empty⟩),
    (true, .property ⟨3, ⟨"title", "k", .empty⟩, .setValue (.int 2) OrderedMap.empty⟩)]

/-- The logs of the two runs are not the same, but alike; so are the logs in which a deletion of
another time changes place with the hiding. -/
theorem alike_of_independent_curator :
    let start := Mutation.elementTimestamp 1
    let author := ofAppends [[start], authorFirst.map Prod.snd]
    let curator := ofAppends [[start], curatorFirst.map Prod.snd]
    let hide := Mutation.markHidden 3 ⟨"board"⟩
    let delete := Mutation.softDelete 2
    author ≠ curator ∧ author.Alike curator ∧ hide.timestamp ≠ delete.timestamp
      ∧ (ofAppends [[start, hide], [delete]]).Alike (ofAppends [[start], [delete], [hide]]) := by
  intro start author curator hide delete
  obtain ⟨hexchange, hinterleave⟩ := alike_of_independent
  have hsame : ∀ w, writtenBy w authorFirst = writtenBy w curatorFirst := by
    intro w
    cases w <;> rfl
  have hdisjoint : WritersDisjoint authorFirst := by decide
  refine ⟨by decide, ?_, by decide, ?_⟩
  · exact hinterleave authorFirst curatorFirst _ _ [start] [] hsame hdisjoint rfl rfl
  · exact hexchange _ _ [start] [] hide delete rfl rfl (Or.inl (by decide))

end Log

end Chronicle
