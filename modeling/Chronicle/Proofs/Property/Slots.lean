import Mathlib.Order.Bounds.Basic
import Chronicle.Proofs.Property.Reconstruction

/-!
# The slots of a draft

All properties of a history share one list of slots.  A builder remembers the slot of the latest
entry of its property, while the list goes on and slots of other properties, and its own earlier
ones, may be given up.  The slot that it remembers is always in the list, and it is the last that
holds an entry of its property.  So a value that revives its property gives up a deletion of that
very property and nothing else, and what reports a value stays.

* `HistoryDraft.Tracks` : the builders are right about the slots;
* `tracks_step` : every record keeps them right;
* `stepWithin_eq` : a step that halts at a slot outside of the list does not halt;
* `slots_step` : what a record gives up;
* `HistoryScope.drafting_sound` : the loop over the records, at every turn.
-/

namespace Chronicle

namespace HistoryDraft

variable {d : HistoryDraft} {b : HistoryBuilder} {i j : PropertyIdentity} {slot : Nat}
  {e : HistoryEntry}

/-! ## Which slots hold what -/

/-- The slots that hold an entry of the property. -/
def slotsOf (d : HistoryDraft) (i : PropertyIdentity) : Set Nat :=
  {slot | ∃ e, d.slots[slot]? = some (some e) ∧ e.identity = i}

/-- A slot that holds an entry is in the list. -/
theorem lt_size_of_mem_slotsOf (h : slot ∈ d.slotsOf i) : slot < d.slots.size := by
  obtain ⟨e, he, -⟩ := h
  obtain ⟨hlt, -⟩ := Array.getElem?_eq_some_iff.1 he
  exact hlt

/-- A slot holds an entry of one property only. -/
theorem eq_of_mem_slotsOf (hi : slot ∈ d.slotsOf i) (hj : slot ∈ d.slotsOf j) : i = j := by
  obtain ⟨e, he, rfl⟩ := hi
  obtain ⟨e', he', rfl⟩ := hj
  rw [he] at he'
  cases he'
  rfl

theorem holdsDeletion_iff :
    d.holdsDeletion slot = true ↔ ∃ e, d.slots[slot]? = some (some e) ∧ e.isDeleted = true := by
  unfold holdsDeletion
  split
  · next e he => simp [he]
  · next hno =>
    constructor
    · intro h
      cases h
    · rintro ⟨e, he, -⟩
      exact absurd he (hno e)

/-- Reviving empties the slot that the builder remembers, if that holds a deletion. -/
theorem getElem?_slots_revive (d : HistoryDraft) (b : HistoryBuilder) (slot : Nat) :
    (d.revive b).slots[slot]?
      = if b.lastSlot = some slot ∧ d.holdsDeletion slot = true then some none
        else d.slots[slot]? := by
  unfold revive
  cases hb : b.lastSlot with
  | none => simp
  | some last =>
    simp only [Option.some.injEq]
    by_cases hdel : d.holdsDeletion last = true
    · obtain ⟨e, he, -⟩ := holdsDeletion_iff.1 hdel
      obtain ⟨hlt, -⟩ := Array.getElem?_eq_some_iff.1 he
      rw [if_pos hdel, Array.getElem?_setIfInBounds]
      by_cases heq : last = slot
      · subst heq
        simp [hdel, hlt]
      · simp [heq]
    · rw [if_neg hdel, if_neg]
      rintro ⟨rfl, h⟩
      exact hdel h

/-- A new entry takes the slot at the end. -/
theorem getElem?_slots_emit (d : HistoryDraft) (i : PropertyIdentity) (b : HistoryBuilder)
    (ts : Timestamp) (isDeleted : Bool) (slot : Nat) :
    (d.emit i b ts isDeleted).slots[slot]?
      = if slot = d.slots.size then some (some ⟨i, b.value, b.metadata, ts, isDeleted⟩)
        else d.slots[slot]? := by
  rw [emit, Array.getElem?_push]

/-- The slots of a property with a new entry. -/
theorem slotsOf_emit_self (d : HistoryDraft) (i : PropertyIdentity) (b : HistoryBuilder)
    (ts : Timestamp) (isDeleted : Bool) :
    (d.emit i b ts isDeleted).slotsOf i = insert d.slots.size (d.slotsOf i) := by
  ext slot
  by_cases hend : slot = d.slots.size
  · simp [slotsOf, getElem?_slots_emit, hend]
  · simp [slotsOf, getElem?_slots_emit, hend]

/-- The slots of other properties. -/
theorem slotsOf_emit_of_ne (d : HistoryDraft) (b : HistoryBuilder) (ts : Timestamp)
    (isDeleted : Bool) (h : j ≠ i) : (d.emit i b ts isDeleted).slotsOf j = d.slotsOf j := by
  ext slot
  by_cases hend : slot = d.slots.size
  · simp [slotsOf, getElem?_slots_emit, hend, h.symm]
  · simp [slotsOf, getElem?_slots_emit, hend]

/-! ## The slots that the builders remember -/

/-- The builder of the property remembers a slot if and only if this is the last that holds an entry
of the property. -/
def Remembers (d : HistoryDraft) (i : PropertyIdentity) : Prop :=
  ∀ slot, (d.builder i).lastSlot = some slot ↔ IsGreatest (d.slotsOf i) slot

/-- The builders are right about the slots. -/
structure Tracks (d : HistoryDraft) : Prop where
  /-- The slot that a builder remembers is in the list. -/
  inBounds : ∀ i slot, (d.builder i).lastSlot = some slot → slot < d.slots.size
  /-- It holds an entry of the builder's property, and it is the last that does. -/
  remembers : ∀ i, d.Remembers i
  /-- No two builders remember the same slot. -/
  distinct : ∀ i j slot, (d.builder i).lastSlot = some slot → (d.builder j).lastSlot = some slot →
    i = j

/-- It is enough that every builder remembers the last slot of its property. -/
theorem tracks_of_remembers (h : ∀ i, d.Remembers i) : d.Tracks where
  inBounds i slot hi := lt_size_of_mem_slotsOf ((h i slot).1 hi).1
  remembers := h
  distinct i j slot hi hj := eq_of_mem_slotsOf ((h i slot).1 hi).1 ((h j slot).1 hj).1

/-- Whether a builder is right depends on what it remembers and on the slots of its property. -/
theorem remembers_congr {c : HistoryDraft} (hb : (c.builder i).lastSlot = (d.builder i).lastSlot)
    (hslots : c.slotsOf i = d.slotsOf i) : c.Remembers i ↔ d.Remembers i := by
  rw [Remembers, Remembers, hb, hslots]

theorem tracks_start : start.Tracks := by
  refine tracks_of_remembers fun i slot => ?_
  have hnone : (start.builder i).lastSlot = none := rfl
  have hempty : start.slotsOf i = ∅ := by simp [slotsOf, start]
  simp [hnone, hempty, IsGreatest]

/-- A property remembers its new entry, whatever was known before. -/
theorem remembers_emit_self (d : HistoryDraft) (i : PropertyIdentity) (b : HistoryBuilder)
    (ts : Timestamp) (isDeleted : Bool) : (d.emit i b ts isDeleted).Remembers i := by
  have hgreatest : IsGreatest (insert d.slots.size (d.slotsOf i)) d.slots.size := by
    refine ⟨Set.mem_insert _ _, ?_⟩
    rintro slot (rfl | h)
    · exact le_rfl
    · exact (lt_size_of_mem_slotsOf h).le
  intro slot
  rw [builder_emit, if_pos rfl, slotsOf_emit_self]
  constructor
  · intro h
    cases h
    exact hgreatest
  · intro h
    rw [h.unique hgreatest]

/-- A new entry makes up for whatever is wrong about its own property. -/
theorem tracks_emit (h : ∀ j, j ≠ i → d.Remembers j) (b : HistoryBuilder) (ts : Timestamp)
    (isDeleted : Bool) : (d.emit i b ts isDeleted).Tracks := by
  refine tracks_of_remembers fun j => ?_
  by_cases hj : j = i
  · subst hj
    exact remembers_emit_self d j b ts isDeleted
  · have hb : ((d.emit i b ts isDeleted).builder j).lastSlot = (d.builder j).lastSlot := by
      rw [builder_emit, if_neg hj]
    exact (remembers_congr hb (slotsOf_emit_of_ne d b ts isDeleted hj)).2 (h j hj)

/-- What a builder knows besides its slot does not matter. -/
theorem tracks_withBuilder (h : d.Tracks) (hb : b.lastSlot = (d.builder i).lastSlot) :
    (d.withBuilder i b).Tracks := by
  refine tracks_of_remembers fun j => ?_
  have hlast : ((d.withBuilder i b).builder j).lastSlot = (d.builder j).lastSlot := by
    rw [builder_withBuilder]
    split
    · next hj => rw [hj, hb]
    · rfl
  have hslots : (d.withBuilder i b).slotsOf j = d.slotsOf j := rfl
  exact (remembers_congr hlast hslots).2 (h.remembers j)

/-- Reviving a property empties no slot of another one. -/
theorem slotsOf_revive_of_ne (h : d.Tracks) (hb : b.lastSlot = (d.builder i).lastSlot)
    (hj : j ≠ i) : (d.revive b).slotsOf j = d.slotsOf j := by
  have hkept : ∀ slot ∈ d.slotsOf j, (d.revive b).slots[slot]? = d.slots[slot]? := by
    intro slot hslot
    rw [getElem?_slots_revive, if_neg]
    rintro ⟨hlast, -⟩
    -- the slot that is emptied is the one that the builder of `i` remembers
    rw [hb] at hlast
    exact hj (eq_of_mem_slotsOf hslot ((h.remembers i slot).1 hlast).1)
  ext slot
  constructor
  · rintro ⟨e, he, hid⟩
    rw [getElem?_slots_revive] at he
    split at he
    · cases he
    · exact ⟨e, he, hid⟩
  · rintro ⟨e, he, hid⟩
    exact ⟨e, (hkept slot ⟨e, he, hid⟩).trans he, hid⟩

/-- While a property is revived, the other builders stay right. -/
theorem remembers_revive_of_ne (h : d.Tracks) (hb : b.lastSlot = (d.builder i).lastSlot)
    (hj : j ≠ i) : (d.revive b).Remembers j :=
  (remembers_congr (congrArg _ (builder_revive d b j)) (slotsOf_revive_of_ne h hb hj)).2
    (h.remembers j)

/-- Every record keeps the builders right. -/
theorem tracks_step (h : d.Tracks) (r : PropertyRecord) : (d.step r).Tracks := by
  cases hr : r.edit with
  | setValue v m =>
    simp only [step, hr]
    -- the own builder names an emptied slot until the value has its new one
    exact tracks_emit (fun j hj => remembers_revive_of_ne h rfl hj) _ _ _
  | annotate m =>
    simp only [step, hr]
    exact tracks_withBuilder h rfl
  | softDelete =>
    simp only [step, hr]
    exact tracks_emit (fun j _ => h.remembers j) _ _ _
  | hide l =>
    simp only [step, hr]
    exact h
  | unhide l =>
    simp only [step, hr]
    exact h

/-! ## What a record gives up -/

/-- The record gives up the entry in the slot: it sets a value, and the entry is a deletion, the
latest entry of the record's own property. -/
structure GivesUp (d : HistoryDraft) (r : PropertyRecord) (slot : Nat) (e : HistoryEntry) :
    Prop where
  setsValue : r.edit.setsValue = true
  isDeletion : e.isDeleted = true
  identity_eq : e.identity = r.identity
  isLast : (d.builder r.identity).lastSlot = some slot

/-- An entry stays in its slot under a new one. -/
theorem getElem?_slots_emit_of_lt (b : HistoryBuilder) (ts : Timestamp) (isDeleted : Bool)
    (h : slot < d.slots.size) : (d.emit i b ts isDeleted).slots[slot]? = d.slots[slot]? := by
  rw [getElem?_slots_emit, if_neg h.ne]

/-- An entry stays in its slot unless the record gives it up. -/
theorem slots_step (h : d.Tracks) (r : PropertyRecord) (he : d.slots[slot]? = some (some e)) :
    (d.step r).slots[slot]? = some (some e)
      ∨ (d.step r).slots[slot]? = some none ∧ d.GivesUp r slot e := by
  have hlt : slot < d.slots.size := lt_size_of_mem_slotsOf ⟨e, he, rfl⟩
  cases hr : r.edit with
  | setValue v m =>
    simp only [step, hr]
    rw [getElem?_slots_emit_of_lt _ _ _ (by rwa [size_slots_revive]), getElem?_slots_revive]
    split
    · next hand =>
      obtain ⟨hlast, hdel⟩ := hand
      obtain ⟨e', he', hdel'⟩ := holdsDeletion_iff.1 hdel
      rw [he] at he'
      cases he'
      have hset : r.edit.setsValue = true := by rw [hr]; rfl
      -- the builder is right, so the slot that it remembers is one of its own property
      have hown : slot ∈ d.slotsOf r.identity := ((h.remembers r.identity slot).1 hlast).1
      have hid : e.identity = r.identity := eq_of_mem_slotsOf ⟨e, he, rfl⟩ hown
      exact Or.inr ⟨rfl, hset, hdel', hid, hlast⟩
    · exact Or.inl he
  | annotate m =>
    simp only [step, hr]
    exact Or.inl he
  | softDelete =>
    simp only [step, hr]
    rw [getElem?_slots_emit_of_lt _ _ _ hlt]
    exact Or.inl he
  | hide l =>
    simp only [step, hr]
    exact Or.inl he
  | unhide l =>
    simp only [step, hr]
    exact Or.inl he

/-! ## Steps that do not go outside of the list -/

/-- Why the drafting of a history ends early. -/
inductive Halt where
  /-- A value cannot be loaded. -/
  | refused (e : Error)
  /-- A builder names a slot that is not in the list. -/
  | outside (slot : Nat)
  deriving DecidableEq

/-- Gives up the builder's latest slot if it holds a deletion, and halts if it is not in the
list. -/
def reviveWithin (d : HistoryDraft) (b : HistoryBuilder) : Except Halt HistoryDraft :=
  match b.lastSlot with
  | none => .ok d
  | some slot =>
    if h : slot < d.slots.size then
      if d.slots[slot].any (·.isDeleted) then .ok { d with slots := d.slots.set slot none h }
      else .ok d
    else .error (.outside slot)

/-- Takes in one record whose value is loaded, and halts at a slot that is not in the list. -/
def stepWithin (d : HistoryDraft) (r : PropertyRecord) : Except Halt HistoryDraft :=
  match r.edit with
  | .setValue v m =>
    let b := { d.builder r.identity with value := some v, metadata := m }
    (d.reviveWithin b).map fun d => d.emit r.identity b r.timestamp false
  | _ => .ok (d.step r)

/-- A builder whose slot is in the list does not halt. -/
theorem reviveWithin_eq (h : ∀ slot, b.lastSlot = some slot → slot < d.slots.size) :
    d.reviveWithin b = .ok (d.revive b) := by
  unfold reviveWithin revive
  cases hb : b.lastSlot with
  | none => rfl
  | some slot =>
    have hlt := h slot hb
    have hdel : d.holdsDeletion slot = d.slots[slot].any (·.isDeleted) := by
      rw [holdsDeletion, Array.getElem?_eq_getElem hlt]
      cases d.slots[slot] <;> rfl
    simp only [hlt, hdel, Array.setIfInBounds, dif_pos]
    split <;> rfl

/-- Where the builders are right, no step goes outside of the list. -/
theorem stepWithin_eq (h : d.Tracks) (r : PropertyRecord) : d.stepWithin r = .ok (d.step r) := by
  cases hr : r.edit with
  | setValue v m =>
    have hin : ∀ slot, HistoryBuilder.lastSlot ⟨some v, m, (d.builder r.identity).lastSlot⟩
        = some slot → slot < d.slots.size := h.inBounds r.identity
    simp only [stepWithin, step, hr]
    rw [reviveWithin_eq hin]
    rfl
  | _ => simp only [stepWithin, step, hr]

end HistoryDraft

namespace HistoryScope

open HistoryDraft (Halt)

variable {s : HistoryScope} {fetch : Load} {d d' : HistoryDraft} {g : GuardedRecord}
  {slot : Nat} {e : HistoryEntry}

/-! ## The loop -/

/-- One turn of the loop over the records: a record in scope is loaded and taken in. -/
def turn (s : HistoryScope) (fetch : Load) (d : HistoryDraft) (g : GuardedRecord) :
    Except Halt HistoryDraft :=
  if s.admits g then
    match g.record.load fetch with
    | .ok r => d.stepWithin r
    | .error e => .error (.refused e)
  else .ok d

/-- The draft after a turn for each of the records. -/
def draft (s : HistoryScope) (fetch : Load) (guarded : List GuardedRecord) :
    Except Halt HistoryDraft :=
  guarded.foldlM (s.turn fetch) HistoryDraft.start

/-- Where the builders are right, a turn ends the loop only at a value that is refused. -/
theorem turn_eq (s : HistoryScope) (fetch : Load) (h : d.Tracks) (g : GuardedRecord) :
    s.turn fetch d g
      = if s.admits g then
          match g.record.refusal? fetch with
          | some e => .error (.refused e)
          | none => .ok (d.step (g.record.loaded fetch))
        else .ok d := by
  rw [turn, PropertyRecord.load_eq]
  cases g.record.refusal? fetch with
  | some e => rfl
  | none => simp only [HistoryDraft.stepWithin_eq h]

/-- A turn leaves the draft as it is or takes in the loaded record. -/
theorem eq_or_step_of_turn (h : d.Tracks) (hd : s.turn fetch d g = .ok d') :
    d' = d ∨ s.admits g = true ∧ d' = d.step (g.record.loaded fetch) := by
  rw [turn_eq s fetch h] at hd
  split at hd
  · next hadmits =>
    split at hd
    · cases hd
    · cases hd
      exact Or.inr ⟨hadmits, rfl⟩
  · cases hd
    exact Or.inl rfl

theorem turn_ne_outside (h : d.Tracks) : s.turn fetch d g ≠ .error (.outside slot) := by
  rw [turn_eq s fetch h]
  split
  · split
    · simp
    · simp
  · simp

theorem tracks_turn (h : d.Tracks) (hd : s.turn fetch d g = .ok d') : d'.Tracks := by
  rcases eq_or_step_of_turn h hd with rfl | ⟨-, rfl⟩
  · exact h
  · exact HistoryDraft.tracks_step h _

/-- An entry stays in its slot unless the record of the turn gives it up. -/
theorem slots_turn (h : d.Tracks) (hd : s.turn fetch d g = .ok d')
    (he : d.slots[slot]? = some (some e)) :
    d'.slots[slot]? = some (some e)
      ∨ d'.slots[slot]? = some none ∧ s.admits g = true ∧ d.GivesUp g.record slot e := by
  rcases eq_or_step_of_turn h hd with rfl | ⟨hadmits, rfl⟩
  · exact Or.inl he
  · rcases HistoryDraft.slots_step h _ he with hkept | ⟨hnone, hset, hdel, hid, hlast⟩
    · exact Or.inl hkept
    · rw [PropertyRecord.setsValue_loaded] at hset
      rw [PropertyRecord.identity_loaded] at hid hlast
      exact Or.inr ⟨hnone, hadmits, hset, hdel, hid, hlast⟩

/-! ## All turns -/

/-- What every turn keeps is kept by all of them. -/
theorem foldlM_turn_induction {P : HistoryDraft → Prop}
    (hstep : ∀ d g d', P d → s.turn fetch d g = .ok d' → P d') {guarded : List GuardedRecord}
    (h : P d) (hd : guarded.foldlM (s.turn fetch) d = .ok d') : P d' := by
  induction guarded generalizing d with
  | nil =>
    cases hd
    exact h
  | cons g rest ih =>
    rw [List.foldlM_cons] at hd
    cases hmid : s.turn fetch d g with
    | error halt =>
      rw [hmid] at hd
      cases hd
    | ok mid =>
      rw [hmid] at hd
      exact ih (hstep d g mid h hmid) hd

/-- The builders are right at every turn. -/
theorem tracks_draft {taken : List GuardedRecord} (hd : s.draft fetch taken = .ok d) : d.Tracks :=
  foldlM_turn_induction (fun _ _ _ => tracks_turn) HistoryDraft.tracks_start hd

/-- What reports a value stays in its slot. -/
theorem slots_of_not_deleted {rest : List GuardedRecord} (h : d.Tracks)
    (hd : rest.foldlM (s.turn fetch) d = .ok d') (he : d.slots[slot]? = some (some e))
    (hvalue : e.isDeleted = false) : d'.slots[slot]? = some (some e) := by
  have hstep : ∀ c g c', c.Tracks ∧ c.slots[slot]? = some (some e) →
      s.turn fetch c g = .ok c' → c'.Tracks ∧ c'.slots[slot]? = some (some e) := by
    rintro c g c' ⟨hc, he⟩ hturn
    refine ⟨tracks_turn hc hturn, ?_⟩
    rcases slots_turn hc hturn he with hkept | ⟨-, -, hgives⟩
    · exact hkept
    · rw [hgives.isDeletion] at hvalue
      cases hvalue
  exact (foldlM_turn_induction hstep ⟨h, he⟩ hd).2

/-- All turns: the first value that is refused, or the draft of the loaded records in scope. -/
theorem foldlM_turn_eq (s : HistoryScope) (fetch : Load) (h : d.Tracks)
    (guarded : List GuardedRecord) :
    guarded.foldlM (s.turn fetch) d
      = match (s.admitted guarded).findSome? (PropertyRecord.refusal? fetch) with
        | some e => .error (.refused e)
        | none =>
          .ok (((s.admitted guarded).map (PropertyRecord.loaded fetch)).foldl
            HistoryDraft.step d) := by
  induction guarded generalizing d with
  | nil => rfl
  | cons g rest ih =>
    rw [List.foldlM_cons, turn_eq s fetch h]
    cases hadmits : s.admits g with
    | false =>
      have hskip : s.admitted (g :: rest) = s.admitted rest := by
        rw [admitted, List.filter_cons_of_neg (by simp [hadmits]), admitted]
      rw [hskip]
      exact ih h
    | true =>
      have htake : s.admitted (g :: rest) = g.record :: s.admitted rest := by
        rw [admitted, List.filter_cons_of_pos hadmits, List.map_cons, admitted]
      rw [htake, List.findSome?_cons, List.map_cons, List.foldl_cons]
      cases g.record.refusal? fetch with
      | some e => rfl
      | none => exact ih (HistoryDraft.tracks_step h _)

/-- The loop gives the history, and nothing but a value that is refused ends it early. -/
theorem map_entries_draft (s : HistoryScope) (fetch : Load) (guarded : List GuardedRecord) :
    (s.draft fetch guarded).map HistoryDraft.entries
      = (s.reconstruct fetch guarded).mapError Halt.refused := by
  rw [draft, foldlM_turn_eq s fetch HistoryDraft.tracks_start, reconstruct,
    PropertyRecord.mapM_load]
  cases (s.admitted guarded).findSome? (PropertyRecord.refusal? fetch) with
  | some e => rfl
  | none => rfl

/-- **Drafting a history keeps its slots in order.**  The loop gives the history, and nothing but a
value that is refused ends it early.  After any number of turns, each builder that remembers a slot
remembers one that is in the list, the last that holds an entry of its own property, and no two
remember the same.  Hence no turn goes outside of the list; it empties a slot only if that holds the
latest entry of the record's own property, a deletion, and the record sets a value; and an entry
that reports a value stays in its slot to the end. -/
theorem drafting_sound (s : HistoryScope) (fetch : Load) :
    (∀ guarded, (s.draft fetch guarded).map HistoryDraft.entries
        = (s.reconstruct fetch guarded).mapError Halt.refused)
      ∧ ∀ taken d, s.draft fetch taken = .ok d →
        d.Tracks
        ∧ (∀ g slot, s.turn fetch d g ≠ .error (.outside slot))
        ∧ (∀ g d' slot e, s.turn fetch d g = .ok d' → d.slots[slot]? = some (some e) →
            d'.slots[slot]? = some (some e)
              ∨ d'.slots[slot]? = some none ∧ s.admits g = true ∧ d.GivesUp g.record slot e)
        ∧ ∀ rest d' (slot : Nat) (e : HistoryEntry), s.draft fetch (taken ++ rest) = .ok d' →
            d.slots[slot]? = some (some e) → e.isDeleted = false →
            d'.slots[slot]? = some (some e) := by
  refine ⟨map_entries_draft s fetch, fun taken d hd => ?_⟩
  have htracks := tracks_draft hd
  refine ⟨htracks, fun g slot => turn_ne_outside htracks,
    fun g d' slot e hturn he => slots_turn htracks hturn he,
    fun rest d' slot e hd' he hvalue => ?_⟩
  rw [draft, List.foldlM_append] at hd'
  rw [draft] at hd
  rw [hd] at hd'
  exact slots_of_not_deleted htracks hd' he hvalue

/-- A title and a note are set, and the title is deleted; so is another title, of the staff. -/
def withdrawnTitle : List GuardedRecord :=
  [PropertyRecord.guarded ⟨1, ⟨"title", "k", .empty⟩, .setValue (.int 1) OrderedMap.empty⟩,
    PropertyRecord.guarded ⟨2, ⟨"note", "k", .empty⟩, .setValue (.int 2) OrderedMap.empty⟩,
    PropertyRecord.guarded ⟨3, ⟨"title", "k", ⟨"staff"⟩⟩, .softDelete⟩,
    PropertyRecord.guarded ⟨3, ⟨"title", "k", .empty⟩, .softDelete⟩]

/-- The title comes back. -/
def newTitle : GuardedRecord :=
  PropertyRecord.guarded ⟨4, ⟨"title", "k", .empty⟩, .setValue (.int 4) OrderedMap.empty⟩

/-- The note goes. -/
def noNote : GuardedRecord := PropertyRecord.guarded ⟨5, ⟨"note", "k", .empty⟩, .softDelete⟩

/-- Who does not read what the staff does sees this: the new title gives up the slot of the
deletion, and the old title stays in the first slot, also when the note goes. -/
theorem drafting_sound_newTitle :
    let s : HistoryScope := ⟨.all, .holding (.ofLabels []), ""⟩
    let set : HistoryEntry := ⟨⟨"title", "k", .empty⟩, some (.int 1), OrderedMap.empty, 1, false⟩
    let gone : HistoryEntry := { set with timestamp := 3, isDeleted := true }
    let d := HistoryDraft.ofRecords (s.admitted withdrawnTitle)
    let d' := d.step newTitle.record
    let last := d'.step noNote.record
    s.draft Load.nothing withdrawnTitle = .ok d ∧ d.Tracks
      ∧ s.turn Load.nothing d newTitle = .ok d'
      ∧ d.slots[2]? = some (some gone) ∧ d'.slots[2]? = some none
      ∧ d.GivesUp newTitle.record 2 gone
      ∧ s.draft Load.nothing (withdrawnTitle ++ [newTitle, noNote]) = .ok last
      ∧ set.isDeleted = false ∧ d.slots[0]? = some (some set)
      ∧ last.slots[0]? = some (some set) := by
  intro s set gone d d' last
  have hd : s.draft Load.nothing withdrawnTitle = .ok d := by decide
  have hturn : s.turn Load.nothing d newTitle = .ok d' := by decide
  have hlast : s.draft Load.nothing (withdrawnTitle ++ [newTitle, noNote]) = .ok last := by decide
  have hset : d.slots[0]? = some (some set) := by decide
  have hgone : d.slots[2]? = some (some gone) := by decide
  have hempty : d'.slots[2]? = some none := by decide
  obtain ⟨-, hturns⟩ := drafting_sound s Load.nothing
  obtain ⟨htracks, -, hgives, hstays⟩ := hturns withdrawnTitle d hd
  rcases hgives newTitle d' 2 gone hturn hgone with hkept | ⟨-, -, hgiven⟩
  · rw [hempty] at hkept
    cases hkept
  · exact ⟨hd, htracks, hturn, hgone, hempty, hgiven, hlast, rfl, hset,
      hstays [newTitle, noNote] last 0 set hlast hset rfl⟩

end HistoryScope

end Chronicle
