import Mathlib.Data.List.Nodup
import Chronicle.BlobStore
import Chronicle.Proofs.Occurrence

/-!
# Runs of a blob store

A blob store is worked on by calls: payloads are put, blobs removed, references resolved.  What the
store then has is said of the calls themselves.  A put whose payload is not too long is accepted; it
is given the number of accepted puts up to it as its id; and its blob is there until the id is
removed.  Nothing else bears on the blobs, and no id is given twice as long as there are fewer calls
than ids.

* `on_of_accepted`, `on_of_tooLong`, `on_of_not_accepted` : what one call does;
* `nextId_after`, `handedOut_eq` : the ids after a run, and those that were handed out;
* `idAfter_before_ne`, `eq_of_idAfter_before_eq` : an id is given to one blob only;
* `isKept_append_singleton`, `get?_after` : the blobs after a run.
-/

namespace Chronicle

/-! ## Calls -/

/-- A call of a blob store. -/
inductive BlobCall where
  | putBytes (payload : Bytes) (ts : Timestamp)
  | putText (content : String) (ts : Timestamp)
  | remove (id : UInt64)
  | resolve (reference : ValueRef) (ts : Timestamp)
  deriving DecidableEq

/-- What a call answers. -/
inductive BlobAnswer where
  | stored (outcome : Except Error ValueRef)
  | removed (wasThere : Bool)
  | resolved (outcome : Except Error PropValue)
  deriving DecidableEq

/-- The id that the answer hands out. -/
def BlobAnswer.id? : BlobAnswer → Option UInt64
  | .stored (.ok r) => some r.id
  | _ => none

namespace BlobCall

/-- The answer to a put and the store after it; a put that fails leaves the store as it is. -/
def settle (s : BlobStore) : Except Error (ValueRef × BlobStore) → BlobAnswer × BlobStore
  | .ok (r, s') => (.stored (.ok r), s')
  | .error e => (.stored (.error e), s)

/-- The answer to the call and the store after it. -/
def on (s : BlobStore) : BlobCall → BlobAnswer × BlobStore
  | putBytes payload ts => settle s (s.putBytes payload ts)
  | putText content ts => settle s (s.putText content ts)
  | remove id => (.removed (s.remove id).1, (s.remove id).2)
  | resolve r ts => (.resolved (s.resolve r ts).1, (s.resolve r ts).2)

/-- The blob that the call wants stored, and the value that was put. -/
def deposit? : BlobCall → Option (Blob × PropValue)
  | putBytes payload ts => some (⟨ts, payload⟩, .bytes payload)
  | putText content ts => some (⟨ts, .ofText content⟩, .str content)
  | remove _ | resolve _ _ => none

/-- The blob that the call stores: a payload that is too long is refused. -/
def accepted? (c : BlobCall) : Option Blob :=
  (c.deposit?.map (·.1)).filter fun b => decide (b.bytes.length ≤ BlobStore.longestPayload)

variable {c : BlobCall} {b : Blob} {v : PropValue}

/-- Bytes and texts are stored alike, and both are read back from what is stored. -/
theorem on_of_deposit (h : c.deposit? = some (b, v)) :
    ∃ text, BlobStore.decode text b.bytes = .ok v
      ∧ ∀ s, c.on s = settle s (s.put b.bytes b.writtenAt text) := by
  cases c with
  | putBytes payload ts =>
    cases h
    exact ⟨false, rfl, fun s => rfl⟩
  | putText content ts =>
    cases h
    refine ⟨true, ?_, fun s => rfl⟩
    rw [BlobStore.decode, if_pos rfl, Bytes.text?_ofText]
  | remove id => cases h
  | resolve r ts => cases h

theorem accepted?_eq_some_iff : c.accepted? = some b
    ↔ b.bytes.length ≤ BlobStore.longestPayload ∧ ∃ v, c.deposit? = some (b, v) := by
  rw [accepted?, Option.filter_eq_some_iff, Option.map_eq_some_iff, decide_eq_true_iff, and_comm]
  refine and_congr_right fun _ => ⟨?_, ?_⟩
  · rintro ⟨⟨b', v⟩, hdeposit, rfl⟩
    exact ⟨v, hdeposit⟩
  · rintro ⟨v, hdeposit⟩
    exact ⟨(b, v), hdeposit, rfl⟩

/-- A payload that is too long is refused, and nothing changes. -/
theorem on_of_tooLong (h : c.deposit? = some (b, v))
    (hlong : BlobStore.longestPayload < b.bytes.length) (s : BlobStore) :
    c.on s = (.stored (.error .payloadTooLong), s) := by
  obtain ⟨text, -, hon⟩ := on_of_deposit h
  rw [hon, BlobStore.put, if_pos hlong]
  rfl

/-- Any other payload is stored under the next id. -/
theorem on_of_accepted (h : c.accepted? = some b) :
    ∃ text v, c.deposit? = some (b, v) ∧ BlobStore.decode text b.bytes = .ok v
      ∧ ∀ s, (c.on s).1 = .stored (.ok (BlobStore.reference s.nextId b.bytes text))
        ∧ (c.on s).2.blobs = s.blobs.insert s.nextId b ∧ (c.on s).2.nextId = s.nextId + 1 := by
  obtain ⟨hlen, v, hdeposit⟩ := accepted?_eq_some_iff.1 h
  obtain ⟨text, hdecode, hon⟩ := on_of_deposit hdeposit
  refine ⟨text, v, hdeposit, hdecode, fun s => ?_⟩
  rw [hon, BlobStore.put, if_neg (Nat.not_lt.2 hlen)]
  exact ⟨rfl, rfl, rfl⟩

/-- A call that stores nothing hands out no id, leaves the next id alone, and drops at most the blob
that it removes. -/
theorem on_of_not_accepted (h : c.accepted? = none) (s : BlobStore) :
    (c.on s).1.id? = none ∧ (c.on s).2.nextId = s.nextId
      ∧ ∀ id, (c.on s).2.blobs.get? id = if c = .remove id then none else s.blobs.get? id := by
  cases hdeposit : c.deposit? with
  | some d =>
    obtain ⟨b, v⟩ := d
    have hlong : BlobStore.longestPayload < b.bytes.length := by
      rw [← Nat.not_le]
      intro hlen
      rw [accepted?_eq_some_iff.2 ⟨hlen, v, hdeposit⟩] at h
      cases h
    rw [on_of_tooLong hdeposit hlong]
    refine ⟨rfl, rfl, fun id => (if_neg ?_).symm⟩
    rintro rfl
    cases hdeposit
  | none =>
    cases c with
    | putBytes payload ts => cases hdeposit
    | putText content ts => cases hdeposit
    | remove id' =>
      refine ⟨rfl, rfl, fun id => ?_⟩
      show (s.blobs.erase id').get? id = _
      rw [OrderedMap.get?_erase]
      by_cases hid : id = id'
      · rw [if_pos hid, if_pos (by rw [hid])]
      · rw [if_neg hid, if_neg fun heq => hid (remove.inj heq).symm]
    | resolve r ts =>
      have hcharge : (s.charge ⟨r, ts⟩).nextId = s.nextId ∧ (s.charge ⟨r, ts⟩).blobs = s.blobs := by
        rw [BlobStore.charge]
        cases s.bytes r ts <;> exact ⟨rfl, rfl⟩
      refine ⟨rfl, hcharge.1, fun id => ?_⟩
      rw [if_neg nofun]
      exact congrArg (fun m => OrderedMap.get? m id) hcharge.2

end BlobCall

/-! ## Runs -/

/-- The store after the calls, of which the first finds a fresh one. -/
def BlobStore.after (calls : List BlobCall) : BlobStore :=
  calls.foldl (fun s c => (c.on s).2) .fresh

/-- The answer to the call where it stands. -/
def Occurrence.answer (o : Occurrence BlobCall) : BlobAnswer :=
  (o.item.on (BlobStore.after o.before)).1

/-- The ids that the calls hand out, in order. -/
def handedOut (calls : List BlobCall) : List UInt64 :=
  (occurrences calls).filterMap fun o => o.answer.id?

/-- How many of the calls store a blob. -/
def acceptedCount (calls : List BlobCall) : Nat := calls.countP fun c => c.accepted?.isSome

/-- The id that the calls leave for the next blob. -/
def idAfter (calls : List BlobCall) : UInt64 := UInt64.ofNat (1 + acceptedCount calls)

/-- The blob was stored, the id was handed out for it, and the id was not removed since. -/
def IsKept (calls : List BlobCall) (id : UInt64) (b : Blob) : Prop :=
  ∃ o ∈ occurrences calls, o.item.accepted? = some b ∧ o.answer.id? = some id
    ∧ BlobCall.remove id ∉ o.after

variable {calls : List BlobCall} {c : BlobCall} {o : Occurrence BlobCall} {id : UInt64} {b : Blob}

namespace BlobStore

@[simp] theorem after_nil : after [] = fresh := rfl

theorem after_append_singleton (calls : List BlobCall) (c : BlobCall) :
    after (calls ++ [c]) = (c.on (after calls)).2 := by
  rw [after, List.foldl_append]
  rfl

end BlobStore

/-! ## Ids -/

theorem acceptedCount_append_singleton (calls : List BlobCall) (c : BlobCall) :
    acceptedCount (calls ++ [c]) = acceptedCount calls + if c.accepted?.isSome then 1 else 0 := by
  rw [acceptedCount, List.countP_append, List.countP_singleton]
  rfl

theorem acceptedCount_le_length (calls : List BlobCall) : acceptedCount calls ≤ calls.length :=
  List.countP_le_length

/-- The store's next id is the number of blobs stored so far, counted from one. -/
theorem nextId_after (calls : List BlobCall) : (BlobStore.after calls).nextId = idAfter calls := by
  induction calls using List.reverseRecOn with
  | nil => rfl
  | append_singleton calls c ih =>
    rw [BlobStore.after_append_singleton, idAfter, acceptedCount_append_singleton]
    cases hc : c.accepted? with
    | some b =>
      obtain ⟨text, v, -, -, hon⟩ := BlobCall.on_of_accepted hc
      obtain ⟨-, -, hnext⟩ := hon (BlobStore.after calls)
      rw [hnext, ih, idAfter, Option.isSome_some, if_pos rfl, ← Nat.add_assoc]
      exact (UInt64.ofNat_add (1 + acceptedCount calls) 1).symm
    | none =>
      obtain ⟨-, hnext, -⟩ := BlobCall.on_of_not_accepted hc (BlobStore.after calls)
      rw [hnext, ih, idAfter, Option.isSome_none, if_neg (by simp), Nat.add_zero]

/-- A stored blob is given the next id. -/
theorem id?_answer (hb : o.item.accepted? = some b) :
    o.answer.id? = some (idAfter o.before) := by
  obtain ⟨text, v, -, -, hon⟩ := BlobCall.on_of_accepted hb
  obtain ⟨hanswer, -⟩ := hon (BlobStore.after o.before)
  rw [Occurrence.answer, hanswer, nextId_after]
  rfl

/-- Fewer blobs than there are ids are told apart by their ids. -/
theorem ofNat_one_add_inj {m n : Nat} (hm : 1 + m < UInt64.size) (hn : 1 + n < UInt64.size)
    (h : UInt64.ofNat (1 + m) = UInt64.ofNat (1 + n)) : m = n := by
  have hnat := congrArg UInt64.toNat h
  rw [UInt64.toNat_ofNat_of_lt' hm, UInt64.toNat_ofNat_of_lt' hn] at hnat
  omega

/-- The ids handed out are one after the other. -/
theorem handedOut_eq (calls : List BlobCall) :
    handedOut calls = (List.range (acceptedCount calls)).map fun n => UInt64.ofNat (1 + n) := by
  induction calls using List.reverseRecOn with
  | nil => rfl
  | append_singleton calls c ih =>
    have hlast : handedOut (calls ++ [c])
        = handedOut calls ++ ((c.on (BlobStore.after calls)).1.id?).toList := by
      rw [handedOut, occurrences_append_singleton, List.filterMap_append, List.filterMap_map]
      refine congrArg (handedOut calls ++ ·) ?_
      rw [List.filterMap_cons, List.filterMap_nil, Occurrence.answer]
      cases (c.on (BlobStore.after calls)).1.id? <;> rfl
    rw [hlast, ih, acceptedCount_append_singleton]
    cases hc : c.accepted? with
    | some b =>
      have hanswer : (c.on (BlobStore.after calls)).1.id? = some (idAfter calls) :=
        id?_answer (o := ⟨calls, c, []⟩) hc
      rw [hanswer, Option.isSome_some, if_pos rfl, List.range_succ, List.map_append]
      rfl
    | none =>
      obtain ⟨hanswer, -⟩ := BlobCall.on_of_not_accepted hc (BlobStore.after calls)
      rw [hanswer, Option.isSome_none, if_neg (by simp), Nat.add_zero, Option.toList_none,
        List.append_nil]

/-- No id is handed out twice if there are fewer calls than ids. -/
theorem nodup_handedOut (h : calls.length < UInt64.size) : (handedOut calls).Nodup := by
  rw [handedOut_eq]
  refine List.nodup_range.map_on fun m hm n hn heq => ?_
  have hcount := acceptedCount_le_length calls
  rw [List.mem_range] at hm hn
  exact ofNat_one_add_inj (by omega) (by omega) heq

/-- A stored blob counts for the ids of all that are stored later. -/
theorem acceptedCount_before_lt {later : List BlobCall} (hb : o.item.accepted? = some b)
    (hlater : o.before ++ [o.item] <+: later) : acceptedCount o.before < acceptedCount later := by
  have hle : acceptedCount (o.before ++ [o.item]) ≤ acceptedCount later :=
    hlater.sublist.countP_le
  rw [acceptedCount_append_singleton, hb, Option.isSome_some, if_pos rfl] at hle
  exact hle

/-- The next id is none that was given before. -/
theorem idAfter_before_ne (h : calls.length + 1 < UInt64.size) (ho : o ∈ occurrences calls)
    (hb : o.item.accepted? = some b) : idAfter o.before ≠ idAfter calls := by
  have hlt := acceptedCount_before_lt hb (isPrefix_of_mem_occurrences ho)
  have hcount := acceptedCount_le_length calls
  intro heq
  have hsame := ofNat_one_add_inj (by omega) (by omega) heq
  omega

/-- Stored blobs that have the same id are stored by the same call. -/
theorem eq_of_idAfter_before_eq {o' : Occurrence BlobCall} {b' : Blob}
    (h : calls.length < UInt64.size) (ho : o ∈ occurrences calls) (ho' : o' ∈ occurrences calls)
    (hb : o.item.accepted? = some b) (hb' : o'.item.accepted? = some b')
    (hid : idAfter o.before = idAfter o'.before) : o = o' := by
  have hlt := acceptedCount_before_lt hb (isPrefix_of_mem_occurrences ho)
  have hlt' := acceptedCount_before_lt hb' (isPrefix_of_mem_occurrences ho')
  have hcount := acceptedCount_le_length calls
  have hsame : acceptedCount o.before = acceptedCount o'.before :=
    ofNat_one_add_inj (by omega) (by omega) hid
  -- if one stood before the other, it would count for the other's id
  rcases eq_or_before_of_mem_occurrences ho ho' with heq | hbefore | hbefore
  · exact heq
  · exact absurd (acceptedCount_before_lt hb hbefore) (by omega)
  · exact absurd (acceptedCount_before_lt hb' hbefore) (by omega)

/-! ## Blobs -/

/-- One more call keeps what it does not remove, and adds what it stores. -/
theorem isKept_append_singleton (calls : List BlobCall) (c : BlobCall) (id : UInt64) (b : Blob) :
    IsKept (calls ++ [c]) id b
      ↔ (c.accepted? = some b ∧ idAfter calls = id) ∨ (IsKept calls id b ∧ c ≠ .remove id) := by
  rw [IsKept, occurrences_append_singleton]
  constructor
  · rintro ⟨o, ho, hb, hid, hafter⟩
    rcases List.mem_append.1 ho with ho | ho
    · obtain ⟨o₀, ho₀, rfl⟩ := List.mem_map.1 ho
      refine Or.inr ⟨⟨o₀, ho₀, hb, hid, fun hmem => hafter (List.mem_append_left _ hmem)⟩, ?_⟩
      rintro rfl
      exact hafter (List.mem_append_right _ (List.mem_singleton.2 rfl))
    · obtain rfl := List.mem_singleton.1 ho
      rw [id?_answer hb] at hid
      exact Or.inl ⟨hb, Option.some.inj hid⟩
  · rintro (⟨hb, rfl⟩ | ⟨⟨o, ho, hb, hid, hafter⟩, hc⟩)
    · exact ⟨⟨calls, c, []⟩, List.mem_append_right _ (List.mem_singleton.2 rfl), hb,
        id?_answer hb, List.not_mem_nil⟩
    · refine ⟨o.extend [c], List.mem_append_left _ (List.mem_map_of_mem ho), hb, hid, ?_⟩
      intro hmem
      rcases List.mem_append.1 hmem with hmem | hmem
      · exact hafter hmem
      · exact hc (List.mem_singleton.1 hmem).symm

theorem not_isKept_idAfter (h : calls.length + 1 < UInt64.size) (b : Blob) :
    ¬IsKept calls (idAfter calls) b := by
  rintro ⟨o, ho, hb, hid, -⟩
  rw [id?_answer hb] at hid
  exact idAfter_before_ne h ho hb (Option.some.inj hid)

/-- After a run that is not too long the store has the blobs that were stored and not removed
since, each under its id. -/
theorem get?_after (h : calls.length < UInt64.size) :
    (BlobStore.after calls).blobs.get? id = some b ↔ IsKept calls id b := by
  induction calls using List.reverseRecOn with
  | nil => simp [IsKept, BlobStore.fresh]
  | append_singleton calls c ih =>
    rw [List.length_append, List.length_singleton] at h
    have ih := ih (by omega)
    rw [BlobStore.after_append_singleton, isKept_append_singleton]
    cases hc : c.accepted? with
    | some b' =>
      obtain ⟨text, v, -, -, hon⟩ := BlobCall.on_of_accepted hc
      obtain ⟨-, hblobs, -⟩ := hon (BlobStore.after calls)
      have hremove : c ≠ .remove id := by
        rintro rfl
        cases hc
      rw [hblobs, OrderedMap.get?_insert, nextId_after]
      by_cases hid : id = idAfter calls
      · -- the new blob takes no other's place
        subst hid
        simp [not_isKept_idAfter h]
      · simp [hid, Ne.symm hid, ih, hremove]
    | none =>
      obtain ⟨-, -, hblobs⟩ := BlobCall.on_of_not_accepted hc (BlobStore.after calls)
      rw [hblobs]
      by_cases hremove : c = .remove id
      · simp [hremove]
      · simp [hremove, ih]

end Chronicle
