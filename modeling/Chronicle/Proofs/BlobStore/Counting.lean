import Mathlib.Algebra.BigOperators.Group.List.Basic
import Mathlib.Algebra.GroupWithZero.Nat
import Chronicle.Proofs.BlobStore.Retrieval

/-!
# What a blob store counts

A blob store counts the payloads that it stores, their bytes, and the bytes that it reads.  What is
stored is known when a put is answered.  What is read is counted as soon as a reference is found to
be good for some bytes; whether these are a text, if the reference calls them one, is only seen
afterwards.  So the bytes that were read are those that were given back and, besides, those that
turned out not to be a text.

* `resolve_cases` : the three things that can come of a reference;
* `counters_on` : what one call adds to the counters;
* `sum_after` : what each call adds, added up over a run;
* `counters_after` : the counters after a run of calls.
-/

namespace Chronicle

/-! ## What is counted of a call -/

/-- The bytes that a value from a blob is made of. -/
def PropValue.content : PropValue → Bytes
  | .str s => .ofText s
  | .bytes b => b
  | _ => []

/-- How many bytes the answer gives back. -/
def BlobAnswer.returned : BlobAnswer → Nat
  | .resolved (.ok v) => v.content.length
  | _ => 0

namespace BlobCall

/-- How many bytes the call puts, if the answer says that they are stored. -/
def written (c : BlobCall) (a : BlobAnswer) : Nat :=
  if a.id?.isSome then (c.deposit?.map fun d => d.1.bytes.length).getD 0 else 0

/-- How many bytes the call had read that were called a text but, as the answer says, are none. -/
def misread (c : BlobCall) (a : BlobAnswer) : Nat :=
  match c, a with
  | resolve r _, .resolved (.error .blobNotText) => r.len.toNat
  | _, _ => 0

end BlobCall

namespace BlobStore

variable {s : BlobStore} {r : ValueRef} {ts : Timestamp}

/-! ## References -/

theorem content_of_decode {text : Bool} {payload : Bytes} {v : PropValue}
    (h : decode text payload = .ok v) : v.content = payload := by
  rcases decode_eq_ok_iff.1 h with ⟨-, rfl⟩ | ⟨-, content, hcontent, rfl⟩
  · rfl
  · exact hcontent

theorem decode_eq_error_iff {text : Bool} {payload : Bytes} {e : Error} :
    decode text payload = .error e
      ↔ e = .blobNotText ∧ text = true ∧ payload.text? = none := by
  cases text with
  | false => simp [decode]
  | true =>
    rw [decode, if_pos rfl]
    cases payload.text? <;> simp [eq_comm]

/-- A reference that is good for no bytes is not one to bytes that are no text. -/
theorem ne_blobNotText_of_bytes {e : Error} (h : s.bytes r ts = .error e) : e ≠ .blobNotText := by
  rintro rfl
  unfold bytes at h
  split at h
  · cases h
  · split at h
    · cases h
    · split at h
      · cases h
      · split at h <;> cases h

/-- What comes of a reference: a value of the bytes that are counted as read, no value because these
are no text, or a failure that counts nothing. -/
theorem resolve_cases (s : BlobStore) (r : ValueRef) (ts : Timestamp) :
    (∃ v, s.resolve r ts = (.ok v, { s with bytesRead := s.bytesRead + v.content.length }))
      ∨ (s.resolve r ts
            = (.error .blobNotText, { s with bytesRead := s.bytesRead + r.len.toNat })
          ∧ r.text = true ∧ ∃ payload, s.bytes r ts = .ok payload ∧ payload.text? = none)
      ∨ ∃ e, e ≠ .blobNotText ∧ s.resolve r ts = (.error e, s) := by
  rw [resolve, load, charge]
  cases hbytes : s.bytes r ts with
  | error e => exact Or.inr (Or.inr ⟨e, ne_blobNotText_of_bytes hbytes, rfl⟩)
  | ok payload =>
    cases hdecode : decode r.text payload with
    | ok v =>
      refine Or.inl ⟨v, ?_⟩
      rw [content_of_decode hdecode]
      exact Prod.ext hdecode rfl
    | error e =>
      obtain ⟨rfl, htext, hnone⟩ := decode_eq_error_iff.1 hdecode
      obtain ⟨b, -, -, hlen, -, rfl⟩ := bytes_eq_ok_iff.1 hbytes
      refine Or.inr (Or.inl ⟨?_, htext, b.bytes, rfl, hnone⟩)
      rw [hlen]
      exact Prod.ext hdecode rfl

/-- A reference that fails counts nothing, unless it fails because its bytes are no text. -/
theorem snd_resolve_of_error {e : Error} (he : (s.resolve r ts).1 = .error e) :
    if e = .blobNotText then
      (s.resolve r ts).2 = { s with bytesRead := s.bytesRead + r.len.toNat }
        ∧ r.text = true ∧ ∃ payload, s.bytes r ts = .ok payload ∧ payload.text? = none
    else (s.resolve r ts).2 = s := by
  rcases s.resolve_cases r ts with ⟨v, hv⟩ | ⟨hmisread, htext⟩ | ⟨e', he', hfailed⟩
  · rw [hv] at he
    cases he
  · rw [hmisread] at he ⊢
    cases he
    exact ⟨rfl, htext⟩
  · rw [hfailed] at he ⊢
    cases he
    rw [if_neg he']

end BlobStore

/-! ## One call -/

namespace BlobCall

variable {c : BlobCall}

/-- A put is refused, and nothing changes, or it is answered with a reference and counted. -/
theorem on_cases_of_deposit {b : Blob} {v : PropValue} (h : c.deposit? = some (b, v))
    (s : BlobStore) :
    c.on s = (.stored (.error .payloadTooLong), s)
      ∨ ∃ r, (c.on s).1 = .stored (.ok r)
        ∧ (c.on s).2.blobsWritten = s.blobsWritten + 1
        ∧ (c.on s).2.bytesWritten = s.bytesWritten + b.bytes.length
        ∧ (c.on s).2.bytesRead = s.bytesRead := by
  obtain ⟨text, -, hon⟩ := on_of_deposit h
  by_cases hlong : BlobStore.longestPayload < b.bytes.length
  · exact Or.inl (on_of_tooLong h hlong s)
  · rw [hon, BlobStore.put, if_neg hlong]
    exact Or.inr ⟨_, rfl, rfl, rfl, rfl⟩

theorem misread_of_deposit {d : Blob × PropValue} (h : c.deposit? = some d) (a : BlobAnswer) :
    c.misread a = 0 := by
  cases c with
  | resolve r ts => cases h
  | _ => rfl

/-- What one call adds to the counters is read off its answer. -/
theorem counters_on (s : BlobStore) (c : BlobCall) :
    (c.on s).2.blobsWritten = s.blobsWritten + (if (c.on s).1.id?.isSome then 1 else 0)
      ∧ (c.on s).2.bytesWritten = s.bytesWritten + c.written (c.on s).1
      ∧ (c.on s).2.bytesRead
        = s.bytesRead + ((c.on s).1.returned + c.misread (c.on s).1) := by
  cases hdeposit : c.deposit? with
  | some d =>
    rw [written, hdeposit, misread_of_deposit hdeposit]
    rcases on_cases_of_deposit hdeposit s with hrefused | ⟨r, hr, hblobs, hwritten, hread⟩
    · rw [hrefused]
      exact ⟨rfl, rfl, rfl⟩
    · rw [hr, hblobs, hwritten, hread]
      exact ⟨rfl, rfl, rfl⟩
  | none =>
    cases c with
    | putBytes payload ts => cases hdeposit
    | putText content ts => cases hdeposit
    | remove id => exact ⟨rfl, rfl, rfl⟩
    | resolve r ts =>
      have hon : (resolve r ts).on s = (.resolved (s.resolve r ts).1, (s.resolve r ts).2) := rfl
      rw [hon]
      rcases s.resolve_cases r ts with ⟨v, hv⟩ | ⟨hmisread, -⟩ | ⟨e, he, hfailed⟩
      · rw [hv]
        exact ⟨rfl, rfl, rfl⟩
      · rw [hmisread]
        refine ⟨rfl, rfl, ?_⟩
        show s.bytesRead + r.len.toNat = s.bytesRead + (0 + r.len.toNat)
        rw [Nat.zero_add]
      · rw [hfailed]
        refine ⟨rfl, rfl, ?_⟩
        have hnone : (resolve r ts).misread (.resolved (.error e)) = 0 := by
          unfold misread
          split
          · next heq =>
            cases heq
            exact absurd rfl he
          · rfl
        rw [hnone]
        rfl

end BlobCall

/-! ## Runs -/

/-- A counter to which each call adds what its answer says holds, after a run, the sum of that. -/
theorem sum_after (counter : BlobStore → Nat) (adds : BlobCall → BlobAnswer → Nat)
    (hfresh : counter .fresh = 0)
    (hstep : ∀ s c, counter (BlobCall.on s c).2 = counter s + adds c (BlobCall.on s c).1)
    (calls : List BlobCall) :
    counter (BlobStore.after calls)
      = ((occurrences calls).map fun o => adds o.item o.answer).sum := by
  induction calls using List.reverseRecOn with
  | nil => exact hfresh
  | append_singleton calls c ih =>
    rw [BlobStore.after_append_singleton, hstep, ih, occurrences_append_singleton,
      List.map_append, List.sum_append, List.map_map, List.map_singleton, List.sum_singleton]
    rfl

theorem sum_map_ite {α : Type} (p : α → Bool) (l : List α) :
    (l.map fun a => if p a then 1 else 0).sum = l.countP p := by
  induction l with
  | nil => rfl
  | cons a l ih => rw [List.map_cons, List.sum_cons, ih, List.countP_cons, Nat.add_comm]

/-- **The counters of a blob store are sums over its calls.**  After a run of calls, whatever
references they use, the number of blobs written is that of the puts that were answered with a
reference, and the bytes written are those of their payloads.  The bytes read are those of the
values that were given back, and those that a reference called a text and that are none.  These come
from the references that are refused at the last moment, although they are good for bytes; any other
reference that fails counts nothing. -/
theorem counters_after (calls : List BlobCall) :
    let s := BlobStore.after calls
    s.blobsWritten = (occurrences calls).countP (fun o => o.answer.id?.isSome)
      ∧ s.bytesWritten = ((occurrences calls).map fun o => o.item.written o.answer).sum
      ∧ s.bytesRead
        = ((occurrences calls).map fun o => o.answer.returned).sum
          + ((occurrences calls).map fun o => o.item.misread o.answer).sum
      ∧ ∀ (s : BlobStore) (r : ValueRef) (ts : Timestamp) (e : Error),
          (s.resolve r ts).1 = .error e →
            if e = .blobNotText then
              (s.resolve r ts).2 = { s with bytesRead := s.bytesRead + r.len.toNat }
                ∧ r.text = true ∧ ∃ payload, s.bytes r ts = .ok payload ∧ payload.text? = none
            else (s.resolve r ts).2 = s := by
  intro s
  refine ⟨?_, ?_, ?_, fun s r ts e => BlobStore.snd_resolve_of_error⟩
  · rw [← sum_map_ite]
    exact sum_after BlobStore.blobsWritten (fun _ a => if a.id?.isSome then 1 else 0) rfl
      (fun s c => (BlobCall.counters_on s c).1) calls
  · exact sum_after BlobStore.bytesWritten BlobCall.written rfl
      (fun s c => (BlobCall.counters_on s c).2.1) calls
  · rw [← List.sum_map_add]
    exact sum_after BlobStore.bytesRead (fun c a => a.returned + c.misread a) rfl
      (fun s c => (BlobCall.counters_on s c).2.2) calls

/-- A payload that is no text, and a reference to it that calls it one. -/
def garbled : List BlobCall :=
  [.putBytes [0xFF] 0, .resolve { BlobStore.reference 1 [0xFF] false with text := true } 0]

/-- The reference is good for the payload but gives nothing back, and still its byte counts as read:
neither are the bytes read those that are given back, nor does every failure count nothing. -/
theorem not_bytesRead_eq_returned_garbled :
    (occurrences garbled).map (·.answer)
        = [.stored (.ok (BlobStore.reference 1 [0xFF] false)), .resolved (.error .blobNotText)]
      ∧ (BlobStore.after garbled).bytesRead = 1
      ∧ (¬∀ calls, (BlobStore.after calls).bytesRead
          = ((occurrences calls).map fun o => o.answer.returned).sum)
      ∧ ¬∀ (s : BlobStore) (r : ValueRef) (ts : Timestamp) (e : Error),
          (s.resolve r ts).1 = .error e → (s.resolve r ts).2.bytesRead = s.bytesRead := by
  have hread : (BlobStore.after garbled).bytesRead = 1 := by decide +kernel
  refine ⟨by decide +kernel, hread, fun hall => ?_, fun hall => ?_⟩
  · exact absurd (hall garbled) (by decide +kernel)
  · let s := BlobStore.after [.putBytes [0xFF] 0]
    let r := { BlobStore.reference 1 [0xFF] false with text := true }
    exact absurd (hall s r 0 .blobNotText (by decide +kernel)) (by decide +kernel)

end Chronicle
