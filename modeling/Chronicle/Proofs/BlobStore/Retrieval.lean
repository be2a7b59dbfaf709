import Chronicle.Proofs.BlobStore.Run

/-!
# What a blob store gives back

A reference names an id, a length and a checksum, and anyone can make one up.  It is good for the
blob that is kept under its id, from the time on at which that was written, if length and checksum
are those of the blob; then the blob's bytes come back, as bytes or, if they are those of a text, as
the text.  A reference that was handed out is good for what was put as long as the id is not
removed, whatever else happens to the store.

* `load_eq_ok_iff` : what a reference has to have;
* `load_reference` : the references that are handed out have it;
* `resolve_after` : what comes back after a run of calls.
-/

namespace Chronicle

namespace BlobStore

variable {s : BlobStore} {r : ValueRef} {ts : Timestamp} {v : PropValue}

/-- Bytes stand for themselves, and as a text for the text that has these bytes. -/
theorem decode_eq_ok_iff {text : Bool} {payload : Bytes} : decode text payload = .ok v
    ↔ (text = false ∧ v = .bytes payload)
      ∨ (text = true ∧ ∃ content, Bytes.ofText content = payload ∧ v = .str content) := by
  cases text with
  | false => simp [decode, eq_comm]
  | true =>
    rw [decode, if_pos rfl]
    simp only [← Bytes.text?_eq_some_iff]
    cases payload.text? with
    | none => simp
    | some content => simp [eq_comm]

/-- A reference is good for the bytes of the blob under its id if the blob was written in time and
has the length and the checksum that the reference names. -/
theorem bytes_eq_ok_iff {payload : Bytes} : s.bytes r ts = .ok payload
    ↔ ∃ b, s.blobs.get? r.id = some b ∧ b.writtenAt ≤ ts ∧ r.len.toNat = b.bytes.length
      ∧ r.checksum = Checksum.ofBlob r.id b.bytes ∧ b.bytes = payload := by
  rw [bytes]
  cases s.blobs.get? r.id with
  | none => simp
  | some b =>
    simp only [Option.some.injEq, exists_eq_left']
    split
    · next hearly => simp [Int64.not_le.2 hearly]
    · next hearly =>
      have hwritten : b.writtenAt ≤ ts := Int64.not_lt.1 hearly
      split
      · next hlen => simp [Ne.symm hlen]
      · next hlen =>
        rw [ne_eq, not_not] at hlen
        split
        · next hsum => simp [Ne.symm hsum]
        · next hsum =>
          rw [ne_eq, not_not] at hsum
          simp [hwritten, hlen, hsum]

theorem load_eq_ok_iff : s.load r ts = .ok v
    ↔ ∃ b, s.blobs.get? r.id = some b ∧ b.writtenAt ≤ ts ∧ r.len.toNat = b.bytes.length
      ∧ r.checksum = Checksum.ofBlob r.id b.bytes ∧ decode r.text b.bytes = .ok v := by
  have hbind : s.load r ts = .ok v
      ↔ ∃ payload, s.bytes r ts = .ok payload ∧ decode r.text payload = .ok v := by
    rw [load]
    cases s.bytes r ts <;> simp [bind, Except.bind]
  rw [hbind]
  constructor
  · rintro ⟨payload, hbytes, hdecode⟩
    obtain ⟨b, hb, hwritten, hlen, hsum, rfl⟩ := bytes_eq_ok_iff.1 hbytes
    exact ⟨b, hb, hwritten, hlen, hsum, hdecode⟩
  · rintro ⟨b, hb, hwritten, hlen, hsum, hdecode⟩
    exact ⟨b.bytes, bytes_eq_ok_iff.2 ⟨b, hb, hwritten, hlen, hsum, rfl⟩, hdecode⟩

/-- The length of a payload that is not too long is what its reference says. -/
theorem toNat_len_reference {payload : Bytes} (h : payload.length ≤ longestPayload) (id : UInt64)
    (text : Bool) : (reference id payload text).len.toNat = payload.length := by
  show payload.length.toUInt32.toNat = payload.length
  rw [longestPayload] at h
  exact UInt32.toNat_ofNat_of_lt' (Nat.lt_of_le_pred (by decide) h)

/-- A reference that is handed out is good from the time on at which its blob was written, while the
blob is there. -/
theorem load_reference {id : UInt64} {b : Blob} {text : Bool} (hb : s.blobs.get? id = some b)
    (hlen : b.bytes.length ≤ longestPayload) (hdecode : decode text b.bytes = .ok v)
    (ts : Timestamp) :
    s.load (reference id b.bytes text) ts
      = if ts < b.writtenAt then .error .referencePredatesBlob else .ok v := by
  split
  · next hearly =>
    have hbytes : s.bytes (reference id b.bytes text) ts = .error .referencePredatesBlob := by
      rw [bytes, show s.blobs.get? (reference id b.bytes text).id = some b from hb]
      exact if_pos hearly
    rw [load, hbytes]
    rfl
  · next hearly =>
    exact load_eq_ok_iff.2 ⟨b, hb, Int64.not_lt.1 hearly, toNat_len_reference hlen id text, rfl,
      hdecode⟩

theorem load_of_get?_eq_none (h : s.blobs.get? r.id = none) (ts : Timestamp) :
    s.load r ts = .error .notFound := by
  rw [load, bytes, h]
  rfl

end BlobStore

/-! ## Runs -/

variable {calls : List BlobCall} {o : Occurrence BlobCall} {b : Blob} {v : PropValue}

/-- A blob that was stored and not removed since is there. -/
theorem get?_after_of_not_removed (h : calls.length < UInt64.size) (ho : o ∈ occurrences calls)
    (hb : o.item.accepted? = some b) (hkept : BlobCall.remove (idAfter o.before) ∉ o.after) :
    (BlobStore.after calls).blobs.get? (idAfter o.before) = some b :=
  (get?_after h).2 ⟨o, ho, hb, id?_answer hb, hkept⟩

/-- Nothing is there under the id of a blob that was removed, as no other blob gets its id. -/
theorem get?_after_of_removed (h : calls.length < UInt64.size) (ho : o ∈ occurrences calls)
    (hb : o.item.accepted? = some b) (hremoved : BlobCall.remove (idAfter o.before) ∈ o.after) :
    (BlobStore.after calls).blobs.get? (idAfter o.before) = none := by
  rw [← Option.not_isSome_iff_eq_none, Option.isSome_iff_exists]
  rintro ⟨b', hb'⟩
  obtain ⟨o', ho', hacc, hid, hkept⟩ := (get?_after h).1 hb'
  rw [id?_answer hacc] at hid
  obtain rfl := eq_of_idAfter_before_eq h ho' ho hacc hb (Option.some.inj hid)
  exact hkept hremoved

/-- The reference that a put is answered with gives back what was put, from its time on and until
its id is removed. -/
theorem exists_reference (h : calls.length < UInt64.size) (ho : o ∈ occurrences calls)
    (hdeposit : o.item.deposit? = some (b, v))
    (hlen : b.bytes.length ≤ BlobStore.longestPayload) :
    ∃ r, o.answer = .stored (.ok r)
      ∧ ∀ ts, (BlobStore.after calls).load r ts
        = if BlobCall.remove r.id ∈ o.after then .error .notFound
          else if ts < b.writtenAt then .error .referencePredatesBlob else .ok v := by
  have hb := BlobCall.accepted?_eq_some_iff.2 ⟨hlen, v, hdeposit⟩
  obtain ⟨text, v', hdeposit', hdecode, hon⟩ := BlobCall.on_of_accepted hb
  obtain rfl : v' = v := by
    rw [hdeposit] at hdeposit'
    cases hdeposit'
    rfl
  obtain ⟨hanswer, -⟩ := hon (BlobStore.after o.before)
  rw [nextId_after] at hanswer
  refine ⟨_, hanswer, fun ts => ?_⟩
  split
  · next hremoved =>
    exact BlobStore.load_of_get?_eq_none (get?_after_of_removed h ho hb hremoved) ts
  · next hkept =>
    exact BlobStore.load_reference (get?_after_of_not_removed h ho hb hkept) hlen hdecode ts

/-- **A blob store gives back what was stored, or fails.**  After fewer calls than there are ids, no
id was handed out twice.  Each put of a payload that is not too long was answered with a reference
that gives back exactly what was put, at any time from the put's on; before that time it is said to
be too early, and once its id is removed there is nothing.  Any reference at all gives back a value
only if a blob is kept under its id that was written by then and has the length and the checksum
that it names, and the value is what the bytes of that blob stand for.  A payload that is too long
is refused, and the store stays as it is. -/
theorem resolve_after (calls : List BlobCall) (h : calls.length < UInt64.size) :
    let s := BlobStore.after calls
    (handedOut calls).Nodup
      ∧ (∀ o ∈ occurrences calls, ∀ b v, o.item.deposit? = some (b, v) →
          b.bytes.length ≤ BlobStore.longestPayload →
            ∃ r, o.answer = .stored (.ok r)
              ∧ ∀ ts, (s.resolve r ts).1
                = if BlobCall.remove r.id ∈ o.after then .error .notFound
                  else if ts < b.writtenAt then .error .referencePredatesBlob else .ok v)
      ∧ (∀ r ts v, (s.resolve r ts).1 = .ok v
          ↔ ∃ b, IsKept calls r.id b ∧ b.writtenAt ≤ ts ∧ r.len.toNat = b.bytes.length
            ∧ r.checksum = Checksum.ofBlob r.id b.bytes
            ∧ ((r.text = false ∧ v = .bytes b.bytes)
              ∨ (r.text = true ∧ ∃ content, Bytes.ofText content = b.bytes ∧ v = .str content)))
      ∧ ∀ s c b v, BlobCall.deposit? c = some (b, v) →
          BlobStore.longestPayload < b.bytes.length →
            c.on s = (.stored (.error .payloadTooLong), s) := by
  intro s
  refine ⟨nodup_handedOut h, fun o ho b v hdeposit hlen => exists_reference h ho hdeposit hlen,
    fun r ts v => ?_, fun s c b v hdeposit hlong => BlobCall.on_of_tooLong hdeposit hlong s⟩
  show s.load r ts = .ok v ↔ _
  rw [BlobStore.load_eq_ok_iff]
  refine exists_congr fun b => ?_
  rw [get?_after h, BlobStore.decode_eq_ok_iff]

/-- Two payloads of the same bytes, the first of which is removed before the second is put, and a
text in between. -/
def parcels : List BlobCall :=
  [.putBytes [1, 2] 5, .putText "hé" 3, .remove 1, .putBytes [1, 2] 7]

/-- The text comes back from time 3 on, and the first payload not at all, not even for a reference
to the second one that names the first one's checksum. -/
theorem resolve_after_parcels :
    let s := BlobStore.after parcels
    let letter := BlobStore.reference 2 (.ofText "hé") true
    let first := BlobStore.reference 1 [1, 2] false
    parcels.length < UInt64.size ∧ handedOut parcels = [1, 2, 3] ∧ (handedOut parcels).Nodup
      ∧ (∀ ts, (s.resolve letter ts).1
          = if ts < 3 then .error .referencePredatesBlob else .ok (.str "hé"))
      ∧ (∀ ts, (s.resolve first ts).1 = .error .notFound)
      ∧ (s.resolve { first with id := 3 } 9).1 = .error .blobChecksumMismatch
      ∧ (s.resolve (BlobStore.reference 3 [1, 2] false) 9).1 = .ok (.bytes [1, 2])
      ∧ (BlobCall.putBytes (List.replicate UInt32.size 0) 8).on s
          = (.stored (.error .payloadTooLong), s)
      ∧ Error.referencePredatesBlob.kind = .invalid ∧ Error.payloadTooLong.kind = .invalid := by
  intro s letter first
  have hshort : parcels.length < UInt64.size := by decide
  obtain ⟨hnodup, hput, hany, hlong⟩ := resolve_after parcels hshort
  have hmiddle : ⟨[.putBytes [1, 2] 5], .putText "hé" 3, [.remove 1, .putBytes [1, 2] 7]⟩
      ∈ occurrences parcels := by simp [parcels, occurrences, occurrencesFrom]
  have hhead : ⟨[], .putBytes [1, 2] 5, [.putText "hé" 3, .remove 1, .putBytes [1, 2] 7]⟩
      ∈ occurrences parcels := by simp [parcels, occurrences, occurrencesFrom]
  obtain ⟨r, hr, hletter⟩ := hput _ hmiddle _ _ rfl (by decide)
  obtain ⟨r', hr', hfirst⟩ := hput _ hhead _ _ rfl (by decide)
  -- the answers name the references
  obtain rfl : letter = r := Except.ok.inj (BlobAnswer.stored.inj hr)
  obtain rfl : first = r' := Except.ok.inj (BlobAnswer.stored.inj hr')
  have hkept : IsKept parcels 3 ⟨7, [1, 2]⟩ := (get?_after hshort).1 (by decide)
  refine ⟨hshort, by decide, hnodup, hletter, hfirst, by decide +kernel, ?_,
    hlong s _ _ _ rfl ?_, rfl, rfl⟩
  · exact (hany _ 9 _).2 ⟨_, hkept, by decide, rfl, rfl, Or.inl ⟨rfl, rfl⟩⟩
  · rw [List.length_replicate]
    decide

end Chronicle
