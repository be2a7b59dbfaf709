import Chronicle.Proofs.BlobStore.Counting
import Chronicle.Proofs.Checksum

/-!
# References under another blob's id

A reference names the checksum of the blob that it was made for, and that checksum starts with the
blob's id.  If the id is exchanged for that of another blob with the same bytes, the length still
fits, but the checksum does not: the ids of a store that has handed out fewer than `2 ^ 32` of them
differ in their lower halves only, and a checksum notices that.

* `exists_id_of_get?` : whatever is there has an id that was handed out;
* `ofBlob_tells_apart` : what a checksum notices, and what that means for exchanged ids.
-/

namespace Chronicle

variable {calls : List BlobCall} {o : Occurrence BlobCall} {id : UInt64} {b : Blob}

theorem length_handedOut (calls : List BlobCall) :
    (handedOut calls).length = acceptedCount calls := by
  rw [handedOut_eq, List.length_map, List.length_range]

/-- Whatever is there has an id that was handed out. -/
theorem exists_id_of_get? (h : (BlobStore.after calls).blobs.get? id = some b) :
    ∃ n < acceptedCount calls, id = UInt64.ofNat (1 + n) := by
  induction calls using List.reverseRecOn with
  | nil => cases h
  | append_singleton calls c ih =>
    rw [BlobStore.after_append_singleton] at h
    rw [acceptedCount_append_singleton]
    cases hc : c.accepted? with
    | some b' =>
      obtain ⟨text, v, -, -, hon⟩ := BlobCall.on_of_accepted hc
      obtain ⟨-, hblobs, -⟩ := hon (BlobStore.after calls)
      rw [hblobs, OrderedMap.get?_insert, nextId_after] at h
      rw [Option.isSome_some, if_pos rfl]
      split at h
      · next hid => exact ⟨acceptedCount calls, Nat.lt_succ_self _, hid⟩
      · obtain ⟨n, hn, hid⟩ := ih h
        exact ⟨n, Nat.lt_succ_of_lt hn, hid⟩
    | none =>
      obtain ⟨-, -, hblobs⟩ := BlobCall.on_of_not_accepted hc (BlobStore.after calls)
      rw [hblobs] at h
      split at h
      · cases h
      · exact ih h

/-- The upper half of the first `2 ^ 32` ids is zero. -/
theorem shiftRight_ofNat {n : Nat} (h : n < UInt32.size) : UInt64.ofNat n >>> 32 = 0 := by
  have hsize : UInt32.size = 2 ^ 32 := rfl
  rw [← UInt64.toNat_inj, UInt64.toNat_shiftRight,
    UInt64.toNat_ofNat_of_lt' (Nat.lt_trans h (by decide)), Nat.shiftRight_eq_div_pow]
  exact Nat.div_eq_of_lt h

/-- A reference that names another checksum than that of its blob fails, and nothing is counted. -/
theorem BlobStore.resolve_of_checksum_ne {s : BlobStore} {r : ValueRef}
    (hb : s.blobs.get? r.id = some b) (hlen : b.bytes.length = r.len.toNat)
    (hsum : Checksum.ofBlob r.id b.bytes ≠ r.checksum) (ts : Timestamp) :
    s.resolve r ts
      = (.error (if ts < b.writtenAt then .referencePredatesBlob else .blobChecksumMismatch),
          s) := by
  have hfails : s.bytes r ts
      = .error (if ts < b.writtenAt then .referencePredatesBlob else .blobChecksumMismatch) := by
    rw [bytes, hb]
    dsimp only
    rw [if_neg (not_not_intro hlen), if_pos hsum]
    split <;> rfl
  rw [resolve, load, charge, hfails]
  rfl

/-- A reference whose id is exchanged for that of another blob with the same bytes names another
checksum. -/
theorem resolve_of_exchanged (hcount : acceptedCount calls < UInt32.size)
    (ho : o ∈ occurrences calls) {b₀ : Blob} (hacc : o.item.accepted? = some b₀) {r : ValueRef}
    (hr : o.answer = .stored (.ok r)) (hb : (BlobStore.after calls).blobs.get? id = some b)
    (hid : id ≠ r.id) (hbytes : b.bytes = b₀.bytes) (ts : Timestamp) :
    (BlobStore.after calls).resolve { r with id } ts
      = (.error (if ts < b.writtenAt then .referencePredatesBlob else .blobChecksumMismatch),
          BlobStore.after calls) := by
  obtain ⟨text, v, -, -, hon⟩ := BlobCall.on_of_accepted hacc
  obtain ⟨hanswer, -⟩ := hon (BlobStore.after o.before)
  obtain rfl := Except.ok.inj (BlobAnswer.stored.inj (hr.symm.trans hanswer))
  -- both ids are among the first, so they differ in their lower halves only
  obtain ⟨n, hn, hother⟩ := exists_id_of_get? hb
  have hlt := acceptedCount_before_lt hacc (isPrefix_of_mem_occurrences ho)
  have hlower : id >>> 32 = (BlobStore.after o.before).nextId >>> 32 := by
    rw [hother, nextId_after, idAfter, shiftRight_ofNat (by omega), shiftRight_ofNat (by omega)]
  apply BlobStore.resolve_of_checksum_ne hb
  · rw [hbytes]
    exact (BlobStore.toNat_len_reference (BlobCall.accepted?_eq_some_iff.1 hacc).1
      (BlobStore.after o.before).nextId text).symm
  · rw [hbytes]
    exact Checksum.ofBlob_ne_of_id_ne b₀.bytes hid hlower

/-- **A checksum tells blobs apart by their ids and by their bytes.**  Under two ids that differ in
their lower halves only, no payload has the same checksum; and under no id have two payloads the
same checksum that are equally long and differ within four bytes in a row only.  So in a store that
has handed out fewer than `2 ^ 32` ids, a reference never gives anything back under the id of
another blob, even if that has the same bytes. -/
theorem ofBlob_tells_apart :
    (∀ (payload : Bytes) (id id' : UInt64), id ≠ id' → id >>> 32 = id' >>> 32 →
        Checksum.ofBlob id payload ≠ Checksum.ofBlob id' payload)
      ∧ (∀ (id : UInt64) (p q : Bytes) (start : Nat), p ≠ q → Bytes.AgreeOutside start p q →
          Checksum.ofBlob id p ≠ Checksum.ofBlob id q)
      ∧ ∀ calls : List BlobCall, (handedOut calls).length < UInt32.size →
          ∀ o ∈ occurrences calls, ∀ b₀ r, o.item.accepted? = some b₀ →
            o.answer = .stored (.ok r) →
              ∀ id b, (BlobStore.after calls).blobs.get? id = some b → id ≠ r.id →
                b.bytes = b₀.bytes → ∀ ts,
                  (BlobStore.after calls).resolve { r with id } ts
                    = (.error (if ts < b.writtenAt then .referencePredatesBlob
                        else .blobChecksumMismatch), BlobStore.after calls) := by
  refine ⟨fun payload id id' hne h => Checksum.ofBlob_ne_of_id_ne payload hne h,
    fun id p q start hne h => Checksum.ofBlob_ne_of_agreeOutside id hne h, ?_⟩
  intro calls hcount o ho b₀ r hacc hr id b hb hid hbytes ts
  rw [length_handedOut] at hcount
  exact resolve_of_exchanged hcount ho hacc hr hb hid hbytes ts

/-- The same two bytes put twice, and a text in between. -/
def twins : List BlobCall := [.putBytes [1, 2] 5, .putText "hé" 3, .putBytes [1, 2] 7]

/-- The first reference gives nothing back under the id of the third blob, nor the third under that
of the first; and three bytes in a row that are damaged are noticed. -/
theorem ofBlob_tells_apart_twins :
    let s := BlobStore.after twins
    let first := BlobStore.reference 1 [1, 2] false
    let third := BlobStore.reference 3 [1, 2] false
    let whole : Bytes := [7, 8, 9, 10, 11, 12]
    let damaged : Bytes := [7, 0, 9, 1, 11, 12]
    (1 : UInt64) ≠ 3 ∧ (1 : UInt64) >>> 32 = (3 : UInt64) >>> 32
      ∧ Checksum.ofBlob 1 [1, 2] ≠ Checksum.ofBlob 3 [1, 2]
      ∧ whole ≠ damaged ∧ Bytes.AgreeOutside 1 whole damaged
      ∧ Checksum.ofBlob 9 whole ≠ Checksum.ofBlob 9 damaged
      ∧ (handedOut twins).length < UInt32.size
      ∧ (s.resolve first 6).1 = .ok (.bytes [1, 2])
      ∧ s.resolve { first with id := 3 } 9 = (.error .blobChecksumMismatch, s)
      ∧ s.resolve { first with id := 3 } 6 = (.error .referencePredatesBlob, s)
      ∧ s.resolve { third with id := 1 } 9 = (.error .blobChecksumMismatch, s) := by
  intro s first third whole damaged
  obtain ⟨hids, hdamage, hexchanged⟩ := ofBlob_tells_apart
  have hcount : (handedOut twins).length < UInt32.size := by decide
  have hagree : Bytes.AgreeOutside 1 whole damaged := by
    refine ⟨rfl, fun i hi => ?_⟩
    rcases hi with hi | hi
    · obtain rfl : i = 0 := by omega
      rfl
    · obtain ⟨k, rfl⟩ : ∃ k, i = k + 5 := ⟨i - 5, by omega⟩
      rfl
  have hhead : ⟨[], .putBytes [1, 2] 5, [.putText "hé" 3, .putBytes [1, 2] 7]⟩
      ∈ occurrences twins := by simp [twins, occurrences, occurrencesFrom]
  have hlast : ⟨[.putBytes [1, 2] 5, .putText "hé" 3], .putBytes [1, 2] 7, []⟩
      ∈ occurrences twins := by simp [twins, occurrences, occurrencesFrom]
  have hthird : ∀ ts, s.resolve { first with id := 3 } ts
      = (.error (if ts < 7 then .referencePredatesBlob else .blobChecksumMismatch), s) :=
    hexchanged twins hcount _ hhead ⟨5, [1, 2]⟩ first (by decide) rfl 3 ⟨7, [1, 2]⟩ (by decide)
      (by decide) rfl
  have hfirst : ∀ ts, s.resolve { third with id := 1 } ts
      = (.error (if ts < 5 then .referencePredatesBlob else .blobChecksumMismatch), s) :=
    hexchanged twins hcount _ hlast ⟨7, [1, 2]⟩ third (by decide) rfl 1 ⟨5, [1, 2]⟩ (by decide)
      (by decide) rfl
  exact ⟨by decide, by decide, hids _ _ _ (by decide) (by decide), by decide, hagree,
    hdamage _ _ _ _ (by decide) hagree, hcount, by decide +kernel, hthird 9, hthird 6, hfirst 9⟩

end Chronicle
