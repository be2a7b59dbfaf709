import Mathlib.Data.Nat.Bitwise
import Mathlib.Logic.Function.Iterate
import Chronicle.Checksum

/-!
# What a checksum notices

Moving the register by one bit is linear in exclusive or, and only zero is moved to zero; so no two
registers are moved to one, however many bytes follow.  Up to four bytes are taken in as one word:
it is added to the register first, and then the register moves on by all their bits.  Hence payloads
that differ, and differ within four bytes in a row only, have different checksums, whatever stands
around these bytes.  A blob's id stands before its bytes and is noticed in the same way.

* `bitStep_xor`, `bitStep_injective` : one bit;
* `foldl_byteStep_eq` : up to four bytes as one word;
* `foldl_byteStep_ne` : a difference within four bytes stays one;
* `ofBlob_ne_of_agreeOutside`, `ofBlob_ne_of_id_ne` : damaged payloads and other ids.
-/

namespace Chronicle

/-- The number whose digits to the base of 256 are the bytes, the least significant first. -/
def Bytes.littleEndian : Bytes → Nat
  | [] => 0
  | b :: bs => b.toNat + 256 * littleEndian bs

/-- The payloads are equally long and agree but for the four bytes from `start` on. -/
structure Bytes.AgreeOutside (start : Nat) (p q : Bytes) : Prop where
  length : p.length = q.length
  outside (i : Nat) : i < start ∨ start + 4 ≤ i → p[i]? = q[i]?

namespace Bytes

theorem littleEndian_lt (bs : Bytes) : littleEndian bs < 2 ^ (8 * bs.length) := by
  induction bs with
  | nil => decide
  | cons b bs ih =>
    have hb := b.toNat_lt
    rw [littleEndian, List.length_cons, Nat.mul_succ, Nat.pow_add]
    omega

theorem littleEndian_lt_of_length_le {bs : Bytes} {n : Nat} (h : bs.length ≤ n) :
    littleEndian bs < 2 ^ (8 * n) :=
  Nat.lt_of_lt_of_le (littleEndian_lt bs)
    (Nat.pow_le_pow_right (by decide) (Nat.mul_le_mul_left 8 h))

/-- Equally many bytes are told apart by their number. -/
theorem eq_of_littleEndian_eq {a b : Bytes} (hlen : a.length = b.length)
    (h : littleEndian a = littleEndian b) : a = b := by
  induction a generalizing b with
  | nil => exact (List.length_eq_zero_iff.1 hlen.symm).symm
  | cons x a ih =>
    cases b with
    | nil => cases hlen
    | cons y b =>
      have hx := x.toNat_lt
      have hy := y.toNat_lt
      rw [littleEndian, littleEndian] at h
      have hfirst : x = y := UInt8.toNat_inj.1 (by omega)
      have hrest : littleEndian a = littleEndian b := by omega
      rw [hfirst, ih (Nat.succ.inj hlen) hrest]

/-- What agrees outside of four bytes is the same before and after them. -/
theorem AgreeOutside.exists_parts {start : Nat} {p q : Bytes} (h : AgreeOutside start p q) :
    ∃ before a b after : Bytes, p = before ++ a ++ after ∧ q = before ++ b ++ after
      ∧ a.length = b.length ∧ a.length ≤ 4 := by
  refine ⟨p.take start, (p.drop start).take 4, (q.drop start).take 4, p.drop (start + 4), ?_, ?_,
    ?_, List.length_take_le _ _⟩
  · rw [List.append_assoc, ← List.drop_drop, List.take_append_drop, List.take_append_drop]
  · have hbefore : p.take start = q.take start := by
      refine List.ext_getElem? fun i => ?_
      rw [List.getElem?_take, List.getElem?_take]
      split
      · next hi => exact h.outside i (Or.inl hi)
      · rfl
    have hafter : p.drop (start + 4) = q.drop (start + 4) := by
      refine List.ext_getElem? fun i => ?_
      rw [List.getElem?_drop, List.getElem?_drop]
      exact h.outside _ (Or.inr (Nat.le_add_right _ _))
    rw [hbefore, hafter, List.append_assoc, ← List.drop_drop, List.take_append_drop,
      List.take_append_drop]
  · rw [List.length_take, List.length_take, List.length_drop, List.length_drop, h.length]

end Bytes

namespace Checksum

variable {r s : UInt32}

/-! ## One bit -/

theorem lowBit_iff (r : UInt32) : r &&& 1 = 1 ↔ r.toNat % 2 = 1 := by
  rw [← UInt32.toNat_inj, UInt32.toNat_and]
  show r.toNat &&& 1 = 1 ↔ _
  rw [Nat.and_one_is_mod]

theorem bitStep_of_odd (h : r.toNat % 2 = 1) : bitStep r = (r >>> 1) ^^^ polynomial :=
  if_pos ((lowBit_iff r).2 h)

theorem bitStep_of_even (h : r.toNat % 2 = 0) : bitStep r = r >>> 1 :=
  if_neg fun hlow => by
    have hodd := (lowBit_iff r).1 hlow
    omega

theorem toNat_shiftRight_one (r : UInt32) : (r >>> 1).toNat = r.toNat / 2 := by
  rw [UInt32.toNat_shiftRight]
  exact Nat.shiftRight_one _

/-- Moving on by one bit is linear. -/
theorem bitStep_xor (r s : UInt32) : bitStep (r ^^^ s) = bitStep r ^^^ bitStep s := by
  have hlow : (r ^^^ s).toNat % 2 = (r.toNat + s.toNat) % 2 := by
    rw [UInt32.toNat_xor, Nat.xor_mod_two_eq]
  rcases Nat.mod_two_eq_zero_or_one r.toNat with hr | hr <;>
    rcases Nat.mod_two_eq_zero_or_one s.toNat with hs | hs
  · rw [bitStep_of_even hr, bitStep_of_even hs, bitStep_of_even (by omega), UInt32.shiftRight_xor]
  · rw [bitStep_of_even hr, bitStep_of_odd hs, bitStep_of_odd (by omega), UInt32.shiftRight_xor,
      UInt32.xor_assoc]
  · rw [bitStep_of_odd hr, bitStep_of_even hs, bitStep_of_odd (by omega), UInt32.shiftRight_xor,
      UInt32.xor_assoc, UInt32.xor_assoc, UInt32.xor_comm polynomial]
  · rw [bitStep_of_odd hr, bitStep_of_odd hs, bitStep_of_even (by omega), UInt32.shiftRight_xor]
    -- the polynomial is added twice, which is not at all
    rw [UInt32.xor_comm (s >>> 1), UInt32.xor_assoc, ← UInt32.xor_assoc polynomial,
      UInt32.xor_self, UInt32.zero_xor]

/-- Only zero is moved to zero: the polynomial has the highest bit, which a shift leaves clear. -/
theorem eq_zero_of_bitStep_eq_zero (h : bitStep r = 0) : r = 0 := by
  have hr := r.toNat_lt
  rcases Nat.mod_two_eq_zero_or_one r.toNat with heven | hodd
  · rw [bitStep_of_even heven] at h
    have hhalf : r.toNat / 2 = 0 := by
      rw [← toNat_shiftRight_one, h]
      rfl
    exact UInt32.toNat_inj.1 (show r.toNat = 0 by omega)
  · rw [bitStep_of_odd hodd, UInt32.xor_eq_zero_iff] at h
    have hhalf : r.toNat / 2 = 0xEDB88320 := by
      rw [← toNat_shiftRight_one, h]
      rfl
    omega

theorem bitStep_injective : Function.Injective bitStep := by
  intro r s h
  rw [← UInt32.xor_eq_zero_iff]
  apply eq_zero_of_bitStep_eq_zero
  rw [bitStep_xor, h, UInt32.xor_self]

/-! ## Several bits -/

theorem bitStep_iterate_xor (n : Nat) (r s : UInt32) :
    bitStep^[n] (r ^^^ s) = bitStep^[n] r ^^^ bitStep^[n] s := by
  induction n generalizing r s with
  | zero => rfl
  | succ n ih => rw [Function.iterate_succ_apply, bitStep_xor, ih]; rfl

/-- A register whose lowest bits are clear is moved on by these without the polynomial. -/
theorem bitStep_iterate_of_mul {n : Nat} (h : r.toNat = 2 ^ n * s.toNat) : bitStep^[n] r = s := by
  induction n generalizing r with
  | zero => exact UInt32.toNat_inj.1 (by simpa using h)
  | succ n ih =>
    rw [Nat.pow_succ'] at h
    rw [Function.iterate_succ_apply]
    apply ih
    have heven : r.toNat % 2 = 0 := by rw [h, Nat.mul_assoc]; exact Nat.mul_mod_right _ _
    rw [bitStep_of_even heven, toNat_shiftRight_one, h, Nat.mul_assoc]
    exact Nat.mul_div_cancel_left _ (by decide)

theorem byteStep_eq (r : UInt32) (b : UInt8) : byteStep r b = bitStep^[8] (r ^^^ b.toUInt32) := rfl

/-! ## Several bytes -/

/-- A byte and a number that starts above it do not touch one another. -/
theorem xor_mul_eq_add {b : Nat} (h : b < 256) (n : Nat) : b ^^^ (256 * n) = b + 256 * n := by
  refine Nat.eq_of_testBit_eq fun j => ?_
  rw [Nat.testBit_xor, Nat.add_comm, show 256 = 2 ^ 8 by rfl, Nat.testBit_two_pow_mul,
    Nat.testBit_two_pow_mul_add n h]
  by_cases hj : j < 8
  · rw [if_pos hj, decide_eq_false (by omega), Bool.false_and, Bool.xor_false]
  · have hb : b.testBit j = false :=
      Nat.testBit_lt_two_pow
        (Nat.lt_of_lt_of_le h (Nat.pow_le_pow_right (n := 2) (by decide) (Nat.le_of_not_lt hj)))
    rw [if_neg hj, decide_eq_true (by omega), Bool.true_and, hb, Bool.false_xor]

/-- Up to four bytes are taken in as one word. -/
theorem foldl_byteStep_eq {bs : Bytes} (h : bs.length ≤ 4) (r : UInt32) :
    bs.foldl byteStep r
      = bitStep^[8 * bs.length] (r ^^^ UInt32.ofNat (Bytes.littleEndian bs)) := by
  induction bs generalizing r with
  | nil => exact UInt32.xor_zero.symm
  | cons b bs ih =>
    rw [List.length_cons] at h
    have hlt : Bytes.littleEndian bs < 2 ^ (8 * 3) :=
      Bytes.littleEndian_lt_of_length_le (Nat.le_of_succ_le_succ h)
    have hb := b.toNat_lt
    have hsize : UInt32.size = 2 ^ 32 := rfl
    -- the later bytes, before the register has moved on by the first
    have hlater : bitStep^[8] (UInt32.ofNat (256 * Bytes.littleEndian bs))
        = UInt32.ofNat (Bytes.littleEndian bs) := by
      apply bitStep_iterate_of_mul
      rw [UInt32.toNat_ofNat_of_lt' (by omega), UInt32.toNat_ofNat_of_lt' (by omega)]
      rfl
    have hword : b.toUInt32 ^^^ UInt32.ofNat (256 * Bytes.littleEndian bs)
        = UInt32.ofNat (Bytes.littleEndian (b :: bs)) := by
      rw [← UInt32.toNat_inj, UInt32.toNat_xor, UInt8.toNat_toUInt32,
        UInt32.toNat_ofNat_of_lt' (by omega), xor_mul_eq_add hb, Bytes.littleEndian,
        UInt32.toNat_ofNat_of_lt' (by omega)]
    rw [List.foldl_cons, ih (by omega), byteStep_eq, ← hlater, ← bitStep_iterate_xor,
      ← Function.iterate_add_apply, UInt32.xor_assoc, hword]
    rfl

/-- No two registers are moved to one. -/
theorem foldl_byteStep_left_inj {bs : Bytes} (h : bs.foldl byteStep r = bs.foldl byteStep s) :
    r = s := by
  induction bs generalizing r s with
  | nil => exact h
  | cons b bs ih =>
    have hstep := ih h
    rw [byteStep_eq, byteStep_eq] at hstep
    exact (UInt32.xor_left_inj _).1 (bitStep_injective.iterate 8 hstep)

/-- Up to four bytes are told apart by the register after them. -/
theorem eq_of_foldl_byteStep_eq {a b : Bytes} (hlen : a.length = b.length) (h : a.length ≤ 4)
    (heq : a.foldl byteStep r = b.foldl byteStep r) : a = b := by
  have hsize : UInt32.size = 2 ^ 32 := rfl
  have ha : Bytes.littleEndian a < 2 ^ 32 := Bytes.littleEndian_lt_of_length_le h
  have hb : Bytes.littleEndian b < 2 ^ 32 := Bytes.littleEndian_lt_of_length_le (hlen ▸ h)
  rw [foldl_byteStep_eq h, foldl_byteStep_eq (hlen ▸ h), hlen] at heq
  have hword := (UInt32.xor_right_inj r).1 (bitStep_injective.iterate _ heq)
  have hnat := congrArg UInt32.toNat hword
  rw [UInt32.toNat_ofNat_of_lt' (by omega), UInt32.toNat_ofNat_of_lt' (by omega)] at hnat
  exact Bytes.eq_of_littleEndian_eq hlen hnat

/-- A difference within four bytes stays one, whatever stands around them. -/
theorem foldl_byteStep_ne {a b : Bytes} (hlen : a.length = b.length) (h : a.length ≤ 4)
    (hne : a ≠ b) (before after : Bytes) (r : UInt32) :
    (before ++ a ++ after).foldl byteStep r ≠ (before ++ b ++ after).foldl byteStep r := by
  intro heq
  simp only [List.foldl_append] at heq
  exact hne (eq_of_foldl_byteStep_eq hlen h (foldl_byteStep_left_inj heq))

/-! ## Blobs -/

/-- The register runs over the bytes of the id and then over those of the blob. -/
theorem ofBlob_eq (id : UInt64) (payload : Bytes) :
    ofBlob id payload = (bigEndian id ++ payload).foldl byteStep 0xFFFFFFFF ^^^ 0xFFFFFFFF := by
  rw [List.foldl_append]
  rfl

/-- The checksum of the nine digits is the one by which this kind of checksum is known. -/
example : (start.update (Bytes.ofText "123456789")).value = 0xCBF43926 := by decide +kernel

/-- Damage within four bytes in a row is noticed. -/
theorem ofBlob_ne_of_agreeOutside {p q : Bytes} {start : Nat} (id : UInt64) (hne : p ≠ q)
    (h : Bytes.AgreeOutside start p q) : ofBlob id p ≠ ofBlob id q := by
  obtain ⟨before, a, b, after, rfl, rfl, hlen, hfour⟩ := h.exists_parts
  have hab : a ≠ b := by
    rintro rfl
    exact hne rfl
  rw [ofBlob_eq, ofBlob_eq, ne_eq, UInt32.xor_left_inj]
  have hdiff := foldl_byteStep_ne hlen hfour hab (bigEndian id ++ before) after 0xFFFFFFFF
  simpa only [List.append_assoc] using hdiff

/-- The bytes of a number stand for that number. -/
theorem littleEndian_reverse_bigEndian (n : UInt64) :
    Bytes.littleEndian (bigEndian n).reverse = n.toNat := by
  have hn := n.toNat_lt
  simp only [bigEndian, List.map_cons, List.map_nil, List.reverse_cons, List.reverse_nil,
    List.nil_append, List.cons_append, Bytes.littleEndian, UInt64.toNat_toUInt8,
    UInt64.toNat_shiftRight, Nat.shiftRight_eq_div_pow, UInt64.reduceToNat, Nat.reduceMod]
  omega

/-- The upper half of a number stands in the first four of its bytes. -/
theorem take_bigEndian {m n : UInt64} (h : m >>> 32 = n >>> 32) :
    (bigEndian m).take 4 = (bigEndian n).take 4 := by
  have hshift : ∀ k : UInt64, 32 ≤ k.toNat → k.toNat < 64 → m >>> k = n >>> k := by
    intro k hlow hhigh
    have hupper : ∀ x : UInt64, (x >>> k).toNat = (x >>> 32).toNat / 2 ^ (k.toNat - 32) := by
      intro x
      rw [UInt64.toNat_shiftRight, UInt64.toNat_shiftRight, Nat.mod_eq_of_lt hhigh,
        show (32 : UInt64).toNat % 64 = 32 by rfl, Nat.shiftRight_eq_div_pow,
        Nat.shiftRight_eq_div_pow, Nat.div_div_eq_div_mul, ← Nat.pow_add, Nat.add_sub_cancel' hlow]
    rw [← UInt64.toNat_inj, hupper m, hupper n, h]
  simp only [bigEndian, List.map_cons, List.take_succ_cons, List.take_zero,
    hshift 56 (by decide) (by decide), hshift 48 (by decide) (by decide),
    hshift 40 (by decide) (by decide), hshift 32 (by decide) (by decide)]

/-- Another id is noticed if it differs in its lower half only. -/
theorem ofBlob_ne_of_id_ne {id id' : UInt64} (payload : Bytes) (hne : id ≠ id')
    (h : id >>> 32 = id' >>> 32) : ofBlob id payload ≠ ofBlob id' payload := by
  have hsplit : ∀ n : UInt64, bigEndian n = (bigEndian n).take 4 ++ (bigEndian n).drop 4 :=
    fun n => (List.take_append_drop 4 _).symm
  have hlower : (bigEndian id).drop 4 ≠ (bigEndian id').drop 4 := by
    intro heq
    refine hne (UInt64.toNat_inj.1 ?_)
    rw [← littleEndian_reverse_bigEndian id, ← littleEndian_reverse_bigEndian id', hsplit id,
      hsplit id', take_bigEndian h, heq]
  have hfour : ∀ n : UInt64, ((bigEndian n).drop 4).length = 4 := fun _ => rfl
  have hdiff := foldl_byteStep_ne ((hfour id).trans (hfour id').symm) (Nat.le_of_eq (hfour id))
    hlower ((bigEndian id).take 4) payload 0xFFFFFFFF
  rw [ofBlob_eq, ofBlob_eq, ne_eq, UInt32.xor_left_inj, hsplit id, hsplit id', ← take_bigEndian h]
  exact hdiff

end Checksum

end Chronicle
