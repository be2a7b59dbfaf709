/-!
# Machine words

An integer fits a word of some size if the word made of it stands for that integer again.  Each
function gives the word of an integer that fits; `…_eq_some_iff` says that it gives no other word
and misses none.
-/

namespace Chronicle.Word

universe u

/-- The word made of an integer, if its value is that integer. -/
def fitting? {α : Type u} (make : Int → α) (value : α → Int) (i : Int) : Option α :=
  if value (make i) = i then some (make i) else none

theorem fitting?_eq_some_iff {α : Type u} {make : Int → α} {value : α → Int} {i : Int} {w : α}
    (h : make (value w) = w) : fitting? make value i = some w ↔ value w = i := by
  rw [fitting?]
  constructor
  · intro hw
    split at hw
    · cases hw
      assumption
    · cases hw
  · rintro rfl
    rw [h, if_pos rfl]

/-! ## Sizes -/

/-- The signed 64-bit word of an integer that fits. -/
def int64? : Int → Option Int64 := fitting? Int64.ofInt Int64.toInt

/-- The unsigned 64-bit word of an integer that fits. -/
def uint64? : Int → Option UInt64 := fitting? (fun i => UInt64.ofNat i.toNat) fun w => w.toNat

/-- The unsigned 32-bit word of an integer that fits. -/
def uint32? : Int → Option UInt32 := fitting? (fun i => UInt32.ofNat i.toNat) fun w => w.toNat

/-- The byte of an integer that fits. -/
def uint8? : Int → Option UInt8 := fitting? (fun i => UInt8.ofNat i.toNat) fun w => w.toNat

theorem int64?_eq_some_iff {i : Int} {w : Int64} : int64? i = some w ↔ w.toInt = i :=
  fitting?_eq_some_iff w.ofInt_toInt

theorem uint64?_eq_some_iff {i : Int} {w : UInt64} : uint64? i = some w ↔ (w.toNat : Int) = i :=
  fitting?_eq_some_iff w.ofNat_toNat

theorem uint32?_eq_some_iff {i : Int} {w : UInt32} : uint32? i = some w ↔ (w.toNat : Int) = i :=
  fitting?_eq_some_iff w.ofNat_toNat

theorem uint8?_eq_some_iff {i : Int} {w : UInt8} : uint8? i = some w ↔ (w.toNat : Int) = i :=
  fitting?_eq_some_iff w.ofNat_toNat

end Chronicle.Word
