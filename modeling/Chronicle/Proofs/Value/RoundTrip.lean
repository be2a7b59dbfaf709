import Chronicle.Value.Codec
import Chronicle.Proofs.Json.Records

/-!
# Values and metadata are read back

Each type of value has its own tag, so a value is read back with its type.  The one exception are
doubles, whose text is a decimal that is rounded when it is read.

* `PropValue.faithful` : values, two levels deep;
* `Metadata.faithful` : metadata, four levels deep.
-/

namespace Chronicle

open Json

/-! ## Values -/

theorem ValueRef.faithful (depth : Nat) (r : ValueRef) :
    Faithful ValueRef.toJson ValueRef.ofJson? (depth + 1) r := by
  have hid := faithful_uint64 depth r.id
  have hlen := faithful_uint32 depth r.len
  have hchecksum := faithful_uint32 depth r.checksum
  constructor
  · refine isSound_object fun m hm => ?_
    simp only [List.mem_cons, List.not_mem_nil, or_false] at hm
    rcases hm with rfl | rfl | rfl | rfl
    · exact hid.sound
    · exact hlen.sound
    · exact hchecksum.sound
    · rfl
  · have hfields : r.toJson.fields? fieldNames .ignored = some [some (.ofInt r.id.toNat),
        some (.ofInt r.len.toNat), some (.ofInt r.checksum.toNat), some (.bool r.text)] :=
      memberFields?_zip [.ofInt r.id.toNat, .ofInt r.len.toNat, .ofInt r.checksum.toNat,
        .bool r.text] (by decide) rfl .ignored
    rw [ofJson?, hfields]
    dsimp only
    rw [hid.read_write, hlen.read_write, hchecksum.read_write]
    rfl

namespace PropValue

/-- Whether the value is a double. -/
def isFloat : PropValue → Bool
  | .float _ => true
  | _ => false

/-- What is written under a tag is read under it. -/
theorem ofJson?_tagged (isNothing : Json → Bool) (type : String) (j : Json) :
    ofJson? isNothing (.object [(type, j)]) = ofTagged? isNothing type j := rfl

/-- A value that is no double is read back. -/
theorem faithful {v : PropValue} (h : v.isFloat = false) (isNothing : Json → Bool) (depth : Nat) :
    Faithful toJson (ofJson? isNothing) (depth + 2) v := by
  have hnumber : ∀ (i : Int64) (tag : String) (make : Int64 → PropValue),
      (make i).toJson = .object [(tag, .ofInt i.toInt)] →
      (∀ j, ofTagged? isNothing tag j = j.int64?.map make) →
      Faithful toJson (ofJson? isNothing) (depth + 2) (make i) := by
    intro i tag make hwrite hread
    have hi := faithful_int64 (depth + 1) i
    constructor
    · rw [hwrite]
      exact isSound_tagged hi.sound
    · rw [hwrite, ofJson?_tagged, hread, hi.read_write, Option.map_some]
  cases v with
  | null => exact ⟨rfl, rfl⟩
  | bool b => exact ⟨isSound_tagged rfl, rfl⟩
  | int i => exact hnumber i "int" .int rfl fun _ => rfl
  | float x => cases h
  | str s => exact ⟨isSound_tagged rfl, rfl⟩
  | bytes b =>
    have hb := faithful_array fun n (_ : n ∈ b) => faithful_uint8 depth n
    refine ⟨isSound_tagged hb.sound, ?_⟩
    show (bytesOfJson? _).map PropValue.bytes = _
    rw [bytesOfJson?, hb.read_write, Option.map_some]
  | date d => exact hnumber d "date" .date rfl fun _ => rfl
  | dateTime t => exact hnumber t "date_time" .dateTime rfl fun _ => rfl
  | ref r =>
    have hr := ValueRef.faithful depth r
    refine ⟨isSound_tagged hr.sound, ?_⟩
    show (ValueRef.ofJson? r.toJson).map PropValue.ref = _
    rw [hr.read_write, Option.map_some]

end PropValue

/-! ## Metadata -/

theorem MetadataEntry.faithful {e : MetadataEntry} (h : e.value.isFloat = false)
    (isNothing : Json → Bool) (depth : Nat) :
    Faithful MetadataEntry.toJson (MetadataEntry.ofJson? isNothing) (depth + 3) e := by
  have hvalue := PropValue.faithful h isNothing depth
  constructor
  · refine isSound_object fun m hm => ?_
    simp only [List.mem_cons, List.not_mem_nil, or_false] at hm
    rcases hm with rfl | rfl
    · exact hvalue.sound
    · rfl
  · have hfields : e.toJson.fields? fieldNames .ignored
        = some [some e.value.toJson, some (.string e.visibility.label)] :=
      memberFields?_zip [e.value.toJson, .string e.visibility.label] (by decide) rfl .ignored
    rw [ofJson?, hfields]
    dsimp only
    rw [hvalue.read_write]
    rfl

namespace Metadata

/-- The values of the entries. -/
def payloads (m : Metadata) : List PropValue := m.values.map (·.value)

/-- Metadata without doubles is read back. -/
theorem faithful {m : Metadata} (h : ∀ v ∈ m.payloads, v.isFloat = false)
    (isNothing : Json → Bool) (depth : Nat) :
    Faithful Metadata.toJson (Metadata.ofJson? isNothing) (depth + 4) m := by
  have hentry : ∀ e ∈ m.entries,
      Faithful MetadataEntry.toJson (MetadataEntry.ofJson? isNothing) (depth + 3) e.2 :=
    fun e he => MetadataEntry.faithful
      (h e.2.value (List.mem_map_of_mem (List.mem_map_of_mem he))) isNothing depth
  constructor
  · refine isSound_object fun member hmember => ?_
    obtain ⟨e, he, rfl⟩ := List.mem_map.1 hmember
    exact (hentry e he).sound
  · have hentries : (m.entries.map fun e => (e.1, e.2.toJson)).mapM (fun member =>
        (MetadataEntry.ofJson? isNothing member.2).map fun e => (member.1, e))
        = some m.entries := by
      refine mapM_map_eq_some fun e he => ?_
      rw [(hentry e he).read_write, Option.map_some]
    rw [toJson, ofJson?, hentries]
    exact congrArg some (OrderedMap.ofList_entries m)

end Metadata

end Chronicle
