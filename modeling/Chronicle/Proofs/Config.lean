import Mathlib.Data.List.Count
import Chronicle.Config
import Chronicle.Proofs.Toml.Reading

/-!
# Configurations are read back from their text

A configuration can be written exactly if its capacity is an integer of the format, and it is read
back from what is written.  In a document the settings may stand in any order and be spelled in any
way; those that are left out are as in the default configuration.  What can be read from any
document at all can be written.

* `render_eq` : a text has one line for each setting;
* `ofStatements?_entries`, `parse_document` : lines that give some of the settings;
* `isWritable_of_parse` : the capacity of a configuration that is read;
* `parse_render` : reading and writing.
-/

namespace Chronicle.Config

open Toml

/-! ## Settings -/

/-- What a configuration settles. -/
inductive Key where
  | marker
  | logCapacity
  | clock
  | manualClockStart
  deriving DecidableEq

namespace Key

/-- The name of the setting in a document. -/
def name : Key → String
  | marker => "workspace_marker"
  | logCapacity => "log_capacity"
  | clock => "clock"
  | manualClockStart => "manual_clock_start"

/-- All settings, in the order in which they are written. -/
def all : List Key := [marker, logCapacity, clock, manualClockStart]

theorem isBareKey_name (k : Key) : IsBareKey k.name := by
  cases k <;> exact ⟨by decide, List.all_eq_true.1 rfl⟩

end Key

variable {c : Config} {keys : List Key}

/-- The value that a setting has in a document. -/
def value (c : Config) : Key → Toml.Value
  | .marker => .string c.marker
  | .logCapacity => .integer (Int64.ofInt c.logCapacity.toNat)
  | .clock => .string c.clock.name
  | .manualClockStart => .integer c.manualClockStart

/-- How the value is written. -/
def written (c : Config) : Key → List Char
  | .marker => Quoted.encode c.marker.toList
  | .logCapacity => Decimal.natChars c.logCapacity.toNat
  | .clock => Quoted.encode c.clock.name.toList
  | .manualClockStart => (Decimal.Numeral.ofInt c.manualClockStart.toInt).chars

/-- The document that has a line for each of these settings, with its value spelled so. -/
def document (keys : List Key) (spelled : Key → List Char) : String :=
  String.ofList (keys.flatMap fun k => entryLine k.name (spelled k))

/-- The default configuration with these settings as in `c`. -/
def only (c : Config) (keys : List Key) : Config where
  marker := if .marker ∈ keys then c.marker else default.marker
  logCapacity := if .logCapacity ∈ keys then c.logCapacity else default.logCapacity
  clock := if .clock ∈ keys then c.clock else default.clock
  manualClockStart :=
    if .manualClockStart ∈ keys then c.manualClockStart else default.manualClockStart

theorem only_all (c : Config) : c.only Key.all = c := rfl

/-! ## Capacities -/

/-- The capacity is an integer of the format. -/
def IsWritable (c : Config) : Prop := (c.logCapacity.toNat : Int) ≤ Int64.maxValue.toInt

instance : Decidable c.IsWritable :=
  inferInstanceAs (Decidable ((c.logCapacity.toNat : Int) ≤ Int64.maxValue.toInt))

/-- The integer that stands for a capacity. -/
theorem toInt_ofInt_logCapacity (h : c.IsWritable) :
    (Int64.ofInt c.logCapacity.toNat).toInt = c.logCapacity.toNat := by
  rw [IsWritable, Int64.toInt_maxValue] at h
  exact Int64.toInt_ofInt_of_le (by omega) (by omega)

theorem isSome_int64?_iff :
    (Word.int64? c.logCapacity.toNat).isSome = true ↔ c.IsWritable := by
  rw [Option.isSome_iff_exists]
  constructor
  · rintro ⟨i, hi⟩
    rw [Word.int64?_eq_some_iff] at hi
    rw [IsWritable, ← hi]
    exact i.toInt_le
  · intro h
    exact ⟨_, Word.int64?_eq_some_iff.2 (toInt_ofInt_logCapacity h)⟩

/-! ## Writing -/

theorem chars_eq (c : Config) :
    c.chars = Key.all.flatMap fun k => entryLine k.name (c.written k) := by
  rw [chars, List.append_assoc, List.append_assoc]
  show _ = _ ++ (_ ++ (_ ++ (_ ++ [])))
  rw [List.append_nil]
  rfl

/-- A text has one line for each setting. -/
theorem render_eq (h : c.IsWritable) : c.render = .ok (document Key.all c.written) := by
  rw [render, if_pos (isSome_int64?_iff.2 h), chars_eq]
  rfl

theorem exists_render_iff (c : Config) : (∃ text, c.render = .ok text) ↔ c.IsWritable := by
  constructor
  · rintro ⟨text, htext⟩
    rw [render] at htext
    split at htext
    · next h => exact isSome_int64?_iff.1 h
    · cases htext
  · intro h
    exact ⟨_, render_eq h⟩

/-- What is written for a setting is read as its value. -/
theorem writes_written (h : c.IsWritable) (k : Key) : Writes (c.written k) (c.value k) := by
  cases k with
  | marker => exact writes_encode c.marker
  | clock => exact writes_encode c.clock.name
  | manualClockStart => exact writes_integer c.manualClockStart
  | logCapacity =>
    have hchars : Decimal.natChars c.logCapacity.toNat
        = (Decimal.Numeral.ofInt (Int64.ofInt c.logCapacity.toNat).toInt).chars := by
      rw [toInt_ofInt_logCapacity h, Decimal.Numeral.chars_ofInt, if_neg (by omega)]
      rfl
    rw [written, hchars]
    exact writes_integer _

/-! ## Reading -/

/-- A setting as it stands in a document without headers. -/
def setting (c : Config) (k : Key) : Setting := ⟨[], [k.name], c.value k⟩

theorem ofStatements_entries (c : Config) (keys : List Key) :
    Setting.ofStatements [] (keys.map fun k => .entry [k.name] (c.value k))
      = keys.map c.setting := by
  induction keys with
  | nil => rfl
  | cons k keys ih =>
    rw [List.map_cons, Setting.ofStatements, ih]
    rfl

theorem headersOf_entries (c : Config) (keys : List Key) :
    headersOf (keys.map fun k => .entry [k.name] (c.value k)) = [] := by
  rw [headersOf, List.filterMap_map]
  exact List.filterMap_eq_nil_iff.2 fun _ _ => rfl

theorem isClock_setting (c : Config) (k : Key) : (c.setting k).isClock = (k == .clock) := by
  cases k <;> rfl

theorem path_setting (c : Config) (j k : Key) : ((c.setting j).path == [k.name]) = (j == k) := by
  cases j <;> cases k <;> rfl

/-- A setting that is given once is there once. -/
theorem filter_beq_of_nodup (h : keys.Nodup) (k : Key) :
    keys.filter (· == k) = if k ∈ keys then [k] else [] := by
  rw [List.filter_beq, h.count]
  split <;> rfl

/-- The settings about the clock. -/
theorem filter_isClock (h : keys.Nodup) :
    (keys.map c.setting).filter Setting.isClock
      = if .clock ∈ keys then [c.setting .clock] else [] := by
  have hkeys : keys.filter (Setting.isClock ∘ c.setting) = keys.filter (· == .clock) :=
    List.filter_congr fun k _ => isClock_setting c k
  rw [List.filter_map, hkeys, filter_beq_of_nodup h]
  split <;> rfl

/-- The values given to any other setting. -/
theorem valuesOf_settings (h : keys.Nodup) {k : Key} (hk : k ≠ .clock) :
    valuesOf k.name ((keys.map c.setting).filter (not ∘ Setting.isClock))
      = if k ∈ keys then [c.value k] else [] := by
  have hkeys : keys.filter ((fun s : Setting => s.path == [k.name] && (not ∘ Setting.isClock) s)
      ∘ c.setting) = keys.filter (· == k) := by
    refine List.filter_congr fun j _ => ?_
    show ((c.setting j).path == [k.name] && !(c.setting j).isClock) = (j == k)
    rw [path_setting, isClock_setting]
    revert hk
    cases j <;> cases k <;> decide
  rw [valuesOf, List.filter_filter, List.filter_map, hkeys, filter_beq_of_nodup h]
  split <;> rfl

theorem isSimple_of_not_isClock {s : Setting} (hs : s ∈ (keys.map c.setting).filter
    (not ∘ Setting.isClock)) : s.isSimple = true := by
  obtain ⟨hmem, hclock⟩ := List.mem_filter.1 hs
  obtain ⟨k, -, rfl⟩ := List.mem_map.1 hmem
  cases k with
  | clock => cases hclock
  | _ => rfl

theorem clock?_setting (c : Config) : clock? [] [c.setting .clock] = some c.clock := by
  obtain ⟨marker, capacity, clock, start⟩ := c
  cases clock <;> rfl

/-- Entries for some settings make the default configuration with these. -/
theorem ofStatements?_entries (hc : c.IsWritable) (h : keys.Nodup) :
    ofStatements? (keys.map fun k => .entry [k.name] (c.value k)) = some (c.only keys) := by
  have hmarker : marker? (if .marker ∈ keys then [c.value .marker] else [])
      = some (c.only keys).marker := by
    rw [only]
    split <;> rfl
  have hcapacity : logCapacity? (if .logCapacity ∈ keys then [c.value .logCapacity] else [])
      = some (c.only keys).logCapacity := by
    rw [only]
    split
    · exact Word.uint64?_eq_some_iff.2 (toInt_ofInt_logCapacity hc).symm
    · rfl
  have hclock : clock? [] (if .clock ∈ keys then [c.setting .clock] else [])
      = some (c.only keys).clock := by
    rw [only]
    split
    · exact clock?_setting c
    · rfl
  have hstart : manualClockStart?
      (if .manualClockStart ∈ keys then [c.value .manualClockStart] else [])
        = some (c.only keys).manualClockStart := by
    rw [only]
    split <;> rfl
  have hsimple : ((keys.map c.setting).filter (not ∘ Setting.isClock)).all Setting.isSimple = true :=
    List.all_eq_true.2 fun s => isSimple_of_not_isClock
  rw [← valuesOf_settings h (by decide)] at hmarker hcapacity hstart
  rw [← filter_isClock h] at hclock
  simp only [Key.name] at hmarker hcapacity hstart
  rw [ofStatements?, headersOf_entries, ofStatements_entries, List.partition_eq_filter_filter]
  dsimp only
  rw [hsimple, hmarker, hcapacity, hclock, hstart]
  rfl

/-- A document that gives some settings is read as the default configuration with these. -/
theorem parse_document (hc : c.IsWritable) (h : keys.Nodup) {spelled : Key → List Char}
    (hspelled : ∀ k ∈ keys, Writes (spelled k) (c.value k)) :
    parse (document keys spelled) = .ok (c.only keys) := by
  rw [parse, document, parse?_entryLines (fun k _ => k.isBareKey_name) hspelled, Option.bind_some,
    ofStatements?_entries hc h]

/-- What is read is an integer of the format, or the default. -/
theorem le_of_logCapacity? {values : List Toml.Value} {n : UInt64}
    (h : logCapacity? values = some n) : (n.toNat : Int) ≤ Int64.maxValue.toInt := by
  unfold logCapacity? at h
  split at h
  · cases h
    decide
  · next i =>
    rw [Word.uint64?_eq_some_iff.1 h]
    exact i.toInt_le
  · cases h

theorem isWritable_of_parse {text : String} (h : parse text = .ok c) : c.IsWritable := by
  rw [parse] at h
  split at h
  · next c' hread =>
    cases h
    obtain ⟨statements, -, hgiven⟩ := Option.bind_eq_some_iff.1 hread
    rw [ofStatements?] at hgiven
    dsimp only at hgiven
    split at hgiven
    · simp only [Option.bind_eq_bind, Option.bind_eq_some_iff] at hgiven
      obtain ⟨marker, -, capacity, hcapacity, clock, -, start, -, hc⟩ := hgiven
      cases hc
      exact le_of_logCapacity? hcapacity
    · cases hgiven
  · cases h

/-- **Configurations are read back from their text.**  A configuration is written exactly if its
capacity is an integer of the format, and what is written is read back.  A document may give some
of the settings only, in any order and with their values spelled in any way; it is read as the
default configuration with these.  And whatever is read, from any document, can be written and is
read back. -/
theorem parse_render :
    (∀ c : Config, (∃ text, c.render = .ok text)
        ↔ (c.logCapacity.toNat : Int) ≤ Int64.maxValue.toInt)
      ∧ (∀ (c : Config) (text : String), c.render = .ok text → parse text = .ok c)
      ∧ (∀ (c : Config) (keys : List Key) (spelled : Key → List Char), c.IsWritable →
          keys.Nodup → (∀ k ∈ keys, Writes (spelled k) (c.value k)) →
          parse (document keys spelled) = .ok (c.only keys))
      ∧ ∀ (doc : String) (c : Config), parse doc = .ok c →
          ∃ text, c.render = .ok text ∧ parse text = .ok c := by
  have hback : ∀ (c : Config) (text : String), c.render = .ok text → parse text = .ok c := by
    intro c text htext
    have hc := (exists_render_iff c).1 ⟨text, htext⟩
    rw [render_eq hc] at htext
    cases htext
    rw [parse_document hc (by decide) fun k _ => writes_written hc k, only_all]
  refine ⟨exists_render_iff, hback, fun c keys spelled hc h hspelled => parse_document hc h hspelled,
    fun doc c hread => ?_⟩
  obtain ⟨text, htext⟩ := (exists_render_iff c).2 (isWritable_of_parse hread)
  exact ⟨text, htext, hback c text htext⟩

/-- A marker with a quote, a backslash, a line feed and a control character, the greatest capacity
that can be written, and the earliest start. -/
def extreme : Config := ⟨"a\"b\\c\n\x7f", 0x7fffffffffffffff, .manual, Int64.minValue⟩

/-- A clock and a marker as literal strings. -/
def Key.literal : Key → List Char
  | .clock => "'manual'".toList
  | _ => "'a\"b'".toList

/-- The extreme configuration is written and read back, and with one more in its capacity it is not
written.  A document that gives two settings, as literal strings and in another order, is read as
the default with these; and so is what is then written. -/
theorem parse_render_extreme :
    (∃ text, extreme.render = .ok text ∧ parse text = .ok extreme)
      ∧ (¬∃ text, ({ extreme with logCapacity := 0x8000000000000000 } : Config).render = .ok text)
      ∧ parse "clock = 'manual'\nworkspace_marker = 'a\"b'\n" = .ok ⟨"a\"b", 16, .manual, 1⟩
      ∧ ∃ text, (⟨"a\"b", 16, .manual, 1⟩ : Config).render = .ok text
        ∧ parse text = .ok ⟨"a\"b", 16, .manual, 1⟩ := by
  obtain ⟨hwritten, hback, hgiven, hread⟩ := parse_render
  have hliteral : parse "clock = 'manual'\nworkspace_marker = 'a\"b'\n"
      = .ok ⟨"a\"b", 16, .manual, 1⟩ := by
    refine hgiven ⟨"a\"b", 16, .manual, 1⟩ [.clock, .marker] Key.literal (by decide) (by decide) ?_
    intro k hk fuel rest
    simp only [List.mem_cons, List.not_mem_nil, or_false] at hk
    rcases hk with rfl | rfl <;> rfl
  refine ⟨?_, ?_, hliteral, hread _ _ hliteral⟩
  · obtain ⟨text, htext⟩ := (hwritten extreme).2 (by decide)
    exact ⟨text, htext, hback extreme text htext⟩
  · rw [hwritten]
    decide

end Chronicle.Config
