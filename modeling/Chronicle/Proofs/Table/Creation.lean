import Chronicle.Proofs.Session.Steps

/-!
# Finding and creating elements

An element is asked for by a text.  The empty text is refused.  Any other is an id; the element that
stands under it is handed out as it is, and if there is none, one is created with two records at one
time, given or else read off the clock, that say that it is there and what its label is.

* `Table.get?_eq` : what stands under a text;
* `Table.getOrCreate_of_empty`, `Table.getOrCreate_hit`, `Table.getOrCreate_miss` : the three things
  that can come of asking;
* `Table.takesIn_newborn` : a new element takes in two records at one time.
-/

namespace Chronicle

namespace ElementId

theorem ofString_of_ne {text : String} (h : text ≠ "") : ofString text = .ok ⟨text, h⟩ := dif_neg h

@[simp] theorem ofString_text (id : ElementId) : ofString id.text = .ok id :=
  ofString_of_ne id.nonempty

theorem text_injective {a b : ElementId} (h : a.text = b.text) : a = b := by
  cases a
  cases b
  cases h
  rfl

end ElementId

/-- The two records that every element starts with. -/
def Pending.birth (v : Visibility) (ts : Option Timestamp) : Pending :=
  ⟨ts, fun t => [.elementTimestamp t, .alterVisibility t v]⟩

/-- A new element takes in two records at one time. -/
theorem Table.takesIn_newborn (g : Engine) (id : ElementId) (kind : ElementKind) (v : Visibility)
    (ts : Option Timestamp) :
    (⟨g, ⟨id, kind, .empty⟩⟩ : Session).TakesIn (.birth v ts) (newborn g id kind v ts) where
  element := by
    rw [newborn, Engine.stamp_eq]
    rfl
  clock := by
    rw [newborn, Engine.stamp_eq]
    rfl

/-- The creation of an element is counted as one batch, on the engine whose clock was read for it if
need be. -/
theorem Table.engine_newborn (g : Engine) (id : ElementId) (kind : ElementKind) (v : Visibility)
    (ts : Option Timestamp) :
    (newborn g id kind v ts).engine
      = { g with clock := (g.clock.stamp ts).2 }.note (.appended 2) := by
  rw [newborn, Engine.stamp_eq]
  rfl

/-- The log of a new element. -/
theorem Table.entries_newborn (g : Engine) (id : ElementId) (kind : ElementKind) (v : Visibility)
    (ts : Option Timestamp) :
    (newborn g id kind v ts).element.log.entries
      = [.elementTimestamp (g.clock.stamp ts).1, .alterVisibility (g.clock.stamp ts).1 v] := by
  rw [(takesIn_newborn g id kind v ts).element]
  show Log.entries (Log.extend .empty [_, _]) = _
  rw [Log.extend_cons, Log.extend_cons, Log.extend_nil, Log.entries_insert, Log.entries_insert,
    Log.entries_empty, Log.place, Log.place]
  exact if_pos (Int64.le_refl _)

namespace Table

variable (t : Table) (kind : ElementKind) (v : Visibility) (ts : Option Timestamp)

@[simp] theorem get?_empty_text : t.get? "" = none := rfl

@[simp] theorem get?_text (id : ElementId) : t.get? id.text = t.elements.get? id := by
  rw [get?, ElementId.ofString_text]

/-- What a text stands for if it is not empty. -/
theorem get?_of_ne {id : String} (h : id ≠ "") : t.get? id = t.elements.get? ⟨id, h⟩ := by
  rw [get?, ElementId.ofString_of_ne h]

/-- The empty text is refused. -/
theorem getOrCreate_of_empty : t.getOrCreate "" kind v ts = .error .emptyElementId := rfl

/-- The element that is there is handed out. -/
theorem getOrCreate_hit {id : ElementId} {e : Element} (h : t.elements.get? id = some e) :
    t.getOrCreate id.text kind v ts = .ok (e, t) := by
  simp only [getOrCreate, ElementId.ofString_text, bind, Except.bind, h]
  rfl

/-- An element that is not there is created and handed out. -/
theorem getOrCreate_miss {id : ElementId} (h : t.elements.get? id = none) :
    t.getOrCreate id.text kind v ts
      = .ok ((newborn t.engine id kind v ts).element,
          t.commit { newborn t.engine id kind v ts with
            engine := (newborn t.engine id kind v ts).engine.note .elementCreated }) := by
  simp only [getOrCreate, ElementId.ofString_text, bind, Except.bind, h]
  rfl

/-- Whoever asks for an element with an id is handed one. -/
theorem exists_getOrCreate {id : String} (h : id ≠ "") :
    ∃ e t', t.getOrCreate id kind v ts = .ok (e, t') := by
  cases hget : t.elements.get? ⟨id, h⟩ with
  | some e => exact ⟨e, t, t.getOrCreate_hit kind v ts hget⟩
  | none => exact ⟨_, _, t.getOrCreate_miss kind v ts hget⟩

end Table

end Chronicle
