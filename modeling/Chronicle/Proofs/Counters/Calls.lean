import Chronicle.Proofs.Deletion

/-!
# What a call on an element counts

Whoever holds an element writes to it, deletes properties of it and reads it, and each call is
counted where its answer is known: an append if it adds something, a deletion if it finds something,
a history if it can be read, a finished element if one is made.  What is counted is kept apart from
what is in the log.  Still each call moves both together, so that what was appended less what was
removed goes up and down with the length of the log.

* `Answer` : what a call answers, and what is counted for the answer;
* `Counters.Books` : the counters and the number of records before and after a call;
* `ElementCall.accounts_on` : each call on an element keeps the books.
-/

namespace Chronicle

/-! ## Answers -/

/-- What a call answers. -/
inductive Answer : Type 1 where
  /-- The element that was asked for, and whether it was registered to be handed out. -/
  | handed (outcome : Except Error Element) (isNew : Bool)
  /-- An element that no table has. -/
  | created (outcome : Except Error Element)
  /-- The element that was dropped from a table. -/
  | dropped (element : Option Element)
  /-- The size of the batch that was appended. -/
  | appended (count : Nat)
  /-- One record was written. -/
  | written
  /-- One record was written, and the property as it was before. -/
  | edited (before : Except Error (Option Property))
  /-- The property that was deleted. -/
  | deleted (outcome : Except Error (Option Property))
  /-- How many properties there are, and those that were taken. -/
  | listed (count : Nat) (results : List (Except Error Property))
  | found (result : Except Error (Option Property))
  | reported (result : Except Error (List Property))
  | stated (result : Except Error ElementState)
  | told (history : Except Error (List HistoryEntry))
  /-- The finished element. -/
  | made {α : Type} (result : Except Error (Option α))
  /-- There was nothing to call, or nothing to say. -/
  | silent

namespace Answer

/-- Whether an element was registered. -/
def registers : Answer → Bool
  | handed (.ok _) isNew => isNew
  | _ => false

/-- Whether an element came into being, in a table or not. -/
def creates : Answer → Bool
  | handed (.ok _) isNew => isNew
  | created (.ok _) => true
  | _ => false

/-- Whether something was appended to a log. -/
def appends : Answer → Bool
  | handed (.ok _) isNew => isNew
  | appended count => decide (0 < count)
  | written | edited (.ok _) => true
  | _ => false

/-- Whether a history was read. -/
def tells : Answer → Bool
  | told (.ok _) => true
  | _ => false

/-- How many entries the history has that was read. -/
def entries : Answer → Nat
  | told (.ok es) => es.length
  | _ => 0

/-- Whether a finished element was returned. -/
def makes : Answer → Bool
  | made (.ok (some _)) => true
  | _ => false

/-- Whether the answer says neither that something was added, nor that something was taken away, nor
that a history or an element was read.  Every failure is of this kind, and so is every answer of a
call that found or added nothing. -/
def isIdle : Answer → Bool
  | handed (.ok _) true | appended (_ + 1) | written | edited (.ok _) => false
  | deleted (.ok (some _)) | told (.ok _) | made (.ok (some _)) => false
  | _ => true

/-- For an idle answer nothing is counted. -/
theorem counts_nothing_of_isIdle {a : Answer} (ha : a.isIdle = true) :
    a.registers = false ∧ a.appends = false ∧ a.tells = false ∧ a.entries = 0
      ∧ a.makes = false := by
  cases a with
  | handed outcome isNew =>
    rcases outcome with cause | e
    · exact ⟨rfl, rfl, rfl, rfl, rfl⟩
    · cases isNew with
      | false => exact ⟨rfl, rfl, rfl, rfl, rfl⟩
      | true => cases ha
  | appended count =>
    rcases count with _ | count
    · exact ⟨rfl, rfl, rfl, rfl, rfl⟩
    · cases ha
  | written => cases ha
  | edited before =>
    rcases before with cause | p
    · exact ⟨rfl, rfl, rfl, rfl, rfl⟩
    · cases ha
  | told history =>
    rcases history with cause | es
    · exact ⟨rfl, rfl, rfl, rfl, rfl⟩
    · cases ha
  | made result =>
    rcases result with cause | _ | e
    · exact ⟨rfl, rfl, rfl, rfl, rfl⟩
    · exact ⟨rfl, rfl, rfl, rfl, rfl⟩
    · cases ha
  | _ => exact ⟨rfl, rfl, rfl, rfl, rfl⟩

end Answer

/-! ## Books -/

namespace Counters

/-- Nothing but folds of properties was counted. -/
def OnlyFolds (c c' : Counters) : Prop :=
  ∃ present absent, c' = { c with propertiesPresent := present, propertiesAbsent := absent }

/-- What the counters say before and after a call with the answer `a`, of logs that have `before`
records before and `after` records after it. -/
structure Books (a : Answer) (before after : Nat) (c c' : Counters) : Prop where
  /-- What was appended less what was removed goes up and down with the number of records. -/
  balance : c'.mutationsAppended + c.mutationsRemoved + before
    = c.mutationsAppended + c'.mutationsRemoved + after
  elementsCreated : c'.elementsCreated = c.elementsCreated + if a.registers then 1 else 0
  appendCalls : c'.appendCalls = c.appendCalls + if a.appends then 1 else 0
  historyReads : c'.historyReads = c.historyReads + if a.tells then 1 else 0
  historyEntries : c'.historyEntries = c.historyEntries + a.entries
  elementsMaterialized : c'.elementsMaterialized = c.elementsMaterialized + if a.makes then 1 else 0
  idle : a.isIdle = true → c.OnlyFolds c'

variable {c c' : Counters} {a : Answer}

theorem OnlyFolds.refl (c : Counters) : c.OnlyFolds c := ⟨_, _, rfl⟩

theorem OnlyFolds.trans {c'' : Counters} (h : c.OnlyFolds c') (h' : c'.OnlyFolds c'') :
    c.OnlyFolds c'' := by
  obtain ⟨present, absent, rfl⟩ := h
  obtain ⟨present', absent', rfl⟩ := h'
  exact ⟨present', absent', rfl⟩

/-- For an idle answer nothing is counted, by any of the predicates. -/
theorem Books.of_onlyFolds (n : Nat) (ha : a.isIdle = true) (h : c.OnlyFolds c') :
    Books a n n c c' := by
  obtain ⟨hregisters, happends, htells, hentries, hmakes⟩ := Answer.counts_nothing_of_isIdle ha
  obtain ⟨present, absent, rfl⟩ := h
  constructor
  · rfl
  · simp [hregisters]
  · simp [happends]
  · simp [htells]
  · simp [hentries]
  · simp [hmakes]
  · intro _
    exact ⟨present, absent, rfl⟩

/-- Folds may be counted before a call. -/
theorem Books.of_folds_first {before after : Nat} {c'' : Counters} (h : c.OnlyFolds c')
    (h' : Books a before after c' c'') : Books a before after c c'' := by
  obtain ⟨present, absent, rfl⟩ := h
  obtain ⟨balance, created, appends, reads, entries, made, idle⟩ := h'
  refine ⟨balance, created, appends, reads, entries, made, fun ha => ?_⟩
  obtain ⟨present', absent', rfl⟩ := idle ha
  exact ⟨present', absent', rfl⟩

/-- A batch that is appended is booked, unless it is empty. -/
theorem books_appended (c : Counters) (n count : Nat) :
    Books (.appended count) n (n + count) c
      (if 0 < count then c.record (.appended count) else c) := by
  rcases Nat.eq_zero_or_pos count with rfl | hpos
  · rw [if_neg (Nat.lt_irrefl 0)]
    exact .of_onlyFolds n rfl (.refl c)
  · rw [if_pos hpos]
    obtain ⟨k, rfl⟩ : ∃ k, count = k + 1 := ⟨count - 1, by omega⟩
    constructor
    · show c.mutationsAppended + (k + 1) + c.mutationsRemoved + n
        = c.mutationsAppended + c.mutationsRemoved + (n + (k + 1))
      omega
    all_goals first | rfl | (intro hidle; cases hidle)

/-- One record that is written is booked as one append. -/
theorem books_one (c : Counters) (n : Nat) (ha : a = .written ∨ ∃ p, a = .edited (.ok p)) :
    Books a n (n + 1) c (c.record (.appended 1)) := by
  have hbalance : c.mutationsAppended + 1 + c.mutationsRemoved + n
      = c.mutationsAppended + c.mutationsRemoved + (n + 1) := by omega
  rcases ha with rfl | ⟨p, rfl⟩
  · exact ⟨hbalance, rfl, rfl, rfl, rfl, rfl, fun hidle => by cases hidle⟩
  · exact ⟨hbalance, rfl, rfl, rfl, rfl, rfl, fun hidle => by cases hidle⟩

/-- Records that are removed are booked. -/
theorem books_removed (c : Counters) {before after : Nat} (h : after ≤ before) (p : Property) :
    Books (.deleted (.ok (some p))) before after c (c.record (.removed (before - after))) := by
  refine ⟨?_, rfl, rfl, rfl, rfl, rfl, fun hidle => by cases hidle⟩
  show c.mutationsAppended + c.mutationsRemoved + before
    = c.mutationsAppended + (c.mutationsRemoved + (before - after)) + after
  omega

end Counters

/-! ## Calls -/

/-- What the holder of an element does with it. -/
inductive ElementCall : Type 1 where
  | append (batch : List Mutation)
  /-- A record that is made for the given time or a reading of the clock: any of the writes that
  answer nothing. -/
  | write (ts : Option Timestamp) (make : Timestamp → Mutation)
  | hideProperty (i : PropertyIdentity) (label : Visibility) (ts : Option Timestamp)
    (reader : Reader)
  | unhideProperty (i : PropertyIdentity) (label : Visibility) (ts : Option Timestamp)
    (reader : Reader)
  | deleteProperty (f : PropertyFilter) (reader : Reader)
  | properties (v : View) (taken : Option Nat)
  | property (v : View) (i : PropertyIdentity)
  | allProperties (v : View)
  | state (v : View)
  | history (f : PropertyFilter) (range : TimeRange) (reader : Reader)
  | materialize {α : Type} (m : Materializer α) (v : View)

/-- The answer to the call, and the session after it. -/
def ElementCall.on (s : Session) : ElementCall → Answer × Session
  | append batch => (.appended (s.append batch).1, (s.append batch).2)
  | write ts make => (.written, s.write ts make)
  | hideProperty i label ts reader =>
    (.edited (s.hideProperty i label ts reader).1, (s.hideProperty i label ts reader).2)
  | unhideProperty i label ts reader =>
    (.edited (s.unhideProperty i label ts reader).1, (s.unhideProperty i label ts reader).2)
  | deleteProperty f reader =>
    (.deleted (s.deleteProperty f reader).1, (s.deleteProperty f reader).2)
  | properties v taken =>
    (.listed (s.properties v taken).1 (s.properties v taken).2.1, (s.properties v taken).2.2)
  | property v i => (.found (s.property v i).1, (s.property v i).2)
  | allProperties v => (.reported (s.allProperties v).1, (s.allProperties v).2)
  | state v => (.stated (s.state v).1, (s.state v).2)
  | history f range reader => (.told (s.history f range reader).1, (s.history f range reader).2)
  | materialize m v => (.made (s.materialize m v).1, (s.materialize m v).2)

namespace Session

open Counters

variable {s s' : Session} {a : Answer} {c : Counters}

/-- A call that answered `a` left the element under its id and kept the books. -/
def Accounts (s : Session) (a : Answer) (s' : Session) : Prop :=
  s'.element.id = s.element.id ∧ ∀ c, s.engine.counters = some c →
    ∃ c', s'.engine.counters = some c' ∧ Books a s.element.log.length s'.element.log.length c c'

/-- Nothing but folds was counted, and the element is as it was. -/
structure Folds (s s' : Session) : Prop where
  element : s'.element = s.element
  counters : ∀ c, s.engine.counters = some c → ∃ c', s'.engine.counters = some c' ∧ c.OnlyFolds c'

/-- Counting folds does not count anything else. -/
theorem onlyFolds_foldl (c : Counters) (folds : List Bool) :
    c.OnlyFolds ((folds.map Event.folded).foldl Counters.record c) := by
  induction folds generalizing c with
  | nil => exact .refl c
  | cons present rest ih =>
    rw [List.map_cons, List.foldl_cons]
    have hone : c.OnlyFolds (c.record (.folded present)) := by
      cases present with
      | true => exact ⟨_, _, rfl⟩
      | false => exact ⟨_, _, rfl⟩
    exact hone.trans (ih _)

theorem folds_noteFolds (s : Session) (v : View) (f : PropertyFilter) :
    s.Folds (s.noteFolds v f) where
  element := rfl
  counters c hc := by
    have hevents : ((s.element.log.foldEach v f).map fun p => Event.folded p.isSome)
        = ((s.element.log.foldEach v f).map Option.isSome).map Event.folded := by
      rw [List.map_map]
      rfl
    refine ⟨_, ?_, onlyFolds_foldl c ((s.element.log.foldEach v f).map Option.isSome)⟩
    rw [noteFolds, Engine.noteAll_eq, hc, hevents]
    rfl

/-- What is loaded is counted elsewhere. -/
theorem folds_allProperties (s : Session) (v : View) : s.Folds (s.allProperties v).2 :=
  ⟨rfl, (s.folds_noteFolds v .any).counters⟩

/-- An idle call that only folded keeps the books. -/
theorem Folds.accounts (h : s.Folds s') (ha : a.isIdle = true) : s.Accounts a s' := by
  refine ⟨by rw [h.element], fun c hc => ?_⟩
  obtain ⟨c', hc', hfolds⟩ := h.counters c hc
  rw [h.element]
  exact ⟨c', hc', .of_onlyFolds _ ha hfolds⟩

/-- A call may fold before it does anything else. -/
theorem Folds.then_accounts {s'' : Session} (h : s.Folds s') (h' : s'.Accounts a s'') :
    s.Accounts a s'' := by
  obtain ⟨hid, hbooks⟩ := h'
  rw [h.element] at hid hbooks
  refine ⟨hid, fun c hc => ?_⟩
  obtain ⟨c', hc', hfolds⟩ := h.counters c hc
  obtain ⟨c'', hc'', hbooks⟩ := hbooks c' hc'
  exact ⟨c'', hc'', hbooks.of_folds_first hfolds⟩

/-- An append keeps the books. -/
theorem accounts_append (s : Session) (batch : List Mutation) :
    s.Accounts (.appended (s.append batch).1) (s.append batch).2 := by
  refine ⟨rfl, fun c hc => ?_⟩
  refine ⟨if 0 < batch.length then c.record (.appended batch.length) else c, ?_, ?_⟩
  · show (if 0 < batch.length then s.engine.note (.appended batch.length) else s.engine).counters
      = some _
    split
    · rw [Engine.note, hc]
      rfl
    · exact hc
  · show Books (.appended batch.length) _ (s.element.log.extend batch).length c _
    rw [Log.length_extend]
    exact books_appended c _ _

/-- A record that is written keeps the books, with or without an answer. -/
theorem accounts_write (s : Session) (ts : Option Timestamp) (make : Timestamp → Mutation)
    (ha : a = .written ∨ ∃ p, a = .edited (.ok p)) : s.Accounts a (s.write ts make) := by
  have htakes := s.takesIn_write ts make
  refine ⟨htakes.id_eq, fun c hc => ⟨c.record (.appended 1), ?_, ?_⟩⟩
  · rw [write, Engine.stamp_eq]
    show s.engine.counters.map _ = _
    rw [hc]
    rfl
  · rw [htakes.element]
    show Books a _ (Log.extend _ [make _]).length c _
    rw [Log.length_extend]
    exact books_one c _ ha

/-- An edit looks at the property, and then writes one record. -/
theorem accounts_editAfterPeek (s : Session) (i : PropertyIdentity) (e : PropertyEdit)
    (ts : Option Timestamp) (reader : Reader) :
    s.Accounts (.edited (s.editAfterPeek i e ts reader).1) (s.editAfterPeek i e ts reader).2 := by
  rw [editAfterPeek, peek, Log.firstStored_eq]
  exact (s.folds_noteFolds _ _).then_accounts (accounts_write _ ts _ (Or.inr ⟨_, rfl⟩))

/-- A deletion that finds nothing has only folded, and any other has removed what it purged. -/
theorem accounts_deleteProperty (s : Session) (f : PropertyFilter) (reader : Reader) :
    s.Accounts (.deleted (s.deleteProperty f reader).1) (s.deleteProperty f reader).2 := by
  have hfolds := s.folds_noteFolds ⟨.allIncludingHidden, none, reader⟩ f
  rcases s.deleteProperty_cases f reader with ⟨-, heq⟩ | ⟨p, -, heq⟩
  · rw [heq]
    exact hfolds.accounts rfl
  · rw [heq]
    refine hfolds.then_accounts ⟨rfl, fun c hc => ⟨_, ?_, books_removed c ?_ p⟩⟩
    · show Option.map _ (s.noteFolds _ f).engine.counters = _
      rw [hc]
      rfl
    · exact List.length_filter_le _ _

/-- A history that can be read is counted with its entries, and one that fails is not. -/
theorem accounts_history (s : Session) (f : PropertyFilter) (range : TimeRange) (reader : Reader) :
    s.Accounts (.told (s.history f range reader).1) (s.history f range reader).2 := by
  rw [history]
  split
  · next entries _ =>
    refine ⟨rfl, fun c hc => ⟨c.record (.historyRead entries.length), ?_, ?_⟩⟩
    · show s.engine.counters.map _ = _
      rw [hc]
      rfl
    · refine ⟨?_, rfl, rfl, rfl, rfl, rfl, fun hidle => by cases hidle⟩
      show c.mutationsAppended + c.mutationsRemoved + _ = _
      rfl
  · exact Folds.accounts ⟨rfl, fun c hc => ⟨c, hc, .refl c⟩⟩ rfl

/-- An element that is made is counted; one that is not there, or fails, is not. -/
theorem accounts_materialize {α : Type} (s : Session) (m : Materializer α) (v : View) :
    s.Accounts (.made (s.materialize m v).1) (s.materialize m v).2 := by
  unfold materialize
  split
  · have hfolds := s.folds_allProperties v
    split
    · next b _ =>
      refine hfolds.then_accounts ⟨rfl, fun c hc => ⟨c.record .materialized, ?_, ?_⟩⟩
      · show Option.map _ (s.allProperties v).2.engine.counters = _
        rw [hc]
        rfl
      · exact ⟨rfl, rfl, rfl, rfl, rfl, rfl, fun hidle => by cases hidle⟩
    · next hnot =>
      -- what is not an element is a failure, or nothing
      refine hfolds.accounts ?_
      cases hmade : s.element.materialize m v s.engine.loader.load with
      | error e => rfl
      | ok o =>
        cases o with
        | none => rfl
        | some b => exact absurd hmade (hnot b)
  · exact Folds.accounts ⟨rfl, fun c hc => ⟨c, hc, .refl c⟩⟩ rfl

end Session

/-- **Each call on an element keeps the books.** -/
theorem ElementCall.accounts_on (call : ElementCall) (s : Session) :
    s.Accounts (call.on s).1 (call.on s).2 := by
  cases call with
  | append batch => exact s.accounts_append batch
  | write ts make => exact s.accounts_write ts make (Or.inl rfl)
  | hideProperty i label ts reader => exact s.accounts_editAfterPeek i (.hide label) ts reader
  | unhideProperty i label ts reader => exact s.accounts_editAfterPeek i (.unhide label) ts reader
  | deleteProperty f reader => exact s.accounts_deleteProperty f reader
  | properties v taken =>
    exact Session.Folds.accounts ⟨rfl, (s.folds_noteFolds v .any).counters⟩ rfl
  | property v i =>
    exact Session.Folds.accounts ⟨rfl, (s.folds_noteFolds v (.only i)).counters⟩ rfl
  | allProperties v => exact (s.folds_allProperties v).accounts rfl
  | state v => exact (s.folds_allProperties v).accounts rfl
  | history f range reader => exact s.accounts_history f range reader
  | materialize m v => exact s.accounts_materialize m v

end Chronicle
