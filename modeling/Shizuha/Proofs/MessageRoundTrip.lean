import Shizuha.Proofs.StoreFrame

/-!
# What a message comes back as

A row keeps a message's text and the JSON of its blocks in one column, and
reading it decides between the two by what the text looks like. Blocks always
come back: their text is the JSON of an array. A text comes back when it is no
such JSON and when UTF-8 can carry it; `Faithful` says that, and of the two id
columns what is left to say. It is exactly the condition, for a message
appended and for a whole session rewritten.
-/

namespace Shizuha.State

open Js Agent

/-- The messages the store is given: a time, ids that are not the empty
string, and JSON values the language can hold. -/
structure Storable (m : Agent.Message Json) (timestamp : Double) : Prop where
  timestamp : m.timestamp = some timestamp
  id : m.id ≠ some []
  executionId : m.executionId ≠ some []
  blocks : ∀ bs, m.content = .blocks bs → ∀ b ∈ bs, b.Representable
  event : ∀ e, m.operationalEvent = some e → truthy e = true ∧ e.Representable

/-- Nothing in the message is taken for something else on the way back. -/
structure Faithful (m : Agent.Message Json) : Prop where
  id : ∀ t, m.id = some t → WellFormed t
  executionId : ∀ t, m.executionId = some t → WellFormed t
  text : ∀ t, m.content = .text t → WellFormed t
  notArray : ∀ t, m.content = .text t → ∀ items, Json.parse t ≠ some (.arr items)

/-! ## Column by column -/

theorem boundText_print (v : Json) : boundText v.print = v.print := wellFormed_print v

theorem bound_id_iff {id : Option Text} (h : id ≠ some []) :
    (id.map boundText).filter (· ≠ []) = id ↔ ∀ t, id = some t → WellFormed t := by
  cases id with
  | none => simp
  | some t =>
      have ht : t ≠ [] := fun heq => h (congrArg some heq)
      constructor
      · intro heq t' ht'
        cases ht'
        rw [Option.map_some, Option.filter_some] at heq
        split_ifs at heq
        exact Option.some.inj heq
      · intro hwf
        have hbound : boundText t = t := hwf t rfl
        simp [hbound, ht]

theorem decodeEvent_eventText {event : Option Json}
    (h : ∀ e, event = some e → truthy e = true ∧ e.Representable) :
    decodeEvent ((eventText event).map boundText) = event := by
  cases event with
  | none => rfl
  | some e =>
      obtain ⟨htruthy, hrep⟩ := h e rfl
      have htext : eventText (some e) = some e.print := by simp [eventText, htruthy]
      obtain ⟨u, s, hprint, -⟩ := head_print e
      have hne : e.print ≠ [] := by rw [hprint]; exact List.cons_ne_nil u s
      rw [htext, Option.map_some, boundText_print, decodeEvent,
        Option.filter_some_pos (by simpa using hne), Option.bind_some, hrep.parse_print,
        Option.filter_some_pos htruthy]

theorem decodeContent_blocks {bs : List Json} (h : ∀ b ∈ bs, b.Representable) :
    decodeContent (boundText (contentText (.blocks bs))) = .blocks bs := by
  rw [contentText, boundText_print, decodeContent, (representable_arr h).parse_print]

theorem decodeContent_eq_text_iff {t t' : Text} :
    decodeContent t' = .text t ↔ t' = t ∧ ∀ items, Json.parse t' ≠ some (.arr items) := by
  rw [decodeContent]
  split
  · next items hparse => simp [hparse]
  · next hnot => simpa using fun _ => hnot

/-! ## The message as a whole -/

variable {m : Agent.Message Json} {timestamp : Double} {sessionId : Text}

theorem decodeContent_iff (h : Storable m timestamp) :
    decodeContent (boundText (contentText m.content)) = m.content ↔
      (∀ t, m.content = .text t → WellFormed t) ∧
        ∀ t, m.content = .text t → ∀ items, Json.parse t ≠ some (.arr items) := by
  cases hc : m.content with
  | blocks bs => simp [decodeContent_blocks (h.blocks bs hc)]
  | text t =>
      rw [contentText, decodeContent_eq_text_iff]
      constructor
      · rintro ⟨hwf, hnot⟩
        rw [hwf] at hnot
        exact ⟨by rintro _ ⟨⟩; exact hwf, by rintro _ ⟨⟩; exact hnot⟩
      · rintro ⟨hwf, hnot⟩
        have hbound : boundText t = t := hwf t rfl
        rw [hbound]
        exact ⟨rfl, hnot t rfl⟩

theorem deserialize_messageRow_iff (h : Storable m timestamp) :
    deserializeMessage (messageRow sessionId m timestamp) = m ↔ Faithful m := by
  have hevent := decodeEvent_eventText h.event
  have hmessage : deserializeMessage (messageRow sessionId m timestamp) = m ↔
      (m.id.map boundText).filter (· ≠ []) = m.id ∧
        (m.executionId.map boundText).filter (· ≠ []) = m.executionId ∧
          decodeContent (boundText (contentText m.content)) = m.content := by
    obtain ⟨id, executionId, event, role, content, time⟩ := m
    have htime : time = some timestamp := h.timestamp
    simp only [deserializeMessage, messageRow, Message.mk.injEq]
    simp only [hevent, htime, and_true, true_and]
  rw [hmessage, bound_id_iff h.id, bound_id_iff h.executionId, decodeContent_iff h]
  constructor
  · rintro ⟨hid, hexecution, htext, hnot⟩
    exact ⟨hid, hexecution, htext, hnot⟩
  · rintro ⟨hid, hexecution, htext, hnot⟩
    exact ⟨hid, hexecution, htext, hnot⟩

/-! ## Through the database -/

variable {s : Store} {row : MessageRow} {rows : List MessageRow} {messages : List (Agent.Message Json)}

theorem deserialize_rowOf_iff (h : Storable m timestamp) (hrow : RowOf sessionId m row) :
    deserializeMessage row = m ↔ Faithful m := by
  obtain ⟨timestamp', htime, rfl⟩ := hrow
  rw [h.timestamp] at htime
  obtain rfl : timestamp = timestamp' := by simpa using htime
  exact deserialize_messageRow_iff h

theorem deserialize_rows_iff (hrows : List.Forall₂ (RowOf sessionId) messages rows)
    (h : ∀ m ∈ messages, ∃ timestamp, Storable m timestamp) :
    deserializeMessages rows = messages ↔ ∀ m ∈ messages, Faithful m := by
  induction hrows with
  | nil => simp [deserializeMessages]
  | cons hrow hrest ih =>
      obtain ⟨timestamp, hstorable⟩ := h _ List.mem_cons_self
      rw [deserializeMessages, List.map_cons, List.cons.injEq,
        deserialize_rowOf_iff hstorable hrow, ← deserializeMessages,
        ih fun m hm => h m (List.mem_cons_of_mem _ hm), List.forall_mem_cons]

/-- What a session is read back as. -/
theorem loadSession_messages (h : (s.sessions.get (boundText sessionId)).isSome) :
    (s.loadSession sessionId).map Session.messages = some (s.loadMessages sessionId) := by
  obtain ⟨row, hrow⟩ := Option.isSome_iff_exists.mp h
  rw [Store.loadSession, hrow]
  rfl

theorem loadMessages_extended {s' : Store} (h : Extended s s' rows)
    (hrows : ∀ r ∈ rows, r.sessionId = boundText sessionId) :
    s'.loadMessages sessionId = s.loadMessages sessionId ++ deserializeMessages rows := by
  rw [Store.loadMessages, h.projection hrows]
  simp [Store.loadMessages, deserializeMessages]

/-- The round trip of `appendMessage` and of `replaceMessages`, and exactly when
it is one. -/
theorem loadSession_roundTrip_iff (s : Store) (sessionId : Text)
    (hs : (s.sessions.get (boundText sessionId)).isSome) :
    (∀ m timestamp, Storable m timestamp → ∃ s', s.appendMessage sessionId m = .ok s' ∧
      ((s'.loadSession sessionId).map Session.messages =
          some (s.loadMessages sessionId ++ [m]) ↔ Faithful m)) ∧
    (∀ messages, (∀ m ∈ messages, ∃ timestamp, Storable m timestamp) →
      ∃ s', s.replaceMessages sessionId messages = .ok s' ∧
        ((s'.loadSession sessionId).map Session.messages = some messages ↔
          ∀ m ∈ messages, Faithful m)) := by
  constructor
  · intro m timestamp hm
    obtain ⟨s', happend⟩ := appendMessage_isOk (m := m) hs
    obtain ⟨row, hrow, hrows⟩ := appendMessage_appended happend
    refine ⟨s', happend, ?_⟩
    rw [loadSession_messages (hrows.sessions _ hs),
      loadMessages_extended hrows.toExtended (by simpa using hrow.sessionId_eq), Option.some.injEq,
      List.append_cancel_left_eq, ← deserialize_rowOf_iff hm hrow]
    simp [deserializeMessages]
  · intro messages hmessages
    let s₁ := (s.clearWirePrefix sessionId).deleteMessages (boundText sessionId)
    have hs₁ : (s₁.sessions.get (boundText sessionId)).isSome := hs
    obtain ⟨s', hinsert⟩ := insertMessages_isOk messages hs₁
    obtain ⟨rows, hof, hrows⟩ := insertMessages_appended hinsert
    have hempty : s₁.loadMessages sessionId = [] := by
      rw [Store.loadMessages, Store.projection]
      simp [s₁, Store.deleteMessages, deserializeMessages]
    refine ⟨s', hinsert, ?_⟩
    rw [loadSession_messages (hrows.sessions _ hs),
      loadMessages_extended hrows.toExtended (RowOf.forall_sessionId hof), hempty, List.nil_append,
      Option.some.injEq, deserialize_rows_iff hof hmessages]

/-! ## Two texts, one of which is JSON -/

def epoch : Double := Double.ofInt 0 zero_small

def userText (text : Text) : Agent.Message Json := ⟨none, none, none, .user, .text text, some epoch⟩

theorem storable_userText (text : Text) : Storable (userText text) epoch where
  timestamp := rfl
  id := by simp [userText]
  executionId := by simp [userText]
  blocks := by simp [userText]
  event := by simp [userText]

theorem faithful_userText {text : Text} (h : WellFormed text) (hparse : Json.parse text = none) :
    Faithful (userText text) where
  id := by simp [userText]
  executionId := by simp [userText]
  text := by
    rintro t ⟨⟩
    exact h
  notArray := by
    rintro t ⟨⟩ items
    rw [hparse]
    exact (Option.some_ne_none _).symm

/-- A database with one session in it. -/
def oneSession : Store :=
  { Store.fresh (fun _ => epoch) with
    sessions := ⟨[⟨js "s", js "m", js "/", epoch, epoch⟩], by simp⟩ }

theorem createSession_oneSession :
    (Store.fresh fun _ => epoch).createSessionWithId (js "s") (js "m") (js "/") =
      .ok oneSession := rfl

theorem loadSession_roundTrip_greeting :
    (∃ s', oneSession.appendMessage (js "s") (userText (js "Hi")) = .ok s' ∧
        (s'.loadSession (js "s")).map Session.messages = some [userText (js "Hi")]) ∧
      ∃ s', oneSession.replaceMessages (js "s") [userText (js "Hi")] = .ok s' ∧
        (s'.loadSession (js "s")).map Session.messages = some [userText (js "Hi")] := by
  have hfaithful : Faithful (userText (js "Hi")) := faithful_userText rfl rfl
  obtain ⟨happend, hreplace⟩ := loadSession_roundTrip_iff oneSession (js "s") rfl
  constructor
  · obtain ⟨s', hs', hiff⟩ := happend _ _ (storable_userText (js "Hi"))
    exact ⟨s', hs', hiff.mpr hfaithful⟩
  · obtain ⟨s', hs', hiff⟩ :=
      hreplace [userText (js "Hi")] (by simpa using ⟨_, storable_userText _⟩)
    exact ⟨s', hs', hiff.mpr (by simpa using hfaithful)⟩

/-- A user who writes `[]` is read back as having sent no blocks. -/
theorem loadSession_loses_brackets :
    ∃ s', oneSession.appendMessage (js "s") (userText (js "[]")) = .ok s' ∧
      Storable (userText (js "[]")) epoch ∧
      (s'.loadSession (js "s")).map Session.messages =
        some [{ userText (js "[]") with content := .blocks [] }] ∧
      (s'.loadSession (js "s")).map Session.messages ≠ some [userText (js "[]")] := by
  refine ⟨_, rfl, storable_userText _, rfl, ?_⟩
  intro h
  have hcontent : some [Content.blocks ([] : List Json)] = some [Content.text (js "[]")] :=
    congrArg (Option.map (List.map Message.content)) h
  simp at hcontent

end Shizuha.State
