import Shizuha.State.Store
import Shizuha.Effect

/-!
# What the operations on messages change

Every path that adds messages ends in the one INSERT, so they all do the same
thing to the database: rows are put after the rows that are there, their
copies after the transcript, and no other table moves but for the time a
session was last used. `Appended` says that, and composes; `RowOf` says which
row a message becomes. From here on nothing unfolds the inserting operations.
-/

namespace Shizuha

theorem Except.map_ok_iff {ε α β : Type} {x : Except ε α} {f : α → β} {b : β} :
    x.map f = .ok b ↔ ∃ a, x = .ok a ∧ f a = b := by
  cases x <;> simp [Except.map]

end Shizuha

namespace Shizuha.State

open Js Agent

/-- The row a message becomes: at its own time, or at some reading of the
clock. -/
def RowOf (sessionId : Text) (m : Agent.Message Json) (r : MessageRow) : Prop :=
  ∃ timestamp, (m.timestamp = none ∨ m.timestamp = some timestamp) ∧
    r = messageRow sessionId m timestamp

theorem RowOf.sessionId_eq {sessionId : Text} {m : Agent.Message Json} {r : MessageRow}
    (h : RowOf sessionId m r) : r.sessionId = boundText sessionId := by
  obtain ⟨timestamp, -, rfl⟩ := h
  rfl

/-- `s'` is `s` with `rows` put after the messages and after the transcript.
Sessions stay, and so does every wire prefix. -/
structure Extended (s s' : Store) (rows : List MessageRow) : Prop where
  sessions : ∀ id, (s.sessions.get id).isSome → (s'.sessions.get id).isSome
  wirePrefix : s'.wirePrefix = s.wirePrefix
  messages : s.messages.Grown s'.messages rows
  transcript : ∃ copies, s.transcript.Grown s'.transcript copies ∧
    copies.map TranscriptRow.message = rows

theorem Extended.of_same {s s' : Store}
    (hs : ∀ id, (s.sessions.get id).isSome → (s'.sessions.get id).isSome)
    (hw : s'.wirePrefix = s.wirePrefix) (hm : s'.messages = s.messages)
    (ht : s'.transcript = s.transcript) : Extended s s' [] where
  sessions := hs
  wirePrefix := hw
  messages := by
    rw [hm]
    exact .refl _
  transcript := by
    rw [ht]
    exact ⟨[], .refl _, rfl⟩

theorem Extended.refl (s : Store) : Extended s s [] := .of_same (fun _ h => h) rfl rfl rfl

theorem Extended.trans {s s' s'' : Store} {rows rows' : List MessageRow}
    (h : Extended s s' rows) (h' : Extended s' s'' rows') : Extended s s'' (rows ++ rows') where
  sessions := fun id hid => h'.sessions id (h.sessions id hid)
  wirePrefix := h'.wirePrefix.trans h.wirePrefix
  messages := h.messages.trans h'.messages
  transcript := by
    obtain ⟨copies, hgrown, hrows⟩ := h.transcript
    obtain ⟨copies', hgrown', hrows'⟩ := h'.transcript
    exact ⟨copies ++ copies', hgrown.trans hgrown', by rw [List.map_append, hrows, hrows']⟩

/-- The tables no message is kept in are as they were, too. -/
structure Appended (s s' : Store) (rows : List MessageRow) : Prop extends
    Extended s s' rows where
  recoveryHeads : s'.recoveryHeads = s.recoveryHeads
  toolTurns : s'.toolTurns = s.toolTurns
  toolAttempts : s'.toolAttempts = s.toolAttempts

theorem Appended.refl (s : Store) : Appended s s [] := ⟨Extended.refl s, rfl, rfl, rfl⟩

theorem Appended.trans {s s' s'' : Store} {rows rows' : List MessageRow}
    (h : Appended s s' rows) (h' : Appended s' s'' rows') : Appended s s'' (rows ++ rows') :=
  ⟨h.toExtended.trans h'.toExtended, h'.recoveryHeads.trans h.recoveryHeads,
    h'.toolTurns.trans h.toolTurns, h'.toolAttempts.trans h.toolAttempts⟩

variable {s s' : Store} {sessionId other : Text} {m : Agent.Message Json}
  {messages : List (Agent.Message Json)} {rows : List MessageRow}

theorem appended_pushMessage (s : Store) (row : MessageRow) :
    Appended s (s.pushMessage row) [row] where
  sessions := fun _ h => h
  wirePrefix := rfl
  messages := Sequence.grown_push _ _
  transcript := by
    refine ⟨[⟨s.messages.next, row⟩], ?_, rfl⟩
    show s.transcript.Grown (archive s.transcript ⟨s.messages.next, row⟩) _
    rw [archive_next]
    exact Sequence.grown_push _ _
  recoveryHeads := rfl
  toolTurns := rfl
  toolAttempts := rfl

theorem appended_now (s : Store) : Appended s s.now.2 [] :=
  ⟨.of_same (fun _ h => h) rfl rfl rfl, rfl, rfl, rfl⟩

theorem appended_timestampOf (s : Store) (m : Agent.Message Json) :
    (m.timestamp = none ∨ m.timestamp = some (s.timestampOf m).1) ∧
      Appended s (s.timestampOf m).2 [] := by
  rw [Store.timestampOf]
  cases m.timestamp with
  | none => exact ⟨.inl rfl, appended_now s⟩
  | some timestamp => exact ⟨.inr rfl, Appended.refl s⟩

theorem appended_touchSession (s : Store) (sessionId : Text) :
    Appended s (s.touchSession sessionId) [] := by
  refine ⟨.of_same (fun id h => ?_) rfl rfl rfl, rfl, rfl, rfl⟩
  rw [Store.touchSession]
  simp only [Table.get_update]
  rw [Option.isSome_map]
  exact h

/-! ## The operations -/

theorem insertMessageOf_appended (h : s.insertMessageOf sessionId m = .ok s') :
    ∃ row, RowOf sessionId m row ∧ Appended s s' [row] := by
  obtain ⟨htime, hclock⟩ := appended_timestampOf s m
  rw [Store.insertMessageOf] at h
  simp only [Store.insertMessage] at h
  split at h
  · cases h
  · cases h
    exact ⟨_, ⟨_, htime, rfl⟩, hclock.trans (appended_pushMessage _ _)⟩

/-- The one thing a new message needs is its session. -/
theorem insertMessageOf_isOk (h : (s.sessions.get (boundText sessionId)).isSome) :
    ∃ s', s.insertMessageOf sessionId m = .ok s' := by
  obtain ⟨session, hsession⟩ :=
    Option.isSome_iff_exists.mp ((appended_timestampOf s m).2.sessions _ h)
  refine ⟨(s.timestampOf m).2.pushMessage (messageRow sessionId m (s.timestampOf m).1), ?_⟩
  have hget : (s.timestampOf m).2.sessions.get
      (messageRow sessionId m (s.timestampOf m).1).sessionId = some session := hsession
  rw [Store.insertMessageOf]
  simp only [Store.insertMessage, hget]

theorem appendMessage_appended (h : s.appendMessage sessionId m = .ok s') :
    ∃ row, RowOf sessionId m row ∧ Appended s s' [row] := by
  rw [Store.appendMessage, Except.bind_ok_iff] at h
  obtain ⟨s₁, hinsert, htouch⟩ := h
  cases htouch
  obtain ⟨row, hrow, happend⟩ := insertMessageOf_appended hinsert
  exact ⟨row, hrow, happend.trans (appended_touchSession s₁ sessionId)⟩

theorem appendMessage_isOk (h : (s.sessions.get (boundText sessionId)).isSome) :
    ∃ s', s.appendMessage sessionId m = .ok s' := by
  obtain ⟨s₁, hinsert⟩ := insertMessageOf_isOk (m := m) h
  exact ⟨s₁.touchSession sessionId, by rw [Store.appendMessage, hinsert]; rfl⟩

theorem insertMessages_appended (h : s.insertMessages sessionId messages = .ok s') :
    ∃ rows, List.Forall₂ (RowOf sessionId) messages rows ∧ Appended s s' rows := by
  induction messages generalizing s with
  | nil =>
      cases h
      exact ⟨[], .nil, Appended.refl _⟩
  | cons m rest ih =>
      rw [Store.insertMessages, Except.bind_ok_iff] at h
      obtain ⟨s₁, hinsert, hrest⟩ := h
      obtain ⟨row, hrow, happend⟩ := insertMessageOf_appended hinsert
      obtain ⟨rows, hrows, happends⟩ := ih hrest
      exact ⟨row :: rows, .cons hrow hrows, happend.trans happends⟩

theorem insertMessages_isOk (messages : List (Agent.Message Json))
    (h : (s.sessions.get (boundText sessionId)).isSome) :
    ∃ s', s.insertMessages sessionId messages = .ok s' := by
  induction messages generalizing s with
  | nil => exact ⟨s, rfl⟩
  | cons m rest ih =>
      obtain ⟨s₁, hinsert⟩ := insertMessageOf_isOk (m := m) h
      obtain ⟨row, -, happend⟩ := insertMessageOf_appended hinsert
      obtain ⟨s', hrest⟩ := ih (happend.sessions _ h)
      exact ⟨s', by rw [Store.insertMessages, hinsert]; exact hrest⟩

theorem RowOf.forall_sessionId (h : List.Forall₂ (RowOf sessionId) messages rows) :
    ∀ r ∈ rows, r.sessionId = boundText sessionId := by
  induction h with
  | nil => simp
  | cons hrow hrows ih =>
      intro r hr
      rcases List.mem_cons.mp hr with rfl | hr
      · exact hrow.sessionId_eq
      · exact ih r hr

/-! ## What a session's reader sees -/

theorem Extended.projection (h : Extended s s' rows)
    (hrows : ∀ r ∈ rows, r.sessionId = boundText sessionId) :
    s'.projection sessionId = s.projection sessionId ++ rows := by
  rw [Store.projection, Store.projection, h.messages.rows_eq, List.filter_append]
  congr 1
  exact List.filter_eq_self.mpr fun r hr => decide_eq_true (hrows r hr)

theorem Extended.projection_other (h : Extended s s' rows)
    (hrows : ∀ r ∈ rows, r.sessionId ≠ boundText sessionId) :
    s'.projection sessionId = s.projection sessionId := by
  have hnone : rows.filter (fun r => r.sessionId = boundText sessionId) = [] :=
    List.filter_eq_nil_iff.mpr fun r hr => by simp [hrows r hr]
  rw [Store.projection, Store.projection, h.messages.rows_eq, List.filter_append, hnone,
    List.append_nil]

end Shizuha.State
