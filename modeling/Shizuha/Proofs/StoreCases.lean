import Shizuha.Proofs.JournalFrame

/-!
# What one operation does to a session's history

Eleven operations, and five things that can happen to the messages, the
transcript and the wire prefixes: rows are added; a session's rows are
replaced and its wire prefix dropped; they are replaced and it is kept; a wire
prefix is saved; a session is deleted. `apply_cases` says which, and every
invariant over runs of the store starts from it.
-/

namespace Shizuha.State

open Js Agent

/-- The messages of the session under `key` are replaced by `rows`, and `rows`
are archived. -/
structure Rewritten (s s' : Store) (key : Text) (rows : List MessageRow) : Prop where
  sessions : ∀ id, (s.sessions.get id).isSome → (s'.sessions.get id).isSome
  messages : (s.messages.delete fun r => r.sessionId = key).Grown s'.messages rows
  transcript : ∃ copies, s.transcript.Grown s'.transcript copies ∧
    copies.map TranscriptRow.message = rows

/-- The episode is the session's current one. -/
def Authoritative (s : Store) (sessionId episodeId : Text) : Prop :=
  ∃ head, s.loadExpensiveTurnRecovery sessionId = some head ∧ head.episodeId = episodeId

/-- The rows a commit puts in place of a session's messages. -/
def commitRows (s : Store) (sessionId : Text) (messages : List (Agent.Message Json)) :
    List MessageRow :=
  messages.map fun m => messageRow sessionId m (m.timestamp.getD (s.clock 0))

inductive Effect (s : Store) : StoreOp → Store → Prop where
  | extended {op : StoreOp} {s' : Store} {rows : List MessageRow} (sessionId : Text)
      (hop : ∀ id n payload, op ≠ .saveWirePrefix id n payload)
      (hcommit : ∀ id episodeId messages outcome,
        op ≠ .commitExpensiveTurnSuccessor id episodeId messages outcome)
      (hrows : ∀ r ∈ rows, r.sessionId = boundText sessionId) (h : Extended s s' rows) :
      Effect s op s'
  | replaced {s' : Store} {sessionId : Text} {messages : List (Agent.Message Json)}
      {rows : List MessageRow} (hrows : List.Forall₂ (RowOf sessionId) messages rows)
      (h : Rewritten s s' (boundText sessionId) rows)
      (hwire : s'.wirePrefix = s.wirePrefix.delete fun r => r.sessionId = boundText sessionId) :
      Effect s (.replaceMessages sessionId messages) s'
  | committed {s' : Store} {sessionId episodeId outcome : Text} {messages : List (Agent.Message Json)}
      (hhead : Authoritative s sessionId episodeId)
      (h : Rewritten s s' (boundText sessionId) (commitRows s sessionId messages))
      (hwire : s'.wirePrefix = s.wirePrefix) :
      Effect s (.commitExpensiveTurnSuccessor sessionId episodeId messages outcome) s'
  | saved {s' : Store} {sessionId payload : Text} {n : ℕ}
      (hsession : (s.sessions.get (boundText sessionId)).isSome)
      (h : ∀ id, (s.sessions.get id).isSome → (s'.sessions.get id).isSome)
      (hmessages : s'.messages = s.messages) (htranscript : s'.transcript = s.transcript)
      (hsaved : s'.loadWirePrefix sessionId = some (n, boundText payload))
      (hothers : ∀ k, k ≠ boundText sessionId → s'.wirePrefix.get k = s.wirePrefix.get k) :
      Effect s (.saveWirePrefix sessionId n payload) s'
  | deleted (id : Text) : Effect s (.deleteSession id) (s.deleteSession id).2

variable {s s' : Store} {sessionId episodeId : Text} {messages : List (Agent.Message Json)}

theorem extended_createSessionWithId {id model cwd : Text}
    (h : s.createSessionWithId id model cwd = .ok s') : Extended s s' [] := by
  rw [Store.createSessionWithId] at h
  simp only [] at h
  split at h
  · cases h
  · next sessions hinsert =>
    cases h
    refine .of_same (fun k hk => ?_) rfl rfl rfl
    show (sessions.get k).isSome
    rw [Table.get_insert hinsert]
    split_ifs
    · rfl
    · exact hk

theorem extended_beginExpensiveTurnRecovery {sourceMessageCount sourcePromptTokens : ℕ}
    {deferred : List DeferredRecoveryMessage} {counters : ExpensiveTurnRecoveryCounters}
    (h : s.beginExpensiveTurnRecovery sessionId episodeId sourceMessageCount sourcePromptTokens
      deferred counters = .ok s') : Extended s s' [] := by
  rw [Store.beginExpensiveTurnRecovery] at h
  simp only [] at h
  split at h
  · cases h
    exact .of_same (fun _ h => h) rfl rfl rfl
  · split at h
    · cases h
    · cases h
      exact .of_same (fun _ h => h) rfl rfl rfl

theorem rewritten_of_insert {t : Store} {rows : List MessageRow}
    (hsessions : t.sessions = s.sessions) (hmessages : t.messages = s.messages)
    (htranscript : t.transcript = s.transcript)
    (h : Extended (t.deleteMessages (boundText sessionId)) s' rows) :
    Rewritten s s' (boundText sessionId) rows where
  sessions := fun id hid => h.sessions id (show (t.sessions.get id).isSome by rwa [hsessions])
  messages := by
    rw [← hmessages]
    exact h.messages
  transcript := by
    rw [← htranscript]
    exact h.transcript

theorem rowsOf_timed {rows : List MessageRow} {now : Double}
    (h : List.Forall₂ (RowOf sessionId)
      (messages.map fun m => { m with timestamp := some (m.timestamp.getD now) }) rows) :
    rows = messages.map fun m => messageRow sessionId m (m.timestamp.getD now) := by
  rw [List.forall₂_map_left_iff] at h
  induction h with
  | nil => rfl
  | cons hrow hrest ih =>
      obtain ⟨timestamp, htime, rfl⟩ := hrow
      have htime : _ = timestamp := Option.some.inj (htime.resolve_left (Option.some_ne_none _))
      rw [List.map_cons, ih, ← htime]
      rfl

theorem commitExpensiveTurnSuccessor_ok {outcome : Text}
    (h : s.commitExpensiveTurnSuccessor sessionId episodeId messages outcome = .ok s') :
    Authoritative s sessionId episodeId ∧
      Rewritten s s' (boundText sessionId) (commitRows s sessionId messages) ∧
      s'.wirePrefix = s.wirePrefix := by
  rw [Store.commitExpensiveTurnSuccessor] at h
  simp only [] at h
  split at h
  · cases h
  · next head hhead =>
    split_ifs at h with hepisode
    rw [Except.bind_ok_iff] at h
    obtain ⟨s₁, hinsert, h⟩ := h
    cases h
    obtain ⟨rows, hrows, happend⟩ := insertMessages_appended hinsert
    obtain rfl := rowsOf_timed hrows
    have hrewritten : Rewritten s s₁ (boundText sessionId) (commitRows s sessionId messages) :=
      rewritten_of_insert (t := s.now.2) rfl rfl rfl happend.toExtended
    exact ⟨⟨head, hhead, not_not.mp hepisode⟩,
      ⟨hrewritten.sessions, hrewritten.messages, hrewritten.transcript⟩, happend.wirePrefix⟩

/-- A commit of the current episode of a session that is there succeeds. -/
theorem commitExpensiveTurnSuccessor_isOk (messages : List (Agent.Message Json)) (outcome : Text)
    (hhead : Authoritative s sessionId episodeId)
    (hs : (s.sessions.get (boundText sessionId)).isSome) :
    ∃ s', s.commitExpensiveTurnSuccessor sessionId episodeId messages outcome = .ok s' := by
  obtain ⟨head, hhead, rfl⟩ := hhead
  obtain ⟨s₁, hinsert⟩ := insertMessages_isOk
    (s := s.now.2.deleteMessages (boundText sessionId))
    (messages.map fun m => { m with timestamp := some (m.timestamp.getD s.now.1) }) hs
  have hload : s.now.2.loadExpensiveTurnRecovery sessionId = some head := hhead
  rw [Store.commitExpensiveTurnSuccessor]
  simp only [hload, ne_eq, not_true_eq_false, if_false, hinsert]
  exact ⟨_, rfl⟩

theorem effect_saveWirePrefix {n : ℕ} {payload : Text}
    (h : s.saveWirePrefix sessionId n payload = .ok s') :
    Effect s (.saveWirePrefix sessionId n payload) s' := by
  rw [Store.saveWirePrefix] at h
  simp only [] at h
  split at h
  · cases h
  · next session hsession =>
    cases h
    refine .saved (Option.isSome_iff_exists.mpr ⟨session, hsession⟩) (fun _ h => h) rfl rfl ?_ ?_
    · rw [Store.loadWirePrefix, Table.get_upsert, if_pos rfl]
      show Option.map _ (some ((Option.map _ (s.wirePrefix.get (boundText sessionId))).getD _)) = _
      cases s.wirePrefix.get (boundText sessionId) <;> rfl
    · intro k hk
      rw [Table.get_upsert, if_neg hk]
      rfl

/-- Everything an operation can do to messages, transcript and wire
prefixes. -/
theorem apply_cases {op : StoreOp} (h : s.apply op = .ok s') : Effect s op s' := by
  cases op with
  | createSession id model cwd =>
      exact .extended id (by simp) (by simp) (by simp) (extended_createSessionWithId h)
  | appendMessage sessionId message =>
      obtain ⟨row, hrow, happend⟩ := appendMessage_appended h
      exact .extended sessionId (by simp) (by simp) (by simpa using hrow.sessionId_eq)
        happend.toExtended
  | replaceMessages sessionId messages =>
      obtain ⟨rows, hrows, happend⟩ := insertMessages_appended h
      exact .replaced hrows
        (rewritten_of_insert (t := s.clearWirePrefix sessionId) rfl rfl rfl happend.toExtended)
        happend.wirePrefix
  | saveWirePrefix sessionId sourceCount messagesJson => exact effect_saveWirePrefix h
  | beginExpensiveTurnRecovery sessionId episodeId count tokens deferred counters =>
      exact .extended sessionId (by simp) (by simp) (by simp)
        (extended_beginExpensiveTurnRecovery h)
  | commitExpensiveTurnSuccessor sessionId episodeId messages outcome =>
      obtain ⟨hhead, hrewritten, hwire⟩ := commitExpensiveTurnSuccessor_ok h
      exact .committed hhead hrewritten hwire
  | beginToolAttempt identity toolCallId name input invocation =>
      obtain ⟨turn, s₁, row, -, -, -, -, -, -, hextended⟩ := beginToolAttempt_ok h
      exact .extended identity.sessionId (by simp) (by simp) (by simp) hextended
  | completeToolAttempt identity toolCallId invocation result interrupted =>
      obtain ⟨turn, s₁, -, -, -, -, hextended, -⟩ := completeToolAttempt_ok h
      exact .extended identity.sessionId (by simp) (by simp) (by simp) hextended
  | finalizeToolTurn identity messages =>
      obtain ⟨⟨persisted, s₁⟩, hfinalize, rfl⟩ := Except.map_ok_iff.mp h
      obtain ⟨rows, hrows, hextended⟩ := finalizeToolTurn_extended hfinalize
      exact .extended identity.sessionId (by simp) (by simp) hrows hextended
  | recoverToolTurns sessionId ownerId sessionEpoch generation =>
      obtain ⟨⟨messages, s₁⟩, hrecover, rfl⟩ := Except.map_ok_iff.mp h
      rw [Store.recoverToolTurns, Except.bind_ok_iff] at hrecover
      obtain ⟨⟨recovered, s₂⟩, hturns, heq⟩ := hrecover
      cases heq
      obtain ⟨rows, hrows, hextended⟩ := recoverTurns_extended hturns
      exact .extended sessionId (by simp) (by simp) hrows hextended
  | deleteSession id =>
      cases h
      exact .deleted id

end Shizuha.State
