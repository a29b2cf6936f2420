import Shizuha.Proofs.MessageRoundTrip
import Shizuha.Proofs.StoreCases

/-!
# The transcript keeps everything that was ever inserted

`History` runs the store next to a list of the rows that turned up in the
message table, found by their numbers and without a look at the transcript.
The archive trigger makes the transcript that list (`effect_archives`), and
reading it keeps the first row of every canonical key.

Since a key fixes a timestamp, keeping the first of every key commutes with
the order of the query. So a longer history only adds entries, in their
places, and the order is that of time and of first insertion. Whether every
message is still represented is the question whether the key tells messages
apart, and it does but for one thing: a number too large to be finite is
written as `null`.
-/

namespace Shizuha.State

open Js Agent Telemetry

/-! ## What a transcript entry is identified by -/

/-- Contents that differ in the order of properties only are one content. -/
structure Identity where
  id : Option Text
  executionId : Option Text
  role : Role
  content : Json
  timestamp : Option Double

def identityOf (m : Agent.Message Json) : Identity :=
  ⟨m.id, m.executionId, m.role, sortKeys (contentJson m.content), m.timestamp⟩

/-- The identity with `null` for every infinity in the content. -/
def Identity.nullify (i : Identity) : Identity := { i with content := i.content.nullify }

theorem textJson_nullify (t : Option Text) : (sortKeys (textJson t)).nullify = textJson t := by
  cases t <;> rfl

theorem timestampJson_nullify (t : Option Double) :
    (sortKeys (timestampJson t)).nullify = timestampJson t := by
  cases t <;> rfl

theorem textJson_inj {t t' : Option Text} : textJson t = textJson t' ↔ t = t' := by
  cases t <;> cases t' <;> simp [textJson]

theorem timestampJson_inj {t t' : Option Double} :
    timestampJson t = timestampJson t' ↔ t = t' := by
  cases t <;> cases t' <;> simp [timestampJson]

theorem role_name_inj {r r' : Role} : r.name = r'.name ↔ r = r' := by
  cases r <;> cases r' <;> decide

theorem sort_keyFields {α : Type} (a b c d e : α) :
    [(js "id", a), (js "executionId", b), (js "role", c), (js "content", d),
        (js "timestamp", e)].insertionSort (fun f g => keyLE f.1 g.1) =
      [(js "content", d), (js "executionId", b), (js "id", a), (js "role", c),
        (js "timestamp", e)] := rfl

theorem transcriptKey_eq_iff {m m' : Agent.Message Json} :
    transcriptKey m = transcriptKey m' ↔
      (identityOf m).nullify = (identityOf m').nullify := by
  rw [transcriptKey, transcriptKey, stableJson_eq_iff]
  simp only [sortKeys, sortFields, sort_keyFields, Json.nullify, nullifyFields, textJson_nullify,
    timestampJson_nullify, Json.obj.injEq, List.cons.injEq, Prod.mk.injEq, true_and, and_true,
    textJson_inj, timestampJson_inj, Json.str.injEq, role_name_inj, Identity.nullify, identityOf,
    Identity.mk.injEq]
  tauto

/-! ## The history of a run -/

/-- The store, and every row that was ever inserted into its message table. -/
structure History where
  store : Store
  inserted : List MessageRow

def historyStep (h : History) (op : StoreOp) : History where
  store := storeStep h.store op
  inserted := h.inserted ++ (storeStep h.store op).messages.since h.store.messages.next

def historyStart (clock : ℕ → Double) : History := ⟨Store.fresh clock, []⟩

/-- The messages ever inserted into a session's projection, in order. -/
def History.insertedInto (h : History) (sessionId : Text) : List (Agent.Message Json) :=
  deserializeMessages (h.inserted.filter fun r => r.sessionId = boundText sessionId)

def History.transcript (h : History) (sessionId : Text) : List (Agent.Message Json) :=
  h.store.loadTranscriptMessages sessionId

/-- `m` was first inserted before `m'` was. -/
def FirstBefore (inserted : List (Agent.Message Json)) (m m' : Agent.Message Json) : Prop :=
  ∃ before r after, inserted = before ++ r :: after ∧ identityOf r = identityOf m ∧
    ∀ x ∈ before, identityOf x ≠ identityOf m ∧ identityOf x ≠ identityOf m'

/-- By time, and by first insertion at one time. -/
def TranscriptOrder (inserted : List (Agent.Message Json)) (m m' : Agent.Message Json) : Prop :=
  ∃ t t', m.timestamp = some t ∧ m'.timestamp = some t' ∧
    (t.val < t'.val ∨ t = t' ∧ FirstBefore inserted m m')

structure TranscriptComplete (sessionId : Text) (h : History) : Prop where
  complete : ∀ m ∈ h.insertedInto sessionId,
    identityOf m ∈ (h.transcript sessionId).map identityOf
  once : ((h.transcript sessionId).map identityOf).Nodup
  only : ∀ m ∈ h.transcript sessionId, m ∈ h.insertedInto sessionId
  ordered : (h.transcript sessionId).Pairwise (TranscriptOrder (h.insertedInto sessionId))

/-- No two messages inserted into the session differ in infinities only. -/
def Unconfused (sessionId : Text) (h : History) : Prop :=
  ∀ m ∈ h.insertedInto sessionId, ∀ m' ∈ h.insertedInto sessionId,
    (identityOf m).nullify = (identityOf m').nullify → identityOf m = identityOf m'

/-- The step leaves every entry of the transcript in place. -/
def TranscriptKept (sessionId : Text) (h : History) (op : StoreOp) : Prop :=
  (h.transcript sessionId).Sublist ((historyStep h op).transcript sessionId)

/-- The operation does not delete the session. -/
def NotDeleting (sessionId : Text) (op : StoreOp) : Prop :=
  ∀ id, op = .deleteSession id → boundText id ≠ boundText sessionId

/-! ## The trigger archives what is inserted -/

variable {s s' : Store} {sessionId : Text} {op : StoreOp}

def ofSession (sessionId : Text) (rows : List MessageRow) : List MessageRow :=
  rows.filter fun r => r.sessionId = boundText sessionId

/-- The session's archived rows are those of `s` and then `rows`. -/
def Archives (s s' : Store) (sessionId : Text) (rows : List MessageRow) : Prop :=
  ∃ new, s'.archivedEntries sessionId = s.archivedEntries sessionId ++ new ∧
    new.map Prod.snd = ofSession sessionId rows

theorem archives_of_grown {copies : List TranscriptRow}
    (h : s.transcript.Grown s'.transcript copies) :
    Archives s s' sessionId (copies.map TranscriptRow.message) := by
  obtain ⟨new, heq, hcopies, -⟩ := h.entries
  refine ⟨(new.filter fun e => e.2.message.sessionId = boundText sessionId).map
    fun e => (e.1, e.2.message), ?_, ?_⟩
  · rw [Store.archivedEntries, heq, List.filter_append, List.map_append]
    rfl
  · rw [← hcopies, ofSession, List.filter_map, List.filter_map, List.map_map, List.map_map]
    rfl

theorem archives_nil (h : s'.archivedEntries sessionId = s.archivedEntries sessionId) :
    Archives s s' sessionId [] := ⟨[], by rw [h, List.append_nil], rfl⟩

/-- An operation archives, for a session it does not delete, exactly the rows
it puts into the message table. -/
theorem effect_archives (h : Effect s op s') (hop : NotDeleting sessionId op) :
    Archives s s' sessionId (s'.messages.since s.messages.next) := by
  cases h with
  | extended _ _ _ _ h =>
      obtain ⟨copies, hgrown, hrows⟩ := h.transcript
      rw [h.messages.since_eq, ← hrows]
      exact archives_of_grown hgrown
  | replaced _ h _ =>
      obtain ⟨copies, hgrown, hrows⟩ := h.transcript
      have hsince := h.messages.since_eq
      rw [show s'.messages.since s.messages.next = _ from hsince, ← hrows]
      exact archives_of_grown hgrown
  | committed _ h _ =>
      obtain ⟨copies, hgrown, hrows⟩ := h.transcript
      have hsince := h.messages.since_eq
      rw [show s'.messages.since s.messages.next = _ from hsince, ← hrows]
      exact archives_of_grown hgrown
  | saved _ _ hmessages htranscript _ _ =>
      rw [hmessages, (Sequence.Grown.refl s.messages).since_eq]
      exact archives_nil (by rw [Store.archivedEntries, htranscript, Store.archivedEntries])
  | deleted id =>
      have hnone : (s.deleteSession id).2.messages.since s.messages.next = [] := by
        have hempty : (s.deleteSession id).2.messages.entries.filter
            (fun e => s.messages.next ≤ e.1) = [] := by
          refine List.filter_eq_nil_iff.mpr fun e he => ?_
          have := s.messages.below e (List.mem_of_mem_filter he)
          simpa using this
        rw [Sequence.since, hempty, List.map_nil]
      rw [hnone]
      refine archives_nil ?_
      rw [Store.archivedEntries, Store.archivedEntries, Store.deleteSession]
      show List.map _ (List.filter _ (List.filter _ _)) = _
      rw [List.filter_filter]
      congr 1
      refine List.filter_congr fun e _ => ?_
      by_cases he : e.2.message.sessionId = boundText sessionId
      · simp [he, Ne.symm (hop id rfl)]
      · simp [he]

/-! ## Reading the transcript -/

/-- A row of the transcript, read. -/
def entryMessage (e : ℕ × MessageRow) : Agent.Message Json := deserializeMessage e.2

def entryKey (e : ℕ × MessageRow) : Text := transcriptKey (entryMessage e)

def entryTime (e : ℕ × MessageRow) : ℚ := e.2.timestamp.val

/-- The rows of the transcript that are shown. -/
def Store.keptEntries (s : Store) (sessionId : Text) : List (ℕ × MessageRow) :=
  keepFirst entryKey [] (s.archivedEntries sessionId)

theorem archivedEntries_ascending (s : Store) (sessionId : Text) :
    (s.archivedEntries sessionId).Pairwise fun e e' => e.1 < e'.1 := by
  rw [Store.archivedEntries, List.pairwise_map]
  exact s.transcript.ascending.sublist List.filter_sublist

theorem archivedEntries_nodup (s : Store) (sessionId : Text) :
    ((s.archivedEntries sessionId).map Prod.fst).Nodup :=
  List.pairwise_map.mpr ((archivedEntries_ascending s sessionId).imp fun h => ne_of_lt h)

theorem entryTime_of_key {e e' : ℕ × MessageRow} (h : entryKey e = entryKey e') :
    entryTime e = entryTime e' := by
  have htime := congrArg Identity.timestamp (transcriptKey_eq_iff.mp h)
  have htime : some e.2.timestamp = some e'.2.timestamp := htime
  rw [entryTime, Option.some.inj htime, entryTime]

theorem loadTranscriptMessages_eq (s : Store) (sessionId : Text) :
    s.loadTranscriptMessages sessionId =
      (inOrder entryTime Prod.fst (s.keptEntries sessionId)).map entryMessage := by
  rw [Store.loadTranscriptMessages, deserializeMessages, List.map_map, keepFirst_map]
  exact congrArg (List.map entryMessage)
    (keepFirst_inOrder (archivedEntries_ascending s sessionId)
      fun e _ e' _ h => entryTime_of_key h)

/-- A longer archive shows every entry of a shorter one. -/
theorem loadTranscriptMessages_sublist {rows : List MessageRow}
    (h : Archives s s' sessionId rows) :
    (s.loadTranscriptMessages sessionId).Sublist (s'.loadTranscriptMessages sessionId) := by
  obtain ⟨new, heq, -⟩ := h
  have hkept : (s.keptEntries sessionId).Sublist (s'.keptEntries sessionId) := by
    rw [Store.keptEntries, Store.keptEntries, heq, keepFirst_append]
    exact List.sublist_append_left _ _
  have hnodup : ((s'.keptEntries sessionId).map Prod.fst).Nodup :=
    (archivedEntries_nodup s' sessionId).sublist (keepFirst_sublist.map _)
  rw [loadTranscriptMessages_eq, loadTranscriptMessages_eq]
  exact (inOrder_sublist hnodup hkept).map entryMessage

/-! ## The transcript against the history -/

/-- The archive holds what was inserted. -/
def Archived (sessionId : Text) (h : History) : Prop :=
  (h.store.archivedEntries sessionId).map Prod.snd = ofSession sessionId h.inserted

variable {h : History}

theorem historyStep_archives (hop : NotDeleting sessionId op) :
    Archives h.store (historyStep h op).store sessionId
      ((historyStep h op).store.messages.since h.store.messages.next) := by
  show Archives h.store (storeStep h.store op) sessionId _
  rw [historyStep, storeStep]
  cases happly : h.store.apply op with
  | error e =>
      simp only []
      rw [(Sequence.Grown.refl h.store.messages).since_eq]
      exact archives_nil rfl
  | ok s' => exact effect_archives (apply_cases happly) hop

theorem archived_step (hop : NotDeleting sessionId op) (harchived : Archived sessionId h) :
    Archived sessionId (historyStep h op) := by
  obtain ⟨new, heq, hnew⟩ := historyStep_archives (h := h) hop
  rw [Archived, heq, List.map_append, harchived, hnew]
  exact (List.filter_append ..).symm

theorem insertedInto_eq (harchived : Archived sessionId h) :
    h.insertedInto sessionId = (h.store.archivedEntries sessionId).map entryMessage := by
  rw [History.insertedInto, deserializeMessages]
  show (ofSession sessionId h.inserted).map deserializeMessage = _
  rw [← harchived, List.map_map]
  rfl

theorem mem_transcript {m : Agent.Message Json} :
    m ∈ h.transcript sessionId ↔ ∃ e ∈ h.store.keptEntries sessionId, entryMessage e = m := by
  rw [History.transcript, loadTranscriptMessages_eq, List.mem_map]
  simp only [inOrder_perm.mem_iff]

/-- No two entries of the transcript share a key. -/
theorem nodup_transcriptKeys (h : History) (sessionId : Text) :
    ((h.transcript sessionId).map transcriptKey).Nodup := by
  rw [History.transcript, loadTranscriptMessages_eq, List.map_map]
  exact (inOrder_perm.map _).nodup_iff.mpr nodup_keepFirst

/-- Everything inserted has an entry with its key. -/
theorem key_mem_transcript (harchived : Archived sessionId h) {m : Agent.Message Json}
    (hm : m ∈ h.insertedInto sessionId) :
    ∃ x ∈ h.transcript sessionId, transcriptKey x = transcriptKey m := by
  rw [insertedInto_eq harchived] at hm
  obtain ⟨e, he, rfl⟩ := List.mem_map.mp hm
  have hkey : entryKey e ∈ (h.store.keptEntries sessionId).map entryKey :=
    mem_keepFirst_key.mpr ⟨List.mem_map_of_mem he, List.not_mem_nil⟩
  obtain ⟨e', he', hkey'⟩ := List.mem_map.mp hkey
  exact ⟨entryMessage e', mem_transcript.mpr ⟨e', he', rfl⟩, hkey'⟩

theorem key_of_identity {m m' : Agent.Message Json} (h : identityOf m = identityOf m') :
    transcriptKey m = transcriptKey m' := transcriptKey_eq_iff.mpr (by rw [h])

/-- An entry that is shown comes before every other row of its key. -/
theorem entryKey_ne_of_before {s : Store} {e e' : ℕ × MessageRow}
    (he : e ∈ s.keptEntries sessionId) (he' : e' ∈ s.archivedEntries sessionId)
    (hlt : e'.1 < e.1) : entryKey e' ≠ entryKey e := by
  have hfirst : (s.archivedEntries sessionId).Pairwise fun a b =>
      entryKey a = entryKey b → a.1 < b.1 := by
    refine (archivedEntries_ascending s sessionId).imp fun hab => ?_
    intro _
    exact hab
  have hkept := (mem_keepFirst_iff (fun a b : ℕ × MessageRow => a.1 < b.1)
    (fun a b hab => by omega) hfirst).mp he
  exact fun hkey => hkept.2.2 e' he' hkey hlt

theorem firstBefore_of_kept (harchived : Archived sessionId h) {e e' : ℕ × MessageRow}
    (he : e ∈ h.store.keptEntries sessionId) (he' : e' ∈ h.store.keptEntries sessionId)
    (hlt : e.1 < e'.1) :
    FirstBefore (h.insertedInto sessionId) (entryMessage e) (entryMessage e') := by
  obtain ⟨before, after, hsplit⟩ := List.append_of_mem (keepFirst_sublist.subset he)
  rw [insertedInto_eq harchived, hsplit, List.map_append, List.map_cons]
  refine ⟨_, _, _, rfl, rfl, fun x hx => ?_⟩
  obtain ⟨a, ha, rfl⟩ := List.mem_map.mp hx
  have hmem : a ∈ h.store.archivedEntries sessionId := by
    rw [hsplit]
    exact List.mem_append_left _ ha
  have hbefore : a.1 < e.1 := by
    have hasc := archivedEntries_ascending h.store sessionId
    rw [hsplit, List.pairwise_append] at hasc
    exact hasc.2.2 a ha e List.mem_cons_self
  exact ⟨fun heq => entryKey_ne_of_before he hmem hbefore (key_of_identity heq),
    fun heq => entryKey_ne_of_before he' hmem (hbefore.trans hlt) (key_of_identity heq)⟩

theorem ordered_transcript (harchived : Archived sessionId h) :
    (h.transcript sessionId).Pairwise (TranscriptOrder (h.insertedInto sessionId)) := by
  rw [History.transcript, loadTranscriptMessages_eq, List.pairwise_map]
  have hnodup : ((h.store.keptEntries sessionId).map Prod.fst).Nodup :=
    (archivedEntries_nodup h.store sessionId).sublist (keepFirst_sublist.map _)
  refine (pairwise_inOrder hnodup).imp_of_mem fun {e e'} he he' hbefore => ?_
  rw [inOrder_perm.mem_iff] at he he'
  refine ⟨e.2.timestamp, e'.2.timestamp, rfl, rfl, ?_⟩
  rcases hbefore with hlt | ⟨heq, hlt⟩
  · exact .inl hlt
  · exact .inr ⟨Double.ext heq, firstBefore_of_kept harchived he he' hlt⟩

theorem transcriptComplete_iff (harchived : Archived sessionId h) :
    TranscriptComplete sessionId h ↔ Unconfused sessionId h := by
  have honly : ∀ m ∈ h.transcript sessionId, m ∈ h.insertedInto sessionId := by
    intro m hm
    obtain ⟨e, he, rfl⟩ := mem_transcript.mp hm
    rw [insertedInto_eq harchived]
    exact List.mem_map_of_mem (keepFirst_sublist.subset he)
  have hkeys := nodup_transcriptKeys h sessionId
  constructor
  · intro hcomplete m hm m' hm' hnull
    obtain ⟨x, hx, hxm⟩ := List.mem_map.mp (hcomplete.complete m hm)
    obtain ⟨y, hy, hym⟩ := List.mem_map.mp (hcomplete.complete m' hm')
    have hxy : transcriptKey x = transcriptKey y := by
      rw [transcriptKey_eq_iff, hxm, hym, hnull]
    rw [← hxm, ← hym, List.inj_on_of_nodup_map hkeys hx hy hxy]
  · intro hunconfused
    refine ⟨fun m hm => ?_, ?_, honly, ordered_transcript harchived⟩
    · obtain ⟨x, hx, hkey⟩ := key_mem_transcript harchived hm
      rw [← hunconfused x (honly x hx) m hm (transcriptKey_eq_iff.mp hkey)]
      exact List.mem_map_of_mem hx
    · rw [List.Nodup, List.pairwise_map] at hkeys ⊢
      exact hkeys.imp fun hne heq => hne (key_of_identity heq)

/-! ## Every run -/

theorem transcript_complete_iff (clock : ℕ → Double) (sessionId : Text) (ops : List StoreOp)
    (hops : ∀ op ∈ ops, NotDeleting sessionId op) :
    (Machine.Throughout historyStep (TranscriptComplete sessionId) (historyStart clock) ops ↔
        Machine.Throughout historyStep (Unconfused sessionId) (historyStart clock) ops) ∧
      Machine.Along historyStep (TranscriptKept sessionId) (historyStart clock) ops := by
  have hdomain : Machine.Along historyStep (fun _ op => NotDeleting sessionId op)
      (historyStart clock) ops := Machine.along_of_forall hops _
  have harchived : Machine.Throughout historyStep (Archived sessionId) (historyStart clock) ops :=
    Machine.throughout_of_step (fun h op harchived hop => archived_step hop harchived) rfl hdomain
  refine ⟨harchived.congr fun h harchived => transcriptComplete_iff harchived, ?_⟩
  exact hdomain.mono fun h op hop =>
    loadTranscriptMessages_sublist (historyStep_archives (h := h) hop)

/-! ## A rewrite that loses nothing, and two contents with one key -/

theorem unconfused_of_texts {h : History} {sessionId : Text}
    (htexts : ∀ m ∈ h.insertedInto sessionId, ∃ t, m.content = .text t) :
    Unconfused sessionId h := by
  intro m hm m' hm' hnull
  obtain ⟨t, ht⟩ := htexts m hm
  obtain ⟨t', ht'⟩ := htexts m' hm'
  simpa [identityOf, Identity.nullify, ht, ht', contentJson, sortKeys, Json.nullify] using hnull

def keptOps : List StoreOp :=
  [.createSession (js "s") (js "m") (js "/"), .appendMessage (js "s") (userText (js "Hi")),
    .replaceMessages (js "s") [userText (js "Hi"), userText (js "Bye")]]

theorem transcript_complete_rewritten :
    Machine.Throughout historyStep (TranscriptComplete (js "s")) (historyStart fun _ => epoch)
        keptOps ∧
      Machine.Along historyStep (TranscriptKept (js "s")) (historyStart fun _ => epoch) keptOps := by
  obtain ⟨hiff, hkept⟩ := transcript_complete_iff (fun _ => epoch) (js "s") keptOps
    (by simp [keptOps, NotDeleting])
  refine ⟨hiff.mpr ⟨?_, ?_, ?_, ?_⟩, hkept⟩ <;> refine unconfused_of_texts fun m hm => ?_
  · cases hm
  · cases hm
  · have hinserted : m ∈ [userText (js "Hi")] := hm
    exact ⟨js "Hi", by rw [List.mem_singleton.mp hinserted]; rfl⟩
  · have hinserted : m ∈ [userText (js "Hi"), userText (js "Hi"), userText (js "Bye")] := hm
    simp only [List.mem_cons, List.not_mem_nil, or_false] at hinserted
    rcases hinserted with rfl | rfl | rfl <;> exact ⟨_, rfl⟩

/-- Two texts that are read as blocks, one of an infinity and one of `null`. -/
def confusedOps : List StoreOp :=
  [.createSession (js "s") (js "m") (js "/"), .appendMessage (js "s") (userText (js "[1e999]")),
    .appendMessage (js "s") (userText (js "[null]"))]

/-- The content is a list of one block, a `null` or an infinity. -/
def isNullBlock (m : Agent.Message Json) : Bool :=
  match m.content with
  | .blocks [.null] => true
  | _ => false

def isInfinityBlock (m : Agent.Message Json) : Bool :=
  match m.content with
  | .blocks [.num (.infinite _)] => true
  | _ => false

theorem identityOf_ne_of_blocks {m m' : Agent.Message Json} (h : isNullBlock m = true)
    (h' : isInfinityBlock m' = true) : identityOf m' ≠ identityOf m := by
  intro heq
  have hcontent := congrArg Identity.content heq
  rw [isNullBlock] at h
  rw [isInfinityBlock] at h'
  split at h
  · next hm =>
    split at h'
    · next hm' => simp [identityOf, hm, hm', contentJson, sortKeys, sortItems] at hcontent
    · cases h'
  · cases h

theorem transcript_drops_null :
    (∀ op ∈ confusedOps, NotDeleting (js "s") op) ∧
      ¬ Machine.Throughout historyStep (TranscriptComplete (js "s")) (historyStart fun _ => epoch)
        confusedOps := by
  refine ⟨by simp [confusedOps, NotDeleting], fun h => ?_⟩
  have hinserted : ((Machine.run historyStep (historyStart fun _ => epoch)
      confusedOps).insertedInto (js "s")).any isNullBlock = true := by decide +kernel
  have hread : ((Machine.run historyStep (historyStart fun _ => epoch)
      confusedOps).transcript (js "s")).all isInfinityBlock = true := by decide +kernel
  obtain ⟨m, hm, hnull⟩ := List.any_eq_true.mp hinserted
  obtain ⟨x, hx, hxm⟩ := List.mem_map.mp (h.last.complete m hm)
  exact identityOf_ne_of_blocks hnull (List.all_eq_true.mp hread x hx) hxm

end Shizuha.State
