import Shizuha.Machine
import Shizuha.Gateway.Channels
import Shizuha.Proofs.AckedReplies

/-!
# What a chat shows of a reply

Flushes run side by side: the timer, an error and the completion each start one,
and each decides from fields that an earlier one sets only when it is answered.
`replies_shown` is about the runs in which they do not get in each other's way,
and says that the messages are then the whole text, part after part.

The condition is what the code relies on and does not see to: that a first
message has been answered before the next flush, that the flush of a complete
text finds a first message it need not change, and that the last edit is the
last one to arrive.
-/

namespace Shizuha.Gateway

open Js Machine

/-! ## The parts of a text -/

/-- The parts make up the text, but for white space where it was cut. -/
inductive Pieces : List Text → Text → Prop where
  | nil : Pieces [] []
  | cons {part gap rest : Text} {parts : List Text} (hgap : ∀ u ∈ gap, isSpace u = true)
      (h : Pieces parts rest) : Pieces (part :: parts) (part ++ gap ++ rest)

theorem Pieces.whole (text : Text) : Pieces [text] text := by
  have h : Pieces [text] (text ++ [] ++ []) := .cons (fun u hu => by cases hu) .nil
  rwa [List.append_nil, List.append_nil] at h

theorem Pieces.head_length_le {part text : Text} {parts : List Text}
    (h : Pieces (part :: parts) text) : part.length ≤ text.length := by
  cases h
  rw [List.append_assoc, List.length_append]
  exact Nat.le_add_right _ _

section

variable (style : ChatStyle)

/-- A cut takes something. -/
theorem splitAt_pos (text : Text) : 0 < style.splitAt text := by
  have hmax := style.maxLength_pos
  rw [ChatStyle.splitAt]
  split
  · exact hmax
  · split_ifs with hsmall
    · exact hmax
    · omega

/-- White space goes from the front. -/
theorem exists_trimStart (text : Text) :
    ∃ gap, (∀ u ∈ gap, isSpace u = true) ∧ text = gap ++ trimStart text := by
  refine ⟨text.takeWhile isSpace, fun u hu => List.mem_takeWhile_imp hu, ?_⟩
  rw [trimStart, List.takeWhile_append_dropWhile]

theorem length_trimStart_le (text : Text) : (trimStart text).length ≤ text.length :=
  List.length_dropWhile_le _ _

theorem pieces_splitLoop {fuel : ℕ} {text : Text} (h : text.length < fuel) :
    Pieces (style.splitLoop fuel text) text := by
  induction fuel generalizing text with
  | zero => omega
  | succ fuel ih =>
      rw [ChatStyle.splitLoop]
      split_ifs with hnil hshort
      · rw [hnil]
        exact .nil
      · exact .whole text
      · have hpos := splitAt_pos style text
        have htext : 0 < text.length := List.length_pos_iff.mpr hnil
        obtain ⟨gap, hgap, hrest⟩ := exists_trimStart (text.drop (style.splitAt text))
        have hlength := length_trimStart_le (text.drop (style.splitAt text))
        rw [List.length_drop] at hlength
        have hparts : Pieces _ (trimStart (text.drop (style.splitAt text))) := ih (by omega)
        have hpieces : Pieces (text.take (style.splitAt text) :: _) _ := .cons hgap hparts
        rwa [List.append_assoc, ← hrest, List.take_append_drop] at hpieces

/-- The chunks of a message are the whole of it. -/
theorem pieces_splitMessage (text : Text) : Pieces (style.splitMessage text) text := by
  rw [ChatStyle.splitMessage]
  split_ifs with hshort
  · exact .whole text
  · exact pieces_splitLoop style (Nat.lt_succ_self text.length)

theorem splitMessage_ne_nil (text : Text) : style.splitMessage text ≠ [] := by
  intro h
  have hpieces := pieces_splitMessage style text
  rw [h] at hpieces
  cases hpieces
  simp [ChatStyle.splitMessage] at h

end

/-! ## The property -/

/-- The response has ended and no call is under way. -/
structure Settled (s : ReplyState) : Prop where
  complete : s.resp.complete = true
  sent : s.active = false
  enqueued : s.enqueuing = false
  answered : s.calls = []

/-- What is shown in the end is the whole text, once. -/
def Shown (s : ReplyState) : Prop := Settled s → Pieces s.messages s.resp.accumulated

/-- Events come in order: what is streamed, `complete` once, `sendComplete`. -/
def Sequenced (s : ReplyState) : ReplyAction → Prop
  | .content _ | .toolStart _ | .toolComplete _ | .error _ | .complete _ =>
      s.resp.complete = false
  | .sendComplete => s.resp.complete = true
  | _ => True

instance (s : ReplyState) : (action : ReplyAction) → Decidable (Sequenced s action)
  | .content _ | .toolStart _ | .toolComplete _ | .error _ | .complete _ =>
      inferInstanceAs (Decidable (s.resp.complete = false))
  | .sendComplete => inferInstanceAs (Decidable (s.resp.complete = true))
  | .enqueued | .timer | .answered _ => inferInstanceAs (Decidable True)

section

variable (style : ChatStyle)

/-- The chunks of the reply as it is. -/
def ReplyState.chunks (s : ReplyState) : List Text := style.splitMessage s.resp.accumulated

/-- Nothing is under way when a flush posts the first chunk. -/
def Alone (s : ReplyState) : Prop :=
  s.resp.sentMessageId = none → s.resp.accumulated ≠ [] → s.calls = []

/-- The first message shows the first chunk, or will when what is under way
has arrived. -/
def FirstShown (s : ReplyState) : Prop :=
  (∀ pending ∈ s.calls, pending.chunks.head? = (s.chunks style).head?) ∧
    (s.calls = [] → s.messages.head? = (s.chunks style).head?)

/-- The flush of the complete text posts it all, edits it in, or finds its
first chunk shown. -/
def FinalStart (s : ReplyState) : Prop :=
  Alone s ∧ (s.resp.sentMessageId ≠ none → (s.chunks style).length = 1 ∨ FirstShown style s)

/-- What keeps the flushes out of each other's way. -/
def Orderly (s : ReplyState) : ReplyAction → Prop
  | .error error =>
      Alone { s with resp := { s.resp with
          accumulated := s.resp.accumulated ++ style.errorText error } }
  | .timer =>
      s.resp.editTimer = true →
        Alone s ∧ (s.resp.complete = true → (s.chunks style).length = 1)
  | .complete queue =>
      (∀ pending ∈ s.calls, pending.chunks.length = 1) ∧
        (¬(queue = true ∧ s.resp.accumulated ≠ []) → FinalStart style s)
  | .enqueued => s.enqueuing = true → FinalStart style s
  | .answered k =>
      s.resp.complete = true → s.enqueuing = false →
        ∀ pending ∈ s.calls[k]?, pending.call = .edit → k + 1 = s.calls.length → k = 0
  | _ => True

instance (s : ReplyState) : Decidable (Alone s) :=
  inferInstanceAs (Decidable (_ → _ → _))

instance (s : ReplyState) : Decidable (FirstShown style s) :=
  inferInstanceAs (Decidable (_ ∧ (_ → _)))

instance (s : ReplyState) : Decidable (FinalStart style s) :=
  inferInstanceAs (Decidable (_ ∧ (_ → _ ∨ _)))

instance (s : ReplyState) : (action : ReplyAction) → Decidable (Orderly style s action)
  | .error _ => inferInstanceAs (Decidable (Alone _))
  | .timer => inferInstanceAs (Decidable (_ → _ ∧ (_ → _)))
  | .complete _ => inferInstanceAs (Decidable ((∀ pending ∈ s.calls, _) ∧ (¬_ → _)))
  | .enqueued => inferInstanceAs (Decidable (_ → _))
  | .answered k => inferInstanceAs (Decidable (_ → _ → ∀ pending ∈ s.calls[k]?, _ → _ → _))
  | .content _ | .toolStart _ | .toolComplete _ | .sendComplete => inferInstanceAs (Decidable True)

end

/-! ## What a flush starts with -/

section

variable {style : ChatStyle} {resp : ActiveResponse}

theorem formatResponse_ne_nil (h : resp.accumulated ≠ []) : style.formatResponse resp ≠ [] := by
  rw [ChatStyle.formatResponse, if_neg fun hboth => h hboth.1]
  dsimp only
  split_ifs <;> simp [h]

theorem startCalls_empty (h : resp.accumulated = []) : style.startCalls resp = [] := by
  rw [ChatStyle.startCalls]
  cases hcomplete : resp.complete with
  | false => simp [h]
  | true => simp [h, ChatStyle.formatResponse, hcomplete]

theorem startCalls_text (h : resp.accumulated ≠ []) :
    style.startCalls resp =
      match resp.sentMessageId with
      | none => [.post]
      | some _ =>
          if (style.splitMessage (style.formatResponse resp)).length = 1 then [.edit]
          else moreCalls resp.complete (style.splitMessage (style.formatResponse resp)) 1 := by
  cases hsent : resp.sentMessageId with
  | none => simp only [ChatStyle.startCalls, h, false_and, if_false, hsent, formatResponse_ne_nil h]
  | some ref =>
      simp only [ChatStyle.startCalls, h, false_and, if_false, hsent, formatResponse_ne_nil h]

end

/-! ## Phases of a reply -/

section

variable (style : ChatStyle)

/-- Nothing is posted and nothing is under way. -/
structure Unposted (s : ReplyState) : Prop where
  sent : s.resp.sentMessageId = none
  messages : s.messages = []
  calls : s.calls = []

/-- The first chunk is being posted. -/
structure Posting (s : ReplyState) (chunks : List Text) : Prop where
  sent : s.resp.sentMessageId = none
  messages : s.messages = []
  calls : s.calls = [⟨.post, chunks, 0⟩]

/-- Calls that set the text of the first message. -/
def Edits (calls : List PendingCall) : Prop :=
  ∀ pending ∈ calls, pending.call = .edit ∧ pending.messageId = 0 ∧ pending.chunks.length = 1

/-- One message is there, and what is under way edits it. -/
structure Following (s : ReplyState) : Prop where
  sent : s.resp.sentMessageId = some 0
  messages : ∃ text, s.messages = [text]
  calls : Edits s.calls

/-- Before the flush of the complete text. -/
inductive Streaming (s : ReplyState) : Prop where
  | fresh (h : Unposted s)
  | posting (chunks : List Text) (h : Posting s chunks) (htext : s.resp.accumulated ≠ [])
      (hone : s.resp.complete = true → chunks.length = 1)
  | following (h : Following s) (htext : s.resp.accumulated ≠ [])

/-- The messages from the second on are being posted, up to the `i`-th. -/
structure Continuing (s : ReplyState) (edits : List PendingCall) (i : ℕ) : Prop where
  sent : s.resp.sentMessageId = some 0
  first : 1 ≤ i
  bound : i ≤ (s.chunks style).length
  messages : ∃ text, s.messages = text :: ((s.chunks style).take i).tail ∧
    (edits = [] → (s.chunks style).head? = some text)
  editing : Edits edits
  shown : ∀ pending ∈ edits, pending.chunks.head? = (s.chunks style).head?
  calls : s.calls = edits ++
    (moreCalls true (s.chunks style) i).map fun call => ⟨call, s.chunks style, 0⟩

/-- After the flush of the complete text has started. -/
inductive Final (s : ReplyState) : Prop where
  | nothing (h : Unposted s) (htext : s.resp.accumulated = [])
  | posting (h : Posting s (s.chunks style))
  | one (chunk : Text) (hchunk : s.chunks style = [chunk]) (h : Following s)
      (hshown : s.calls = [] → s.messages = [chunk])
      (hlast : ∀ pending ∈ s.calls.getLast?, pending.chunks = [chunk])
  | several (edits : List PendingCall) (i : ℕ) (h : Continuing style s edits i)

/-- What holds in every state of an orderly run. -/
structure Kept (s : ReplyState) : Prop where
  streaming : ¬(s.resp.complete = true ∧ s.enqueuing = false) → Streaming s
  final : s.resp.complete = true ∧ s.enqueuing = false → Final style s
  enqueuing : s.enqueuing = true → s.resp.complete = true

end

section

variable {style : ChatStyle} {s s' : ReplyState}

/-- What a final state shows when no call is under way. -/
theorem Final.shown (h : Final style s) (hcalls : s.calls = []) :
    Pieces s.messages s.resp.accumulated := by
  have hpieces : Pieces (s.chunks style) s.resp.accumulated := pieces_splitMessage style _
  cases h with
  | nothing h htext =>
      rw [h.messages, htext]
      exact .nil
  | posting h =>
      rw [h.calls] at hcalls
      cases hcalls
  | one chunk hchunk h hshown hlast =>
      rw [hshown hcalls, ← hchunk]
      exact hpieces
  | several edits i h =>
      obtain ⟨text, hmessages, htext⟩ := h.messages
      have hnone := h.calls.symm.trans hcalls
      obtain ⟨hedits, hmore⟩ := List.append_eq_nil_iff.mp hnone
      have hend : i = (s.chunks style).length := by
        have hbound := h.bound
        by_contra hne
        rw [moreCalls, if_pos ⟨rfl, by omega⟩] at hmore
        cases hmore
      rw [hmessages, hend, List.take_length]
      have hhead := htext hedits
      cases hchunks : s.chunks style with
      | nil =>
          rw [hchunks] at hhead
          cases hhead
      | cons chunk rest =>
          rw [hchunks] at hhead hpieces
          cases hhead
          exact hpieces

theorem Kept.shown (h : Kept style s) : Shown s := fun hsettled =>
  (h.final ⟨hsettled.complete, hsettled.enqueued⟩).shown hsettled.answered

/-! ## A flush starts -/

theorem startFlush_empty (h : s.resp.accumulated = []) : style.startFlush s = s := by
  rw [ChatStyle.startFlush, startCalls_empty h, List.map_nil, List.append_nil]

theorem edits_concat {calls : List PendingCall} {chunks : List Text} (h : Edits calls)
    (hone : chunks.length = 1) : Edits (calls ++ [⟨.edit, chunks, 0⟩]) := by
  intro pending hpending
  rcases List.mem_append.mp hpending with hpending | hpending
  · exact h pending hpending
  · rw [List.mem_singleton.mp hpending]
    exact ⟨rfl, rfl, hone⟩

/-- The chunks of a flush of a complete text are those of the text. -/
theorem chunks_of_complete (hcomplete : s.resp.complete = true) (htext : s.resp.accumulated ≠ []) :
    style.splitMessage (style.formatResponse s.resp) = s.chunks style := by
  rw [formatResponse_complete hcomplete htext, ReplyState.chunks]

theorem Streaming.startFlush (h : Streaming s) (halone : Alone s)
    (hone : s.resp.complete = true → (s.chunks style).length = 1) :
    Streaming (style.startFlush s) := by
  by_cases htext : s.resp.accumulated = []
  · rwa [startFlush_empty htext]
  cases h with
  | fresh h =>
      refine .posting (style.splitMessage (style.formatResponse s.resp))
        ⟨h.sent, h.messages, ?_⟩ htext ?_
      · rw [ChatStyle.startFlush, startCalls_text htext, h.sent, h.calls]
        rfl
      · intro hcomplete
        have hchunks := @chunks_of_complete style s hcomplete htext
        rw [hchunks]
        exact hone hcomplete
  | posting chunks h =>
      have hnone := halone h.sent htext
      rw [h.calls] at hnone
      cases hnone
  | following h =>
      refine .following ⟨h.sent, h.messages, ?_⟩ htext
      rw [ChatStyle.startFlush, startCalls_text htext, h.sent]
      dsimp only
      split_ifs with hlength
      · exact edits_concat h.calls hlength
      · cases hcomplete : s.resp.complete with
        | false =>
            rw [moreCalls, if_neg (by simp), List.map_nil, List.append_nil]
            exact h.calls
        | true =>
            rw [chunks_of_complete hcomplete htext] at hlength
            exact absurd (hone hcomplete) hlength

/-- A flush of a text of one chunk, once there is a message to edit. -/
theorem one_startFlush {chunk : Text} (h : Following s) (hcomplete : s.resp.complete = true)
    (htext : s.resp.accumulated ≠ []) (hchunk : s.chunks style = [chunk]) :
    Final style (style.startFlush s) := by
  have hcalls : (style.startFlush s).calls = s.calls ++ [⟨.edit, [chunk], 0⟩] := by
    rw [ChatStyle.startFlush, startCalls_text htext, h.sent, chunks_of_complete hcomplete htext,
      hchunk]
    rfl
  refine .one chunk hchunk ⟨h.sent, h.messages, ?_⟩ ?_ ?_
  · rw [hcalls]
    exact edits_concat h.calls rfl
  · intro hnone
    rw [hcalls] at hnone
    simp at hnone
  · intro pending hpending
    rw [hcalls, List.getLast?_concat] at hpending
    cases hpending
    rfl

/-- The flush of the complete text. -/
theorem Streaming.finalFlush (h : Streaming s) (hstart : FinalStart style s)
    (hcomplete : s.resp.complete = true) : Final style (style.startFlush s) := by
  obtain ⟨halone, hfirst⟩ := hstart
  by_cases htext : s.resp.accumulated = []
  · rw [startFlush_empty htext]
    cases h with
    | fresh h => exact .nothing h htext
    | posting chunks h htext' => exact absurd htext htext'
    | following h htext' => exact absurd htext htext'
  cases h with
  | fresh h =>
      refine .posting ⟨h.sent, h.messages, ?_⟩
      rw [ChatStyle.startFlush, startCalls_text htext, h.sent, h.calls,
        chunks_of_complete hcomplete htext]
      rfl
  | posting chunks h =>
      have hnone := halone h.sent htext
      rw [h.calls] at hnone
      cases hnone
  | following h =>
      have hsent : s.resp.sentMessageId ≠ none := by
        rw [h.sent]
        exact Option.some_ne_none 0
      by_cases hone : (s.chunks style).length = 1
      · obtain ⟨chunk, hchunk⟩ := List.length_eq_one_iff.mp hone
        exact one_startFlush h hcomplete htext hchunk
      · obtain ⟨hpending, hshown⟩ := (hfirst hsent).resolve_left hone
        obtain ⟨text, hmessages⟩ := h.messages
        have hne : 0 < (s.chunks style).length :=
          List.length_pos_iff.mpr (splitMessage_ne_nil style _)
        refine .several s.calls 1 ⟨h.sent, le_rfl, hne, ⟨text, ?_, ?_⟩, h.calls, hpending, ?_⟩
        · cases hchunks : s.chunks style with
          | nil =>
              rw [hchunks] at hne
              cases hne
          | cons chunk rest =>
              rw [show (style.startFlush s).chunks style = s.chunks style from rfl, hchunks]
              exact hmessages
        · intro hnone
          have hhead := hshown hnone
          rw [hmessages] at hhead
          exact hhead.symm
        · rw [ChatStyle.startFlush, startCalls_text htext, h.sent,
            chunks_of_complete hcomplete htext, hcomplete]
          dsimp only
          rw [if_neg hone]
          rfl

/-- A flush of the timer after that. -/
theorem Final.startFlush (h : Final style s) (halone : Alone s)
    (hone : (s.chunks style).length = 1) (hcomplete : s.resp.complete = true) :
    Final style (style.startFlush s) := by
  by_cases htext : s.resp.accumulated = []
  · rwa [startFlush_empty htext]
  cases h with
  | nothing h htext' => exact absurd htext' htext
  | posting h =>
      have hnone := halone h.sent htext
      rw [h.calls] at hnone
      cases hnone
  | one chunk hchunk h => exact one_startFlush h hcomplete htext hchunk
  | several edits i h =>
      obtain ⟨chunk, hchunk⟩ := List.length_eq_one_iff.mp hone
      obtain ⟨text, hmessages, hhead⟩ := h.messages
      have hi : i = 1 := by
        have hfirst := h.first
        have hbound := h.bound
        omega
      subst hi
      have hcalls := h.calls
      rw [moreCalls, hchunk, if_neg (by simp), List.map_nil, List.append_nil] at hcalls
      refine one_startFlush ⟨h.sent, ⟨text, ?_⟩, ?_⟩ hcomplete htext hchunk
      · rw [hmessages, hchunk]
        rfl
      · rw [hcalls]
        exact h.editing

/-! ## A call is answered -/

/-- The answer to an edit. -/
theorem answered_edit {k : ℕ} {pending : PendingCall} (hk : s.calls[k]? = some pending)
    (hcall : pending.call = .edit) :
    style.replyStep s (.answered k) =
      { s with
        messages := s.messages.set pending.messageId (pending.chunks.getD 0 [])
        calls := s.calls.eraseIdx k } := by
  obtain ⟨call, chunks, id⟩ := pending
  cases hcall
  simp [ChatStyle.replyStep, hk, PendingCall.perform, FlushCall.content, FlushCall.isPlain,
    FlushCall.index, FlushCall.noted, ChatStyle.next]

/-- The answer to the first post. -/
theorem answered_post {k id : ℕ} {chunks : List Text}
    (hk : s.calls[k]? = some ⟨.post, chunks, id⟩) :
    style.replyStep s (.answered k) =
      { s with
        messages := s.messages ++ [chunks.getD 0 []]
        resp := { s.resp with sentMessageId := some s.messages.length }
        calls := s.calls.eraseIdx k ++
          (moreCalls s.resp.complete chunks 1).map fun call => ⟨call, chunks, id⟩ } := by
  simp [ChatStyle.replyStep, hk, PendingCall.perform, FlushCall.content, FlushCall.isPlain,
    FlushCall.index, FlushCall.noted, ChatStyle.next]

/-- The answer to a later post. -/
theorem answered_more {k i id : ℕ} {chunks : List Text}
    (hk : s.calls[k]? = some ⟨.more i, chunks, id⟩) :
    style.replyStep s (.answered k) =
      { s with
        messages := s.messages ++ [chunks.getD i []]
        calls := s.calls.eraseIdx k ++
          (moreCalls s.resp.complete chunks (i + 1)).map fun call => ⟨call, chunks, id⟩ } := by
  simp [ChatStyle.replyStep, hk, PendingCall.perform, FlushCall.content, FlushCall.isPlain,
    FlushCall.index, FlushCall.noted, ChatStyle.next]

theorem answered_none {k : ℕ} (hk : s.calls[k]? = none) :
    style.replyStep s (.answered k) = s := by
  rw [ChatStyle.replyStep, hk]

theorem edits_eraseIdx {calls : List PendingCall} (h : Edits calls) (k : ℕ) :
    Edits (calls.eraseIdx k) :=
  fun pending hpending => h pending (List.mem_of_mem_eraseIdx hpending)

/-- An answer among edits of the one message. -/
theorem Following.answered_edit {k : ℕ} {pending : PendingCall} (h : Following s)
    (hk : s.calls[k]? = some pending) :
    Following (style.replyStep s (.answered k)) ∧
      (style.replyStep s (.answered k)).messages = [pending.chunks.getD 0 []] ∧
      (style.replyStep s (.answered k)).calls = s.calls.eraseIdx k := by
  obtain ⟨hcall, hid, -⟩ := h.calls pending (List.mem_of_getElem? hk)
  obtain ⟨text, hmessages⟩ := h.messages
  have hset : s.messages.set pending.messageId (pending.chunks.getD 0 []) =
      [pending.chunks.getD 0 []] := by
    rw [hid, hmessages]
    rfl
  rw [Gateway.answered_edit hk hcall, hset]
  exact ⟨⟨h.sent, ⟨_, rfl⟩, edits_eraseIdx h.calls k⟩, rfl, rfl⟩

theorem eq_of_getElem?_singleton {α : Type} {a b : α} {k : ℕ} (h : [a][k]? = some b) :
    k = 0 ∧ b = a := by
  cases k with
  | zero => exact ⟨rfl, (Option.some.inj h).symm⟩
  | succ k => cases h

theorem Streaming.answered (h : Streaming s) (k : ℕ) :
    Streaming (style.replyStep s (.answered k)) := by
  cases hk : s.calls[k]? with
  | none => rwa [answered_none hk]
  | some pending =>
      cases h with
      | fresh h =>
          rw [h.calls] at hk
          cases hk
      | posting chunks h htext hone =>
          obtain ⟨rfl, rfl⟩ := eq_of_getElem?_singleton (h.calls ▸ hk)
          have hmore : moreCalls s.resp.complete chunks 1 = [] := by
            refine if_neg fun hboth => ?_
            have hlength := hone hboth.1
            omega
          rw [answered_post hk, hmore, h.messages, h.calls]
          exact .following ⟨rfl, ⟨_, rfl⟩, fun pending hpending => by cases hpending⟩ htext
      | following h htext =>
          refine .following (h.answered_edit hk).1 ?_
          rwa [Gateway.answered_edit hk (h.calls pending (List.mem_of_getElem? hk)).1]

/-- Only what is not last is taken out of the list. -/
theorem getLast?_eraseIdx {α : Type} {l : List α} {k : ℕ} (hk : k + 1 < l.length) :
    (l.eraseIdx k).getLast? = l.getLast? := by
  rw [List.getLast?_eq_getElem?, List.getLast?_eq_getElem?, List.length_eraseIdx_of_lt (by omega),
    List.getElem?_eraseIdx, if_neg (by omega)]
  congr 1
  omega

/-- The last of the edits leaves its chunk. -/
theorem one_answered {k : ℕ} {pending : PendingCall} {chunk : Text} (h : Following s)
    (hchunk : s.chunks style = [chunk])
    (hlastcall : ∀ pending ∈ s.calls.getLast?, pending.chunks = [chunk])
    (hk : s.calls[k]? = some pending) (hlast : k + 1 = s.calls.length → k = 0) :
    Final style (style.replyStep s (.answered k)) := by
  obtain ⟨hfollowing, hmessages, hcalls⟩ := @Following.answered_edit style s k pending h hk
  have hedit := (h.calls pending (List.mem_of_getElem? hk)).1
  have hlt : k < s.calls.length := (List.getElem?_eq_some_iff.mp hk).1
  have hsame : (style.replyStep s (.answered k)).chunks style = [chunk] := by
    rwa [Gateway.answered_edit hk hedit]
  by_cases hend : k + 1 = s.calls.length
  · obtain rfl : k = 0 := hlast hend
    obtain ⟨only, honly⟩ := List.length_eq_one_iff.mp hend.symm
    rw [honly] at hk hcalls
    cases hk
    have hshown : pending.chunks = [chunk] := hlastcall pending (by rw [honly]; rfl)
    refine .one chunk hsame hfollowing (fun _ => ?_) fun other hother => ?_
    · rw [hmessages, hshown]
      rfl
    · rw [hcalls] at hother
      cases hother
  · refine .one chunk hsame hfollowing (fun hnone => ?_) fun other hother => ?_
    · rw [hcalls] at hnone
      have hlength := congrArg List.length hnone
      rw [List.length_eraseIdx_of_lt hlt, List.length_nil] at hlength
      omega
    · rw [hcalls, getLast?_eraseIdx (by omega)] at hother
      exact hlastcall other hother

theorem Continuing.answered {edits : List PendingCall} {i k : ℕ} {pending : PendingCall}
    (h : Continuing style s edits i) (hcomplete : s.resp.complete = true)
    (hk : s.calls[k]? = some pending) : Final style (style.replyStep s (.answered k)) := by
  obtain ⟨text, hmessages, htext⟩ := h.messages
  have hk' := hk
  rw [h.calls] at hk'
  by_cases hedits : k < edits.length
  · -- one of the edits
    rw [List.getElem?_append_left hedits] at hk'
    have hmem := List.mem_of_getElem? hk'
    obtain ⟨hcall, hid, -⟩ := h.editing pending hmem
    rw [Gateway.answered_edit hk hcall]
    refine .several (edits.eraseIdx k) i ⟨h.sent, h.first, h.bound, ?_,
      edits_eraseIdx h.editing k, fun other hother => ?_, ?_⟩
    · refine ⟨pending.chunks.getD 0 [], ?_, fun _ => ?_⟩
      · rw [hid, hmessages]
        rfl
      · have hhead := h.shown pending hmem
        have hone := (h.editing pending hmem).2.2
        obtain ⟨chunk, hchunk⟩ := List.length_eq_one_iff.mp hone
        rw [hchunk] at hhead ⊢
        exact hhead.symm
    · exact h.shown other (List.mem_of_mem_eraseIdx hother)
    · show s.calls.eraseIdx k = _
      rw [h.calls, List.eraseIdx_append_of_lt_length hedits]
      rfl
  · -- the post
    rw [List.getElem?_append_right (by omega)] at hk'
    have hmore : i < (s.chunks style).length := by
      by_contra hne
      rw [moreCalls, if_neg fun hboth => hne hboth.2] at hk'
      cases hk'
    rw [moreCalls, if_pos ⟨rfl, hmore⟩] at hk'
    obtain ⟨hzero, rfl⟩ := eq_of_getElem?_singleton hk'
    have hlast : k = edits.length := by omega
    rw [answered_more hk, hcomplete]
    refine .several edits (i + 1) ⟨h.sent, by omega, hmore, ⟨text, ?_, htext⟩, h.editing,
      h.shown, ?_⟩
    · show s.messages ++ [(s.chunks style).getD i []] =
        text :: ((s.chunks style).take (i + 1)).tail
      have hne : (s.chunks style).take i ≠ [] := by
        have hfirst := h.first
        rw [Ne, List.take_eq_nil_iff]
        rintro (hzero | hnil)
        · omega
        · rw [hnil] at hmore
          cases hmore
      rw [hmessages, List.take_succ_eq_append_getElem hmore, List.tail_append_of_ne_nil hne,
        List.getD_eq_getElem?_getD, List.getElem?_eq_getElem hmore, List.cons_append]
      rfl
    · show s.calls.eraseIdx k ++ _ = _
      rw [h.calls, hlast, List.eraseIdx_append_of_length_le le_rfl, Nat.sub_self, moreCalls,
        if_pos ⟨rfl, hmore⟩]
      simp only [List.map_cons, List.map_nil, List.eraseIdx_cons_zero, List.append_nil]
      rfl

theorem Final.answered {k : ℕ} (h : Final style s) (hcomplete : s.resp.complete = true)
    (hlast : ∀ pending ∈ s.calls[k]?, pending.call = .edit → k + 1 = s.calls.length → k = 0) :
    Final style (style.replyStep s (.answered k)) := by
  cases hk : s.calls[k]? with
  | none => rwa [answered_none hk]
  | some pending =>
      cases h with
      | nothing h =>
          rw [h.calls] at hk
          cases hk
      | posting h =>
          obtain ⟨rfl, rfl⟩ := eq_of_getElem?_singleton (h.calls ▸ hk)
          have hpos : 0 < (s.chunks style).length :=
            List.length_pos_iff.mpr (splitMessage_ne_nil style _)
          obtain ⟨chunk, rest, hchunks⟩ := List.exists_cons_of_length_pos hpos
          refine .several [] 1 ?_
          rw [answered_post hk, hcomplete, h.messages, h.calls]
          refine ⟨rfl, le_rfl, hpos, ⟨chunk, ?_, fun _ => ?_⟩, ?_, ?_, rfl⟩
          · show [(s.chunks style).getD 0 []] = chunk :: ((s.chunks style).take 1).tail
            rw [hchunks]
            rfl
          · show (s.chunks style).head? = some chunk
            rw [hchunks]
            rfl
          · exact fun pending hpending => by cases hpending
          · exact fun pending hpending => by cases hpending
      | one chunk hchunk h hshown hlastcall =>
          have hedit := (h.calls pending (List.mem_of_getElem? hk)).1
          exact one_answered h hchunk hlastcall hk (hlast pending hk hedit)
      | several edits i h => exact h.answered hcomplete hk

/-! ## Runs -/

/-- What a phase looks at. -/
structure SameChat (s s' : ReplyState) : Prop where
  sent : s'.resp.sentMessageId = s.resp.sentMessageId
  messages : s'.messages = s.messages
  calls : s'.calls = s.calls

theorem Streaming.congr (h : Streaming s) (hsame : SameChat s s')
    (htext : s.resp.accumulated ≠ [] → s'.resp.accumulated ≠ [])
    (hcomplete : s'.resp.complete = true → s.resp.complete = true ∨
      ∀ pending ∈ s.calls, pending.chunks.length = 1) : Streaming s' := by
  obtain ⟨hsent, hmessages, hcalls⟩ := hsame
  cases h with
  | fresh h => exact .fresh ⟨hsent.trans h.sent, hmessages.trans h.messages, hcalls.trans h.calls⟩
  | posting chunks h htext' hone =>
      refine .posting chunks ⟨hsent.trans h.sent, hmessages.trans h.messages,
        hcalls.trans h.calls⟩ (htext htext') fun hdone => ?_
      rcases hcomplete hdone with hdone | hsingle
      · exact hone hdone
      · exact hsingle ⟨.post, chunks, 0⟩ (by rw [h.calls]; exact List.mem_cons_self)
  | following h htext' =>
      obtain ⟨text, hshown⟩ := h.messages
      exact .following ⟨hsent.trans h.sent, ⟨text, hmessages.trans hshown⟩, hcalls ▸ h.calls⟩
        (htext htext')

theorem Final.congr (h : Final style s) (hsame : SameChat s s')
    (htext : s'.resp.accumulated = s.resp.accumulated) : Final style s' := by
  obtain ⟨hsent, hmessages, hcalls⟩ := hsame
  have hchunks : s'.chunks style = s.chunks style := by
    rw [ReplyState.chunks, htext, ReplyState.chunks]
  cases h with
  | nothing h htext' =>
      exact .nothing ⟨hsent.trans h.sent, hmessages.trans h.messages, hcalls.trans h.calls⟩
        (htext.trans htext')
  | posting h =>
      refine .posting ⟨hsent.trans h.sent, hmessages.trans h.messages, ?_⟩
      rw [hcalls, hchunks, h.calls]
  | one chunk hchunk h hshown hlast =>
      obtain ⟨text, hone⟩ := h.messages
      refine .one chunk (hchunks.trans hchunk)
        ⟨hsent.trans h.sent, ⟨text, hmessages.trans hone⟩, hcalls ▸ h.calls⟩ ?_ ?_
      · rwa [hcalls, hmessages]
      · rwa [hcalls]
  | several edits i h =>
      refine .several edits i ⟨hsent.trans h.sent, h.first, ?_, ?_, h.editing, ?_, ?_⟩
      · rw [hchunks]
        exact h.bound
      · rw [hchunks, hmessages]
        exact h.messages
      · rw [hchunks]
        exact h.shown
      · rw [hcalls, hchunks]
        exact h.calls

/-- Before `complete` only the stream has to go on. -/
theorem kept_of_streaming (h : Streaming s) (hcomplete : s.resp.complete = false)
    (henqueuing : s.enqueuing = false) : Kept style s where
  streaming _ := h
  final hboth := by rw [hcomplete] at hboth; cases hboth.1
  enqueuing hyes := by rw [henqueuing] at hyes; cases hyes

theorem kept_of_final (h : Final style s) (hcomplete : s.resp.complete = true)
    (henqueuing : s.enqueuing = false) : Kept style s where
  streaming hnot := absurd ⟨hcomplete, henqueuing⟩ hnot
  final _ := h
  enqueuing hyes := by rw [henqueuing] at hyes; cases hyes

theorem Kept.streaming_of_open (h : Kept style s) (hcomplete : s.resp.complete = false) :
    Streaming s ∧ s.enqueuing = false := by
  constructor
  · refine h.streaming fun hboth => ?_
    rw [hcomplete] at hboth
    cases hboth.1
  · cases henqueuing : s.enqueuing with
    | false => rfl
    | true =>
        have hdone := h.enqueuing henqueuing
        rw [hcomplete] at hdone
        cases hdone

theorem Kept.event (h : Kept style s) {action : ReplyAction} (hseq : Sequenced s action)
    (hC : Orderly style s action) : Kept style (style.event s action) := by
  cases action with
  | content text =>
      obtain ⟨hstreaming, henqueuing⟩ := h.streaming_of_open hseq
      refine kept_of_streaming (hstreaming.congr ⟨rfl, rfl, rfl⟩ (fun htext hnil => ?_) Or.inl)
        hseq henqueuing
      exact htext (List.append_eq_nil_iff.mp hnil).1
  | toolStart toolName =>
      obtain ⟨hstreaming, henqueuing⟩ := h.streaming_of_open hseq
      exact kept_of_streaming (hstreaming.congr ⟨rfl, rfl, rfl⟩ id Or.inl) hseq henqueuing
  | toolComplete toolName =>
      obtain ⟨hstreaming, henqueuing⟩ := h.streaming_of_open hseq
      exact kept_of_streaming (hstreaming.congr ⟨rfl, rfl, rfl⟩ id Or.inl) hseq henqueuing
  | error error =>
      obtain ⟨hstreaming, henqueuing⟩ := h.streaming_of_open hseq
      refine kept_of_streaming (Streaming.startFlush (hstreaming.congr ⟨rfl, rfl, rfl⟩
        (fun htext hnil => ?_) Or.inl) hC fun hdone => ?_) hseq henqueuing
      · exact htext (List.append_eq_nil_iff.mp hnil).1
      · rw [show s.resp.complete = false from hseq] at hdone
        cases hdone
  | complete queue =>
      obtain ⟨hstreaming, henqueuing⟩ := h.streaming_of_open hseq
      obtain ⟨hsingle, hstart⟩ := hC
      have hstreaming' : Streaming { s with resp := { s.resp with complete := true } } :=
        hstreaming.congr ⟨rfl, rfl, rfl⟩ id fun _ => Or.inr hsingle
      rw [ChatStyle.event]
      dsimp only
      by_cases hqueue : queue = true ∧ s.resp.accumulated ≠ []
      · rw [if_pos hqueue]
        exact ⟨fun _ => hstreaming'.congr ⟨rfl, rfl, rfl⟩ id Or.inl,
          fun hboth => Bool.noConfusion hboth.2, fun _ => rfl⟩
      · rw [if_neg hqueue]
        exact kept_of_final (hstreaming'.finalFlush (hstart hqueue) rfl) rfl henqueuing
  | sendComplete =>
      refine ⟨fun hnot => (h.streaming hnot).congr ⟨rfl, rfl, rfl⟩ id Or.inl,
        fun hboth => (h.final hboth).congr ⟨rfl, rfl, rfl⟩ rfl, h.enqueuing⟩
  | _ => exact h

theorem Kept.step (h : Kept style s) {action : ReplyAction} (hseq : Sequenced s action)
    (hC : Orderly style s action) : Kept style (style.replyStep s action) := by
  have hevent : Kept style (if s.active then style.event s action else s) := by
    split_ifs
    · exact h.event hseq hC
    · exact h
  cases action with
  | enqueued =>
      rw [ChatStyle.replyStep]
      split_ifs with henqueuing
      · have hcomplete := h.enqueuing henqueuing
        have hstreaming : Streaming { s with enqueuing := false } :=
          (h.streaming fun hboth => by rw [henqueuing] at hboth; cases hboth.2).congr
            ⟨rfl, rfl, rfl⟩ id Or.inl
        exact kept_of_final (hstreaming.finalFlush (hC henqueuing) hcomplete) hcomplete rfl
      · exact h
  | timer =>
      rw [ChatStyle.replyStep]
      split_ifs with htimer
      · obtain ⟨halone, hone⟩ := hC htimer
        refine ⟨fun hnot => ?_, fun hboth => ?_, h.enqueuing⟩
        · have hunset : Streaming { s with resp := { s.resp with editTimer := false } } :=
            (h.streaming hnot).congr ⟨rfl, rfl, rfl⟩ id Or.inl
          exact hunset.startFlush halone hone
        · have hunset : Final style { s with resp := { s.resp with editTimer := false } } :=
            (h.final hboth).congr ⟨rfl, rfl, rfl⟩ rfl
          exact hunset.startFlush halone (hone hboth.1) hboth.1
      · exact h
  | answered k =>
      have hsame : (style.replyStep s (.answered k)).resp.complete = s.resp.complete ∧
          (style.replyStep s (.answered k)).enqueuing = s.enqueuing := by
        rw [ChatStyle.replyStep]
        cases s.calls[k]? <;> exact ⟨rfl, rfl⟩
      refine ⟨fun hnot => ?_, fun hboth => ?_, ?_⟩
      · rw [hsame.1, hsame.2] at hnot
        exact (h.streaming hnot).answered k
      · rw [hsame.1, hsame.2] at hboth
        exact (h.final hboth).answered hboth.1 (hC hboth.1 hboth.2)
      · rw [hsame.1, hsame.2]
        exact h.enqueuing
  | _ => exact hevent

end

/-- In every orderly run the messages are the whole text once the response has
ended and every call is answered. -/
theorem replies_shown (style : ChatStyle) (actions : List ReplyAction)
    (hseq : Along style.replyStep Sequenced opened actions)
    (hC : Along style.replyStep (Orderly style) opened actions) :
    Throughout style.replyStep Shown opened actions :=
  (throughout_of_step (fun _ _ h hboth => Kept.step h hboth.1 hboth.2)
    (kept_of_streaming (.fresh ⟨rfl, rfl, rfl⟩) rfl rfl) (hseq.and hC)).mono fun _ h => h.shown

/-- A post, an edit and the end, each answered before the next. -/
def oneByOne : List ReplyAction :=
  [.content (js "a"), .timer, .answered 0, .content (js "b"), .timer, .answered 0,
    .complete false, .answered 0, .sendComplete]

theorem replies_shown_oneByOne :
    Throughout discord.replyStep Shown opened oneByOne :=
  replies_shown discord oneByOne (by decide) (by decide)

/-- The timer fires twice before the first post is answered. -/
def twoPosts : List ReplyAction :=
  [.content (js "a"), .timer, .content (js "b"), .timer, .answered 0, .answered 0,
    .complete false, .answered 0, .sendComplete]

theorem reply_shown_twice :
    ¬ ∀ actions, Along discord.replyStep Sequenced opened actions →
      Throughout discord.replyStep Shown opened actions := by
  intro h
  have hshown := (h twoPosts (by decide)).last ⟨by decide, by decide, by decide, by decide⟩
  have hmessages : (run discord.replyStep opened twoPosts).messages =
      [js "a **|**", js "ab"] := by decide
  have htext : (run discord.replyStep opened twoPosts).resp.accumulated = js "ab" := by decide
  rw [hmessages, htext] at hshown
  have hlength := hshown.head_length_le
  revert hlength
  decide

end Shizuha.Gateway
