import Mathlib.Tactic.SplitIfs
import Shizuha.Provider.StreamedToolCalls

/-!
# What a delta does to the calls

A delta starts a call or goes on with one. Either way it says what happens in
terms of what the map holds, whatever keys the calls are under: a call that is
started is one more, a call that is continued takes the place of what it was,
and under every index but its own a call that is there stays there. Nothing is
said of where a call is moved to.
-/

namespace Shizuha.Provider

open Js

theorem parkedKey_injective : Function.Injective parkedKey := by
  intro m n h
  exact_mod_cast Option.some.inj h

section Park

variable {builders : ToolCallBuilders} {index : Option ℚ} {opened : ToolCallBuilder}

/-- Moving a call loses none, and frees its index. -/
theorem park_values (h : builders.find index = some opened) :
    (park builders index).values.Perm builders.values := by
  rw [park, h]
  dsimp only
  have hfree := builders.find_firstFree parkedKey_injective (1000 + builders.size)
  generalize parkedKey (builders.firstFree parkedKey builders.size (1000 + builders.size)) = key
    at hfree ⊢
  have hne : index ≠ key := by
    rintro rfl
    rw [h] at hfree
    cases hfree
  have hfind : (builders.set key opened).find index = some opened := by
    rw [Map.find_set, if_neg hne, h]
  exact List.Perm.cons_inv
    ((Map.values_remove hfind).symm.trans (Map.values_set_new hfree opened))

theorem find_park_self : (park builders index).find index = none := by
  rw [park]
  cases h : builders.find index with
  | none => exact h
  | some opened =>
      dsimp only
      rw [Map.find_remove, if_pos rfl]

theorem find_park_ne {j : Option ℚ} (hj : j ≠ index) {b : ToolCallBuilder}
    (hb : builders.find j = some b) : (park builders index).find j = some b := by
  rw [park]
  cases h : builders.find index with
  | none => exact hb
  | some opened =>
      dsimp only
      have hfree := builders.find_firstFree parkedKey_injective (1000 + builders.size)
      rw [Map.find_remove, if_neg hj, Map.find_set, if_neg, hb]
      rintro rfl
      rw [hb] at hfree
      cases hfree

/-- A call is moved to 1000 or above. -/
theorem find_park_some {j : Option ℚ} {b : ToolCallBuilder} (hb : (park builders index).find j = some b) :
    builders.find j = some b ∨ ∃ n, j = parkedKey (1000 + n) := by
  rw [park] at hb
  cases h : builders.find index with
  | none =>
      rw [h] at hb
      exact .inl hb
  | some opened =>
      rw [h] at hb
      dsimp only at hb
      have hle := builders.le_firstFree parkedKey builders.size (1000 + builders.size)
      rw [Map.find_remove, Map.find_set] at hb
      split_ifs at hb with hindex hkey
      · refine .inr ⟨builders.firstFree parkedKey builders.size (1000 + builders.size) - 1000, ?_⟩
        rw [hkey, Nat.add_sub_cancel' (by omega)]
      · exact .inl hb

end Park

/-! ## One delta -/

/-- Whether a delta starts a call: there is none under its index, or another. -/
def startsCall (t : VLlmTurn) (builders : ToolCallBuilders) (tc : ToolCallDelta) : Bool :=
  (builders.find tc.index).all fun b =>
    streamedToolCallIdentityChanged b tc.id (some (t.resolve (bareName tc.name)))

/-- The call a delta starts. -/
def newBuilder (t : VLlmTurn) (s : StreamState) (tc : ToolCallDelta) : ToolCallBuilder :=
  ⟨streamedToolCallIdForNewBuilder (s.toolCallBuilders.find tc.index) tc.id
    (t.generatedId s.idsMade), t.resolve (bareName tc.name), []⟩

/-- The state after a delta, of which only what it says is known. -/
structure Delivered (s s' : StreamState) (tc : ToolCallDelta) (b : ToolCallBuilder)
    (events : List ToolEvent) : Prop where
  found : s'.toolCallBuilders.find tc.index = some b
  others : ∀ j b', j ≠ tc.index → s.toolCallBuilders.find j = some b' →
    s'.toolCallBuilders.find j = some b'
  events : s'.events = s.events ++ events
  ever : s.everBuiltToolCall = true → s'.everBuiltToolCall = true
  saw : s'.sawStreamedToolCall = s.sawStreamedToolCall
  content : s'.accContent = s.accContent
  reasoning : s'.accReasoning = s.accReasoning
  keys : ∀ j b', s'.toolCallBuilders.find j = some b' → j = tc.index ∨
    (∃ n, j = parkedKey (1000 + n)) ∨ (s.toolCallBuilders.find j).isSome = true

section Delta

variable {t : VLlmTurn} {s : StreamState} {tc : ToolCallDelta}

theorem extendBuilder_id (b : ToolCallBuilder) : (extendBuilder t tc b).1.id = b.id := by
  rw [extendBuilder]
  dsimp only
  split_ifs <;> rfl

theorem openBuilder_of_starts (h : startsCall t s.toolCallBuilders tc = true) :
    ∃ builders : ToolCallBuilders, openBuilder t s tc =
        { s with
          toolCallBuilders := builders.set tc.index (newBuilder t s tc)
          everBuiltToolCall := true
          idsMade := s.idsMade + 1
          events := s.events ++ addStart (newBuilder t s tc).id (newBuilder t s tc).name } ∧
      builders.values.Perm s.toolCallBuilders.values ∧ builders.find tc.index = none ∧
      (∀ j b, j ≠ tc.index → s.toolCallBuilders.find j = some b → builders.find j = some b) ∧
      ∀ j b, builders.find j = some b →
        s.toolCallBuilders.find j = some b ∨ ∃ n, j = parkedKey (1000 + n) := by
  rw [startsCall] at h
  cases hfind : s.toolCallBuilders.find tc.index with
  | none =>
      refine ⟨s.toolCallBuilders, ?_, List.Perm.refl _, hfind, fun _ _ _ hb => hb,
        fun _ _ hb => .inl hb⟩
      rw [openBuilder, newBuilder]
      simp only [hfind, Option.any_none, Bool.false_eq_true, if_false, Option.isSome_none]
  | some b =>
      rw [hfind, Option.all_some] at h
      refine ⟨park s.toolCallBuilders tc.index, ?_, park_values hfind, find_park_self,
        fun j b' hj hb' => find_park_ne hj hb', fun j b' hb' => find_park_some hb'⟩
      rw [openBuilder, newBuilder]
      simp only [hfind, Option.any_some, h, if_true, find_park_self, Option.isSome_none,
        Bool.false_eq_true, if_false]

theorem openBuilder_of_not_starts (h : startsCall t s.toolCallBuilders tc = false) :
    openBuilder t s tc = s := by
  rw [startsCall] at h
  cases hfind : s.toolCallBuilders.find tc.index with
  | none =>
      rw [hfind] at h
      cases h
  | some b =>
      rw [hfind, Option.all_some] at h
      rw [openBuilder]
      simp only [hfind, Option.any_some, h, Bool.false_eq_true, if_false, Option.isSome_some,
        if_true]

/-- A delta that starts a call adds one. -/
theorem onToolCallDelta_starts (h : startsCall t s.toolCallBuilders tc = true) :
    Delivered s (onToolCallDelta t s tc) tc (extendBuilder t tc (newBuilder t s tc)).1
        (addStart (newBuilder t s tc).id (newBuilder t s tc).name ++
          (extendBuilder t tc (newBuilder t s tc)).2) ∧
      (onToolCallDelta t s tc).everBuiltToolCall = true ∧
      (onToolCallDelta t s tc).toolCallBuilders.values.Perm
        ((extendBuilder t tc (newBuilder t s tc)).1 :: s.toolCallBuilders.values) := by
  obtain ⟨builders, hopen, hvalues, hnone, hothers, hkeys⟩ := openBuilder_of_starts h
  have hfind : (builders.set tc.index (newBuilder t s tc)).find tc.index =
      some (newBuilder t s tc) := by rw [Map.find_set, if_pos rfl]
  have hstep : onToolCallDelta t s tc =
      { s with
        toolCallBuilders := (builders.set tc.index (newBuilder t s tc)).set tc.index
          (extendBuilder t tc (newBuilder t s tc)).1
        everBuiltToolCall := true
        idsMade := s.idsMade + 1
        events := s.events ++ addStart (newBuilder t s tc).id (newBuilder t s tc).name ++
          (extendBuilder t tc (newBuilder t s tc)).2 } := by
    rw [onToolCallDelta, hopen]
    simp only [hfind]
  rw [hstep]
  refine ⟨⟨?_, ?_, List.append_assoc .., fun _ => rfl, rfl, rfl, rfl, ?_⟩, rfl, ?_⟩
  · rw [Map.find_set, if_pos rfl]
  · intro j b' hj hb'
    rw [Map.find_set, if_neg hj, Map.find_set, if_neg hj]
    exact hothers j b' hj hb'
  · intro j b' hb'
    rw [Map.find_set, Map.find_set] at hb'
    split_ifs at hb' with hj
    · exact .inl hj
    · rcases hkeys j b' hb' with hold | hparked
      · exact .inr (.inr (Option.isSome_iff_exists.mpr ⟨b', hold⟩))
      · exact .inr (.inl hparked)
  · -- The new call takes the place it was just given.
    have hnew := Map.values_set_new hnone (newBuilder t s tc)
    have hremove := (Map.values_remove hfind).symm.trans hnew
    exact (Map.values_set_old hfind _).trans
      ((List.Perm.cons_inv hremove).trans hvalues |>.cons _)

/-- Any other delta changes the call under its index. -/
theorem onToolCallDelta_continues {b : ToolCallBuilder}
    (hb : s.toolCallBuilders.find tc.index = some b)
    (h : startsCall t s.toolCallBuilders tc = false) :
    Delivered s (onToolCallDelta t s tc) tc (extendBuilder t tc b).1 (extendBuilder t tc b).2 ∧
      ∃ rest, s.toolCallBuilders.values.Perm (b :: rest) ∧
        (onToolCallDelta t s tc).toolCallBuilders.values.Perm
          ((extendBuilder t tc b).1 :: rest) := by
  have hstep : onToolCallDelta t s tc =
      { s with
        toolCallBuilders := s.toolCallBuilders.set tc.index (extendBuilder t tc b).1
        events := s.events ++ (extendBuilder t tc b).2 } := by
    rw [onToolCallDelta, openBuilder_of_not_starts h]
    simp only [hb]
  rw [hstep]
  refine ⟨⟨?_, ?_, rfl, id, rfl, rfl, rfl, ?_⟩, _, Map.values_remove hb, Map.values_set_old hb _⟩
  · rw [Map.find_set, if_pos rfl]
  · intro j b' hj hb'
    rw [Map.find_set, if_neg hj, hb']
  · intro j b' hb'
    rw [Map.find_set] at hb'
    split_ifs at hb' with hj
    · exact .inl hj
    · exact .inr (.inr (Option.isSome_iff_exists.mpr ⟨b', hb'⟩))

end Delta

end Shizuha.Provider

/-!
# The frames of a body, and what a quiet one does

What is read of a body depends on its bytes and not on the chunks they came in:
the frames are the lines that were ended, and reading is a fold over them. A
text without markup in it leaves the other ways to a tool call shut, so that a
finish reason, `[DONE]` and the end of the body close the calls that are there
and do nothing else.
-/

namespace Shizuha.Js

theorem utf8Feed_append (q : Utf8State) (a b : Bytes) :
    utf8Feed q (a ++ b) =
      ((utf8Feed q a).1 ++ (utf8Feed (utf8Feed q a).2 b).1, (utf8Feed (utf8Feed q a).2 b).2) := by
  induction a generalizing q with
  | nil => rfl
  | cons x a ih => rw [List.cons_append, utf8Feed, ih, utf8Feed, List.append_assoc]

namespace TextDecoder

theorem emit_append_seen (bomSeen : Bool) (a b : Text) :
    (emit bomSeen (a ++ b)).2 = (emit (emit bomSeen a).2 b).2 := by
  cases a with
  | nil => rfl
  | cons u a => cases b <;> rfl

/-- Decoding two pieces is decoding them together. -/
theorem decode_append (d : TextDecoder) (a b : Bytes) :
    d.decode (a ++ b) =
      ((d.decode a).1 ++ ((d.decode a).2.decode b).1, ((d.decode a).2.decode b).2) := by
  simp only [decode, utf8Feed_append, emit_append, emit_append_seen]

end TextDecoder

/-- A text whose two halves lack a needle, with a unit between them that is not
in the needle. -/
theorem includes_around {needle : Text} {u : UInt16} (hu : u ∉ needle) {a b : Text}
    (ha : includes a needle = false) (hb : includes b needle = false) :
    includes (a ++ u :: b) needle = false := by
  have hcut : ∀ {w : Text}, needle <+: w ++ u :: b → needle <+: w := by
    intro w hpre
    refine List.prefix_of_prefix_length_le hpre (List.prefix_append w (u :: b)) ?_
    by_contra hlen
    obtain ⟨rest, hrest⟩ := hpre
    have hget : (w ++ u :: b)[w.length]? = some u := by simp
    rw [← hrest, List.getElem?_append_left (by omega)] at hget
    exact hu (List.mem_of_getElem? hget)
  rw [includes, Option.isSome_eq_false_iff, Option.isNone_iff_eq_none] at ha hb ⊢
  induction a with
  | nil =>
      rw [indexOf] at ha
      split_ifs at ha with hp
      rw [List.nil_append, indexOf, if_neg, hb]
      · rfl
      · intro hpre
        have hnil := hcut (w := []) (List.isPrefixOf_iff_prefix.mp hpre)
        exact hp (List.isPrefixOf_iff_prefix.mpr hnil)
  | cons v a ih =>
      rw [indexOf] at ha
      split_ifs at ha with hp
      rw [List.cons_append, indexOf, if_neg, ih (Option.map_eq_none_iff.mp ha)]
      · rfl
      · intro hpre
        have hwhole := hcut (w := v :: a) (List.isPrefixOf_iff_prefix.mp hpre)
        exact hp (List.isPrefixOf_iff_prefix.mpr hwhole)

/-- What is not in a text is not in its beginning. -/
theorem includes_left {needle a b : Text} (h : includes (a ++ b) needle = false) :
    includes a needle = false := by
  rw [includes, Option.isSome_eq_false_iff, Option.isNone_iff_eq_none] at h ⊢
  by_contra hsome
  obtain ⟨i, hi⟩ := Option.ne_none_iff_exists'.mp hsome
  rw [indexOf_extend hi] at h
  cases h

end Shizuha.Js

namespace Shizuha.Provider

open Js

/-! ## The frames of a body -/

/-- The frames of the lines that were ended. -/
def bodyFrames (bytes : Bytes) : List Frame :=
  (cut [newline] (TextDecoder.init.decode bytes).1).1.map readFrame

theorem readLoop_eq (t : VLlmTurn) (decoder : TextDecoder) (buffer : Text) (s : StreamState)
    (chunks : List Bytes) (h : cut [newline] buffer = ([], buffer)) :
    readLoop t decoder buffer s chunks =
      (cut [newline] (buffer ++ (decoder.decode chunks.flatten).1)).1.foldlM (onLine t) s := by
  have hsep : [newline] ≠ [] := by decide
  induction chunks generalizing decoder buffer s with
  | nil =>
      have hnil : (decoder.decode []).1 = [] := rfl
      rw [readLoop, List.flatten_nil, hnil, List.append_nil, h]
      rfl
  | cons value rest ih =>
      rw [readLoop, List.flatten_cons, TextDecoder.decode_append, ← List.append_assoc,
        cut_append hsep (buffer ++ (decoder.decode value).1), List.foldlM_append]
      congr 1
      funext s
      exact ih _ _ s (cut_rest hsep _)

/-- The tool events and the error of a body that was read to its end, or to
where reading stopped. -/
def outcome (t : VLlmTurn) (read : Except Halt StreamState) : List ToolEvent × Option ChatError :=
  match read with
  | .ok s => ((closeStream t s).events, none)
  | .error (.returned s) => (s.events, none)
  | .error (.thrown error s) => (s.events, some error)

/-- How a body is cut into chunks makes no difference. -/
theorem chat_eq (t : VLlmTurn) (chunks : List Bytes) :
    chat t chunks = outcome t ((bodyFrames chunks.flatten).foldlM (onFrame t) .init) := by
  rw [chat, readLoop_eq _ _ _ _ _ rfl, bodyFrames, List.foldlM_map, List.nil_append]
  rfl

/-! ## What is said besides the calls -/

/-- No tool markup in what was said and in what is still to come. -/
structure Unmarked (s : StreamState) (rest : List SSEChoice) : Prop where
  content : includes (s.accContent ++ rest.flatMap fun c => c.content.getD []) toolCallMarker = false
  reasoning : includes (s.accReasoning ++ rest.flatMap fun c =>
    (c.reasoning <|> c.reasoningContent).getD []) toolCallMarker = false

section Unmarked

variable {t : VLlmTurn} {s s' : StreamState} {c : SSEChoice} {rest : List SSEChoice}

theorem Unmarked.congr (h : Unmarked s rest) (hcontent : s'.accContent = s.accContent)
    (hreasoning : s'.accReasoning = s.accReasoning) : Unmarked s' rest :=
  ⟨by rw [hcontent]; exact h.content, by rw [hreasoning]; exact h.reasoning⟩

theorem Unmarked.hear (h : Unmarked s (c :: rest)) : Unmarked (hearText s c) rest := by
  refine ⟨?_, ?_⟩
  · rw [hearText]
    dsimp only
    rw [List.append_assoc]
    exact h.content
  · rw [hearText]
    dsimp only
    rw [List.append_assoc]
    exact h.reasoning

theorem Unmarked.extract_content (h : Unmarked s rest) : t.extractGlmToolCalls s.accContent = [] := by
  rw [VLlmTurn.extractGlmToolCalls, includes_left h.content]
  rfl

theorem Unmarked.extract_reasoning (h : Unmarked s rest) :
    t.extractGlmToolCalls s.accReasoning = [] := by
  rw [VLlmTurn.extractGlmToolCalls, includes_left h.reasoning]
  rfl

theorem Unmarked.extract_combined (h : Unmarked s rest) :
    t.extractGlmToolCalls (s.accReasoning ++ js "\n" ++ s.accContent) = [] := by
  have hnl : js "\n" = [newline] := by decide
  have hnone : includes (s.accReasoning ++ newline :: s.accContent) toolCallMarker = false :=
    includes_around (by decide) (includes_left h.reasoning) (includes_left h.content)
  rw [VLlmTurn.extractGlmToolCalls, hnl, List.append_assoc, List.singleton_append, hnone]
  rfl

end Unmarked

/-- Two states that differ only in what nothing of the calls depends on. -/
structure SameCalls (s s' : StreamState) : Prop where
  builders : s'.toolCallBuilders = s.toolCallBuilders
  events : s'.events = s.events
  ever : s'.everBuiltToolCall = s.everBuiltToolCall
  saw : s'.sawStreamedToolCall = s.sawStreamedToolCall
  content : s'.accContent = s.accContent
  reasoning : s'.accReasoning = s.accReasoning

theorem SameCalls.refl (s : StreamState) : SameCalls s s := ⟨rfl, rfl, rfl, rfl, rfl, rfl⟩

theorem SameCalls.trans {s s' s'' : StreamState} (h : SameCalls s s') (h' : SameCalls s' s'') :
    SameCalls s s'' :=
  ⟨h'.builders.trans h.builders, h'.events.trans h.events, h'.ever.trans h.ever,
    h'.saw.trans h.saw, h'.content.trans h.content, h'.reasoning.trans h.reasoning⟩

section Quiet

variable {t : VLlmTurn} {s : StreamState} {rest : List SSEChoice}

theorem buildRecovered_quiet (h : Unmarked s rest) : SameCalls s (buildRecoveredToolEvents t s) := by
  rw [buildRecoveredToolEvents]
  split_ifs with hoff
  · exact SameCalls.refl s
  · dsimp only
    rw [h.extract_combined]
    split_ifs with _ hkept
    · exact ⟨rfl, rfl, rfl, rfl, rfl, rfl⟩
    · exact ⟨rfl, rfl, rfl, rfl, rfl, rfl⟩
    · exact absurd rfl hkept

/-- Nothing is asked of the server again that would bring a call: a call was
heard, or there is none to be had. -/
def Settled (t : VLlmTurn) (s : StreamState) : Prop :=
  (s.sawStreamedToolCall = true ∧ s.everBuiltToolCall = true) ∨
    ∀ n, ∀ tc ∈ t.resend n, t.discards tc.name = true

theorem salvage_quiet (h : ∀ n, ∀ tc ∈ t.resend n, t.discards tc.name = true) :
    SameCalls s (salvageNonStream t s) := by
  have hnone : (t.resend s.resends).filter (fun tc => !t.discards tc.name) = [] :=
    List.filter_eq_nil_iff.mpr fun tc htc => by simp [h _ tc htc]
  rw [salvageNonStream, hnone]
  exact ⟨rfl, List.append_nil _, rfl, rfl, rfl, rfl⟩

/-- A finish reason closes the calls that are there, in the order of the map. -/
theorem onFinishReason_quiet {finishReason : Text} {stopReason : Option Json}
    (hreason : finishReason = js "tool_calls" ∨ finishReason = js "stop")
    (h : Unmarked s rest) (hsettled : Settled t s) :
    SameCalls
      { s with
        toolCallBuilders := Table.empty
        events := s.events ++ flushAtFinish t s.accContent [] [] s.toolCallBuilders.values }
      (onFinishReason t s finishReason stopReason) := by
  have hflush : SameCalls
      { s with
        toolCallBuilders := Table.empty
        events := s.events ++ flushAtFinish t s.accContent [] [] s.toolCallBuilders.values }
      (flushBuilders t s) := by
    rw [flushBuilders, h.extract_content, h.extract_reasoning]
    have hsame : Unmarked { s with
        toolCallBuilders := Table.empty
        events := s.events ++ flushAtFinish t s.accContent [] [] s.toolCallBuilders.values } rest :=
      h.congr rfl rfl
    exact buildRecovered_quiet hsame
  refine hflush.trans ?_
  rw [onFinishReason, if_pos hreason]
  rcases hsettled with ⟨hsaw, hever⟩ | hnone
  · -- The second request needs a turn without calls.
    have hsaw' : (flushBuilders t s).sawStreamedToolCall = true := hflush.saw.trans hsaw
    have hever' : (flushBuilders t s).everBuiltToolCall = true := hflush.ever.trans hever
    have hparsed : ((flushBuilders t s).recoveredLeakedToolCall ||
        (flushBuilders t s).sawStreamedToolCall ||
          decide (0 < (flushBuilders t s).toolCallBuilders.size)) = true := by
      rw [hsaw', Bool.or_true, Bool.true_or]
    have hkept : ∀ eaten, shouldTreatGlmStopAsDroppedToolCall t finishReason stopReason eaten true =
        false := by
      intro eaten
      rw [shouldTreatGlmStopAsDroppedToolCall, Bool.or_true, if_pos rfl]
    rw [hparsed, hkept, Bool.false_and, Bool.false_and, if_neg Bool.false_ne_true, hever']
    simp only [Bool.not_true, Bool.and_false, Bool.false_and, Bool.false_eq_true, if_false]
    exact SameCalls.refl _
  · split_ifs
    · exact (salvage_quiet hnone).trans (salvage_quiet hnone)
    · exact salvage_quiet hnone
    · exact salvage_quiet hnone
    · exact SameCalls.refl _

end Quiet

/-! ## Whatever is said -/

/-- What closing calls leaves alone, and the events that are there. -/
structure Grows (s s' : StreamState) : Prop where
  events : ∃ more, s'.events = s.events ++ more
  content : s'.accContent = s.accContent
  reasoning : s'.accReasoning = s.accReasoning

theorem Grows.refl (s : StreamState) : Grows s s := ⟨⟨[], (List.append_nil _).symm⟩, rfl, rfl⟩

theorem Grows.trans {s s' s'' : StreamState} (h : Grows s s') (h' : Grows s' s'') :
    Grows s s'' := by
  obtain ⟨more, hmore⟩ := h.events
  obtain ⟨more', hmore'⟩ := h'.events
  exact ⟨⟨more ++ more', by rw [hmore', hmore, List.append_assoc]⟩, h'.content.trans h.content,
    h'.reasoning.trans h.reasoning⟩

theorem grows_recovered (t : VLlmTurn) (s : StreamState) (calls : List GlmToolCall) :
    Grows s (calls.foldl (addRecovered t) s) := by
  induction calls generalizing s with
  | nil => exact Grows.refl s
  | cons call calls ih =>
      have hstep : Grows s (addRecovered t s call) := ⟨⟨_, rfl⟩, rfl, rfl⟩
      exact hstep.trans (ih _)

theorem grows_buildRecovered (t : VLlmTurn) (s : StreamState) :
    Grows s (buildRecoveredToolEvents t s) := by
  rw [buildRecoveredToolEvents]
  have hsame : ∀ finalized recovered, Grows s
      { s with toolCallsFinalized := finalized, recoveredLeakedToolCall := recovered } :=
    fun _ _ => ⟨⟨[], (List.append_nil _).symm⟩, rfl, rfl⟩
  dsimp only
  split_ifs
  · exact Grows.refl s
  · exact hsame true s.recoveredLeakedToolCall
  · exact hsame true s.recoveredLeakedToolCall
  · exact (hsame true true).trans (grows_recovered t _ _)

theorem grows_salvage (t : VLlmTurn) (s : StreamState) : Grows s (salvageNonStream t s) :=
  ⟨⟨_, rfl⟩, rfl, rfl⟩

/-- A finish reason closes the calls, and may add others. -/
theorem grows_onFinishReason (t : VLlmTurn) (s : StreamState) {finishReason : Text}
    (hreason : finishReason = js "tool_calls" ∨ finishReason = js "stop")
    (stopReason : Option Json) :
    Grows (flushBuilders t s) (onFinishReason t s finishReason stopReason) := by
  rw [onFinishReason, if_pos hreason]
  split_ifs
  · exact (grows_salvage t _).trans (grows_salvage t _)
  · exact grows_salvage t _
  · exact grows_salvage t _
  · exact Grows.refl _

theorem grows_flush (t : VLlmTurn) (s : StreamState) :
    Grows
      { s with
        toolCallBuilders := Table.empty
        events := s.events ++ flushAtFinish t s.accContent
          (t.extractGlmToolCalls s.accContent ++ t.extractGlmToolCalls s.accReasoning) []
          s.toolCallBuilders.values }
      (flushBuilders t s) := grows_buildRecovered t _

theorem onFinishReason_said (t : VLlmTurn) (s : StreamState) {finishReason : Text}
    (hreason : finishReason = js "tool_calls" ∨ finishReason = js "stop")
    (stopReason : Option Json) :
    (onFinishReason t s finishReason stopReason).accContent = s.accContent ∧
      (onFinishReason t s finishReason stopReason).accReasoning = s.accReasoning := by
  have h := (grows_flush t s).trans (grows_onFinishReason t s hreason stopReason)
  exact ⟨h.content, h.reasoning⟩

end Shizuha.Provider
