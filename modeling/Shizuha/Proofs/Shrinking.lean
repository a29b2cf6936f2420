import Shizuha.Proofs.ToolPairs

/-!
# A compaction shrinks, and ends

Two bounds end a compaction. A summary that stops for its length is continued
only while it costs less than its source, every continuation adds text to it,
and a tokenizer does not encode arbitrarily long texts in a bounded number of
tokens: that is `WidthBound`, and it bounds the continuations. The passes are
bounded by their own counter.

What a pass returns costs less than what it was given, whichever of its exits
it takes; and when it is still above the floor of the band, the pass was
aborted or the result is at or below the trigger. Both go through the passes
by induction, because a deeper pass is given what this one projected, and its
costs are compared with that.
-/

namespace Shizuha.State

open Js Agent Prompt

/-- What is relied on of the tokenizer: a text is no longer than a fixed
multiple of its token count. A vocabulary is finite, so its longest token is
such a multiple. -/
def WidthBound (countTokens : CountTokens) (width : ℕ) : Prop :=
  ∀ text model, text.length ≤ width * countTokens text model

/-! ## Looking outside moves the tick, and nothing else -/

/-- Time passed, and no projection was built. -/
def Later (w w' : World) : Prop := w.tick ≤ w'.tick ∧ w'.projections = w.projections

theorem Later.refl (w : World) : Later w w := ⟨le_rfl, rfl⟩

theorem Later.trans (a b c : World) (hab : Later a b) (hbc : Later b c) : Later a c :=
  ⟨hab.1.trans hbc.1, hbc.2.trans hab.2⟩

theorem later_next (w : World) : Later w w.next := ⟨Nat.le_succ _, rfl⟩

section Streaming

variable {host : Host} {σ : Type} {emit : StreamChunk → σ → Run σ}

theorem aborted_moves : (aborted host).Moves Later := Eff.moves_act later_next

theorem throwAbort_moves {α : Type} {e : CompactionError} :
    (throwAbort host e : Run α).Moves Later := Eff.moves_throw Later.refl _

theorem throwIfAborted_moves : (throwIfAborted host).Moves Later := by
  refine Eff.moves_bind Later.trans aborted_moves fun b => ?_
  split_ifs
  · exact throwAbort_moves
  · exact Eff.moves_pure Later.refl _

theorem throwIfAborted_ends : (throwIfAborted host).Ends := by
  refine Eff.ends_bind Eff.ends_act fun b => ?_
  split_ifs
  · exact Eff.ends_throw
  · exact Eff.ends_pure

theorem callback_moves (f : ℕ → Option CompactionError) : (callback f).Moves Later := by
  refine Eff.moves_bind Later.trans (Eff.moves_act later_next) fun e => ?_
  cases e with
  | none => exact Eff.moves_pure Later.refl _
  | some e => exact Eff.moves_throw Later.refl _

theorem callback_ends (f : ℕ → Option CompactionError) : (callback f).Ends := by
  refine Eff.ends_bind Eff.ends_act fun e => ?_
  cases e with
  | none => exact Eff.ends_pure
  | some e => exact Eff.ends_throw

theorem forwardChunks_moves (hemit : ∀ c a, (emit c a).Moves Later) (chunks : List StreamChunk)
    (seg : Segment) (acc : σ) : (forwardChunks host emit chunks seg acc).Moves Later := by
  induction chunks generalizing seg acc with
  | nil => exact Eff.moves_pure Later.refl _
  | cons chunk rest ih =>
      refine Eff.moves_bind Later.trans throwIfAborted_moves fun _ => ?_
      cases chunk with
      | finalText t => exact ih _ _
      | stopReason r => exact ih _ _
      | done => exact ih _ _
      | text t => exact Eff.moves_bind Later.trans (hemit _ _) fun _ => ih _ _
      | reasoningText t => exact Eff.moves_bind Later.trans (hemit _ _) fun _ => ih _ _
      | usage n => exact Eff.moves_bind Later.trans (hemit _ _) fun _ => ih _ _
      | other => exact Eff.moves_bind Later.trans (hemit _ _) fun _ => ih _ _

theorem forwardChunks_ends (hemit : ∀ c a, (emit c a).Ends) (chunks : List StreamChunk)
    (seg : Segment) (acc : σ) : (forwardChunks host emit chunks seg acc).Ends := by
  induction chunks generalizing seg acc with
  | nil => exact Eff.ends_pure
  | cons chunk rest ih =>
      refine Eff.ends_bind throwIfAborted_ends fun _ => ?_
      cases chunk with
      | finalText t => exact ih _ _
      | stopReason r => exact ih _ _
      | done => exact ih _ _
      | text t => exact Eff.ends_bind (hemit _ _) fun _ => ih _ _
      | reasoningText t => exact Eff.ends_bind (hemit _ _) fun _ => ih _ _
      | usage n => exact Eff.ends_bind (hemit _ _) fun _ => ih _ _
      | other => exact Eff.ends_bind (hemit _ _) fun _ => ih _ _

theorem streamSegment_moves (hemit : ∀ c a, (emit c a).Moves Later)
    (messages : List ChatMessage) (options : ChatOptions) (acc : σ) :
    (streamSegment host emit messages options acc).Moves Later := by
  refine Eff.moves_bind Later.trans (Eff.moves_act later_next) fun reply => ?_
  refine Eff.moves_bind Later.trans (forwardChunks_moves hemit _ _ _) fun (seg, acc) => ?_
  cases reply.error with
  | none => exact Eff.moves_pure Later.refl _
  | some err =>
      refine Eff.moves_bind Later.trans aborted_moves fun b => ?_
      split_ifs
      · exact throwAbort_moves
      · exact Eff.moves_throw Later.refl _

theorem streamSegment_ends (hemit : ∀ c a, (emit c a).Ends)
    (messages : List ChatMessage) (options : ChatOptions) (acc : σ) :
    (streamSegment host emit messages options acc).Ends := by
  refine Eff.ends_bind Eff.ends_act fun reply => ?_
  refine Eff.ends_bind (forwardChunks_ends hemit _ _ _) fun (seg, acc) => ?_
  cases reply.error with
  | none => exact Eff.ends_pure
  | some err =>
      refine Eff.ends_bind Eff.ends_act fun b => ?_
      split_ifs
      · exact Eff.ends_throw
      · exact Eff.ends_throw

theorem closeStream_moves (hemit : ∀ c a, (emit c a).Moves Later) (accumulated reason : Text)
    (acc : σ) : (closeStream emit accumulated reason acc).Moves Later := by
  refine Eff.moves_bind Later.trans (hemit _ _) fun acc => ?_
  split_ifs
  · exact hemit _ _
  · exact Eff.moves_bind Later.trans (hemit _ _) fun _ => hemit _ _

theorem closeStream_ends (hemit : ∀ c a, (emit c a).Ends) (accumulated reason : Text)
    (acc : σ) : (closeStream emit accumulated reason acc).Ends := by
  refine Eff.ends_bind (hemit _ _) fun acc => ?_
  split_ifs
  · exact hemit _ _
  · exact Eff.ends_bind (hemit _ _) fun _ => hemit _ _

theorem compactionStream_moves (hemit : ∀ c a, (emit c a).Moves Later) (options : ChatOptions)
    (sourceTokens fuel : ℕ) (messages : List ChatMessage) (accumulated : Text)
    (segments : List Text) (acc : σ) :
    (compactionStream host options sourceTokens emit fuel messages accumulated segments
      acc).Moves Later := by
  induction fuel generalizing messages accumulated segments acc with
  | zero => exact Eff.moves_outOfFuel
  | succ fuel ih =>
      refine Eff.moves_bind Later.trans throwIfAborted_moves fun _ => ?_
      refine Eff.moves_bind Later.trans (streamSegment_moves hemit _ _ _) fun (seg, acc) => ?_
      dsimp only
      split_ifs
      · exact Eff.moves_throw Later.refl _
      · exact closeStream_moves hemit _ _ _
      · exact Eff.moves_throw Later.refl _
      · exact closeStream_moves hemit _ _ _
      · exact Eff.moves_throw Later.refl _
      · exact ih _ _ _ _

/-- The continuations end: each of them adds to a text that costs less than
its source. -/
theorem compactionStream_ends {width : ℕ} (hwidth : WidthBound host.countTokens width)
    (hemit : ∀ c a, (emit c a).Ends) (options : ChatOptions) (sourceTokens fuel : ℕ)
    (messages : List ChatMessage) (accumulated : Text) (segments : List Text) (acc : σ)
    (hcost : accumulated = [] ∨ host.countTokens accumulated options.model < sourceTokens)
    (hfuel : width * sourceTokens < fuel + accumulated.length) :
    (compactionStream host options sourceTokens emit fuel messages accumulated segments
      acc).Ends := by
  induction fuel generalizing messages accumulated segments acc with
  | zero =>
      exfalso
      rcases hcost with rfl | hcost
      · simp at hfuel
      · have hlen := hwidth accumulated options.model
        have hle := Nat.mul_le_mul_left width hcost.le
        omega
  | succ fuel ih =>
      refine Eff.ends_bind throwIfAborted_ends fun _ => ?_
      refine Eff.ends_bind (streamSegment_ends hemit _ _ _) fun (seg, acc) => ?_
      dsimp only
      split_ifs with hbad hstuck haccum hdone hlarge
      · exact Eff.ends_throw
      · exact closeStream_ends hemit _ _ _
      · exact Eff.ends_throw
      · exact closeStream_ends hemit _ _ _
      · exact Eff.ends_throw
      · -- The answer was cut off and said something, so there is less to go.
        have hsome : seg.text ≠ [] := by
          intro hnil
          have hunfinished : unfinished seg = true := by simpa using hdone
          simp [hunfinished, hnil, trim] at hstuck
        have hpos : 0 < seg.text.length := List.length_pos_of_ne_nil hsome
        refine ih _ _ _ _ (Or.inr (by omega)) ?_
        rw [List.length_append]
        omega

end Streaming

/-! ## A summary -/

section Summary

variable {host : Host} {model : Text} {options : CompactionOptions} {selected : SemanticPrefix}

theorem watchSummary_moves (stage : Stage) (budget : ℚ) (c : StreamChunk) (a : SummaryAcc) :
    (watchSummary host stage budget c a).Moves Later := by
  refine Eff.moves_bind Later.trans throwIfAborted_moves fun _ => ?_
  cases c with
  | text t =>
      exact Eff.moves_bind Later.trans (callback_moves _) fun _ => Eff.moves_pure Later.refl _
  | _ => exact Eff.moves_pure Later.refl _

theorem watchSummary_ends (stage : Stage) (budget : ℚ) (c : StreamChunk) (a : SummaryAcc) :
    (watchSummary host stage budget c a).Ends := by
  refine Eff.ends_bind throwIfAborted_ends fun _ => ?_
  cases c with
  | text t => exact Eff.ends_bind (callback_ends _) fun _ => Eff.ends_pure
  | _ => exact Eff.ends_pure

theorem requestSummary_moves (stage : Stage) (budget : ℚ) (prompt : Text) :
    (requestSummary host model options selected stage budget prompt).Moves Later :=
  Eff.moves_bind Later.trans throwIfAborted_moves fun _ =>
    compactionStream_moves (watchSummary_moves stage budget) _ _ _ _ _ _ _

theorem requestSummary_ends {width : ℕ} (hwidth : WidthBound host.countTokens width)
    (hrounds : ∀ n, width * n < host.rounds n) (stage : Stage) (budget : ℚ) (prompt : Text) :
    (requestSummary host model options selected stage budget prompt).Ends :=
  Eff.ends_bind throwIfAborted_ends fun _ =>
    compactionStream_ends hwidth (watchSummary_ends stage budget) _ _ _ _ _ _ _ (Or.inl rfl)
      (hrounds _)

theorem retrySummary_moves (budget : ℚ) (summary : Text) :
    (retrySummary host model options selected budget summary).Moves Later := by
  refine Eff.moves_tryCatch Later.trans ?_ fun e => ?_
  · refine Eff.moves_bind Later.trans (requestSummary_moves _ _ _) fun acc => ?_
    split_ifs
    · exact Eff.moves_pure Later.refl _
    · exact Eff.moves_pure Later.refl _
  · refine Eff.moves_bind Later.trans aborted_moves fun b => ?_
    split_ifs
    · exact throwAbort_moves
    · exact Eff.moves_throw Later.refl _

theorem retrySummary_ends {width : ℕ} (hwidth : WidthBound host.countTokens width)
    (hrounds : ∀ n, width * n < host.rounds n) (budget : ℚ) (summary : Text) :
    (retrySummary host model options selected budget summary).Ends := by
  refine Eff.ends_tryCatch ?_ fun e => ?_
  · refine Eff.ends_bind (requestSummary_ends hwidth hrounds _ _ _) fun acc => ?_
    split_ifs
    · exact Eff.ends_pure
    · exact Eff.ends_pure
  · refine Eff.ends_bind Eff.ends_act fun b => ?_
    split_ifs
    · exact Eff.ends_throw
    · exact Eff.ends_throw

theorem semanticSummary_moves (budgets : Budgets) :
    (semanticSummary host model options selected budgets).Moves Later := by
  refine Eff.moves_bind Later.trans (requestSummary_moves _ _ _) fun acc => ?_
  refine Eff.moves_bind Later.trans ?_ fun summary => ?_
  · split_ifs
    · exact retrySummary_moves _ _
    · exact Eff.moves_pure Later.refl _
  · cases summaryQualityFailure host model selected summary with
    | none => exact Eff.moves_pure Later.refl _
    | some reason =>
        dsimp only
        cases summaryQualityFailure host model selected (stripEchoedToolBlocks summary) with
        | none => exact Eff.moves_pure Later.refl _
        | some _ => exact Eff.moves_throw Later.refl _

theorem semanticSummary_ends {width : ℕ} (hwidth : WidthBound host.countTokens width)
    (hrounds : ∀ n, width * n < host.rounds n) (budgets : Budgets) :
    (semanticSummary host model options selected budgets).Ends := by
  refine Eff.ends_bind (requestSummary_ends hwidth hrounds _ _ _) fun acc => ?_
  refine Eff.ends_bind ?_ fun summary => ?_
  · split_ifs
    · exact retrySummary_ends hwidth hrounds _ _
    · exact Eff.ends_pure
  · cases summaryQualityFailure host model selected summary with
    | none => exact Eff.ends_pure
    | some reason =>
        dsimp only
        cases summaryQualityFailure host model selected (stripEchoedToolBlocks summary) with
        | none => exact Eff.ends_pure
        | some _ => exact Eff.ends_throw

end Summary

/-! ## A pass -/

theorem conversational_modelConversationMessages (messages : List Message) :
    Conversational (modelConversationMessages messages) := by
  intro m hm
  rw [modelConversationMessages_eq_filter, List.mem_filter] at hm
  simpa using hm.2

theorem Conversational.project {messages : List Message} (h : Conversational messages)
    (ph : ProjectionHost) (planFilePath : Option Text) (summary : Text) (k : ℕ) :
    Conversational (projectCompactedMessages ph planFilePath messages summary k) := by
  have hplan : ∀ compacted, Conversational (planSuffix ph planFilePath compacted) := by
    intro compacted m hm
    cases planFilePath with
    | none => exact absurd hm (by simp [planSuffix])
    | some path =>
        rw [planSuffix] at hm
        split_ifs at hm
        · exact absurd hm (by simp)
        · cases hread : ph.readFileSync path with
          | none => exact absurd hm (by simp [hread])
          | some planContent =>
              simp only [hread] at hm
              split_ifs at hm
              · exact absurd hm (by simp)
              · simp only [planMessages, List.mem_cons, List.not_mem_nil, or_false] at hm
                rcases hm with rfl | rfl <;> rfl
  intro m hm
  rw [projectCompactedMessages] at hm
  rcases List.mem_append.mp hm with hm | hm
  · rw [slice_natCast] at hm
    simp only [List.mem_cons] at hm
    rcases hm with rfl | rfl | hm
    · rfl
    · rfl
    · exact h m (List.mem_of_mem_drop hm)
  · exact hplan _ m hm

theorem Host.abortedAt_mono (host : Host) {t t' : ℕ} (hle : t ≤ t')
    (h : host.abortedAt t = true) : host.abortedAt t' = true := by
  rw [Host.abortedAt] at h ⊢
  cases habort : host.abortAt with
  | none => simp [habort] at h
  | some n =>
      rw [habort] at h
      simp only [decide_eq_true_eq] at h ⊢
      omega

/-- What is said of a result: unchanged, or smaller; and above the band only
after an abort, or up to the trigger. -/
structure Shrunk (host : Host) (model : Text) (maxTokens : ℚ) (options : CompactionOptions)
    (input : List Message) (c : Compacted) (w : World) : Prop where
  unchanged : c.compacted = false → c.messages = modelConversationMessages input
  forced : options.force = true → c.compacted = true
  smaller : c.compacted = true → contextCost host model options c.messages <
    contextCost host model options (modelConversationMessages input)
  band : messagesBudget host.env maxTokens options < contextCost host model options c.messages →
    host.abortedAt w.tick = true ∨
      (contextCost host model options c.messages : ℚ) ≤ triggerTokens host.env maxTokens

/-- The projections a call may still build. -/
def passesLeft (options : CompactionOptions) : ℕ := max 1 (49 - options.semanticPass.getD 0)

/-- The postcondition of a pass from `w`. -/
def shrunkPost (host : Host) (model : Text) (maxTokens : ℚ) (options : CompactionOptions)
    (input : List Message) (w : World) (r : Except CompactionError Compacted)
    (w' : World) : Prop :=
  w.tick ≤ w'.tick ∧ w'.projections ≤ w.projections + passesLeft options ∧
    ∀ c, r = .ok c → Shrunk host model maxTokens options input c w'

section Pass

variable {host : Host} {model : Text} {maxTokens : ℚ} {options : CompactionOptions}

/-- A projection that costs less is a result of its own pass. -/
theorem shrunk_of_projection {messages next : List Message} {w : World}
    (hfilter : modelConversationMessages messages = messages)
    (hless : contextCost host model options next < contextCost host model options messages)
    (hband : messagesBudget host.env maxTokens options < contextCost host model options next →
      host.abortedAt w.tick = true ∨
        (contextCost host model options next : ℚ) ≤ triggerTokens host.env maxTokens) :
    Shrunk host model maxTokens options messages ⟨next, true⟩ w :=
  ⟨fun h => absurd h (by simp), fun _ => rfl, fun _ => by rw [hfilter]; exact hless, hband⟩

theorem summarizeSelectedPrefix_shrunk {messages : List Message} (selected : SemanticPrefix)
    (compactAgain : CompactionOptions → List Message → Run Compacted) (w : World)
    (hreduce : options.allowNonReducing = false) (hconv : Conversational messages)
    (hagain : 48 > options.semanticPass.getD 0 → ∀ next w', Conversational next →
      (compactAgain options.deeper next).Ensures w'
        (shrunkPost host model maxTokens options.deeper next w')) :
    (summarizeSelectedPrefix host model maxTokens options messages selected compactAgain).Ensures
      w (shrunkPost host model maxTokens options messages w) := by
  rw [summarizeSelectedPrefix]
  refine Eff.ensures_bind ((semanticSummary_moves _ w).mono ?_)
  rintro (e | summary) w₁ ⟨htick, hproj⟩
  · exact ⟨htick, by omega, by simp⟩
  refine Eff.ensures_bind (Eff.ensures_act ?_)
  have hnext := hconv.project (host.projectionHost w₁.tick) options.planFilePath summary
    selected.prefixEnd
  generalize projectCompactedMessages (host.projectionHost w₁.tick) options.planFilePath messages
    summary selected.prefixEnd = next at hnext ⊢
  have hpasses : 1 ≤ passesLeft options := Nat.le_max_left _ _
  -- From here on one projection has been built.
  dsimp only
  split_ifs with hgrew hover hcount
  · exact Eff.ensures_throw ⟨htick.trans (Nat.le_succ _), by dsimp only; omega, by simp⟩
  · exact Eff.ensures_throw ⟨htick.trans (Nat.le_succ _), by dsimp only; omega, by simp⟩
  · have hless : contextCost host model options next < contextCost host model options messages := by
      simpa [hreduce] using hgrew
    have hleft : 1 + passesLeft options.deeper ≤ passesLeft options := by
      simp only [passesLeft, CompactionOptions.deeper, Option.getD_some]
      omega
    refine Eff.ensures_bind ((callback_moves _ _).mono ?_)
    rintro (e | _) w₂ ⟨htick₂, hproj₂⟩
    · exact ⟨by dsimp only at htick₂; omega, by dsimp only at hproj₂; omega, by simp⟩
    dsimp only at htick₂ hproj₂
    refine Eff.ensures_tryCatch ((hagain (by omega) next w₂ hnext).mono ?_)
    rintro (err | c) w₃ ⟨htick₃, hproj₃, hc⟩
    · -- The deeper pass threw: the look at the signal decides first.
      refine Eff.ensures_bind (Eff.ensures_act ?_)
      have hlater : w.tick ≤ w₃.next.tick := by
        simp only [World.next]
        omega
      have hcount' : w₃.next.projections ≤ w.projections + passesLeft options := by
        simp only [World.next]
        omega
      dsimp only
      split_ifs with habort hcap
      · refine Eff.ensures_pure ⟨hlater, hcount', fun c hc => ?_⟩
        obtain rfl := Except.ok.inj hc
        rw [Bool.and_eq_true] at habort
        exact shrunk_of_projection hconv.filter hless
          fun _ => Or.inl (host.abortedAt_mono (Nat.le_succ _) habort.1)
      · refine Eff.ensures_pure ⟨hlater, hcount', fun c hc => ?_⟩
        obtain rfl := Except.ok.inj hc
        simp only [Bool.and_eq_true, decide_eq_true_eq] at hcap
        exact shrunk_of_projection hconv.filter hless fun _ => Or.inr hcap.2
      · exact Eff.ensures_throw ⟨hlater, hcount', by simp⟩
    · -- The deeper pass returned, and what it returned costs less than what
      -- it was given.
      refine ⟨by omega, by omega, fun c' hc' => ?_⟩
      obtain rfl := Except.ok.inj hc'
      have hdeep := hc c rfl
      have htrue : c.compacted = true := hdeep.forced rfl
      refine ⟨fun hfalse => ?_, fun _ => htrue, fun _ => ?_, hdeep.band⟩
      · rw [htrue] at hfalse
        exact absurd hfalse (by simp)
      · have hsmaller := hdeep.smaller htrue
        rw [hnext.filter] at hsmaller
        rw [hconv.filter]
        exact lt_trans hsmaller hless
  · have hless : contextCost host model options next < contextCost host model options messages := by
      simpa [hreduce] using hgrew
    refine Eff.ensures_pure ⟨htick.trans (Nat.le_succ _), by dsimp only; omega, fun c hc => ?_⟩
    obtain rfl := Except.ok.inj hc
    exact shrunk_of_projection hconv.filter hless fun h => absurd h hover

/-- However a call ends: the result, the projections it took, and the time. -/
theorem compactMessages_shrunk (fuel : ℕ) (options : CompactionOptions)
    (hreduce : options.allowNonReducing = false) (messages : List Message) (w : World) :
    (compactMessages host model maxTokens fuel options messages).Ensures w
      (shrunkPost host model maxTokens options messages w) := by
  induction fuel generalizing options messages w with
  | zero => exact Eff.ensures_outOfFuel
  | succ fuel ih =>
      rw [compactMessages]
      have hconv := conversational_modelConversationMessages messages
      split_ifs with hbelow
      · simp only [Bool.and_eq_true, Bool.not_eq_true', decide_eq_true_eq] at hbelow
        refine Eff.ensures_pure ⟨le_rfl, Nat.le_add_right _ _, fun c hc => ?_⟩
        obtain rfl := Except.ok.inj hc
        exact ⟨fun _ => rfl, fun h => absurd h (by simp [hbelow.1]), fun h => absurd h (by simp),
          fun _ => Or.inr hbelow.2.le⟩
      · refine Eff.ensures_bind (Eff.ensures_ofExcept ?_)
        cases hsel : selectSemanticPrefix host (modelConversationMessages messages) model
            (compactionBudgets host.env model maxTokens).maxSummarizableSource maxTokens with
        | error e => exact ⟨le_rfl, Nat.le_add_right _ _, by simp⟩
        | ok selected =>
            have hpass := summarizeSelectedPrefix_shrunk selected
              (compactMessages host model maxTokens fuel) w hreduce hconv
              fun _ next w' _ => ih options.deeper hreduce next w'
            refine hpass.mono fun r w' hpost => ⟨hpost.1, hpost.2.1, fun c hc => ?_⟩
            obtain ⟨hunchanged, hforced, hsmaller, hband⟩ := hpost.2.2 c hc
            rw [hconv.filter] at hunchanged hsmaller
            exact ⟨hunchanged, hforced, hsmaller, hband⟩

end Pass

/-! ## Termination -/

theorem summarizeSelectedPrefix_finishes {host : Host} {model : Text} {maxTokens : ℚ}
    {options : CompactionOptions} {messages : List Message} {selected : SemanticPrefix}
    {compactAgain : CompactionOptions → List Message → Run Compacted} {width : ℕ}
    (hwidth : WidthBound host.countTokens width) (hrounds : ∀ n, width * n < host.rounds n)
    (hagain : options.semanticPass.getD 0 < 48 → ∀ next, (compactAgain options.deeper next).Ends) :
    (summarizeSelectedPrefix host model maxTokens options messages selected
      compactAgain).Ends := by
  refine Eff.ends_bind (semanticSummary_ends hwidth hrounds _) fun summary => ?_
  refine Eff.ends_bind Eff.ends_act fun next => ?_
  dsimp only
  split_ifs with hgrew hover hcount
  · exact Eff.ends_throw
  · exact Eff.ends_throw
  · refine Eff.ends_bind (callback_ends _) fun _ => ?_
    refine Eff.ends_tryCatch (hagain (by omega) next) fun err => ?_
    refine Eff.ends_bind Eff.ends_act fun b => ?_
    split_ifs
    · exact Eff.ends_pure
    · exact Eff.ends_pure
    · exact Eff.ends_throw
  · exact Eff.ends_pure

/-- A call ends: its passes are counted. -/
theorem compactMessages_ends {host : Host} (model : Text) (maxTokens : ℚ) {width : ℕ}
    (hwidth : WidthBound host.countTokens width) (hrounds : ∀ n, width * n < host.rounds n)
    (fuel : ℕ) {options : CompactionOptions} (messages : List Message)
    (hfuel : passesLeft options ≤ fuel) :
    (compactMessages host model maxTokens fuel options messages).Ends := by
  induction fuel generalizing options messages with
  | zero =>
      have : 1 ≤ passesLeft options := Nat.le_max_left _ _
      omega
  | succ fuel ih =>
      rw [compactMessages]
      split_ifs
      · exact Eff.ends_pure
      · refine Eff.ends_bind (fun _ => Eff.finishes_ofExcept) fun selected => ?_
        refine summarizeSelectedPrefix_finishes hwidth hrounds fun hcount next => ih next ?_
        simp only [passesLeft, CompactionOptions.deeper, Option.getD_some] at hfuel ⊢
        omega

/-- Every call throws, leaves the conversation as it is, or returns a smaller
one that is back in the band, is below the trigger or was aborted on the way;
and it takes at most 49 projections. -/
theorem compactMessages_shrinks (host : Host) (model : Text) (maxTokens : ℚ) (width : ℕ)
    (hwidth : WidthBound host.countTokens width) (hrounds : ∀ n, width * n < host.rounds n)
    (options : CompactionOptions) (hreduce : options.allowNonReducing = false)
    (messages : List Message) (w : World) :
    ∃ r w', compactMessages host model maxTokens 49 options messages w = some (r, w') ∧
      w'.projections ≤ w.projections + 49 ∧
      ∀ c, r = .ok c → Shrunk host model maxTokens options messages c w' := by
  have hpasses : passesLeft options ≤ 49 := by
    simp only [passesLeft]
    omega
  have hends := compactMessages_ends model maxTokens hwidth hrounds 49 messages hpasses w
  obtain ⟨⟨r, w'⟩, hrun⟩ := Option.ne_none_iff_exists'.mp hends
  obtain ⟨-, hproj, hshrunk⟩ := compactMessages_shrunk 49 options hreduce messages w r w' hrun
  exact ⟨r, w', hrun, by omega, hshrunk⟩

theorem compactMessages_shrinks_nestedPairs :
    ∃ r w', compactMessages terseHost (js "gpt-4o") 8000 49 forced nestedPairs ⟨0, 0⟩ =
        some (r, w') ∧ w'.projections ≤ 0 + 49 ∧
      ∀ c, r = .ok c → Shrunk terseHost (js "gpt-4o") 8000 forced nestedPairs c w' :=
  compactMessages_shrinks terseHost (js "gpt-4o") 8000 1
    (fun text _ => (Nat.one_mul text.length).ge) (fun n => by simp [terseHost]) forced rfl
    nestedPairs ⟨0, 0⟩

end Shizuha.State
