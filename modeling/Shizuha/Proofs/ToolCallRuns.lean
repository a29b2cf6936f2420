import Shizuha.Proofs.ToolCallReassembly

/-!
# A whole answer with tool calls in it

An answer is in one of two phases at every choice: deltas are still to come, or
the calls are closed, by a finish reason, by `[DONE]` or by the end of the body.
`RunRule` is what has to be shown of the two phases, and what is shown of them is
then true of the whole answer. While deltas come the calls are rebuilt, and when
they are closed each has come out whole.
-/

namespace Shizuha.Provider

open Js

/-! ## The two phases -/

section Rule

variable {t : VLlmTurn} {calls : List StreamedCall} {sent : List (SentDelta calls)}
  {s s' : StreamState} {c : SSEChoice} {rest : List SSEChoice}

/-- What is known while deltas come, and what when the calls are closed. -/
structure RunRule (t : VLlmTurn) {calls : List StreamedCall} (sent : List (SentDelta calls))
    (L : List (SentDelta calls) → StreamState → Prop) (D : StreamState → Prop) : Prop where
  same : ∀ pre s s', L pre s → SameCalls s s' → L pre s'
  sameClosed : ∀ s s', D s → SameCalls s s' → D s'
  heard : ∀ pre s c, L pre s → L pre (hearText s c)
  heardClosed : ∀ s c, D s → D (hearText s c)
  toolCalls : ∀ pre ds post s (c : SSEChoice), sent = pre ++ (ds ++ post) →
    choiceDeltas c = ds.map Prod.snd → L pre s →
    ∃ s', onToolCalls t s c.toolCalls = .ok s' ∧ L (pre ++ ds) s' ∧
      s'.accContent = s.accContent ∧ s'.accReasoning = s.accReasoning
  finish : ∀ s rest finishReason stopReason, L sent s → Unmarked s rest →
    (finishReason = js "tool_calls" ∨ finishReason = js "stop") →
    D (onFinishReason t s finishReason stopReason)
  finishClosed : ∀ s rest finishReason stopReason, D s → Unmarked s rest →
    (finishReason = js "tool_calls" ∨ finishReason = js "stop") →
    D (onFinishReason t s finishReason stopReason)
  close : ∀ s, L sent s → Unmarked s [] → D (closeStream t s)
  closeClosed : ∀ s, D s → Unmarked s [] → D (closeStream t s)

/-- Deltas are still to come, or the calls are closed. -/
inductive Phase (sent : List (SentDelta calls)) (L : List (SentDelta calls) → StreamState → Prop)
    (D : StreamState → Prop) (s : StreamState) (rest : List SSEChoice) : Prop where
  | live (pre ds : List (SentDelta calls)) (split : sent = pre ++ ds)
      (deltas : rest.flatMap choiceDeltas = ds.map Prod.snd) (live : L pre s)
  | closed (deltas : rest.flatMap choiceDeltas = []) (closed : D s)

theorem EndsWell.tail (h : EndsWell (c :: rest)) : EndsWell rest :=
  ⟨fun d hd => h.reasons d (List.mem_cons_of_mem _ hd), h.last.tail⟩

/-- After a finish reason no delta comes. -/
theorem EndsWell.no_deltas (h : EndsWell (c :: rest)) (hc : isPresent c.finishReason = true) :
    rest.flatMap choiceDeltas = [] := by
  rw [List.flatMap_eq_nil_iff]
  intro d hd
  exact (List.pairwise_cons.mp h.last).1 d hd hc

theorem isPresent_of_ne {v : Option Text} (h : v.getD [] ≠ []) : isPresent v = true := by
  cases v with
  | none => exact absurd rfl h
  | some s => simpa [isPresent] using h

variable {L : List (SentDelta calls) → StreamState → Prop} {D : StreamState → Prop}

theorem phase_onChoice (rule : RunRule t sent L D) (hends : EndsWell (c :: rest))
    (hunmarked : Unmarked s (c :: rest)) (h : Phase sent L D s (c :: rest)) :
    ∃ s', onChoice t s c = .ok s' ∧ Unmarked s' rest ∧ Phase sent L D s' rest := by
  -- What the deltas of the choice leave, before its finish reason is read.
  obtain ⟨s₁, hcalls, hunmarked₁, hphase⟩ : ∃ s₁, onToolCalls t (hearText s c) c.toolCalls = .ok s₁ ∧
      Unmarked s₁ rest ∧ Phase sent L D s₁ rest := by
    cases h with
    | live pre ds hsplit hdeltas hlive =>
        rw [List.flatMap_cons] at hdeltas
        obtain ⟨ds₁, ds₂, rfl, hds₁, hds₂⟩ := List.map_eq_append_iff.mp hdeltas.symm
        obtain ⟨s₁, hcalls, hlive₁, hcontent, hreasoning⟩ :=
          rule.toolCalls pre ds₁ ds₂ (hearText s c) c hsplit hds₁.symm (rule.heard pre s c hlive)
        refine ⟨s₁, hcalls, hunmarked.hear.congr hcontent hreasoning, ?_⟩
        exact .live (pre ++ ds₁) ds₂ (by rw [hsplit, List.append_assoc]) hds₂.symm hlive₁
    | closed hdeltas hclosed =>
        rw [List.flatMap_cons, List.append_eq_nil_iff] at hdeltas
        have hunreal : glmStreamedToolCallDeltasAreReal c.toolCalls = false := by
          have hnone : c.toolCalls.getD [] = [] := hdeltas.1
          rw [glmStreamedToolCallDeltasAreReal, hnone]
          rfl
        refine ⟨hearText s c, by rw [onToolCalls, hunreal]; rfl, hunmarked.hear, ?_⟩
        exact .closed hdeltas.2 (rule.heardClosed s c hclosed)
  cases hfinish : c.finishReason with
  | none =>
      have hstep : onChoice t s c = .ok s₁ := by
        rw [onChoice, hcalls, hfinish]
        rfl
      exact ⟨s₁, hstep, hunmarked₁, hphase⟩
  | some finishReason =>
      have hstep : onChoice t s c = if finishReason = [] then .ok s₁
          else .ok (onFinishReason t s₁ finishReason c.stopReason) := by
        rw [onChoice, hcalls, hfinish]
        rfl
      rw [hstep]
      split_ifs with hnil
      · exact ⟨s₁, rfl, hunmarked₁, hphase⟩
      · have hreason := hends.reasons c (by simp) finishReason hfinish hnil
        have hpresent : isPresent c.finishReason = true :=
          isPresent_of_ne (by rw [hfinish]; exact hnil)
        have hnone := hends.no_deltas hpresent
        have hsame := onFinishReason_said t s₁ hreason c.stopReason
        refine ⟨_, rfl, hunmarked₁.congr hsame.1 hsame.2, .closed hnone ?_⟩
        cases hphase with
        | live pre ds hsplit hdeltas hlive =>
            have hds : ds = [] := by
              rw [hnone] at hdeltas
              exact List.map_eq_nil_iff.mp hdeltas.symm
            rw [hds, List.append_nil] at hsplit
            subst hsplit
            exact rule.finish s₁ rest finishReason c.stopReason hlive hunmarked₁ hreason
        | closed hdeltas hclosed =>
            exact rule.finishClosed s₁ rest finishReason c.stopReason hclosed hunmarked₁ hreason

theorem phase_onChoices (rule : RunRule t sent L D) {choices : List SSEChoice}
    (hends : EndsWell (choices ++ rest)) (hunmarked : Unmarked s (choices ++ rest))
    (h : Phase sent L D s (choices ++ rest)) :
    ∃ s', choices.foldlM (onChoice t) s = .ok s' ∧ Unmarked s' rest ∧ Phase sent L D s' rest := by
  induction choices generalizing s with
  | nil => exact ⟨s, rfl, hunmarked, h⟩
  | cons c choices ih =>
      obtain ⟨s₁, hstep, hunmarked₁, hphase⟩ := phase_onChoice rule hends hunmarked h
      rw [List.foldlM_cons, hstep]
      exact ih hends.tail hunmarked₁ hphase

theorem phase_close (rule : RunRule t sent L D) (hunmarked : Unmarked s [])
    (h : Phase sent L D s []) : D (closeStream t s) := by
  cases h with
  | live pre ds hsplit hdeltas hlive =>
      have hds : ds = [] := List.map_eq_nil_iff.mp hdeltas.symm
      rw [hds, List.append_nil] at hsplit
      subst hsplit
      exact rule.close s hlive hunmarked
  | closed hdeltas hclosed => exact rule.closeClosed s hclosed hunmarked

theorem phase_frames (rule : RunRule t sent L D) {frames : List Frame}
    (hundisturbed : Undisturbed frames) (hends : EndsWell (heardChoices frames))
    (hunmarked : Unmarked s (heardChoices frames)) (h : Phase sent L D s (heardChoices frames)) :
    ∃ s', outcome t (frames.foldlM (onFrame t) s) = (s'.events, none) ∧ D s' := by
  induction frames generalizing s with
  | nil => exact ⟨_, rfl, phase_close rule hunmarked h⟩
  | cons frame frames ih =>
      rw [List.foldlM_cons]
      cases frame with
      | ignored => exact ih hundisturbed hends hunmarked h
      | done => exact ⟨_, rfl, phase_close rule hunmarked h⟩
      | null => exact hundisturbed.elim
      | chunk chunk =>
          obtain ⟨herror, hrest⟩ := hundisturbed
          let s₀ : StreamState :=
            { s with completionTokens := chunk.completionTokens.getD s.completionTokens }
          have hchunk : onFrame t s (.chunk chunk) = chunk.choices.foldlM (onChoice t) s₀ := by
            rw [onFrame, onChunk, herror]
            rfl
          have hunmarked₀ : Unmarked s₀ (chunk.choices ++ heardChoices frames) :=
            hunmarked.congr rfl rfl
          have hphase : Phase sent L D s₀ (chunk.choices ++ heardChoices frames) := by
            have hsame : SameCalls s s₀ := ⟨rfl, rfl, rfl, rfl, rfl, rfl⟩
            cases h with
            | live pre ds hsplit hdeltas hlive =>
                exact .live pre ds hsplit hdeltas (rule.same pre s s₀ hlive hsame)
            | closed hdeltas hclosed => exact .closed hdeltas (rule.sameClosed s s₀ hclosed hsame)
          obtain ⟨s₁, hstep, hunmarked₁, hphase₁⟩ := phase_onChoices rule hends hunmarked₀ hphase
          rw [hchunk, hstep]
          exact ih hrest ⟨fun c hc => hends.reasons c (List.mem_append_right _ hc),
            (List.pairwise_append.mp hends.last).2.1⟩ hunmarked₁ hphase₁

/-- What is known when the calls are closed is known at the end of an answer. -/
theorem RunRule.chat (rule : RunRule t sent L D) (hinit : L [] .init) {chunks : List Bytes}
    (hcarries : Carries (bodyFrames chunks.flatten) sent) :
    ∃ s, chat t chunks = (s.events, none) ∧ D s := by
  rw [chat_eq]
  exact phase_frames rule hcarries.undisturbed hcarries.endsWell
    ⟨hcarries.content, hcarries.reasoning⟩ (.live [] sent rfl hcarries.deltas hinit)

end Rule

/-! ## Calls that are rebuilt -/

section Run

variable {t : VLlmTurn} {calls : List StreamedCall} {sent pre post : List (SentDelta calls)}
  {s s' : StreamState} {c : SSEChoice} {rest : List SSEChoice}

theorem delivered_exists (t : VLlmTurn) (s : StreamState) (tc : ToolCallDelta) :
    ∃ b events, Delivered s (onToolCallDelta t s tc) tc b events := by
  by_cases hstarts : startsCall t s.toolCallBuilders tc = true
  · exact ⟨_, _, (onToolCallDelta_starts hstarts).1⟩
  · rw [Bool.not_eq_true] at hstarts
    cases hb : s.toolCallBuilders.find tc.index with
    | none =>
        rw [startsCall, hb] at hstarts
        cases hstarts
    | some b => exact ⟨_, _, (onToolCallDelta_continues hb hstarts).1⟩

/-- What the deltas of a choice leave alone. -/
theorem foldl_delta_frame (t : VLlmTurn) (s : StreamState) (tcs : List ToolCallDelta) :
    (tcs.foldl (onToolCallDelta t) s).sawStreamedToolCall = s.sawStreamedToolCall ∧
      (tcs.foldl (onToolCallDelta t) s).accContent = s.accContent ∧
      (tcs.foldl (onToolCallDelta t) s).accReasoning = s.accReasoning := by
  induction tcs generalizing s with
  | nil => exact ⟨rfl, rfl, rfl⟩
  | cons tc tcs ih =>
      obtain ⟨b, events, h⟩ := delivered_exists t s tc
      obtain ⟨hsaw, hcontent, hreasoning⟩ := ih (onToolCallDelta t s tc)
      exact ⟨hsaw.trans h.saw, hcontent.trans h.content, hreasoning.trans h.reasoning⟩

theorem Rebuilt.congr (h : Rebuilt pre s) (hbuilders : s'.toolCallBuilders = s.toolCallBuilders)
    (hevents : s'.events = s.events) (hever : s'.everBuiltToolCall = s.everBuiltToolCall) :
    Rebuilt pre s' := by
  refine ⟨?_, ?_, ?_, ?_, ?_⟩
  · rw [hbuilders]
    exact h.values
  · rw [hbuilders]
    exact h.current
  · rw [hevents]
    exact h.events
  · rw [hevents]
    exact h.only
  · rw [hever]
    exact h.ever

theorem rebuilt_deltas (hmade : WellMade t calls) (hread : Readable calls)
    (hsent : DeltaSequence calls sent) (hid : IdentifiedAtOnce sent) (ds : List (SentDelta calls))
    (hsplit : sent = pre ++ (ds ++ post)) (h : Rebuilt pre s) :
    Rebuilt (pre ++ ds) ((ds.map Prod.snd).foldl (onToolCallDelta t) s) := by
  induction ds generalizing pre s with
  | nil => rwa [List.append_nil]
  | cons d ds ih =>
      have hdsplit : sent = pre ++ d :: (ds ++ post) := by rw [hsplit]; rfl
      have hdrest : sent = (pre ++ [d]) ++ (ds ++ post) := by rw [hsplit]; simp
      have hrest := ih hdrest (rebuilt_delta hmade hread hsent hid hdsplit h)
      rwa [List.append_assoc] at hrest

theorem rebuilt_silents (hsent : DeltaSequence calls sent) (ds : List (SentDelta calls))
    (hsplit : sent = pre ++ (ds ++ post)) (h : Rebuilt pre s)
    (hsilent : ∀ d ∈ ds,
      d.2.name ≠ some (calls.get d.1).name ∧ d.2.arguments.getD [] = []) :
    Rebuilt (pre ++ ds) s := by
  induction ds generalizing pre with
  | nil => rwa [List.append_nil]
  | cons d ds ih =>
      have hd := hsilent d (by simp)
      have hdsplit : sent = pre ++ d :: (ds ++ post) := by rw [hsplit]; rfl
      have hstep := rebuilt_silent hsent hdsplit
        (fun hbegins => hd.1 (hsent.named _ _ _ hdsplit hbegins)) hd.2 h
      have hdrest : sent = (pre ++ [d]) ++ (ds ++ post) := by rw [hsplit]; simp
      have hrest := ih hdrest hstep fun r hr => hsilent r (by simp [hr])
      rwa [List.append_assoc] at hrest

/-- The calls begun so far are rebuilt, and the reader knows that there are some. -/
structure Live (pre : List (SentDelta calls)) (s : StreamState) : Prop where
  rebuilt : Rebuilt pre s
  saw : pre ≠ [] → s.sawStreamedToolCall = true

theorem live_onToolCalls (hmade : WellMade t calls) (hread : Readable calls)
    (hsent : DeltaSequence calls sent) (hid : IdentifiedAtOnce sent) (hequipped : Equipped t calls)
    (ds : List (SentDelta calls)) (hsplit : sent = pre ++ (ds ++ post))
    (hds : choiceDeltas c = ds.map Prod.snd) (h : Live pre s) :
    ∃ s', onToolCalls t s c.toolCalls = .ok s' ∧ Live (pre ++ ds) s' ∧
      s'.accContent = s.accContent ∧ s'.accReasoning = s.accReasoning := by
  rw [onToolCalls]
  by_cases hreal : glmStreamedToolCallDeltasAreReal c.toolCalls = true
  · have hne : calls ≠ [] := by
      rw [glmStreamedToolCallDeltasAreReal, List.any_eq_true] at hreal
      obtain ⟨tc, htc, -⟩ := hreal
      have hmem : tc ∈ ds.map Prod.snd := hds ▸ htc
      obtain ⟨d, -, -⟩ := List.mem_map.mp hmem
      exact List.ne_nil_of_length_pos (Nat.lt_of_le_of_lt (Nat.zero_le _) d.1.isLt)
    have hdeltas : c.toolCalls.getD [] = ds.map Prod.snd := hds
    rw [if_pos hreal, hequipped.enabled hne, hdeltas]
    let s₁ : StreamState :=
      { s with
        sawStreamedToolCall := true
        lastVisibleCompletionTokens := s.completionTokens }
    obtain ⟨hsaw, hcontent, hreasoning⟩ := foldl_delta_frame t s₁ (ds.map Prod.snd)
    have hrebuilt := rebuilt_deltas hmade hread hsent hid ds hsplit
      (s := s₁) (h.rebuilt.congr rfl rfl rfl)
    exact ⟨_, rfl, ⟨hrebuilt, fun _ => hsaw⟩, hcontent, hreasoning⟩
  · rw [if_neg hreal]
    rw [Bool.not_eq_true, glmStreamedToolCallDeltasAreReal, List.any_eq_false] at hreal
    have hsilent : ∀ d ∈ ds, d.2.name ≠ some calls[d.1].name ∧ d.2.arguments.getD [] = [] := by
      intro d hd
      have htc : d.2 ∈ c.toolCalls.getD [] := by
        have hmem : d.2 ∈ choiceDeltas c := hds ▸ List.mem_map_of_mem hd
        exact hmem
      have hnot := hreal d.2 htc
      rw [Bool.not_eq_true, Bool.or_eq_false_iff, Bool.or_eq_false_iff] at hnot
      refine ⟨fun hname => ?_, ?_⟩
      · have hmem : calls[d.1] ∈ calls := List.getElem_mem _
        have hpresent : isPresent (d.2.name.map trim) = true := by
          apply isPresent_of_ne
          rw [hname, Option.map_some, Option.getD_some, hread.names _ hmem]
          exact hmade.names _ hmem
        rw [hpresent] at hnot
        exact absurd hnot.1.2 (by decide)
      · by_contra hne
        rw [isPresent_of_ne hne] at hnot
        exact absurd hnot.2 (by decide)
    have hrebuilt := rebuilt_silents hsent ds hsplit h.rebuilt hsilent
    refine ⟨s, rfl, ⟨hrebuilt, fun hne => h.saw ?_⟩, rfl, rfl⟩
    -- The first delta of all is not silent.
    rintro rfl
    cases ds with
    | nil => exact hne rfl
    | cons d ds =>
        have hbegins : Begins [] d := fun r hr => by cases hr
        exact (hsilent d (by simp)).1 (hsent.named [] d (ds ++ post) hsplit hbegins)

/-! ## Closing -/

theorem parseArguments_call (hmade : WellMade t calls) {call : StreamedCall} (hc : call ∈ calls) :
    ∃ input, Json.parse call.args = some input ∧ parseArguments call.args = some input := by
  obtain ⟨fields, hfields⟩ := hmade.args call hc
  have hne : call.args ≠ [] := by
    intro hnil
    rw [hnil] at hfields
    cases hfields
  exact ⟨_, hfields, by rw [parseArguments, if_neg hne, hfields]⟩

theorem started_all (hsent : DeltaSequence calls sent) (k : Fin calls.length) :
    k ∈ started sent := by
  obtain ⟨d, hd, hk, -⟩ := hsent.identified k
  exact mem_started.mpr ⟨d, hd, hk⟩

theorem builderOf_sent (hsent : DeltaSequence calls sent) (k : Fin calls.length) :
    builderOf sent k = ⟨idOf k, (calls.get k).name, (calls.get k).args⟩ := by
  rw [builderOf, hsent.arguments]
  rfl

theorem filter_eq_singleton {α : Type*} [DecidableEq α] {l : List α} (hl : l.Nodup) {a : α}
    (ha : a ∈ l) : l.filter (fun b => b = a) = [a] := by
  have hnone : (l.erase a).filter (fun b => decide (b = a)) = [] := by
    rw [List.filter_eq_nil_iff]
    intro b hb
    simpa using ((List.Nodup.mem_erase_iff hl).mp hb).1
  have hperm := (List.perm_cons_erase ha).filter fun b => decide (b = a)
  rw [List.filter_cons_of_pos (by simp), hnone] at hperm
  exact List.perm_singleton.mp hperm

/-- When the calls that are there are closed, each has come out whole. -/
theorem reassembled_of_closed (hmade : WellMade t calls) (hread : Readable calls)
    (hsent : DeltaSequence calls sent) (h : Rebuilt sent s) :
    Reassembled calls idOf (s.events ++ s.toolCallBuilders.values.map closeBuilder) := by
  have hinj := idOf_injective hread
  have hclose : ∀ k, ∃ input, Json.parse calls[k].args = some input ∧
      closeBuilder (builderOf sent k) = .toolUseEnd (idOf k) input := by
    intro k
    obtain ⟨input, hparse, harguments⟩ := parseArguments_call hmade (List.getElem_mem k.isLt)
    refine ⟨input, hparse, ?_⟩
    rw [builderOf_sent hsent, closeBuilder]
    show ToolEvent.toolUseEnd _ ((parseArguments calls[k].args).getD _) = _
    rw [show parseArguments calls[k].args = some input from harguments, Option.getD_some]
  have hends : (s.toolCallBuilders.values.map closeBuilder).Perm
      ((started sent).map fun k => closeBuilder (builderOf sent k)) := by
    have := h.values.map closeBuilder
    rwa [List.map_map] at this
  have hid : ∀ k, (closeBuilder (builderOf sent k)).id = idOf k := fun k => rfl
  refine ⟨hinj, ?_, ?_⟩
  · intro k
    obtain ⟨pieces, hpieces, hfilter⟩ := h.events k (started_all hsent k)
    obtain ⟨input, hparse, hend⟩ := hclose k
    refine ⟨pieces, input, hpieces.trans (hsent.arguments k), hparse, ?_⟩
    have hone : (s.toolCallBuilders.values.map closeBuilder).filter (fun e => e.id = idOf k) =
        [.toolUseEnd (idOf k) input] := by
      have hsame : (started sent).filter ((fun e => decide (e.id = idOf k)) ∘
          fun k => closeBuilder (builderOf sent k)) = [k] := by
        rw [← filter_eq_singleton (List.nodup_dedup _) (started_all hsent k)]
        apply List.filter_congr
        intro j _
        simp only [Function.comp_apply, hid, hinj.eq_iff]
      have hall : ((started sent).map fun k => closeBuilder (builderOf sent k)).filter
          (fun e => decide (e.id = idOf k)) = [.toolUseEnd (idOf k) input] := by
        rw [List.filter_map, hsame, List.map_singleton, hend]
      have hperm := hends.filter fun e => decide (e.id = idOf k)
      rw [hall] at hperm
      exact List.perm_singleton.mp hperm
    rw [List.filter_append, hfilter, hone]
    rfl
  · intro e he
    rcases List.mem_append.mp he with he | he
    · obtain ⟨k, -, hk⟩ := h.only e he
      exact ⟨k, hk⟩
    · obtain ⟨k, -, rfl⟩ := List.mem_map.mp (hends.mem_iff.mp he)
      exact ⟨k, hid k⟩

/-- At a finish reason the calls are closed as they are elsewhere when their
arguments can be parsed. -/
theorem flushAtFinish_parsed {accContent : Text} {builders : List ToolCallBuilder}
    (h : ∀ b ∈ builders, (parseArguments b.args).isSome = true) (consumed : List ℕ) :
    flushAtFinish t accContent [] consumed builders = builders.map closeBuilder := by
  induction builders with
  | nil => rfl
  | cons b builders ih =>
      obtain ⟨input, hinput⟩ := Option.isSome_iff_exists.mp (h b (by simp))
      have hclose : closeAtFinish t accContent b = [closeBuilder b] := by
        rw [closeAtFinish, closeBuilder, hinput]
        rfl
      rw [flushAtFinish, VLlmTurn.recoveryIndex, List.zipIdx_nil, List.find?_nil]
      show closeAtFinish t accContent b ++ _ = _
      rw [hclose, ih fun b' hb' => h b' (by simp [hb'])]
      rfl

/-- The calls are closed, and nothing more comes. -/
structure Complete (t : VLlmTurn) (calls : List StreamedCall) (s : StreamState) : Prop where
  reassembled : Reassembled calls idOf s.events
  builders : s.toolCallBuilders = Table.empty
  settled : Settled t s

theorem settled_sent (hsent : DeltaSequence calls sent) (hequipped : Equipped t calls)
    (h : Live sent s) : Settled t s := by
  by_cases hcalls : calls = []
  · exact .inr (hequipped.unasked hcalls)
  · left
    have hlen : 0 < calls.length := List.length_pos_iff.mpr hcalls
    obtain ⟨d, hd, -⟩ := hsent.identified ⟨0, hlen⟩
    have hne : sent ≠ [] := List.ne_nil_of_mem hd
    exact ⟨h.saw hne, h.rebuilt.ever hne⟩

theorem complete_of_live (hmade : WellMade t calls) (hread : Readable calls)
    (hsent : DeltaSequence calls sent) (hequipped : Equipped t calls) (h : Live sent s)
    (hunmarked : Unmarked s rest) {finishReason : Text} {stopReason : Option Json}
    (hreason : finishReason = js "tool_calls" ∨ finishReason = js "stop") :
    Complete t calls (onFinishReason t s finishReason stopReason) := by
  have hsettled := settled_sent hsent hequipped h
  have hsame : SameCalls _ (onFinishReason t s finishReason stopReason) :=
    onFinishReason_quiet hreason hunmarked hsettled
  have hparsed : ∀ b ∈ s.toolCallBuilders.values, (parseArguments b.args).isSome = true := by
    intro b hb
    obtain ⟨k, -, rfl⟩ := List.mem_map.mp (h.rebuilt.values.mem_iff.mp hb)
    obtain ⟨input, -, harguments⟩ := parseArguments_call hmade (List.getElem_mem k.isLt)
    rw [builderOf_sent hsent]
    exact Option.isSome_iff_exists.mpr ⟨input, harguments⟩
  refine ⟨?_, hsame.builders, ?_⟩
  · have hevents := hsame.events
    dsimp only at hevents
    rw [hevents, flushAtFinish_parsed hparsed]
    exact reassembled_of_closed hmade hread hsent h.rebuilt
  · rcases hsettled with ⟨hsaw, hever⟩ | hnone
    · exact .inl ⟨hsame.saw.trans hsaw, hsame.ever.trans hever⟩
    · exact .inr hnone

theorem complete_finish (h : Complete t calls s) (hunmarked : Unmarked s rest)
    {finishReason : Text} {stopReason : Option Json}
    (hreason : finishReason = js "tool_calls" ∨ finishReason = js "stop") :
    Complete t calls (onFinishReason t s finishReason stopReason) := by
  have hsame : SameCalls _ (onFinishReason t s finishReason stopReason) :=
    onFinishReason_quiet hreason hunmarked h.settled
  refine ⟨?_, hsame.builders, ?_⟩
  · have hevents := hsame.events
    dsimp only at hevents
    rw [hevents, h.builders]
    show Reassembled calls idOf (s.events ++ [])
    rw [List.append_nil]
    exact h.reassembled
  · rcases h.settled with ⟨hsaw, hever⟩ | hnone
    · exact .inl ⟨hsame.saw.trans hsaw, hsame.ever.trans hever⟩
    · exact .inr hnone

theorem Live.congr (h : Live pre s) (hsame : SameCalls s s') : Live pre s' :=
  ⟨h.rebuilt.congr hsame.builders hsame.events hsame.ever, fun hne => hsame.saw.trans (h.saw hne)⟩

theorem Complete.congr (h : Complete t calls s) (hsame : SameCalls s s') : Complete t calls s' := by
  refine ⟨?_, hsame.builders.trans h.builders, ?_⟩
  · rw [hsame.events]
    exact h.reassembled
  · rcases h.settled with ⟨hsaw, hever⟩ | hnone
    · exact .inl ⟨hsame.saw.trans hsaw, hsame.ever.trans hever⟩
    · exact .inr hnone

/-- Where the body ends or `[DONE]` is read. -/
theorem complete_close (hunmarked : Unmarked s []) (hsettled : Settled t s)
    (h : Reassembled calls idOf (s.events ++ s.toolCallBuilders.values.map closeBuilder)) :
    Complete t calls (closeStream t s) := by
  let s₁ : StreamState :=
    { s with
      toolCallBuilders := Table.empty
      events := s.events ++ s.toolCallBuilders.values.map closeBuilder }
  have hunmarked₁ : Unmarked s₁ [] := hunmarked.congr rfl rfl
  have hsame : SameCalls s₁ (closeStream t s) := buildRecovered_quiet hunmarked₁
  refine Complete.congr (s := s₁) ⟨h, rfl, hsettled⟩ hsame

/-- Calls that are told apart at once come out whole. -/
theorem reassembled_chat (hmade : WellMade t calls) (hread : Readable calls)
    (hsent : DeltaSequence calls sent) (hid : IdentifiedAtOnce sent) (hequipped : Equipped t calls)
    {chunks : List Bytes} (hcarries : Carries (bodyFrames chunks.flatten) sent) :
    Reassembled calls idOf (chat t chunks).1 := by
  have rule : RunRule t sent Live (Complete t calls) :=
    { same := fun pre s s' h hsame => h.congr hsame
      sameClosed := fun s s' h hsame => h.congr hsame
      heard := fun pre s c h => ⟨h.rebuilt.congr rfl rfl rfl, h.saw⟩
      heardClosed := fun s c h => ⟨h.reassembled, h.builders, h.settled⟩
      toolCalls := fun pre ds post s c hsplit hds h =>
        live_onToolCalls hmade hread hsent hid hequipped ds hsplit hds h
      finish := fun s rest r sr h hunmarked hreason =>
        complete_of_live hmade hread hsent hequipped h hunmarked hreason
      finishClosed := fun s rest r sr h hunmarked hreason => complete_finish h hunmarked hreason
      close := fun s h hunmarked => complete_close hunmarked (settled_sent hsent hequipped h)
        (reassembled_of_closed hmade hread hsent h.rebuilt)
      closeClosed := fun s h hunmarked => complete_close hunmarked h.settled (by
        rw [h.builders]
        show Reassembled calls idOf (s.events ++ [])
        rw [List.append_nil]
        exact h.reassembled) }
  obtain ⟨s, hchat, hcomplete⟩ :=
    rule.chat ⟨rebuilt_init, fun h => absurd rfl h⟩ hcarries
  rw [hchat]
  exact hcomplete.reassembled

end Run

end Shizuha.Provider
