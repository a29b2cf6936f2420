import Shizuha.Proofs.ToolCallRuns
import Mathlib.Data.Fintype.Card
import Mathlib.Data.Fintype.Option

/-!
# When a call is split in two

A call that begins without its id under an index nothing was ever under is
started under an id that is made up. When its own id comes, it is another id, and
the call goes on as a second one. Nothing that is started goes away before it is
closed, so in the end there is an event under the id of every call and one under
an id of no call, and the calls have not come out whole.
-/

namespace Shizuha.Provider

open Js

section Split

variable {t : VLlmTurn} {calls : List StreamedCall} {sent p q pre post : List (SentDelta calls)}
  {d late : SentDelta calls} {s s' : StreamState}

/-- The ids the calls in the map are under. -/
def heldIds (s : StreamState) : List Text := s.toolCallBuilders.values.map ToolCallBuilder.id

theorem heldIds_starts {tc : ToolCallDelta} (h : startsCall t s.toolCallBuilders tc = true) :
    (heldIds (onToolCallDelta t s tc)).Perm ((newBuilder t s tc).id :: heldIds s) := by
  obtain ⟨-, -, hvalues⟩ := onToolCallDelta_starts h
  have hids := hvalues.map ToolCallBuilder.id
  rwa [List.map_cons, extendBuilder_id] at hids

theorem heldIds_continues {tc : ToolCallDelta} {b : ToolCallBuilder}
    (hb : s.toolCallBuilders.find tc.index = some b)
    (h : startsCall t s.toolCallBuilders tc = false) :
    (heldIds (onToolCallDelta t s tc)).Perm (heldIds s) := by
  obtain ⟨-, rest, hrest, hvalues⟩ := onToolCallDelta_continues hb h
  have hids := hvalues.map ToolCallBuilder.id
  have hold := hrest.map ToolCallBuilder.id
  rw [List.map_cons] at hids hold
  rw [extendBuilder_id] at hids
  exact hids.trans hold.symm

/-- What a call is under it stays under. -/
theorem heldIds_mono (tc : ToolCallDelta) : heldIds s ⊆ heldIds (onToolCallDelta t s tc) := by
  intro id hid
  by_cases hstarts : startsCall t s.toolCallBuilders tc = true
  · exact (heldIds_starts hstarts).mem_iff.mpr (List.mem_cons_of_mem _ hid)
  · rw [Bool.not_eq_true] at hstarts
    cases hb : s.toolCallBuilders.find tc.index with
    | none =>
        rw [startsCall, hb] at hstarts
        cases hstarts
    | some b => exact (heldIds_continues hb hstarts).mem_iff.mpr hid

/-- After a delta with an id there is a call under it. -/
theorem heldIds_identified {tc : ToolCallDelta} {id : Text} (hid : tc.id = some id)
    (hne : trim id ≠ []) : trim id ∈ heldIds (onToolCallDelta t s tc) := by
  have hheld : ∀ b, s.toolCallBuilders.find tc.index = some b → trim id = b.id →
      trim id ∈ heldIds (onToolCallDelta t s tc) := by
    intro b hb heq
    rw [heq]
    exact heldIds_mono tc (List.mem_map_of_mem (Map.mem_values hb))
  by_cases hstarts : startsCall t s.toolCallBuilders tc = true
  · by_cases hopened : ∃ b, s.toolCallBuilders.find tc.index = some b ∧ trim id = b.id
    · obtain ⟨b, hb, heq⟩ := hopened
      exact hheld b hb heq
    · have hany : (s.toolCallBuilders.find tc.index).any (fun b => decide (b.id = trim id)) =
          false := by
        rw [Option.any_eq_false]
        intro b hb
        simpa using fun heq : b.id = trim id => hopened ⟨b, hb, heq.symm⟩
      have hnew : (newBuilder t s tc).id = trim id := by
        rw [newBuilder, streamedToolCallIdForNewBuilder, hid, Option.getD_some]
        simp [hany, hne]
      rw [(heldIds_starts hstarts).mem_iff, hnew]
      exact List.mem_cons_self
  · rw [Bool.not_eq_true] at hstarts
    cases hb : s.toolCallBuilders.find tc.index with
    | none =>
        rw [startsCall, hb] at hstarts
        cases hstarts
    | some b =>
        refine hheld b hb ?_
        rw [startsCall, hb, Option.all_some, streamedToolCallIdentityChanged, Bool.or_eq_false_iff,
          hid, Option.getD_some] at hstarts
        have hsame := hstarts.1
        simp only [hne, ne_eq, not_false_eq_true, decide_true, Bool.true_and,
          decide_eq_false_iff_not, not_not] at hsame
        exact hsame

/-- The calls whose ids have come are there, and once `late` has come so is one
under an id that was made up. -/
structure Loose (t : VLlmTurn) (p pre : List (SentDelta calls)) (s : StreamState) : Prop where
  keys : ∀ j b, s.toolCallBuilders.find j = some b →
    (∃ r ∈ pre, r.2.index = j) ∨ ∃ n, j = parkedKey (1000 + n)
  known : ∀ r ∈ pre, r.2.id = some (calls.get r.1).id → idOf r.1 ∈ heldIds s
  made : p.length < pre.length → ∃ n, t.generatedId n ∈ heldIds s

/-- A call that begins without its id, under an index of its own. -/
structure BeginsLate (sent p q : List (SentDelta calls)) (late : SentDelta calls) : Prop where
  split : sent = p ++ late :: q
  begins : Begins p late
  unidentified : trim (late.2.id.getD []) = []
  unused : ∀ r ∈ p, r.2.index ≠ late.2.index
  low : ∀ n, late.2.index ≠ parkedKey (1000 + n)

/-- Where `late` comes, if it has not come. -/
theorem BeginsLate.here (hlate : BeginsLate sent p q late) (hsplit : sent = pre ++ d :: post)
    (hlen : p.length < (pre ++ [d]).length) (hnot : ¬ p.length < pre.length) : pre = p ∧ d = late := by
  have heq : p ++ late :: q = pre ++ d :: post := hlate.split.symm.trans hsplit
  have hlength : p.length = pre.length := by
    rw [List.length_append, List.length_singleton] at hlen
    omega
  obtain ⟨hpre, hrest⟩ := List.append_inj heq hlength
  exact ⟨hpre.symm, (List.cons.inj hrest).1.symm⟩

theorem loose_delta (hread : Readable calls) (hlate : BeginsLate sent p q late)
    (hsplit : sent = pre ++ d :: post) (h : Loose t p pre s) :
    Loose t p (pre ++ [d]) (onToolCallDelta t s d.2) := by
  refine ⟨?_, ?_, ?_⟩
  · intro j b hb
    obtain ⟨b', events, hdelivered⟩ := delivered_exists t s d.2
    rcases hdelivered.keys j b hb with rfl | hparked | hold
    · exact .inl ⟨d, by simp, rfl⟩
    · exact .inr hparked
    · obtain ⟨b₀, hb₀⟩ := Option.isSome_iff_exists.mp hold
      rcases h.keys j b₀ hb₀ with ⟨r, hr, hindex⟩ | hparked
      · exact .inl ⟨r, by simp [hr], hindex⟩
      · exact .inr hparked
  · intro r hr hid
    rcases List.mem_append.mp hr with hr | hr
    · exact heldIds_mono d.2 (h.known r hr hid)
    · rw [List.mem_singleton.mp hr] at hid ⊢
      exact heldIds_identified hid (hread.ids _ (List.getElem_mem _))
  · intro hlen
    by_cases hpast : p.length < pre.length
    · obtain ⟨n, hn⟩ := h.made hpast
      exact ⟨n, heldIds_mono d.2 hn⟩
    · obtain ⟨rfl, rfl⟩ := hlate.here hsplit hlen hpast
      have hnone : s.toolCallBuilders.find d.2.index = none := by
        cases hb : s.toolCallBuilders.find d.2.index with
        | none => rfl
        | some b =>
            rcases h.keys _ b hb with ⟨r, hr, hindex⟩ | ⟨n, hn⟩
            · exact absurd hindex (hlate.unused r hr)
            · exact absurd hn (hlate.low n)
      have hstarts : startsCall t s.toolCallBuilders d.2 = true := by
        rw [startsCall, hnone]
        rfl
      have hnew : (newBuilder t s d.2).id = t.generatedId s.idsMade := by
        rw [newBuilder, streamedToolCallIdForNewBuilder, hlate.unidentified]
        rfl
      refine ⟨s.idsMade, (heldIds_starts hstarts).mem_iff.mpr ?_⟩
      rw [hnew]
      exact List.mem_cons_self

/-- A delta that is not read carries neither id nor name. -/
theorem loose_silent (hmade : WellMade t calls) (hread : Readable calls)
    (hsent : DeltaSequence calls sent) (hlate : BeginsLate sent p q late)
    (hsplit : sent = pre ++ d :: post)
    (hsilent : isPresent d.2.id = false ∧ isPresent (d.2.name.map trim) = false)
    (h : Loose t p pre s) : Loose t p (pre ++ [d]) s := by
  have hmem : calls[d.1] ∈ calls := List.getElem_mem _
  refine ⟨?_, ?_, ?_⟩
  · intro j b hb
    rcases h.keys j b hb with ⟨r, hr, hindex⟩ | hparked
    · exact .inl ⟨r, by simp [hr], hindex⟩
    · exact .inr hparked
  · intro r hr hid
    rcases List.mem_append.mp hr with hr | hr
    · exact h.known r hr hid
    · rw [List.mem_singleton.mp hr] at hid
      have hpresent : isPresent d.2.id = true := by
        apply isPresent_of_ne
        rw [hid, Option.getD_some]
        exact hmade.ids _ hmem
      rw [hsilent.1] at hpresent
      cases hpresent
  · intro hlen
    by_cases hpast : p.length < pre.length
    · exact h.made hpast
    · obtain ⟨rfl, rfl⟩ := hlate.here hsplit hlen hpast
      have hname := hsent.named _ _ _ hsplit hlate.begins
      have hpresent : isPresent (d.2.name.map trim) = true := by
        apply isPresent_of_ne
        rw [hname, Option.map_some, Option.getD_some, hread.names _ hmem]
        exact hmade.names _ hmem
      rw [hsilent.2] at hpresent
      cases hpresent

theorem loose_deltas (hread : Readable calls) (hlate : BeginsLate sent p q late)
    (ds : List (SentDelta calls)) (hsplit : sent = pre ++ (ds ++ post)) (h : Loose t p pre s) :
    Loose t p (pre ++ ds) ((ds.map Prod.snd).foldl (onToolCallDelta t) s) := by
  induction ds generalizing pre s with
  | nil => rwa [List.append_nil]
  | cons d ds ih =>
      have hdsplit : sent = pre ++ d :: (ds ++ post) := by rw [hsplit]; rfl
      have hdrest : sent = (pre ++ [d]) ++ (ds ++ post) := by rw [hsplit]; simp
      have hrest := ih hdrest (loose_delta hread hlate hdsplit h)
      rwa [List.append_assoc] at hrest

theorem loose_silents (hmade : WellMade t calls) (hread : Readable calls)
    (hsent : DeltaSequence calls sent) (hlate : BeginsLate sent p q late)
    (ds : List (SentDelta calls)) (hsplit : sent = pre ++ (ds ++ post))
    (hsilent : ∀ d ∈ ds, isPresent d.2.id = false ∧ isPresent (d.2.name.map trim) = false)
    (h : Loose t p pre s) : Loose t p (pre ++ ds) s := by
  induction ds generalizing pre with
  | nil => rwa [List.append_nil]
  | cons d ds ih =>
      have hdsplit : sent = pre ++ d :: (ds ++ post) := by rw [hsplit]; rfl
      have hdrest : sent = (pre ++ [d]) ++ (ds ++ post) := by rw [hsplit]; simp
      have hstep := loose_silent hmade hread hsent hlate hdsplit (hsilent d (by simp)) h
      have hrest := ih hdrest (fun r hr => hsilent r (by simp [hr])) hstep
      rwa [List.append_assoc] at hrest

theorem loose_toolCalls (hmade : WellMade t calls) (hread : Readable calls)
    (hsent : DeltaSequence calls sent) (hequipped : Equipped t calls)
    (hlate : BeginsLate sent p q late) {c : SSEChoice} (ds : List (SentDelta calls))
    (hsplit : sent = pre ++ (ds ++ post)) (hds : choiceDeltas c = ds.map Prod.snd)
    (h : Loose t p pre s) :
    ∃ s', onToolCalls t s c.toolCalls = .ok s' ∧ Loose t p (pre ++ ds) s' ∧
      s'.accContent = s.accContent ∧ s'.accReasoning = s.accReasoning := by
  have hne : calls ≠ [] :=
    List.ne_nil_of_length_pos (Nat.lt_of_le_of_lt (Nat.zero_le _) late.1.isLt)
  have hdeltas : c.toolCalls.getD [] = ds.map Prod.snd := hds
  rw [onToolCalls]
  by_cases hreal : glmStreamedToolCallDeltasAreReal c.toolCalls = true
  · rw [if_pos hreal, hequipped.enabled hne, hdeltas]
    let s₁ : StreamState :=
      { s with
        sawStreamedToolCall := true
        lastVisibleCompletionTokens := s.completionTokens }
    obtain ⟨-, hcontent, hreasoning⟩ := foldl_delta_frame t s₁ (ds.map Prod.snd)
    have h₁ : Loose t p pre s₁ := ⟨h.keys, h.known, h.made⟩
    exact ⟨_, rfl, loose_deltas hread hlate ds hsplit h₁, hcontent, hreasoning⟩
  · rw [if_neg hreal]
    rw [Bool.not_eq_true, glmStreamedToolCallDeltasAreReal, hdeltas, List.any_eq_false] at hreal
    refine ⟨s, rfl, loose_silents hmade hread hsent hlate ds hsplit (fun d hd => ?_) h, rfl, rfl⟩
    have hnot := hreal d.2 (List.mem_map_of_mem hd)
    rw [Bool.not_eq_true, Bool.or_eq_false_iff, Bool.or_eq_false_iff] at hnot
    exact hnot.1

/-! ## Too many ids -/

theorem flushAtFinish_closes (t : VLlmTurn) (accContent : Text) (recovery : List GlmToolCall)
    (consumed : List ℕ) {builders : List ToolCallBuilder} {b : ToolCallBuilder}
    (hb : b ∈ builders) :
    ∃ e ∈ flushAtFinish t accContent recovery consumed builders, e.id = b.id := by
  induction builders generalizing consumed with
  | nil => cases hb
  | cons first rest ih =>
      rw [flushAtFinish]
      cases hindex : t.recoveryIndex recovery consumed first.name with
      | some found =>
          obtain ⟨call, index⟩ := found
          dsimp only
          rcases List.mem_cons.mp hb with rfl | hb
          · exact ⟨_, List.mem_cons_self, rfl⟩
          · obtain ⟨e, he, hid⟩ := ih (index :: consumed) hb
            exact ⟨e, List.mem_cons_of_mem _ he, hid⟩
      | none =>
          dsimp only
          rcases List.mem_cons.mp hb with rfl | hb
          · obtain ⟨input, hend⟩ : ∃ input, .toolUseEnd b.id input ∈ closeAtFinish t accContent b := by
              rw [closeAtFinish]
              split
              · exact ⟨_, List.mem_singleton_self _⟩
              · split_ifs
                · exact ⟨_, List.mem_singleton_self _⟩
                · split
                  · exact ⟨_, List.mem_append_right _ (List.mem_singleton_self _)⟩
                  · exact ⟨_, List.mem_singleton_self _⟩
            exact ⟨_, List.mem_append_left _ hend, rfl⟩
          · obtain ⟨e, he, hid⟩ := ih consumed hb
            exact ⟨e, List.mem_append_right _ he, hid⟩

/-- There is an event under the id of every call, and one under an id that was
made up. -/
structure Told (t : VLlmTurn) (calls : List StreamedCall) (s : StreamState) : Prop where
  known : ∀ k : Fin calls.length, ∃ e ∈ s.events, e.id = idOf k
  made : ∃ n, ∃ e ∈ s.events, e.id = t.generatedId n

theorem Told.grow (h : Told t calls s) (hgrows : ∃ more, s'.events = s.events ++ more) :
    Told t calls s' := by
  obtain ⟨more, hmore⟩ := hgrows
  refine ⟨fun k => ?_, ?_⟩
  · obtain ⟨e, he, hid⟩ := h.known k
    exact ⟨e, by rw [hmore]; exact List.mem_append_left _ he, hid⟩
  · obtain ⟨n, e, he, hid⟩ := h.made
    exact ⟨n, e, by rw [hmore]; exact List.mem_append_left _ he, hid⟩

/-- When what is held is closed there is an event for each. -/
theorem told_of_closed (hsent : DeltaSequence calls sent) (hlate : BeginsLate sent p q late)
    (h : Loose t p sent s) {events : List ToolEvent}
    (hclosed : ∀ b ∈ s.toolCallBuilders.values, ∃ e ∈ events, e.id = b.id)
    (hs' : s'.events = s.events ++ events) : Told t calls s' := by
  have hevent : ∀ id ∈ heldIds s, ∃ e ∈ s'.events, e.id = id := by
    intro id hid
    obtain ⟨b, hb, rfl⟩ := List.mem_map.mp hid
    obtain ⟨e, he, heq⟩ := hclosed b hb
    exact ⟨e, by rw [hs']; exact List.mem_append_right _ he, heq⟩
  refine ⟨fun k => ?_, ?_⟩
  · obtain ⟨d, hd, rfl, hid⟩ := hsent.identified k
    exact hevent _ (h.known d hd hid)
  · have hlen : p.length < sent.length := by
      rw [hlate.split, List.length_append, List.length_cons]
      omega
    obtain ⟨n, hn⟩ := h.made hlen
    exact ⟨n, hevent _ hn⟩

/-- One id more than there are calls is one too many. -/
theorem not_reassembled (hread : Readable calls)
    (hgenerated : ∀ n, ∀ c ∈ calls, t.generatedId n ≠ trim c.id) (h : Told t calls s)
    {ids : Fin calls.length → Text} (hreassembled : Reassembled calls ids s.events) : False := by
  obtain ⟨n, e, he, hid⟩ := h.made
  have hkey : ∀ id, (∃ e ∈ s.events, e.id = id) → ∃ k, ids k = id := by
    rintro id ⟨e, he, rfl⟩
    obtain ⟨k, hk⟩ := hreassembled.only e he
    exact ⟨k, hk.symm⟩
  choose place hplace using fun k => hkey (idOf k) (h.known k)
  obtain ⟨extra, hextra⟩ := hkey (t.generatedId n) ⟨e, he, hid⟩
  let f : Option (Fin calls.length) → Fin calls.length := fun o => o.elim extra place
  have hf : Function.Injective f := by
    have hne : ∀ k, place k ≠ extra := by
      intro k heq
      have hgen : idOf k = t.generatedId n := by rw [← hplace k, heq, hextra]
      exact hgenerated n _ (List.getElem_mem k.isLt) hgen.symm
    intro a b hab
    cases a with
    | none =>
        cases b with
        | none => rfl
        | some k => exact absurd hab.symm (hne k)
    | some j =>
        cases b with
        | none => exact absurd hab (hne j)
        | some k =>
            have hid : idOf j = idOf k := by
              rw [← hplace j, ← hplace k]
              exact congrArg ids hab
            rw [idOf_injective hread hid]
  have hcard := Fintype.card_le_of_injective f hf
  rw [Fintype.card_option, Fintype.card_fin] at hcard
  omega

/-- A call that begins without its id, under an index of its own, is not put
together again. -/
theorem split_chat (hmade : WellMade t calls) (hread : Readable calls)
    (hsent : DeltaSequence calls sent) (hequipped : Equipped t calls)
    (hgenerated : ∀ n, ∀ c ∈ calls, t.generatedId n ≠ trim c.id)
    (hlate : BeginsLate sent p q late) {chunks : List Bytes}
    (hcarries : Carries (bodyFrames chunks.flatten) sent) (ids : Fin calls.length → Text) :
    ¬ Reassembled calls ids (chat t chunks).1 := by
  have hfinish : ∀ s finishReason stopReason,
      (finishReason = js "tool_calls" ∨ finishReason = js "stop") →
      ∃ more, (onFinishReason t s finishReason stopReason).events = s.events ++ more ∧
        ∀ b ∈ s.toolCallBuilders.values, ∃ e ∈ more, e.id = b.id := by
    intro s finishReason stopReason hreason
    obtain ⟨more, hmore⟩ := ((grows_flush t s).trans (grows_onFinishReason t s hreason stopReason)).events
    refine ⟨_, hmore.trans (List.append_assoc ..), fun b hb => ?_⟩
    obtain ⟨e, he, hid⟩ := flushAtFinish_closes t s.accContent
      (t.extractGlmToolCalls s.accContent ++ t.extractGlmToolCalls s.accReasoning) [] hb
    exact ⟨e, List.mem_append_left _ he, hid⟩
  have hclose : ∀ s, ∃ more, (closeStream t s).events = s.events ++ more ∧
      ∀ b ∈ s.toolCallBuilders.values, ∃ e ∈ more, e.id = b.id := by
    intro s
    obtain ⟨more, hmore⟩ := (grows_buildRecovered t
      { s with
        toolCallBuilders := Table.empty
        events := s.events ++ s.toolCallBuilders.values.map closeBuilder }).events
    refine ⟨_, hmore.trans (List.append_assoc ..), fun b hb => ?_⟩
    exact ⟨closeBuilder b, List.mem_append_left _ (List.mem_map_of_mem hb), rfl⟩
  have rule : RunRule t sent (Loose t p) (Told t calls) :=
    { same := fun pre s s' h hsame => by
        obtain ⟨hkeys, hknown, hmadeId⟩ := h
        rw [← hsame.builders] at hkeys
        have hheld : heldIds s' = heldIds s := by rw [heldIds, hsame.builders, heldIds]
        rw [← hheld] at hknown hmadeId
        exact ⟨hkeys, hknown, hmadeId⟩
      sameClosed := fun s s' h hsame => h.grow ⟨[], by rw [hsame.events, List.append_nil]⟩
      heard := fun pre s c h => ⟨h.keys, h.known, h.made⟩
      heardClosed := fun s c h => ⟨h.known, h.made⟩
      toolCalls := fun pre ds post s c hsplit hds h =>
        loose_toolCalls hmade hread hsent hequipped hlate ds hsplit hds h
      finish := fun s rest r sr h hunmarked hreason => by
        obtain ⟨more, hmore, hclosed⟩ := hfinish s r sr hreason
        exact told_of_closed hsent hlate h hclosed hmore
      finishClosed := fun s rest r sr h hunmarked hreason => by
        obtain ⟨more, hmore, -⟩ := hfinish s r sr hreason
        exact h.grow ⟨more, hmore⟩
      close := fun s h hunmarked => by
        obtain ⟨more, hmore, hclosed⟩ := hclose s
        exact told_of_closed hsent hlate h hclosed hmore
      closeClosed := fun s h hunmarked => by
        obtain ⟨more, hmore, -⟩ := hclose s
        exact h.grow ⟨more, hmore⟩ }
  have hinit : Loose t p [] .init :=
    ⟨fun j b hb => absurd hb (by simp [StreamState.init]), fun r hr => absurd hr (by simp),
      fun hlen => absurd hlen (by simp)⟩
  obtain ⟨s, hchat, htold⟩ := rule.chat hinit hcarries
  rw [hchat]
  exact not_reassembled hread hgenerated htold

end Split

/-- Streamed tool calls come out whole when the first delta of each carries its
id. A call that begins without its id breaks them, wherever it begins under an
index of its own. -/
theorem tool_calls_reassembled (t : VLlmTurn) (calls : List StreamedCall)
    (sent : List (SentDelta calls)) (chunks : List Bytes) (hmade : WellMade t calls)
    (hsent : DeltaSequence calls sent) (hcarries : Carries (bodyFrames chunks.flatten) sent)
    (hread : Readable calls) (hequipped : Equipped t calls) :
    (IdentifiedAtOnce sent → ∃ ids, Reassembled calls ids (chat t chunks).1) ∧
      ((∀ n, ∀ c ∈ calls, t.generatedId n ≠ trim c.id) →
        (∃ ids, Reassembled calls ids (chat t chunks).1) →
        ∀ pre d post, sent = pre ++ d :: post → Begins pre d →
          (∀ r ∈ pre, r.2.index ≠ d.2.index) → (∀ n, d.2.index ≠ parkedKey (1000 + n)) →
          d.2.id = some (calls.get d.1).id) := by
  refine ⟨fun hid => ⟨idOf, reassembled_chat hmade hread hsent hid hequipped hcarries⟩, ?_⟩
  rintro hgenerated ⟨ids, hreassembled⟩ pre d post hsplit hbegins hunused hlow
  by_contra hne
  have hunidentified : trim (d.2.id.getD []) = [] := by
    rcases hsent.ids d (by simp [hsplit]) with h | h | h
    · rw [h]
      rfl
    · rw [h]
      rfl
    · exact absurd h hne
  exact split_chat hmade hread hsent hequipped hgenerated
    ⟨hsplit, hbegins, hunidentified, hunused, hlow⟩ hcarries ids hreassembled

/-! ## One call in two deltas -/

def sampleTurn : VLlmTurn where
  toolsEnabled := true
  isGlmModel := false
  salvageHeaders := false
  reverseAliases := fun _ => none
  namedAliases := rfl
  generatedId := fun n => js "vllm_" ++ decimal n
  leakedCalls := fun _ => []
  salvageGlmToolCall := fun _ _ _ => none
  discards := fun _ => false
  resend := fun _ => []

def sampleCall : StreamedCall := ⟨js "c", js "f", js "\x7b\x7d"⟩

/-- The name comes first, the arguments come later, and the id comes with them
if it did not come before. -/
def sampleSent (id : Option Text) : List (SentDelta [sampleCall]) :=
  [(0, ⟨some 0, id, some (js "f"), none⟩),
    (0, ⟨some 0, some (js "c"), none, some (js "\x7b\x7d")⟩)]

def sampleBody (first : String) : Bytes :=
  utf8Encode (js first ++ js "data: \x7b\"choices\":[\x7b\"delta\":\x7b\"tool_calls\":[\x7b\"index\":0,\"id\":\"c\",\"function\":\x7b\"arguments\":\"\x7b\x7d\"\x7d\x7d]\x7d\x7d]\x7d\n\ndata: [DONE]\n\n")

def firstNamed : String :=
  "data: \x7b\"choices\":[\x7b\"delta\":\x7b\"tool_calls\":[\x7b\"index\":0,\"function\":\x7b\"name\":\"f\"\x7d\x7d]\x7d\x7d]\x7d\n\n"

def firstIdentified : String :=
  "data: \x7b\"choices\":[\x7b\"delta\":\x7b\"tool_calls\":[\x7b\"index\":0,\"id\":\"c\",\"function\":\x7b\"name\":\"f\"\x7d\x7d]\x7d\x7d]\x7d\n\n"

/-- Where a list of two can be split. -/
theorem split_pair {α : Type*} {a b d : α} {pre post : List α} (h : [a, b] = pre ++ d :: post) :
    pre = [] ∧ d = a ∧ post = [b] ∨ pre = [a] ∧ d = b ∧ post = [] := by
  match pre, h with
  | [], h =>
      cases h
      exact .inl ⟨rfl, rfl, rfl⟩
  | [_], h =>
      cases h
      exact .inr ⟨rfl, rfl, rfl⟩
  | _ :: _ :: _, h => simp at h

theorem sample_index (k : Fin [sampleCall].length) : k = 0 := Fin.fin_one_eq_zero k

theorem sample_wellMade : WellMade sampleTurn [sampleCall] where
  ids := by decide
  distinct := by decide
  names := by decide
  untagged := by decide
  unaliased := fun _ _ => rfl
  args := by
    intro c hc
    rw [List.mem_singleton.mp hc]
    exact ⟨[], rfl⟩

theorem sample_sequence {id : Option Text} (hid : Repeats id (js "c")) :
    DeltaSequence [sampleCall] (sampleSent id) where
  index := by
    intro d hd
    rcases List.mem_pair.mp hd with rfl | rfl <;> rfl
  sameIndex := by
    intro d hd r hr _
    rcases List.mem_pair.mp hd with rfl | rfl <;> rcases List.mem_pair.mp hr with rfl | rfl <;> rfl
  ids := by
    intro d hd
    rcases List.mem_pair.mp hd with rfl | rfl
    · exact hid
    · exact .inr (.inr rfl)
  names := by
    intro d hd
    rcases List.mem_pair.mp hd with rfl | rfl
    · exact .inr (.inr rfl)
    · exact .inl rfl
  named := by
    intro pre d post hsplit hbegins
    rcases split_pair hsplit with ⟨rfl, rfl, rfl⟩ | ⟨rfl, rfl, rfl⟩
    · rfl
    · exact absurd rfl (hbegins (0, ⟨some 0, id, some (js "f"), none⟩) (List.mem_singleton.mpr rfl))
  identified := by
    intro k
    exact ⟨(0, ⟨some 0, some (js "c"), none, some (js "\x7b\x7d")⟩), by simp [sampleSent],
      (sample_index k).symm, by rw [sample_index k]; rfl⟩
  arguments := by
    intro k
    rw [sample_index k]
    rfl
  reuse := by
    intro pre d post _ r _ _ hne
    exact absurd ((sample_index r.1).trans (sample_index d.1).symm) hne

instance decidableUndisturbed : (frames : List Frame) → Decidable (Undisturbed frames)
  | [] => .isTrue trivial
  | .done :: _ => .isTrue trivial
  | .chunk c :: rest =>
      have := decidableUndisturbed rest
      inferInstanceAs (Decidable (c.error = false ∧ Undisturbed rest))
  | .ignored :: rest => decidableUndisturbed rest
  | .null :: _ => .isFalse id

theorem endsWell_of_none {choices : List SSEChoice}
    (h : choices.all (fun c => c.finishReason.isNone) = true) : EndsWell choices := by
  have hnone : ∀ c ∈ choices, c.finishReason = none := fun c hc =>
    Option.isNone_iff_eq_none.mp (List.all_eq_true.mp h c hc)
  refine ⟨fun c hc r hr => ?_, ?_⟩
  · rw [hnone c hc] at hr
    cases hr
  · rw [List.pairwise_iff_forall_sublist]
    intro c d hsub hpresent
    rw [hnone c (hsub.subset (by simp))] at hpresent
    cases hpresent

/-- A stream without a finish reason, as far as it can be checked by running. -/
theorem carries_of_checks {calls : List StreamedCall} {frames : List Frame}
    {sent : List (SentDelta calls)}
    (h : Undisturbed frames ∧ (heardChoices frames).flatMap choiceDeltas = sent.map Prod.snd ∧
      (heardChoices frames).all (fun c => c.finishReason.isNone) = true ∧
      includes ((heardChoices frames).flatMap fun c => c.content.getD []) toolCallMarker = false ∧
      includes ((heardChoices frames).flatMap fun c =>
        (c.reasoning <|> c.reasoningContent).getD []) toolCallMarker = false) :
    Carries frames sent := by
  obtain ⟨hundisturbed, hdeltas, hfinish, hcontent, hreasoning⟩ := h
  exact ⟨hundisturbed, hdeltas, endsWell_of_none hfinish, hcontent, hreasoning⟩

theorem sample_carries_named :
    Carries (bodyFrames [sampleBody firstNamed].flatten) (sampleSent none) := by
  rw [sampleBody, firstNamed, js_ofList, js_ofList]
  exact carries_of_checks (by decide +kernel)

theorem sample_carries_identified :
    Carries (bodyFrames [sampleBody firstIdentified].flatten) (sampleSent (some (js "c"))) := by
  rw [sampleBody, firstIdentified, js_ofList, js_ofList]
  exact carries_of_checks (by decide +kernel)

theorem sample_readable : Readable [sampleCall] where
  ids := by decide
  distinct := by decide
  names := by decide

theorem sample_equipped : Equipped sampleTurn [sampleCall] where
  enabled := fun _ => rfl
  unasked := fun h => by cases h

theorem tool_calls_reassembled_sample :
    ∃ ids, Reassembled [sampleCall] ids (chat sampleTurn [sampleBody firstIdentified]).1 := by
  have hid : IdentifiedAtOnce (sampleSent (some (js "c"))) := by
    intro pre d post hsplit _
    rcases split_pair hsplit with ⟨rfl, rfl, rfl⟩ | ⟨rfl, rfl, rfl⟩ <;> rfl
  exact (tool_calls_reassembled sampleTurn [sampleCall] (sampleSent (some (js "c")))
    [sampleBody firstIdentified] sample_wellMade (sample_sequence (.inr (.inr rfl)))
    sample_carries_identified sample_readable sample_equipped).1 hid

/-- The id comes with the second delta, and the call comes out as two. -/
theorem late_id_splits_call :
    WellMade sampleTurn [sampleCall] ∧ DeltaSequence [sampleCall] (sampleSent none) ∧
      Carries (bodyFrames [sampleBody firstNamed].flatten) (sampleSent none) ∧
      sampleTurn.toolsEnabled = true ∧
      ¬ ∃ ids, Reassembled [sampleCall] ids (chat sampleTurn [sampleBody firstNamed]).1 := by
  refine ⟨sample_wellMade, sample_sequence (.inl rfl), sample_carries_named, rfl, ?_⟩
  rintro ⟨ids, h⟩
  have hids : (chat sampleTurn [sampleBody firstNamed]).1.map ToolEvent.id =
      [js "vllm_0", js "c", js "vllm_0", js "c"] := by
    rw [sampleBody, firstNamed, js_ofList, js_ofList]
    decide +kernel
  have hone : ∀ id ∈ (chat sampleTurn [sampleBody firstNamed]).1.map ToolEvent.id, id = ids 0 := by
    intro id hid
    obtain ⟨e, he, rfl⟩ := List.mem_map.mp hid
    obtain ⟨k, hk⟩ := h.only e he
    rw [hk, sample_index k]
  rw [hids] at hone
  have heq : js "vllm_0" = js "c" := (hone _ (by simp)).trans (hone _ (by simp)).symm
  exact absurd heq (by decide)

end Shizuha.Provider
