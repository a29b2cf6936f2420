import Mathlib.Data.List.Dedup
import Mathlib.Data.List.FinRange
import Shizuha.Proofs.ToolCallStream

/-!
# Streamed tool calls as they are sent

Some calls, the deltas they are sent in, and the frames that carry the deltas.
The deltas of a call come under one index, its id and its name are in some of
them, and two calls are interleaved under two indices or follow one another
under one. What is to come out is each call under an id of its own. The ids and
names that are read are the trimmed ones.
-/

namespace Shizuha.Provider

open Js

/-! ## Calls and their deltas -/

/-- A tool call as the server makes it. -/
structure StreamedCall where
  id : Text
  name : Text
  args : Text

structure WellMade (t : VLlmTurn) (calls : List StreamedCall) : Prop where
  ids : ∀ c ∈ calls, c.id ≠ []
  distinct : (calls.map StreamedCall.id).Nodup
  names : ∀ c ∈ calls, c.name ≠ []
  untagged : ∀ c ∈ calls, tagPattern.test c.name = false
  unaliased : ∀ c ∈ calls, t.reverseAliases c.name = none
  args : ∀ c ∈ calls, ∃ fields, Json.parse c.args = some (.obj fields)

/-- A field that is left out or repeated. -/
def Repeats (v : Option Text) (whole : Text) : Prop := v = none ∨ v = some [] ∨ v = some whole

/-- A delta and the call it is of. -/
abbrev SentDelta (calls : List StreamedCall) := Fin calls.length × ToolCallDelta

section Sent

variable {calls : List StreamedCall}

/-- The pieces of a call's arguments. -/
def fragments (k : Fin calls.length) (sent : List (SentDelta calls)) : Text :=
  (sent.filter fun d => d.1 = k).flatMap fun d => d.2.arguments.getD []

/-- The first delta of a call, after those in `pre`. -/
def Begins (pre : List (SentDelta calls)) (d : SentDelta calls) : Prop := ∀ r ∈ pre, r.1 ≠ d.1

instance (pre : List (SentDelta calls)) (d : SentDelta calls) : Decidable (Begins pre d) :=
  inferInstanceAs (Decidable (∀ r ∈ pre, r.1 ≠ d.1))

end Sent

structure DeltaSequence (calls : List StreamedCall) (sent : List (SentDelta calls)) : Prop where
  index : ∀ d ∈ sent, d.2.index.isSome = true
  sameIndex : ∀ d ∈ sent, ∀ r ∈ sent, d.1 = r.1 → d.2.index = r.2.index
  ids : ∀ d ∈ sent, Repeats d.2.id calls[d.1].id
  names : ∀ d ∈ sent, Repeats d.2.name calls[d.1].name
  named : ∀ pre d post, sent = pre ++ d :: post → Begins pre d → d.2.name = some calls[d.1].name
  identified : ∀ k : Fin calls.length, ∃ d ∈ sent, d.1 = k ∧ d.2.id = some calls[k].id
  arguments : ∀ k : Fin calls.length, fragments k sent = calls[k].args
  /-- A call whose index another call has used is over. -/
  reuse : ∀ pre d post, sent = pre ++ d :: post → ∀ r ∈ pre, r.2.index = d.2.index → r.1 ≠ d.1 →
    ∀ q ∈ post, q.1 ≠ r.1

/-! ## The stream they come in -/

/-- The choices up to `[DONE]`. -/
def heardChoices : List Frame → List SSEChoice
  | [] => []
  | .done :: _ => []
  | .chunk c :: rest => c.choices ++ heardChoices rest
  | .ignored :: rest => heardChoices rest
  | .null :: rest => heardChoices rest

/-- No error up to `[DONE]`. -/
def Undisturbed : List Frame → Prop
  | [] => True
  | .done :: _ => True
  | .chunk c :: rest => c.error = false ∧ Undisturbed rest
  | .ignored :: rest => Undisturbed rest
  | .null :: _ => False

def choiceDeltas (c : SSEChoice) : List ToolCallDelta := c.toolCalls.getD []

/-- A finish reason is one of two, and no delta comes after it. -/
structure EndsWell (choices : List SSEChoice) : Prop where
  reasons : ∀ c ∈ choices, ∀ r, c.finishReason = some r → r ≠ [] →
    r = js "tool_calls" ∨ r = js "stop"
  last : choices.Pairwise fun c d => isPresent c.finishReason = true → choiceDeltas d = []

/-- The frames carry these deltas, and no tool markup besides. They may end with
a finish reason, with `[DONE]` or without either. -/
structure Carries {calls : List StreamedCall} (frames : List Frame)
    (sent : List (SentDelta calls)) : Prop where
  undisturbed : Undisturbed frames
  deltas : (heardChoices frames).flatMap choiceDeltas = sent.map Prod.snd
  endsWell : EndsWell (heardChoices frames)
  content : includes ((heardChoices frames).flatMap fun c => c.content.getD []) toolCallMarker =
    false
  reasoning : includes ((heardChoices frames).flatMap fun c =>
    (c.reasoning <|> c.reasoningContent).getD []) toolCallMarker = false

/-! ## What is to come out -/

/-- Under an id of its own every call has its start, the pieces of its arguments
and its end, in this order, and there is no other event. -/
structure Reassembled (calls : List StreamedCall) (ids : Fin calls.length → Text)
    (events : List ToolEvent) : Prop where
  distinct : Function.Injective ids
  each : ∀ k : Fin calls.length, ∃ (pieces : List Text) (input : Json),
    pieces.flatten = calls[k].args ∧ Json.parse calls[k].args = some input ∧
    events.filter (fun e => e.id = ids k) =
      .toolUseStart (ids k) calls[k].name ::
        pieces.map (.toolUseDelta (ids k)) ++ [.toolUseEnd (ids k) input]
  only : ∀ e ∈ events, ∃ k, e.id = ids k

/-- What tells the calls apart: ids and names as they are after trimming. -/
structure Readable (calls : List StreamedCall) : Prop where
  ids : ∀ c ∈ calls, trim c.id ≠ []
  distinct : (calls.map fun c => trim c.id).Nodup
  names : ∀ c ∈ calls, trim c.name = c.name

/-- The first delta of every call carries its id. -/
def IdentifiedAtOnce {calls : List StreamedCall} (sent : List (SentDelta calls)) : Prop :=
  ∀ pre d post, sent = pre ++ d :: post → Begins pre d → d.2.id = some calls[d.1].id

/-- There are tools if there are calls, and if there are none then the server
finds none when it is asked again. -/
structure Equipped (t : VLlmTurn) (calls : List StreamedCall) : Prop where
  enabled : calls ≠ [] → t.toolsEnabled = true
  unasked : calls = [] → ∀ n, ∀ tc ∈ t.resend n, t.discards tc.name = true

/-! ## Names and ids as they are read -/

theorem replaceAll_of_test {r : Regex} {s : Text} (h : r.test s = false) (f : Match → Text) :
    r.replaceAll f s = s := by
  have hnone : r.execFrom [] s = none := by
    rw [Regex.test, Option.isSome_eq_false_iff, Option.isNone_iff_eq_none] at h
    exact h
  have hall : r.matchAll s = [] := by rw [Regex.matchAll, Regex.allFrom, hnone]
  rw [Regex.replaceAll, hall]
  rfl

theorem trim_nil : trim [] = [] := rfl

theorem bareName_nil : bareName (some []) = [] := by decide

theorem bareName_none : bareName none = [] := bareName_nil

section Reads

variable {t : VLlmTurn} {calls : List StreamedCall}

theorem bareName_call (hmade : WellMade t calls) (hread : Readable calls) {c : StreamedCall}
    (hc : c ∈ calls) : bareName (some c.name) = c.name := by
  rw [bareName, Option.getD_some, replaceAll_of_test (hmade.untagged c hc), hread.names c hc]

theorem resolve_call (hmade : WellMade t calls) {c : StreamedCall} (hc : c ∈ calls) :
    t.resolve c.name = c.name := by
  rw [VLlmTurn.resolve, hmade.unaliased c hc, Option.getD_none]

theorem resolve_nil (t : VLlmTurn) : t.resolve [] = [] := by
  rw [VLlmTurn.resolve, t.namedAliases, Option.getD_none]

/-- The name of a delta is read as nothing or as the name of its call. -/
theorem resolve_repeats (hmade : WellMade t calls) (hread : Readable calls) {c : StreamedCall}
    (hc : c ∈ calls) {v : Option Text} (hv : Repeats v c.name) :
    t.resolve (bareName v) = [] ∨ t.resolve (bareName v) = c.name := by
  rcases hv with rfl | rfl | rfl
  · left
    rw [bareName_none, resolve_nil]
  · left
    rw [bareName_nil, resolve_nil]
  · right
    rw [bareName_call hmade hread hc, resolve_call hmade hc]

/-- A delta that repeats what a call has is no other call. -/
theorem identity_same (hmade : WellMade t calls) (hread : Readable calls) {c : StreamedCall}
    (hc : c ∈ calls) {id name : Option Text} (hid : Repeats id c.id) (hname : Repeats name c.name)
    (args : Text) :
    streamedToolCallIdentityChanged ⟨trim c.id, c.name, args⟩ id
      (some (t.resolve (bareName name))) = false := by
  have hincoming : trim (id.getD []) = [] ∨ trim (id.getD []) = trim c.id := by
    rcases hid with rfl | rfl | rfl
    · exact .inl rfl
    · exact .inl rfl
    · exact .inr rfl
  have hbare : bareName (some (t.resolve (bareName name))) = [] ∨
      bareName (some (t.resolve (bareName name))) = c.name := by
    rcases resolve_repeats hmade hread hc hname with h | h
    · exact .inl (by rw [h, bareName_nil])
    · exact .inr (by rw [h, bareName_call hmade hread hc])
  rw [streamedToolCallIdentityChanged]
  rcases hincoming with h | h <;> rcases hbare with h' | h' <;> simp [h, h']

/-- A delta with another id is another call. -/
theorem identity_changed {b : ToolCallBuilder} {id : Text} (hid : trim id ≠ [])
    (hne : trim id ≠ b.id) (name : Option Text) :
    streamedToolCallIdentityChanged b (some id) name = true := by
  simp [streamedToolCallIdentityChanged, hid, hne]

end Reads

end Shizuha.Provider

/-!
# When streamed tool calls are put together again

If the first delta of every call carries the id, then each delta finds the call
it belongs to: the map holds the calls begun so far with the arguments that have
come, under every index the last call that used it, and the events so far are the
start and the pieces of each under its own id. So every call comes out whole. A
call whose first delta has no id, under an index nothing was ever under, is
started under an id that is made up, and its own id then makes it another call.
-/

namespace Shizuha.Provider

open Js

section Prefix

variable {calls : List StreamedCall}

/-- The id a call is known by. -/
def idOf (k : Fin calls.length) : Text := trim (calls.get k).id

/-- The calls begun in some deltas. -/
def started (pre : List (SentDelta calls)) : List (Fin calls.length) := (pre.map Prod.fst).dedup

/-- A call as it is after some deltas. -/
def builderOf (pre : List (SentDelta calls)) (k : Fin calls.length) : ToolCallBuilder :=
  ⟨idOf k, (calls.get k).name, fragments k pre⟩

/-- The last call to use an index. -/
def holder (pre : List (SentDelta calls)) (index : Option ℚ) : Option (Fin calls.length) :=
  (pre.reverse.find? fun d => d.2.index = index).map Prod.fst

/-- The piece of the arguments a delta brings. -/
def pieceOf (tc : ToolCallDelta) : List Text :=
  if tc.arguments.getD [] = [] then [] else [tc.arguments.getD []]

theorem flatten_pieceOf (tc : ToolCallDelta) : (pieceOf tc).flatten = tc.arguments.getD [] := by
  rw [pieceOf]
  split_ifs with h
  · rw [h]
    rfl
  · exact List.flatten_singleton

theorem mem_started {pre : List (SentDelta calls)} {k : Fin calls.length} :
    k ∈ started pre ↔ ∃ d ∈ pre, d.1 = k := by
  rw [started, List.mem_dedup, List.mem_map]

theorem begins_iff {pre : List (SentDelta calls)} {d : SentDelta calls} :
    Begins pre d ↔ d.1 ∉ started pre := by
  rw [mem_started, Begins]
  exact ⟨fun h ⟨r, hr, heq⟩ => h r hr heq, fun h r hr heq => h ⟨r, hr, heq⟩⟩

theorem started_snoc_new {pre : List (SentDelta calls)} {d : SentDelta calls} (h : Begins pre d) :
    (started (pre ++ [d])).Perm (d.1 :: started pre) := by
  have hmem : d.1 ∉ pre.map Prod.fst := fun hm => begins_iff.mp h (List.mem_dedup.mpr hm)
  rw [started, List.map_append, started, ← List.dedup_cons_of_notMem hmem]
  exact (List.perm_append_singleton d.1 (pre.map Prod.fst)).dedup

theorem started_snoc_old {pre : List (SentDelta calls)} {d : SentDelta calls}
    (h : ¬ Begins pre d) : (started (pre ++ [d])).Perm (started pre) := by
  have hmem : d.1 ∈ pre.map Prod.fst := by
    rw [begins_iff, not_not, started, List.mem_dedup] at h
    exact h
  rw [started, List.map_append, started, ← List.dedup_cons_of_mem hmem]
  exact (List.perm_append_singleton d.1 (pre.map Prod.fst)).dedup

theorem fragments_snoc_self (pre : List (SentDelta calls)) (d : SentDelta calls) :
    fragments d.1 (pre ++ [d]) = fragments d.1 pre ++ d.2.arguments.getD [] := by
  rw [fragments, List.filter_append, List.flatMap_append, List.filter_cons_of_pos (by simp),
    List.filter_nil, List.flatMap_singleton]
  rfl

theorem fragments_snoc_ne (pre : List (SentDelta calls)) {d : SentDelta calls}
    {k : Fin calls.length} (hk : k ≠ d.1) : fragments k (pre ++ [d]) = fragments k pre := by
  rw [fragments, List.filter_append, List.filter_cons_of_neg (by simpa using Ne.symm hk),
    List.filter_nil, List.append_nil]
  rfl

theorem fragments_begins {pre : List (SentDelta calls)} {d : SentDelta calls} (h : Begins pre d) :
    fragments d.1 pre = [] := by
  have hnone : pre.filter (fun r => r.1 = d.1) = [] :=
    List.filter_eq_nil_iff.mpr fun r hr => by simpa using h r hr
  rw [fragments, hnone]
  rfl

theorem builderOf_snoc_self (pre : List (SentDelta calls)) (d : SentDelta calls) :
    builderOf (pre ++ [d]) d.1 =
      { builderOf pre d.1 with args := (builderOf pre d.1).args ++ d.2.arguments.getD [] } := by
  rw [builderOf, fragments_snoc_self]
  rfl

theorem builderOf_snoc_ne (pre : List (SentDelta calls)) {d : SentDelta calls}
    {k : Fin calls.length} (hk : k ≠ d.1) : builderOf (pre ++ [d]) k = builderOf pre k := by
  rw [builderOf, fragments_snoc_ne pre hk, builderOf]

theorem holder_snoc (pre : List (SentDelta calls)) (d : SentDelta calls) (index : Option ℚ) :
    holder (pre ++ [d]) index = if d.2.index = index then some d.1 else holder pre index := by
  rw [holder, List.reverse_append, List.reverse_singleton, List.singleton_append, List.find?_cons]
  split_ifs with h
  · simp [h]
  · simp [h, holder]

theorem mem_of_holder {pre : List (SentDelta calls)} {index : Option ℚ} {k : Fin calls.length}
    (h : holder pre index = some k) : ∃ r ∈ pre, r.1 = k ∧ r.2.index = index := by
  obtain ⟨r, hr, rfl⟩ := Option.map_eq_some_iff.mp h
  exact ⟨r, List.mem_reverse.mp (List.mem_of_find?_eq_some hr), rfl,
    by simpa using List.find?_some hr⟩

end Prefix

/-! ## Where a delta goes -/

section Sequence

variable {t : VLlmTurn} {calls : List StreamedCall} {sent pre post : List (SentDelta calls)}
  {d : SentDelta calls}

/-- A call that has begun and is not over is the last to have used its index. -/
theorem holder_of_continues (hsent : DeltaSequence calls sent) (hsplit : sent = pre ++ d :: post)
    (h : ¬ Begins pre d) : holder pre d.2.index = some d.1 := by
  obtain ⟨r, hr, hrd⟩ : ∃ r ∈ pre, r.1 = d.1 := by
    rw [begins_iff, not_not] at h
    exact mem_started.mp h
  have hmem : ∀ q ∈ pre, q ∈ sent := fun q hq => by rw [hsplit]; simp [hq]
  have hindex : r.2.index = d.2.index := hsent.sameIndex r (hmem r hr) d (by simp [hsplit]) hrd
  have hfound : ((pre.reverse.find? fun q => q.2.index = d.2.index)).isSome = true := by
    rw [List.find?_isSome]
    exact ⟨r, List.mem_reverse.mpr hr, by simpa using hindex⟩
  obtain ⟨q, hq⟩ := Option.isSome_iff_exists.mp hfound
  rw [holder, hq]
  by_contra hne
  have hqd : q.1 ≠ d.1 := fun heq => hne (by rw [Option.map_some, heq])
  -- The last user is another call, so `r` came before it and its call is over.
  obtain ⟨hqindex, after, before, hrev, hafter⟩ := List.find?_eq_some_iff_append.mp hq
  have hpre : pre = before.reverse ++ q :: after.reverse := by
    rw [← List.reverse_reverse pre, hrev]
    simp
  have hbefore : r ∈ before.reverse := by
    have hcases : r ∈ before.reverse ++ q :: after.reverse := hpre ▸ hr
    rcases List.mem_append.mp hcases with hb | hb
    · exact hb
    · rcases List.mem_cons.mp hb with rfl | ha
      · exact absurd hrd hqd
      · have := hafter r (List.mem_reverse.mp ha)
        simp [hindex] at this
  have hqindex' : q.2.index = d.2.index := by simpa using hqindex
  have hover := hsent.reuse before.reverse q (after.reverse ++ d :: post)
    (by rw [hsplit, hpre]; simp) r hbefore (hindex.trans hqindex'.symm)
    (fun heq => hqd (heq.symm.trans hrd)) d (by simp)
  exact hover hrd.symm

/-- The map holds the calls begun so far, and the events are theirs. -/
structure Rebuilt (pre : List (SentDelta calls)) (s : StreamState) : Prop where
  values : s.toolCallBuilders.values.Perm ((started pre).map (builderOf pre))
  current : ∀ index k, holder pre index = some k →
    s.toolCallBuilders.find index = some (builderOf pre k)
  events : ∀ k ∈ started pre, ∃ pieces : List Text, pieces.flatten = fragments k pre ∧
    s.events.filter (fun e => e.id = idOf k) =
      .toolUseStart (idOf k) (calls.get k).name :: pieces.map (.toolUseDelta (idOf k))
  only : ∀ e ∈ s.events, ∃ k ∈ started pre, e.id = idOf k
  ever : pre ≠ [] → s.everBuiltToolCall = true

theorem rebuilt_init : Rebuilt ([] : List (SentDelta calls)) .init where
  values := List.Perm.refl _
  current := fun index k h => by cases h
  events := fun k hk => by cases hk
  only := fun e he => by cases he
  ever := fun h => absurd rfl h

theorem extendBuilder_named {b : ToolCallBuilder} (hb : b.name ≠ []) (tc : ToolCallDelta) :
    extendBuilder t tc b = ({ b with args := b.args ++ tc.arguments.getD [] },
      (pieceOf tc).map (.toolUseDelta b.id)) := by
  rw [extendBuilder, pieceOf]
  simp only [hb, false_and, if_false, List.nil_append]
  split_ifs <;> rfl

theorem idOf_injective (hread : Readable calls) :
    Function.Injective (idOf : Fin calls.length → Text) := by
  intro j k hjk
  have hnodup := hread.distinct
  have hlen : (calls.map fun c => trim c.id).length = calls.length := List.length_map _
  have hj : (calls.map fun c => trim c.id).get (j.cast hlen.symm) = idOf j := by simp [idOf]
  have hk : (calls.map fun c => trim c.id).get (k.cast hlen.symm) = idOf k := by simp [idOf]
  have hget := List.nodup_iff_injective_get.mp hnodup (hj.trans (hjk.trans hk.symm))
  exact Fin.cast_injective hlen.symm hget

theorem begins_index (hsent : DeltaSequence calls sent) (hsplit : sent = pre ++ d :: post)
    {index : Option ℚ} (h : holder pre index = some d.1) : index = d.2.index := by
  obtain ⟨r, hr, hrd, hindex⟩ := mem_of_holder h
  rw [← hindex]
  exact hsent.sameIndex r (by rw [hsplit]; simp [hr]) d (by simp [hsplit]) hrd

/-- What the next delta leaves, from what is known of it. -/
theorem rebuilt_delivered (hread : Readable calls) (hsent : DeltaSequence calls sent)
    (hsplit : sent = pre ++ d :: post) {s s' : StreamState} (h : Rebuilt pre s)
    {events : List ToolEvent}
    (hdelivered : Delivered s s' d.2 (builderOf (pre ++ [d]) d.1) events)
    (hvalues : s'.toolCallBuilders.values.Perm ((started (pre ++ [d])).map (builderOf (pre ++ [d]))))
    (hever : s'.everBuiltToolCall = true)
    (hevents : events =
      (if Begins pre d then [.toolUseStart (idOf d.1) (calls.get d.1).name] else []) ++
      (pieceOf d.2).map (.toolUseDelta (idOf d.1))) :
    Rebuilt (pre ++ [d]) s' := by
  have hids : ∀ e ∈ events, e.id = idOf d.1 := by
    intro e he
    rw [hevents] at he
    rcases List.mem_append.mp he with he | he
    · split_ifs at he
      · rw [List.mem_singleton.mp he]
        rfl
      · cases he
    · obtain ⟨piece, -, rfl⟩ := List.mem_map.mp he
      rfl
  have hsame : ∀ k, k ∈ started (pre ++ [d]) → k ≠ d.1 → k ∈ started pre := by
    intro k hk hne
    obtain ⟨r, hr, rfl⟩ := mem_started.mp hk
    rcases List.mem_append.mp hr with hr | hr
    · exact mem_started.mpr ⟨r, hr, rfl⟩
    · exact absurd (congrArg Prod.fst (List.mem_singleton.mp hr)) hne
  refine ⟨hvalues, ?_, ?_, ?_, fun _ => hever⟩
  · intro index k hk
    rw [holder_snoc] at hk
    split_ifs at hk with hindex
    · cases hk
      rw [← hindex]
      exact hdelivered.found
    · have hne : k ≠ d.1 := by
        rintro rfl
        exact hindex (begins_index hsent hsplit hk).symm
      rw [builderOf_snoc_ne pre hne]
      exact hdelivered.others index _ (Ne.symm hindex) (h.current index k hk)
  · intro k hk
    rw [hdelivered.events, List.filter_append]
    by_cases hkd : k = d.1
    · subst hkd
      have hall : events.filter (fun e => e.id = idOf d.1) = events :=
        List.filter_eq_self.mpr fun e he => by simpa using hids e he
      rw [hall, hevents]
      by_cases hbegins : Begins pre d
      · -- Nothing before is under the id of a call that begins.
        have hnone : s.events.filter (fun e => e.id = idOf d.1) = [] := by
          rw [List.filter_eq_nil_iff]
          intro e he
          obtain ⟨j, hj, hid⟩ := h.only e he
          simp only [decide_eq_true_eq, hid]
          intro heq
          exact begins_iff.mp hbegins (idOf_injective hread heq ▸ hj)
        rw [hnone, if_pos hbegins]
        refine ⟨pieceOf d.2, ?_, rfl⟩
        rw [fragments_snoc_self, fragments_begins hbegins, flatten_pieceOf, List.nil_append]
      · have hold : d.1 ∈ started pre := by rwa [begins_iff, not_not] at hbegins
        obtain ⟨pieces, hpieces, hfilter⟩ := h.events d.1 hold
        rw [hfilter, if_neg hbegins]
        refine ⟨pieces ++ pieceOf d.2, ?_, ?_⟩
        · rw [fragments_snoc_self, List.flatten_append, hpieces, flatten_pieceOf]
        · rw [List.map_append]
          rfl
    · obtain ⟨pieces, hpieces, hfilter⟩ := h.events k (hsame k hk hkd)
      have hnone : events.filter (fun e => e.id = idOf k) = [] := by
        rw [List.filter_eq_nil_iff]
        intro e he
        simp only [decide_eq_true_eq, hids e he]
        exact fun heq => hkd (idOf_injective hread heq).symm
      rw [hfilter, hnone, List.append_nil]
      exact ⟨pieces, by rw [fragments_snoc_ne pre hkd, hpieces], rfl⟩
  · intro e he
    rw [hdelivered.events] at he
    rcases List.mem_append.mp he with he | he
    · obtain ⟨k, hk, hid⟩ := h.only e he
      obtain ⟨r, hr, rfl⟩ := mem_started.mp hk
      exact ⟨r.1, mem_started.mpr ⟨r, by simp [hr], rfl⟩, hid⟩
    · exact ⟨d.1, mem_started.mpr ⟨d, by simp, rfl⟩, hids e he⟩

theorem found_started {s : StreamState} (h : Rebuilt pre s) {index : Option ℚ}
    {b : ToolCallBuilder} (hb : s.toolCallBuilders.find index = some b) :
    ∃ k ∈ started pre, b = builderOf pre k := by
  obtain ⟨k, hk, rfl⟩ := List.mem_map.mp (h.values.mem_iff.mp (Map.mem_values hb))
  exact ⟨k, hk, rfl⟩

/-- The values after a call has begun. -/
theorem values_begins (hbegins : Begins pre d) {values : List ToolCallBuilder}
    (h : values.Perm ((started pre).map (builderOf pre))) :
    (builderOf (pre ++ [d]) d.1 :: values).Perm
      ((started (pre ++ [d])).map (builderOf (pre ++ [d]))) := by
  have hsame : (started pre).map (builderOf (pre ++ [d])) = (started pre).map (builderOf pre) := by
    apply List.map_congr_left
    intro k hk
    refine builderOf_snoc_ne pre ?_
    rintro rfl
    exact begins_iff.mp hbegins hk
  have hgoal := ((started_snoc_new hbegins).map (builderOf (pre ++ [d]))).symm
  rw [List.map_cons, hsame] at hgoal
  exact (h.cons _).trans hgoal

/-- The values after a call has gone on. -/
theorem values_continues (hbegins : ¬ Begins pre d) {values rest : List ToolCallBuilder}
    (h : values.Perm ((started pre).map (builderOf pre)))
    (hrest : values.Perm (builderOf pre d.1 :: rest)) :
    (builderOf (pre ++ [d]) d.1 :: rest).Perm
      ((started (pre ++ [d])).map (builderOf (pre ++ [d]))) := by
  have hmem : d.1 ∈ started pre := by rwa [begins_iff, not_not] at hbegins
  have hsplit : (started pre).Perm (d.1 :: (started pre).erase d.1) := List.perm_cons_erase hmem
  have hnodup : (started pre).Nodup := List.nodup_dedup _
  have hothers : rest.Perm (((started pre).erase d.1).map (builderOf pre)) := by
    have hvalues := hrest.symm.trans (h.trans (hsplit.map (builderOf pre)))
    rw [List.map_cons] at hvalues
    exact hvalues.cons_inv
  have hsame : ((started pre).erase d.1).map (builderOf (pre ++ [d])) =
      ((started pre).erase d.1).map (builderOf pre) := by
    apply List.map_congr_left
    intro k hk
    exact builderOf_snoc_ne pre ((List.Nodup.mem_erase_iff hnodup).mp hk).1
  have hgoal := (((started_snoc_old hbegins).trans hsplit).map (builderOf (pre ++ [d]))).symm
  rw [List.map_cons, hsame] at hgoal
  exact (hothers.cons _).trans hgoal

/-- A delta finds its call, or begins it. -/
theorem rebuilt_delta (hmade : WellMade t calls) (hread : Readable calls)
    (hsent : DeltaSequence calls sent) (hid : IdentifiedAtOnce sent)
    (hsplit : sent = pre ++ d :: post) {s : StreamState} (h : Rebuilt pre s) :
    Rebuilt (pre ++ [d]) (onToolCallDelta t s d.2) := by
  have hmem : calls[d.1] ∈ calls := List.getElem_mem _
  have hname : (builderOf pre d.1).name ≠ [] := hmade.names _ hmem
  have hextend := extendBuilder_named (t := t) hname d.2
  rw [← builderOf_snoc_self] at hextend
  by_cases hbegins : Begins pre d
  · have hidd : d.2.id = some calls[d.1].id := hid pre d post hsplit hbegins
    have hnamed : d.2.name = some calls[d.1].name := hsent.named pre d post hsplit hbegins
    have hne : ∀ b, s.toolCallBuilders.find d.2.index = some b → trim calls[d.1].id ≠ b.id := by
      intro b hb heq
      obtain ⟨k, hk, rfl⟩ := found_started h hb
      have hkd : d.1 = k := idOf_injective hread heq
      exact begins_iff.mp hbegins (hkd ▸ hk)
    have hstarts : startsCall t s.toolCallBuilders d.2 = true := by
      rw [startsCall, Option.all_eq_true]
      intro b hb
      rw [hidd]
      exact identity_changed (hread.ids _ hmem) (hne b hb) _
    have hnew : newBuilder t s d.2 = builderOf pre d.1 := by
      have hidNew : streamedToolCallIdForNewBuilder (s.toolCallBuilders.find d.2.index) d.2.id
          (t.generatedId s.idsMade) = idOf d.1 := by
        have hany : (s.toolCallBuilders.find d.2.index).any
            (fun p => decide (p.id = trim calls[d.1].id)) = false := by
          rw [Option.any_eq_false]
          intro b hb
          simpa using Ne.symm (hne b hb)
        rw [streamedToolCallIdForNewBuilder, hidd, Option.getD_some]
        simp only [hany, Bool.not_false, Bool.and_true, hread.ids _ hmem, ne_eq, not_false_eq_true,
          decide_true, if_true]
        rfl
      rw [newBuilder, hidNew, hnamed, bareName_call hmade hread hmem, resolve_call hmade hmem,
        builderOf, fragments_begins hbegins]
      rfl
    obtain ⟨hdelivered, hever, hvalues⟩ := onToolCallDelta_starts (t := t) hstarts
    rw [hnew, hextend] at hdelivered hvalues
    refine rebuilt_delivered hread hsent hsplit h hdelivered
      (hvalues.trans (values_begins hbegins h.values)) hever ?_
    rw [if_pos hbegins, addStart, if_neg hname]
    rfl
  · have hfound : s.toolCallBuilders.find d.2.index = some (builderOf pre d.1) :=
      h.current _ _ (holder_of_continues hsent hsplit hbegins)
    have hmemd : d ∈ sent := by simp [hsplit]
    have hstarts : startsCall t s.toolCallBuilders d.2 = false := by
      rw [startsCall, hfound, Option.all_some]
      exact identity_same hmade hread hmem (hsent.ids d hmemd) (hsent.names d hmemd) _
    obtain ⟨hdelivered, rest, hrest, hvalues⟩ := onToolCallDelta_continues hfound hstarts
    rw [hextend] at hdelivered hvalues
    have hpre : pre ≠ [] := by
      rintro rfl
      exact hbegins fun r hr => by cases hr
    refine rebuilt_delivered hread hsent hsplit h hdelivered
      (hvalues.trans (values_continues hbegins h.values hrest)) (hdelivered.ever (h.ever hpre)) ?_
    rw [if_neg hbegins]
    rfl

/-- A delta with nothing in it needs no reading. -/
theorem rebuilt_silent (hsent : DeltaSequence calls sent) (hsplit : sent = pre ++ d :: post)
    (hbegins : ¬ Begins pre d) (hargs : d.2.arguments.getD [] = []) {s : StreamState}
    (h : Rebuilt pre s) : Rebuilt (pre ++ [d]) s := by
  have hbuilder : builderOf (pre ++ [d]) = builderOf pre := by
    funext k
    by_cases hk : k = d.1
    · rw [hk, builderOf_snoc_self, hargs, List.append_nil]
    · exact builderOf_snoc_ne pre hk
  have hfragments : ∀ k, fragments k (pre ++ [d]) = fragments k pre := fun k =>
    congrArg ToolCallBuilder.args (congrFun hbuilder k)
  have hstarted := started_snoc_old hbegins
  refine ⟨?_, ?_, ?_, ?_, fun _ => ?_⟩
  · rw [hbuilder]
    exact h.values.trans (hstarted.map _).symm
  · intro index k hk
    rw [holder_snoc] at hk
    rw [hbuilder]
    split_ifs at hk with hindex
    · cases hk
      rw [← hindex]
      exact h.current _ _ (holder_of_continues hsent hsplit hbegins)
    · exact h.current index k hk
  · intro k hk
    rw [hfragments]
    exact h.events k (hstarted.mem_iff.mp hk)
  · intro e he
    obtain ⟨k, hk, hid⟩ := h.only e he
    exact ⟨k, hstarted.mem_iff.mpr hk, hid⟩
  · refine h.ever ?_
    rintro rfl
    exact hbegins fun r hr => by cases hr

end Sequence

end Shizuha.Provider
