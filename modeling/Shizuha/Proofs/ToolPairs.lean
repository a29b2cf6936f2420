import Shizuha.State.Compaction

/-!
# Tool results keep their tool uses

A pass of the compactor cuts the conversation at one place, and the cut backs
off over tool results. So what must hold of a conversation is local: going back
from a tool result over messages that carry tool results, one comes to the
assistant message with the tool use. `Paired` says this by a scan that carries
the tool uses still open to an answer, and a cut before a message that is no
tool result leaves a scan that can start from nothing.

Through the passes the argument is one induction. Each pass is given a
projection of the last, a projection is a summary, an acknowledgement and a
suffix, and both of the new messages carry no tool results.
-/

namespace Shizuha.State

open Js Agent Prompt

/-! ## Pairs -/

/-- The tool uses that a tool result in the next message may answer: those an
assistant makes here, and those still open if this message carries tool
results itself. -/
def stillOpen (open' : List Text) (m : Message) : List Text :=
  (if m.hasToolResult then open' else []) ++
    (if m.role = .assistant then toolUseIds m else [])

/-- Every tool result answers a tool use that is open to it. -/
def PairedFrom : List Text → List Message → Prop
  | _, [] => True
  | open', m :: rest => (∀ id ∈ toolResultIds m, id ∈ open') ∧ PairedFrom (stillOpen open' m) rest

def Paired (messages : List Message) : Prop := PairedFrom [] messages

instance decidablePairedFrom : (open' : List Text) → (messages : List Message) →
    Decidable (PairedFrom open' messages)
  | _, [] => .isTrue trivial
  | open', m :: rest =>
      have := decidablePairedFrom (stillOpen open' m) rest
      inferInstanceAs (Decidable (_ ∧ _))

instance (messages : List Message) : Decidable (Paired messages) :=
  decidablePairedFrom [] messages

theorem toolResultIds_eq_nil {m : Message} (h : m.hasToolResult = false) :
    toolResultIds m = [] := by
  rw [toolResultIds, blocksOf]
  rw [Agent.Message.hasToolResult] at h
  cases hc : m.content with
  | text s => rfl
  | blocks bs =>
      rw [hc] at h
      simp only [List.any_eq_false] at h
      rw [List.filterMap_eq_nil_iff]
      intro b hb
      cases b with
      | toolResult id content isError image => exact absurd rfl (h _ hb)
      | _ => rfl

/-- What is open only matters to a message that carries tool results. -/
theorem PairedFrom.start {open' : List Text} {messages : List Message}
    (h : PairedFrom open' messages) (hhead : isToolResultMessage messages.head? = false) :
    Paired messages := by
  cases messages with
  | nil => trivial
  | cons m rest =>
      have hm : m.hasToolResult = false := hhead
      obtain ⟨-, hrest⟩ := h
      refine ⟨by simp [toolResultIds_eq_nil hm], ?_⟩
      rw [stillOpen, hm, if_neg Bool.false_ne_true] at hrest ⊢
      exact hrest

theorem PairedFrom.drop {open' : List Text} {messages : List Message}
    (h : PairedFrom open' messages) (k : ℕ) : ∃ o, PairedFrom o (messages.drop k) := by
  induction k generalizing open' messages with
  | zero => exact ⟨open', h⟩
  | succ k ih =>
      cases messages with
      | nil => exact ⟨[], trivial⟩
      | cons m rest => exact ih h.2

/-- A cut that leaves no tool result in front keeps every pair behind it. -/
theorem Paired.drop {messages : List Message} (h : Paired messages) {k : ℕ}
    (hk : isToolResultMessage messages[k]? = false) : Paired (messages.drop k) := by
  obtain ⟨o, ho⟩ := PairedFrom.drop h k
  exact ho.start (by rw [List.head?_drop]; exact hk)

/-! ## Where a pass cuts -/

/-- The search keeps to the candidates it is given. -/
theorem searchPrefix_le {fits : ℕ → Bool} {bound : ℕ} (fuel : ℕ) {low high p : ℕ}
    (hhigh : high ≤ bound) (hp : p ≤ bound) : searchPrefix fits fuel low high p ≤ bound := by
  induction fuel generalizing low high p with
  | zero => exact hp
  | succ fuel ih =>
      rw [searchPrefix]
      dsimp only
      split_ifs with hle hfits
      · exact ih hhigh (by omega)
      · exact ih (by omega) hp
      · exact hp

/-- As many rounds as there are candidates are enough: more change nothing. -/
theorem searchPrefix_fuel (fits : ℕ → Bool) {fuel more low high : ℕ} (p : ℕ) (hlow : 0 < low)
    (hfuel : high + 1 - low ≤ fuel) :
    searchPrefix fits (fuel + more) low high p = searchPrefix fits fuel low high p := by
  induction fuel generalizing low high p with
  | zero =>
      have hlt : ¬ low ≤ high := by omega
      cases more with
      | zero => rfl
      | succ more =>
          rw [Nat.zero_add, searchPrefix, searchPrefix]
          exact if_neg hlt
  | succ fuel ih =>
      rw [Nat.succ_add_eq_add_succ, Nat.add_succ, searchPrefix, searchPrefix]
      dsimp only
      split_ifs with hle hfits
      · exact ih _ (by omega) (by omega)
      · exact ih _ hlow (by omega)
      · rfl

theorem backOff_le (messages : List Message) (n : ℕ) : backOff messages n ≤ n := by
  induction n with
  | zero => exact le_rfl
  | succ n ih =>
      rw [backOff]
      split_ifs
      · exact ih.trans n.le_succ
      · exact le_rfl

/-- The back-off ends at the beginning, or before no tool result. -/
theorem backOff_spec (messages : List Message) (n : ℕ) (h : backOff messages n ≠ 0) :
    isToolResultMessage messages[backOff messages n]? = false := by
  induction n with
  | zero => exact absurd rfl h
  | succ n ih =>
      rw [backOff] at h ⊢
      split_ifs at h ⊢ with hback
      · exact ih h
      · rcases not_and_or.mp hback with hlen | hres
        · rw [List.getElem?_eq_none (by omega)]
          rfl
        · exact eq_false_of_ne_true hres

/-- A selected prefix is not empty, is within the conversation, and ends where
no tool result would be left in front. -/
theorem selectSemanticPrefix_spec {host : Host} {messages : List Message} {model : Text}
    {maxConversationTokens maxTokens : ℚ} {selected : SemanticPrefix}
    (h : selectSemanticPrefix host messages model maxConversationTokens maxTokens = .ok selected) :
    0 < selected.prefixEnd ∧ selected.prefixEnd ≤ messages.length ∧
      isToolResultMessage messages[selected.prefixEnd]? = false := by
  rw [selectSemanticPrefix] at h
  split_ifs at h with hnil
  have hlen : 0 < messages.length := List.length_pos_iff.mpr hnil
  dsimp only at h
  split_ifs at h with hfit hzero
  obtain rfl := Except.ok.inj h
  refine ⟨Nat.pos_of_ne_zero hzero, ?_, backOff_spec _ _ hzero⟩
  refine (backOff_le _ _).trans (searchPrefix_le _ ?_ hlen)
  rw [List.length_map, List.length_take]
  exact Nat.min_le_right _ _

/-! ## What a pass returns -/

/-- A summary, an acknowledgement and what is left of the messages after the
cut. -/
def IsProjection (received out : List Message) : Prop :=
  ∃ ph summary k, 0 < k ∧ k ≤ received.length ∧
    out = summaryMessage ph received summary :: acknowledgement ph :: received.drop k

/-- The conversations the passes over `input` are given: the input, and then
each time a projection of the last. -/
inductive ReceivedByPass (input : List Message) : List Message → Prop where
  | first : ReceivedByPass input input
  | again {received next : List Message} : ReceivedByPass input received →
      IsProjection received next → ReceivedByPass input next

theorem ReceivedByPass.after {input next received : List Message} (hp : IsProjection input next)
    (h : ReceivedByPass next received) : ReceivedByPass input received := by
  induction h with
  | first => exact .again .first hp
  | again _ hproj ih => exact .again ih hproj

theorem paired_projection {ph : ProjectionHost} {received : List Message} {summary : Text}
    {k : ℕ} (h : Paired (received.drop k)) :
    Paired (summaryMessage ph received summary :: acknowledgement ph :: received.drop k) := by
  refine ⟨by simp [toolResultIds, blocksOf, summaryMessage, plainMessage], ?_⟩
  refine ⟨by simp [toolResultIds, blocksOf, acknowledgement, plainMessage], ?_⟩
  have hopen : stillOpen (stillOpen [] (summaryMessage ph received summary))
      (acknowledgement ph) = [] := by
    simp [stillOpen, acknowledgement, plainMessage, Agent.Message.hasToolResult,
      toolUseIds, blocksOf]
  rw [hopen]
  exact h

/-- A conversation as the agent keeps it: none of the framework's notices in
it. -/
def Conversational (messages : List Message) : Prop :=
  ∀ m ∈ messages, isFrameworkOperationalMessage m = false

theorem Conversational.filter {messages : List Message} (h : Conversational messages) :
    modelConversationMessages messages = messages := by
  rw [modelConversationMessages_eq_filter, List.filter_eq_self]
  intro m hm
  simp [h m hm]

theorem Conversational.projection {received out : List Message} (h : Conversational received)
    (hp : IsProjection received out) : Conversational out := by
  obtain ⟨ph, summary, k, -, -, rfl⟩ := hp
  intro m hm
  simp only [List.mem_cons] at hm
  rcases hm with rfl | rfl | hm
  · rfl
  · rfl
  · exact h m (List.mem_of_mem_drop hm)

/-- What is said of a compacted conversation. -/
structure PairsKept (input out : List Message) : Prop where
  projection : ∃ received, ReceivedByPass input received ∧ IsProjection received out
  paired : Paired out

theorem PairsKept.after {input next out : List Message} (hp : IsProjection input next)
    (h : PairsKept next out) : PairsKept input out := by
  obtain ⟨received, hreceived, hproj⟩ := h.projection
  exact ⟨⟨received, hreceived.after hp, hproj⟩, h.paired⟩

/-- The postcondition of a pass. -/
def passPost (input : List Message) (r : Except CompactionError Compacted) (_ : World) : Prop :=
  match r with
  | .ok c => c.compacted = true → PairsKept input c.messages
  | .error _ => True

theorem summarizeSelectedPrefix_pairs {host : Host} {model : Text} {maxTokens : ℚ}
    {options : CompactionOptions} {messages : List Message} {selected : SemanticPrefix}
    {compactAgain : CompactionOptions → List Message → Run Compacted} {w : World}
    (hplan : options.planFilePath = none) (hpaired : Paired messages)
    (hconv : Conversational messages) (hpos : 0 < selected.prefixEnd)
    (hle : selected.prefixEnd ≤ messages.length)
    (hcut : isToolResultMessage messages[selected.prefixEnd]? = false)
    (hagain : ∀ options' next w', options'.planFilePath = none → Paired next →
      Conversational next → (compactAgain options' next).Ensures w' (passPost next)) :
    (summarizeSelectedPrefix host model maxTokens options messages selected compactAgain).Ensures
      w (passPost messages) := by
  rw [summarizeSelectedPrefix]
  refine Eff.ensures_bind_any (fun summary w₁ => ?_) fun _ _ => trivial
  refine Eff.ensures_bind (Eff.ensures_act ?_)
  have hnext : projectCompactedMessages (host.projectionHost w₁.tick) options.planFilePath messages
      summary selected.prefixEnd = summaryMessage (host.projectionHost w₁.tick) messages summary ::
        acknowledgement (host.projectionHost w₁.tick) :: messages.drop selected.prefixEnd := by
    rw [projectCompactedMessages, hplan, slice_natCast, planSuffix, List.append_nil]
  have hproj : IsProjection messages (projectCompactedMessages (host.projectionHost w₁.tick)
      options.planFilePath messages summary selected.prefixEnd) :=
    ⟨_, summary, _, hpos, hle, hnext⟩
  have hpairs : PairsKept messages (projectCompactedMessages (host.projectionHost w₁.tick)
      options.planFilePath messages summary selected.prefixEnd) := by
    refine ⟨⟨messages, .first, hproj⟩, ?_⟩
    rw [hnext]
    exact paired_projection (hpaired.drop hcut)
  generalize projectCompactedMessages (host.projectionHost w₁.tick) options.planFilePath messages
    summary selected.prefixEnd = next at hproj hpairs ⊢
  dsimp only
  split_ifs
  · exact Eff.ensures_throw trivial
  · exact Eff.ensures_throw trivial
  · refine Eff.ensures_bind_any (fun _ w₂ => ?_) fun _ _ => trivial
    refine Eff.ensures_tryCatch ((hagain options.deeper next w₂ hplan hpairs.paired
      (hconv.projection hproj)).mono ?_)
    rintro (err | c) w₃ hc
    · -- The deeper pass threw: this pass's own projection, or the error.
      refine Eff.ensures_bind_any (fun _ w₄ => ?_) fun _ _ => trivial
      split_ifs
      · exact Eff.ensures_pure fun _ => hpairs
      · exact Eff.ensures_pure fun _ => hpairs
      · exact Eff.ensures_throw trivial
    · exact fun hcompacted => (hc hcompacted).after hproj
  · exact Eff.ensures_pure fun _ => hpairs

theorem compactMessages_pairs {host : Host} {model : Text} {maxTokens : ℚ} (fuel : ℕ)
    {options : CompactionOptions} {messages : List Message} {w : World}
    (hplan : options.planFilePath = none) (hpaired : Paired messages)
    (hconv : Conversational messages) :
    (compactMessages host model maxTokens fuel options messages).Ensures w
      (passPost messages) := by
  induction fuel generalizing options messages w with
  | zero => exact Eff.ensures_outOfFuel
  | succ fuel ih =>
      rw [compactMessages, hconv.filter]
      split_ifs
      · exact Eff.ensures_pure fun h => absurd h Bool.false_ne_true
      · refine Eff.ensures_bind (Eff.ensures_ofExcept ?_)
        cases hsel : selectSemanticPrefix host messages model
            (compactionBudgets host.env model maxTokens).maxSummarizableSource maxTokens with
        | error e => trivial
        | ok selected =>
            obtain ⟨hpos, hle, hcut⟩ := selectSemanticPrefix_spec hsel
            exact summarizeSelectedPrefix_pairs hplan hpaired hconv hpos hle hcut
              fun options' next w' hplan' hpaired' hconv' => ih hplan' hpaired' hconv'

/-- Whatever the provider, the tokenizer, the window and the callbacks do, a
compacted conversation is a projection of what its pass received, and every
tool result in it still has its tool use. -/
theorem compactMessages_keeps_pairs (host : Host) (model : Text) (maxTokens : ℚ) (fuel : ℕ)
    (options : CompactionOptions) (messages : List Message) (w : World)
    (hplan : options.planFilePath = none) (hconv : Conversational messages)
    (hpaired : Paired messages) {c : Compacted} {w' : World}
    (hrun : compactMessages host model maxTokens fuel options messages w = some (.ok c, w'))
    (hcompacted : c.compacted = true) : PairsKept messages c.messages :=
  compactMessages_pairs fuel hplan hpaired hconv _ _ hrun hcompacted

/-! The pairs have to be told apart by what they answer: that a tool result
comes after another tool result, or after its tool use, is not enough. -/

/-- Every message that carries tool results comes directly after another one,
or after the assistant message that made the tool uses it answers. -/
def adjacentPairs : Option Message → List Message → Bool
  | _, [] => true
  | previous, m :: rest =>
      (!m.hasToolResult || previous.any fun p =>
        p.hasToolResult || (p.role = .assistant && (toolResultIds m).all (· ∈ toolUseIds p))) &&
      adjacentPairs (some m) rest

/-- A provider that answers every request with one sentence. -/
def terseHost : Host where
  providerName := js "openai"
  chat := fun _ _ _ =>
    ⟨[.text (js "The parser is finished and all of its tests pass."), .done], none⟩
  abortAt := none
  abortReason := none
  onProgress := fun _ _ => none
  beforeSemanticPass := fun _ => none
  now := fun _ _ => Double.ofInt 0 zero_small
  readFileSync := fun _ _ => none
  env := fun _ => none
  countTokens := fun text _ => text.length
  rounds := fun n => n + 1

/-- The options of a manual compaction. -/
def forced : CompactionOptions := ⟨true, none, none, none, none, none, false, none⟩

def assistantUses (id : Text) (size : ℕ) : Message :=
  ⟨none, none, none, .assistant, .blocks [.toolUse id (js "run") (.str (List.replicate size 120))],
    none⟩

def answers (id : Text) : Message :=
  ⟨none, none, none, .user, .blocks [.toolResult id (js "ok") none none], none⟩

/-- Two tool uses, answered in the other order. -/
def crossedPairs : List Message :=
  [assistantUses (js "b") 300, assistantUses (js "a") 1, answers (js "a"), answers (js "b")]

def nestedPairs : List Message :=
  [assistantUses (js "b") 300, answers (js "b"), assistantUses (js "a") 1, answers (js "a")]

theorem conversational_nestedPairs : Conversational nestedPairs := by
  intro m hm
  simp only [nestedPairs, List.mem_cons, List.not_mem_nil, or_false] at hm
  rcases hm with rfl | rfl | rfl | rfl <;> rfl

theorem compactMessages_keeps_nestedPairs :
    ∃ c : Compacted, c.compacted = true ∧ PairsKept nestedPairs c.messages := by
  have hreturned : Eff.returned Compacted.compacted
      (compactMessages terseHost (js "gpt-4o") 8000 49 forced nestedPairs ⟨0, 0⟩) = true := by
    decide +kernel
  obtain ⟨c, w', hrun, hc⟩ := Eff.exists_of_returned hreturned
  exact ⟨c, hc, compactMessages_keeps_pairs terseHost (js "gpt-4o") 8000 49 forced nestedPairs
    ⟨0, 0⟩ rfl conversational_nestedPairs (by decide +kernel) hrun hc⟩

/-- The cut falls between a tool use and its result when another pair stands
in between. -/
theorem compactMessages_crossedPairs :
    adjacentPairs none crossedPairs = true ∧ Conversational crossedPairs ∧
      ∃ c w', compactMessages terseHost (js "gpt-4o") 8000 49 forced crossedPairs ⟨0, 0⟩ =
          some (.ok c, w') ∧ c.compacted = true ∧
        (∃ m ∈ c.messages, js "b" ∈ toolResultIds m) ∧
          ∀ m ∈ c.messages, js "b" ∉ toolUseIds m := by
  refine ⟨by decide +kernel, ?_, ?_⟩
  · intro m hm
    simp only [crossedPairs, List.mem_cons, List.not_mem_nil, or_false] at hm
    rcases hm with rfl | rfl | rfl | rfl <;> rfl
  · have hreturned : Eff.returned
        (fun c : Compacted => c.compacted && c.messages.any (js "b" ∈ toolResultIds ·) &&
          c.messages.all (js "b" ∉ toolUseIds ·))
        (compactMessages terseHost (js "gpt-4o") 8000 49 forced crossedPairs ⟨0, 0⟩) = true := by
      decide +kernel
    obtain ⟨c, w', hrun, hc⟩ := Eff.exists_of_returned hreturned
    simp only [Bool.and_eq_true, List.any_eq_true, List.all_eq_true, decide_eq_true_eq] at hc
    exact ⟨c, w', hrun, hc.1.1, hc.1.2, hc.2⟩

end Shizuha.State
