import Shizuha.Gateway.Channels

/-!
# What an acknowledged reply was

The queue keeps a reply until its channel has sent it. The channel acknowledges
the entry once the final flush has returned, and a flush returns whatever the
API answered: a call that throws is caught, an answer that is an error is not
looked at. What the acknowledgement is worth is therefore what the flush had to
meet, and `acked_iff_carried` says it call by call.
-/

namespace Shizuha.Gateway

open Js

variable (style : ChatStyle) (api : FlushCall → ApiOutcome) (resp : ActiveResponse)

/-! ## The property -/

/-- Something the API accepted carries a chunk, as it is or without its
markdown. -/
def Carried (chunks : List Text) (accepted : List (ℕ × Text)) (i : ℕ) : Prop :=
  ∃ text, (i, text) ∈ accepted ∧
    (text = chunks.getD i [] ∨ ∃ strip ∈ style.stripMarkdown, text = strip (chunks.getD i []))

/-- The texts that were accepted of these calls, each with the chunk it is for. -/
def acceptedOf (chunks : List Text) (calls : List FlushCall) : List (ℕ × Text) :=
  (calls.filter fun call => (api call).ok).map fun call => (call.index, call.content style chunks)

/-- An acknowledged entry was delivered, `shown` being what had been accepted
before; one that is not acknowledged is still in the queue. -/
structure AckedWhenCarried (shown : List (ℕ × Text)) (disk : Disk) (entry : DeliveryEntry)
    (writable : Bool) : Prop where
  carried : ∀ id ∈ (style.sendEventComplete api resp disk entry writable).acked,
    ∀ i < (style.splitMessage resp.accumulated).length,
      Carried style (style.splitMessage resp.accumulated)
        (shown ++ acceptedOf style api (style.splitMessage resp.accumulated)
          (style.sendEventComplete api resp disk entry writable).calls) i
  pending : resp.accumulated ≠ [] → writable = true →
    (style.sendEventComplete api resp disk entry writable).acked = none →
      (style.sendEventComplete api resp disk entry writable).disk.read (.json entry.id) =
        some entry

/-! ## What the API has to answer -/

/-- A call or, where it is repeated without markdown, the repetition. -/
def ApiTakes (failed : ApiOutcome) (call plain : FlushCall) : Prop :=
  (api call).ok = true ∨
    api call = failed ∧ style.stripMarkdown.isSome = true ∧ (api plain).ok = true

/-- The first chunk of a reply of `n` chunks is taken: posted when nothing is
there yet, and else edited in, which a reply of one chunk is. -/
def FirstTaken (n : ℕ) : Prop :=
  match resp.sentMessageId with
  | none => ApiTakes style api .errorBody .post .postPlain
  | some _ => n = 1 ∧ ApiTakes style api .rejected .edit .editPlain

/-- No throw ends the flush before the other chunks. -/
def OthersReached : Prop :=
  resp.sentMessageId = none → api .post ≠ .rejected ∧
    (api .post = .errorBody → style.stripMarkdown.isSome = true → api .postPlain ≠ .rejected)

/-- A chunk of a reply of `n` chunks is taken by the final flush. -/
def ChunkTaken (n : ℕ) : ℕ → Prop
  | 0 => FirstTaken style api resp n
  | i + 1 => OthersReached style api resp ∧
      ApiTakes style api .rejected (.more (i + 1)) (.morePlain (i + 1))

/-! ## The calls of a flush -/

variable {style api resp} {complete : Bool} {chunks : List Text} {call other : FlushCall}

theorem mem_calls_succ {fuel : ℕ} :
    other ∈ style.calls complete chunks api (fuel + 1) call ↔
      other = call ∨ ∃ d ∈ style.next complete chunks call (api call),
        other ∈ style.calls complete chunks api fuel d := by
  rw [ChatStyle.calls, List.mem_cons, List.mem_flatMap]

/-- The calls from one chunk on: a post of each, and where it throws one
without markdown. -/
theorem mem_calls_more {fuel i : ℕ} (hi : i < chunks.length) (hfuel : chunks.length - i < fuel) :
    other ∈ style.calls true chunks api fuel (.more i) ↔
      ∃ j, i ≤ j ∧ j < chunks.length ∧ (other = .more j ∨
        other = .morePlain j ∧ api (.more j) = .rejected ∧ style.stripMarkdown.isSome = true) := by
  induction fuel generalizing i with
  | zero => omega
  | succ fuel ih =>
      have hplain : ∀ k, other ∈ style.calls true chunks api fuel (.morePlain k) ↔
          other = .morePlain k := by
        intro k
        obtain ⟨f, rfl⟩ : ∃ f, fuel = f + 1 := ⟨fuel - 1, by omega⟩
        rw [mem_calls_succ]
        exact ⟨fun h => h.elim id fun ⟨d, hd, _⟩ => absurd hd List.not_mem_nil, Or.inl⟩
      have hrest : (∃ d ∈ moreCalls true chunks (i + 1),
          other ∈ style.calls true chunks api fuel d) ↔
          ∃ j, i + 1 ≤ j ∧ j < chunks.length ∧ (other = .more j ∨
            other = .morePlain j ∧ api (.more j) = .rejected ∧
              style.stripMarkdown.isSome = true) := by
        rw [moreCalls]
        by_cases hlast : i + 1 < chunks.length
        · rw [if_pos ⟨rfl, hlast⟩, ← ih hlast (by omega)]
          simp
        · rw [if_neg (fun h => hlast h.2)]
          constructor
          · rintro ⟨d, hd, -⟩
            cases hd
          · rintro ⟨j, hj, hlt, -⟩
            omega
      have hnext : (∃ d ∈ style.next true chunks (.more i) (api (.more i)),
          other ∈ style.calls true chunks api fuel d) ↔
          (other = .morePlain i ∧ api (.more i) = .rejected ∧
              style.stripMarkdown.isSome = true) ∨
            ∃ d ∈ moreCalls true chunks (i + 1), other ∈ style.calls true chunks api fuel d := by
        cases hout : api (.more i) with
        | accepted id => simp [ChatStyle.next]
        | errorBody => simp [ChatStyle.next]
        | rejected =>
            cases hstrip : style.stripMarkdown.isSome <;>
              simp [ChatStyle.next, hstrip, hplain, or_and_right, exists_or]
      rw [mem_calls_succ, hnext, hrest]
      constructor
      · rintro (rfl | h | ⟨j, hj, hlt, h⟩)
        · exact ⟨i, le_rfl, hi, Or.inl rfl⟩
        · exact ⟨i, le_rfl, hi, Or.inr h⟩
        · exact ⟨j, by omega, hlt, h⟩
      · rintro ⟨j, hj, hlt, h⟩
        rcases Nat.eq_or_lt_of_le hj with rfl | hlt'
        · rcases h with h | h
          · exact Or.inl h
          · exact Or.inr (Or.inl h)
        · exact Or.inr (Or.inr ⟨j, hlt', hlt, h⟩)

/-- The other chunks, as a flush posts them. -/
def FromSecond (style : ChatStyle) (api : FlushCall → ApiOutcome) (chunks : List Text)
    (other : FlushCall) : Prop :=
  ∃ j, 1 ≤ j ∧ j < chunks.length ∧ (other = .more j ∨
    other = .morePlain j ∧ api (.more j) = .rejected ∧ style.stripMarkdown.isSome = true)

theorem mem_calls_moreCalls {fuel : ℕ} (hfuel : chunks.length ≤ fuel) :
    (∃ d ∈ moreCalls true chunks 1, other ∈ style.calls true chunks api fuel d) ↔
      FromSecond style api chunks other := by
  rw [moreCalls]
  by_cases hmore : 1 < chunks.length
  · have hfuel : chunks.length - 1 < fuel := by omega
    rw [if_pos ⟨rfl, hmore⟩, FromSecond, ← mem_calls_more hmore hfuel]
    simp
  · rw [if_neg fun h => hmore h.2]
    constructor
    · rintro ⟨d, hd, -⟩
      cases hd
    · rintro ⟨j, hj, hlt, -⟩
      omega

theorem mem_calls_edit {fuel : ℕ} :
    other ∈ style.calls complete chunks api (fuel + 2) .edit ↔
      other = .edit ∨
        other = .editPlain ∧ api .edit = .rejected ∧ style.stripMarkdown.isSome = true := by
  rw [mem_calls_succ]
  cases hout : api .edit with
  | accepted id => simp [ChatStyle.next]
  | errorBody => simp [ChatStyle.next]
  | rejected =>
      cases hstrip : style.stripMarkdown.isSome <;>
        simp [ChatStyle.next, hstrip, mem_calls_succ]

/-- The calls of a flush that posts the first chunk. -/
theorem mem_calls_post (hsent : resp.sentMessageId = none) :
    other ∈ style.calls true chunks api (chunks.length + 2) .post ↔
      other = .post ∨
        (other = .postPlain ∧ api .post = .errorBody ∧ style.stripMarkdown.isSome = true) ∨
        (OthersReached style api resp ∧ FromSecond style api chunks other) := by
  have hmore := @mem_calls_moreCalls style api chunks other (chunks.length + 1) (by omega)
  have hmore' := @mem_calls_moreCalls style api chunks other chunks.length le_rfl
  rw [mem_calls_succ]
  cases hpost : api .post with
  | accepted id => simp [ChatStyle.next, OthersReached, hmore, hpost]
  | rejected => simp [ChatStyle.next, OthersReached, hsent, hpost]
  | errorBody =>
      cases hstrip : style.stripMarkdown.isSome with
      | false => simp [ChatStyle.next, OthersReached, hmore, hpost, hstrip]
      | true =>
          have hplain : other ∈ style.calls true chunks api (chunks.length + 1) .postPlain ↔
              other = .postPlain ∨
                api .postPlain ≠ .rejected ∧ FromSecond style api chunks other := by
            rw [mem_calls_succ]
            cases hout : api .postPlain <;> simp [ChatStyle.next, hmore']
          simp [ChatStyle.next, OthersReached, hsent, hpost, hstrip, hplain]

theorem formatResponse_complete (hcomplete : resp.complete = true) (htext : resp.accumulated ≠ []) :
    style.formatResponse resp = resp.accumulated := by
  rw [ChatStyle.formatResponse, if_neg fun h => htext h.1]
  simp [hcomplete]

/-- The final flush starts by posting the first chunk, by editing it in, or
with the others. -/
theorem startCalls_complete (hcomplete : resp.complete = true) (htext : resp.accumulated ≠ []) :
    style.startCalls resp =
      match resp.sentMessageId with
      | none => [.post]
      | some _ =>
          if (style.splitMessage resp.accumulated).length = 1 then [.edit]
          else moreCalls true (style.splitMessage resp.accumulated) 1 := by
  cases hsent : resp.sentMessageId with
  | none =>
      simp only [ChatStyle.startCalls, htext, false_and, if_false, hsent,
        formatResponse_complete hcomplete htext]
  | some ref =>
      simp only [ChatStyle.startCalls, htext, false_and, if_false, hsent, hcomplete,
        formatResponse_complete hcomplete htext]

theorem flushEdit_complete (hcomplete : resp.complete = true) (htext : resp.accumulated ≠ []) :
    style.flushEdit api resp =
      (style.startCalls resp).flatMap (style.calls true (style.splitMessage resp.accumulated) api
        ((style.splitMessage resp.accumulated).length + 2)) := by
  rw [ChatStyle.flushEdit, formatResponse_complete hcomplete htext, hcomplete]

/-! ## What they deliver -/

theorem apiTakes_iff {failed : ApiOutcome} {plain : FlushCall} :
    ApiTakes style api failed call plain ↔
      ∃ c, (c = call ∨ c = plain ∧ api call = failed ∧ style.stripMarkdown.isSome = true) ∧
        (api c).ok = true := by
  constructor
  · rintro (h | ⟨hfailed, hstrip, h⟩)
    · exact ⟨call, Or.inl rfl, h⟩
    · exact ⟨plain, Or.inr ⟨rfl, hfailed, hstrip⟩, h⟩
  · rintro ⟨c, rfl | ⟨rfl, hfailed, hstrip⟩, h⟩
    · exact Or.inl h
    · exact Or.inr ⟨hfailed, hstrip, h⟩

/-- The first chunk's calls are not those of the others. -/
theorem FromSecond.index_pos (h : FromSecond style api chunks other) : 0 < other.index := by
  obtain ⟨j, hj, -, rfl | ⟨rfl, -⟩⟩ := h
  · exact hj
  · exact hj

theorem fromSecond_iff {i : ℕ} (hi : i + 1 < chunks.length) :
    (∃ c, FromSecond style api chunks c ∧ c.index = i + 1 ∧ (api c).ok = true) ↔
      ApiTakes style api .rejected (.more (i + 1)) (.morePlain (i + 1)) := by
  rw [apiTakes_iff]
  constructor
  · rintro ⟨c, ⟨j, hj, hlt, hc⟩, hindex, hok⟩
    have hji : j = i + 1 := by
      rcases hc with rfl | ⟨rfl, -⟩
      · exact hindex
      · exact hindex
    subst hji
    exact ⟨c, hc, hok⟩
  · rintro ⟨c, hc, hok⟩
    refine ⟨c, ⟨i + 1, by omega, hi, hc⟩, ?_, hok⟩
    rcases hc with rfl | ⟨rfl, -⟩
    · rfl
    · rfl

/-- A chunk is taken by the final flush exactly when the API answers that way. -/
theorem taken_iff (hcomplete : resp.complete = true) (htext : resp.accumulated ≠ []) {i : ℕ}
    (hi : i < (style.splitMessage resp.accumulated).length) :
    (∃ c ∈ style.flushEdit api resp, c.index = i ∧ (api c).ok = true) ↔
      ChunkTaken style api resp (style.splitMessage resp.accumulated).length i := by
  rw [flushEdit_complete hcomplete htext, startCalls_complete hcomplete htext]
  generalize style.splitMessage resp.accumulated = chunks at hi ⊢
  cases hsent : resp.sentMessageId with
  | none =>
      simp only [List.flatMap_cons, List.flatMap_nil, List.append_nil, mem_calls_post hsent]
      cases i with
      | zero =>
          rw [ChunkTaken, FirstTaken, hsent, apiTakes_iff]
          constructor
          · rintro ⟨c, hc | hc | ⟨-, hc⟩, hindex, hok⟩
            · exact ⟨c, Or.inl hc, hok⟩
            · exact ⟨c, Or.inr hc, hok⟩
            · exact absurd hindex hc.index_pos.ne'
          · rintro ⟨c, hc | hc, hok⟩
            · exact ⟨c, Or.inl hc, by rw [hc]; rfl, hok⟩
            · exact ⟨c, Or.inr (Or.inl hc), by rw [hc.1]; rfl, hok⟩
      | succ i =>
          rw [ChunkTaken, ← fromSecond_iff hi]
          constructor
          · rintro ⟨c, hc | hc | ⟨hreached, hc⟩, hindex, hok⟩
            · rw [hc] at hindex
              cases hindex
            · rw [hc.1] at hindex
              cases hindex
            · exact ⟨hreached, c, hc, hindex, hok⟩
          · rintro ⟨hreached, c, hc, hindex, hok⟩
            exact ⟨c, Or.inr (Or.inr ⟨hreached, hc⟩), hindex, hok⟩
  | some id =>
      have hreached : OthersReached style api resp := fun h => by
        rw [hsent] at h
        cases h
      by_cases hone : chunks.length = 1
      · obtain rfl : i = 0 := by omega
        simp only [hone, if_true, List.flatMap_cons, List.flatMap_nil, List.append_nil,
          mem_calls_edit]
        rw [ChunkTaken, FirstTaken, hsent]
        dsimp only
        rw [apiTakes_iff]
        constructor
        · rintro ⟨c, hc, -, hok⟩
          exact ⟨rfl, c, hc, hok⟩
        · rintro ⟨-, c, hc, hok⟩
          refine ⟨c, hc, ?_, hok⟩
          rcases hc with rfl | ⟨rfl, -⟩
          · rfl
          · rfl
      · simp only [if_neg hone, List.mem_flatMap,
          mem_calls_moreCalls (show chunks.length ≤ chunks.length + 2 by omega)]
        cases i with
        | zero =>
            rw [ChunkTaken, FirstTaken, hsent]
            constructor
            · rintro ⟨c, hc, hindex, -⟩
              exact absurd hindex hc.index_pos.ne'
            · rintro ⟨h, -⟩
              exact absurd h hone
        | succ i =>
            rw [ChunkTaken, ← fromSecond_iff hi]
            exact ⟨fun h => ⟨hreached, h⟩, fun h => h.2⟩

/-- What a call sends is its chunk, or its chunk without markdown. -/
theorem content_carries (style : ChatStyle) (chunks : List Text) (call : FlushCall) :
    call.content style chunks = chunks.getD call.index [] ∨
      ∃ strip ∈ style.stripMarkdown, call.content style chunks = strip (chunks.getD call.index []) := by
  rw [FlushCall.content]
  split_ifs with hplain
  · cases hstrip : style.stripMarkdown with
    | none => exact Or.inl rfl
    | some strip => exact Or.inr ⟨strip, rfl, rfl⟩
  · exact Or.inl rfl

theorem carried_append {shown : List (ℕ × Text)} {calls : List FlushCall} {i : ℕ} :
    Carried style chunks (shown ++ acceptedOf style api chunks calls) i ↔
      Carried style chunks shown i ∨ ∃ c ∈ calls, c.index = i ∧ (api c).ok = true := by
  constructor
  · rintro ⟨text, hmem, htext⟩
    rcases List.mem_append.mp hmem with hmem | hmem
    · exact Or.inl ⟨text, hmem, htext⟩
    · obtain ⟨c, hc, heq⟩ := List.mem_map.mp hmem
      obtain ⟨hc, hok⟩ := List.mem_filter.mp hc
      exact Or.inr ⟨c, hc, congrArg Prod.fst heq, hok⟩
  · rintro (⟨text, hmem, htext⟩ | ⟨c, hc, rfl, hok⟩)
    · exact ⟨text, List.mem_append_left _ hmem, htext⟩
    · refine ⟨c.content style chunks, List.mem_append_right _ ?_, content_carries style chunks c⟩
      exact List.mem_map.mpr ⟨c, List.mem_filter.mpr ⟨hc, hok⟩, rfl⟩

variable {disk : Disk} {entry : DeliveryEntry} {writable : Bool}

/-- The entry is acknowledged whenever there is one. -/
theorem acked_sendEventComplete :
    (style.sendEventComplete api resp disk entry writable).acked =
      if resp.accumulated ≠ [] ∧ writable = true then some entry.id else none := by
  rw [ChatStyle.sendEventComplete, Disk.enqueue]
  by_cases htext : resp.accumulated = []
  · rw [if_pos htext, if_neg fun h => h.1 htext]
  · cases writable with
    | false => simp [htext]
    | true => simp [htext]

theorem calls_sendEventComplete :
    (style.sendEventComplete api resp disk entry writable).calls =
      style.flushEdit api { resp with complete := true } := by
  rw [ChatStyle.sendEventComplete, Disk.enqueue]
  by_cases htext : resp.accumulated = []
  · rw [if_pos htext]
  · cases writable with
    | false => simp [htext]
    | true => simp [htext]

/-- An entry that is acknowledged was delivered, for every answer of the API,
exactly when each chunk had been accepted before or is taken now. -/
theorem acked_iff_carried (style : ChatStyle) (api : FlushCall → ApiOutcome)
    (resp : ActiveResponse) (shown : List (ℕ × Text)) (disk : Disk) (entry : DeliveryEntry)
    (writable : Bool) :
    AckedWhenCarried style api resp shown disk entry writable ↔
      (resp.accumulated ≠ [] → writable = true →
        ∀ i < (style.splitMessage resp.accumulated).length,
          Carried style (style.splitMessage resp.accumulated) shown i ∨
            ChunkTaken style api resp (style.splitMessage resp.accumulated).length i) := by
  have htaken : resp.accumulated ≠ [] → ∀ i < (style.splitMessage resp.accumulated).length,
      (Carried style (style.splitMessage resp.accumulated)
          (shown ++ acceptedOf style api (style.splitMessage resp.accumulated)
            (style.sendEventComplete api resp disk entry writable).calls) i ↔
        Carried style (style.splitMessage resp.accumulated) shown i ∨
          ChunkTaken style api resp (style.splitMessage resp.accumulated).length i) := by
    intro htext i hi
    rw [carried_append, calls_sendEventComplete]
    exact or_congr_right (@taken_iff style api { resp with complete := true } rfl htext i hi)
  constructor
  · intro h htext hwritable i hi
    refine (htaken htext i hi).mp (h.carried entry.id ?_ i hi)
    rw [acked_sendEventComplete, if_pos ⟨htext, hwritable⟩]
    rfl
  · intro h
    refine ⟨fun id hid i hi => ?_, fun htext hwritable hnone => ?_⟩
    · rw [acked_sendEventComplete] at hid
      split_ifs at hid with hboth
      · exact (htaken hboth.1 i hi).mpr (h hboth.1 hboth.2 i hi)
      · cases hid
    · rw [acked_sendEventComplete, if_pos ⟨htext, hwritable⟩] at hnone
      cases hnone

/-! ## An outage -/

/-- A reply of two letters, with nothing posted yet. -/
def hiResponse : ActiveResponse := ⟨none, js "hi", [], false, false⟩

def hiEntry : DeliveryEntry := ⟨js "e", js "discord", js "c", .null, 0, 0, none, none⟩

/-- Every call throws: the entry is acknowledged all the same. -/
theorem acked_not_carried :
    ¬ AckedWhenCarried discord (fun _ => .rejected) hiResponse [] Table.empty hiEntry true := by
  intro h
  obtain ⟨text, hmem, -⟩ := h.carried (js "e") rfl 0 (by decide)
  cases hmem

end Shizuha.Gateway
