import Shizuha.Gateway.IsolatedCron
import Shizuha.Proofs.ToolPairs

/-!
# A cron tick leaves no trace

The cut at the end of an attempt is right when the rows of the tick are the last
ones of the history and as many are in front of them as there were when the
attempt began. Nothing in the code sees to either. An attempt that was given up
leaves rows that the next one counts as history, and a compaction changes how
many are in front.

`tick_leaves_no_trace` is about the runs in which neither happens. What it takes
from the steps is in `Undisturbed`; that the rows of a tick stay behind all
others while an attempt is under way is the invariant (`TickLast`), and the pairs
are those of a scan that begins anew at every row of a tick (`PairedRows`).
-/

namespace Shizuha.Gateway

open Js Agent Machine

/-! ## The property -/

section

variable (history : List Message) (s : CronSession)

/-- No row of the tick, all that no compaction has summarized, and every tool
result behind its tool use, if it was. -/
structure NoTrace (rows : List Row) : Prop where
  tick : ∀ row ∈ rows, row.isTick = false
  earlier : (rows.filter Row.isEarlier).map Row.message = s.remaining
  paired : State.Paired history → State.Paired (rows.map Row.message)

def Isolated : Prop :=
  s.completed = true → NoTrace history s s.rows ∧ NoTrace history s s.stored

/-- What `selectSemanticPrefix` gives: a part of the conversation, cut in front of
no tool result. -/
def PassLegal (pass : CompactionPass) : Prop :=
  pass.planFilePath = none ∧ 0 < pass.suffixStart ∧
    pass.suffixStart ≤ (conversationRows s.rows).length ∧
    State.isToolResultMessage
      ((conversationRows s.rows)[pass.suffixStart.toNat]?.map Row.message) = false

/-- What the compactor and the other work promise. -/
def CronLegal : CronAction → Prop
  | .compact passes => Along CronSession.pass PassLegal s passes
  | .others rows => State.Paired rows
  | _ => True

/-- Cutting the rows back to the count takes those of the tick and no earlier one. -/
def FitsSnapshot (rows : List Row) (snapshotCount : ℕ) : Prop :=
  rows.countP (!·.isTick) = snapshotCount ∨
    ((∀ row ∈ rows, row.isTick = false) ∧ rows.length ≤ snapshotCount) ∨
      ((∀ row ∈ rows, row.isEarlier = false) ∧ snapshotCount ≤ rows.countP (!·.isTick))

instance (pass : CompactionPass) : Decidable (PassLegal s pass) :=
  inferInstanceAs (Decidable (_ ∧ _ ∧ _ ∧ _))

instance : (action : CronAction) → Decidable (CronLegal s action)
  | .compact passes => inferInstanceAs (Decidable (Along CronSession.pass PassLegal s passes))
  | .others rows => inferInstanceAs (Decidable (State.Paired rows))
  | .start | .addUserMessage _ | .append _ _ | .finish _ _ => inferInstanceAs (Decidable True)

instance (rows : List Row) (snapshotCount : ℕ) : Decidable (FitsSnapshot rows snapshotCount) :=
  inferInstanceAs (Decidable (_ ∨ _ ∨ _))

/-- No attempt starts with rows of the tick in the history, no compaction meets a
notice of the framework, and the count still fits at the end. -/
def Undisturbed : CronAction → Prop
  | .start => s.attempt = none → s.completed = false → ∀ row ∈ s.rows, row.isTick = false
  | .compact _ => ∀ row ∈ s.rows, isFrameworkOperationalMessage row.message = false
  | .finish .completed persists => ∀ snapshotCount ∈ s.attempt,
      FitsSnapshot s.rows snapshotCount ∧ (snapshotCount < s.rows.length → persists = true)
  | _ => True

instance : (action : CronAction) → Decidable (Undisturbed s action)
  | .start => inferInstanceAs (Decidable (_ → _ → _))
  | .compact _ => inferInstanceAs (Decidable (∀ row ∈ s.rows, _))
  | .finish .completed _ => inferInstanceAs (Decidable (∀ snapshotCount ∈ s.attempt, _ ∧ (_ → _)))
  | .finish .prewarmDeferred _ | .finish .runtimeRollDeferred _ | .finish .providerDeferred _
  | .finish .compactionDeferred _ | .finish .compactionDiscarded _
  | .addUserMessage _ | .append _ _ | .others _ => inferInstanceAs (Decidable True)

end

/-! ## The rows are the messages -/

section

variable {rows : List Row}

theorem map_conversationRows :
    (conversationRows rows).map Row.message =
      modelConversationMessages (rows.map Row.message) := by
  rw [modelConversationMessages_eq_filter, List.filter_map, conversationRows]
  rfl

theorem map_applyRows (pass : CompactionPass) :
    (pass.applyRows rows).map Row.message = pass.apply (rows.map Row.message) := by
  have hslice : ∀ l : List Row, (slice l pass.suffixStart).map Row.message =
      slice (l.map Row.message) pass.suffixStart := by
    intro l
    rw [slice, slice]
    split_ifs
    · rw [List.map_drop, List.length_map]
    · rw [List.map_drop]
  rw [CompactionPass.applyRows, CompactionPass.apply, State.projectCompactedMessages]
  simp only [List.map_append, List.map_cons, List.map_map, hslice, map_conversationRows]
  congr 1
  exact List.map_id _

/-- Without what they carry the rows are compacted as the history is. -/
theorem map_compact (s : CronSession) (passes : List CompactionPass) :
    (s.compact passes).rows.map Row.message = compactPasses (s.rows.map Row.message) passes := by
  rw [CronSession.compact]
  dsimp only
  induction passes generalizing s with
  | nil => rfl
  | cons pass passes ih =>
      rw [run_cons, ih, CronSession.pass, map_applyRows]
      rfl

/-- They are cut as the history is. -/
theorem map_finish (s : CronSession) {msg : CronMessage}
    (hmsg : cronJobShouldIsolateFromEternalSession msg = true) (snapshotCount : ℕ)
    (persists : Bool) :
    (s.finish msg snapshotCount .completed persists).rows.map Row.message =
      trimIsolatedCronTranscript (s.rows.map Row.message) snapshotCount := by
  rw [CronSession.finish, hmsg, trimIsolatedCronTranscript, ← List.map_take]
  rfl

end

/-! ## Pairs, but for the tick -/

/-- `State.PairedFrom` of the rows that are not the tick's; nothing is open behind
one that is. -/
def PairedRows : List Text → List Row → Prop
  | _, [] => True
  | open', row :: rest =>
      (row.isTick = true ∧ PairedRows [] rest) ∨
        (row.isTick = false ∧ (∀ id ∈ toolResultIds row.message, id ∈ open') ∧
          PairedRows (State.stillOpen open' row.message) rest)

section

variable {open' : List Text} {rows : List Row}

theorem PairedRows.mono {more : List Text} (h : PairedRows open' rows)
    (hmore : ∀ id ∈ open', id ∈ more) : PairedRows more rows := by
  induction rows generalizing open' more with
  | nil => trivial
  | cons row rest ih =>
      rcases h with ⟨htick, hrest⟩ | ⟨htick, hids, hrest⟩
      · exact .inl ⟨htick, hrest⟩
      · refine .inr ⟨htick, fun id hid => hmore id (hids id hid), ih hrest fun id hid => ?_⟩
        rw [State.stillOpen] at hid ⊢
        rcases List.mem_append.mp hid with hid | hid
        · split_ifs at hid with hresult
          · rw [if_pos hresult]
            exact List.mem_append_left _ (hmore id hid)
          · cases hid
        · exact List.mem_append_right _ hid

theorem PairedRows.append {behind : List Row} (h : PairedRows open' rows)
    (hbehind : PairedRows [] behind) : PairedRows open' (rows ++ behind) := by
  induction rows generalizing open' with
  | nil => exact hbehind.mono fun id hid => by cases hid
  | cons row rest ih =>
      rcases h with ⟨htick, hrest⟩ | ⟨htick, hids, hrest⟩
      · exact .inl ⟨htick, ih hrest⟩
      · exact .inr ⟨htick, hids, ih hrest⟩

theorem pairedRows_ticks (h : ∀ row ∈ rows, row.isTick = true) : PairedRows open' rows := by
  induction rows generalizing open' with
  | nil => trivial
  | cons row rest ih =>
      exact .inl ⟨h row (by simp), ih fun row' hrow => h row' (by simp [hrow])⟩

theorem pairedRows_iff (h : ∀ row ∈ rows, row.isTick = false) :
    PairedRows open' rows ↔ State.PairedFrom open' (rows.map Row.message) := by
  induction rows generalizing open' with
  | nil => exact Iff.rfl
  | cons row rest ih =>
      have hrow := h row (by simp)
      rw [PairedRows, List.map_cons, State.PairedFrom]
      simp only [hrow, Bool.false_eq_true, false_and, true_and, false_or]
      exact and_congr Iff.rfl (ih fun row' hmem => h row' (by simp [hmem]))

theorem PairedRows.take (h : PairedRows open' rows) (k : ℕ) : PairedRows open' (rows.take k) := by
  induction rows generalizing open' k with
  | nil =>
      rw [List.take_nil]
      trivial
  | cons row rest ih =>
      cases k with
      | zero => trivial
      | succ k =>
          rcases h with ⟨htick, hrest⟩ | ⟨htick, hids, hrest⟩
          · exact .inl ⟨htick, ih hrest k⟩
          · exact .inr ⟨htick, hids, ih hrest k⟩

theorem PairedRows.start (h : PairedRows open' rows)
    (hhead : State.isToolResultMessage (rows.head?.map Row.message) = false) :
    PairedRows [] rows := by
  cases rows with
  | nil => trivial
  | cons row rest =>
      have hrow : row.message.hasToolResult = false := hhead
      rcases h with ⟨htick, hrest⟩ | ⟨htick, -, hrest⟩
      · exact .inl ⟨htick, hrest⟩
      · refine .inr ⟨htick, by simp [State.toolResultIds_eq_nil hrow], ?_⟩
        rw [State.stillOpen, hrow, if_neg Bool.false_ne_true] at hrest ⊢
        exact hrest

theorem PairedRows.drop (h : PairedRows open' rows) (k : ℕ) :
    ∃ o, PairedRows o (rows.drop k) := by
  induction k generalizing open' rows with
  | zero => exact ⟨open', h⟩
  | succ k ih =>
      cases rows with
      | nil => exact ⟨[], trivial⟩
      | cons row rest =>
          rcases h with ⟨-, hrest⟩ | ⟨-, -, hrest⟩
          · exact ih hrest
          · exact ih hrest

end

/-! ## The invariant -/

/-- The rows of the tick are behind all others. -/
def TickLast (rows : List Row) : Prop :=
  ∃ front behind, rows = front ++ behind ∧ (∀ row ∈ front, row.isTick = false) ∧
    ∀ row ∈ behind, row.isTick = true

/-- What holds of the history in memory. -/
structure Traced (history : List Message) (s : CronSession) : Prop where
  earlier : (s.rows.filter Row.isEarlier).map Row.message = s.remaining
  paired : State.Paired history → PairedRows [] s.rows
  last : s.attempt ≠ none → TickLast s.rows
  done : s.completed = true → s.attempt = none ∧ ∀ row ∈ s.rows, row.isTick = false

/-- The store lacks nothing but rows of the tick. -/
structure StoreTraced (s : CronSession) : Prop where
  sublist : s.stored.Sublist s.rows
  kept : s.stored.filter (!·.isTick) = s.rows.filter (!·.isTick)

section

variable {history : List Message} {s : CronSession} {rows : List Row}

theorem filter_not_tick (h : ∀ row ∈ rows, row.isTick = false) :
    rows.filter (!·.isTick) = rows :=
  List.filter_eq_self.mpr fun row hrow => by rw [h row hrow]; rfl

theorem filter_ticks (h : ∀ row ∈ rows, row.isTick = true) : rows.filter (!·.isTick) = [] :=
  List.filter_eq_nil_iff.mpr fun row hrow => by rw [h row hrow]; decide

theorem not_earlier_of_tick {row : Row} (h : row.isTick = true) : row.isEarlier = false := by
  rw [Row.isTick, decide_eq_true_eq] at h
  rw [Row.isEarlier, h]
  rfl

theorem filter_earlier_ticks (h : ∀ row ∈ rows, row.isTick = true) :
    rows.filter Row.isEarlier = [] :=
  List.filter_eq_nil_iff.mpr fun row hrow => by rw [not_earlier_of_tick (h row hrow)]; decide

/-- Without rows of the tick the store has what is in memory. -/
theorem StoreTraced.eq (h : StoreTraced s) (htick : ∀ row ∈ s.rows, row.isTick = false) :
    s.stored = s.rows := by
  have hstored : ∀ row ∈ s.stored, row.isTick = false :=
    fun row hrow => htick row (h.sublist.subset hrow)
  rw [← filter_not_tick hstored, h.kept, filter_not_tick htick]

theorem Traced.isolated (h : Traced history s) (hstore : StoreTraced s) : Isolated history s := by
  intro hcompleted
  have htick := (h.done hcompleted).2
  have hnone : NoTrace history s s.rows :=
    ⟨htick, h.earlier, fun hpaired => (pairedRows_iff htick).mp (h.paired hpaired)⟩
  rw [hstore.eq htick]
  exact ⟨hnone, hnone⟩

theorem traced_of (history : List Message) : Traced history (CronSession.of history) := by
  have htick : ∀ row ∈ (CronSession.of history).rows, row.isTick = false := by
    intro row hrow
    obtain ⟨m, -, rfl⟩ := List.mem_map.mp hrow
    rfl
  refine ⟨?_, fun hpaired => (pairedRows_iff htick).mpr ?_, fun h => absurd rfl h,
    fun h => Bool.noConfusion h⟩
  · have hall : (CronSession.of history).rows.filter Row.isEarlier = (CronSession.of history).rows :=
      List.filter_eq_self.mpr fun row hrow => by
        obtain ⟨m, -, rfl⟩ := List.mem_map.mp hrow
        rfl
    rw [hall, CronSession.of, List.map_map]
    exact List.map_id _
  · rw [CronSession.of, List.map_map]
    exact (List.map_id history).symm ▸ hpaired

/-! ## A pass of a compaction -/

/-- A pass over a history without notices: two rows of its own in front of a part
of the rows. -/
theorem applyRows_eq {pass : CompactionPass} (hplan : pass.planFilePath = none)
    (hpos : 0 < pass.suffixStart)
    (hnotice : ∀ row ∈ rows, isFrameworkOperationalMessage row.message = false) :
    pass.applyRows rows =
      ⟨State.summaryMessage pass.host (rows.map Row.message) pass.summary, .compaction⟩ ::
        ⟨State.acknowledgement pass.host, .compaction⟩ :: rows.drop pass.suffixStart.toNat := by
  have hself : conversationRows rows = rows :=
    List.filter_eq_self.mpr fun row hrow => by rw [hnotice row hrow]; rfl
  rw [CompactionPass.applyRows, hself, hplan, State.planSuffix, List.map_nil, List.append_nil,
    slice, if_neg (by omega)]

theorem TickLast.drop (h : TickLast rows) (k : ℕ) : TickLast (rows.drop k) := by
  obtain ⟨front, behind, rfl, hfront, hbehind⟩ := h
  refine ⟨front.drop k, behind.drop (k - front.length), List.drop_append, ?_, ?_⟩
  · exact fun row hrow => hfront row (List.mem_of_mem_drop hrow)
  · exact fun row hrow => hbehind row (List.mem_of_mem_drop hrow)

theorem TickLast.cons (h : TickLast rows) {row : Row} (hrow : row.isTick = false) :
    TickLast (row :: rows) := by
  obtain ⟨front, behind, rfl, hfront, hbehind⟩ := h
  refine ⟨row :: front, behind, rfl, ?_, hbehind⟩
  exact List.forall_mem_cons.mpr ⟨hrow, hfront⟩

theorem TickLast.append (h : TickLast rows) {more : List Row}
    (hmore : ∀ row ∈ more, row.isTick = true) : TickLast (rows ++ more) := by
  obtain ⟨front, behind, rfl, hfront, hbehind⟩ := h
  refine ⟨front, behind ++ more, List.append_assoc _ _ _, hfront, fun row hrow => ?_⟩
  rcases List.mem_append.mp hrow with hrow | hrow
  · exact hbehind row hrow
  · exact hmore row hrow

/-- The two new rows have no tool results and leave nothing open. -/
theorem pairedRows_projection {ph : State.ProjectionHost} {received : List Message}
    {summary : Text} (h : PairedRows [] rows) :
    PairedRows [] (⟨State.summaryMessage ph received summary, .compaction⟩ ::
      ⟨State.acknowledgement ph, .compaction⟩ :: rows) := by
  refine .inr ⟨rfl, by simp [toolResultIds, blocksOf, State.summaryMessage, State.plainMessage],
    .inr ⟨rfl, by simp [toolResultIds, blocksOf, State.acknowledgement, State.plainMessage], ?_⟩⟩
  have hopen : State.stillOpen (State.stillOpen [] (State.summaryMessage ph received summary))
      (State.acknowledgement ph) = [] := by
    simp [State.stillOpen, State.acknowledgement, State.plainMessage, Agent.Message.hasToolResult,
      toolUseIds, blocksOf]
  rw [hopen]
  exact h

/-- What a pass takes off the ledger are the earlier ones that it summarizes. -/
theorem map_filter_drop (rows : List Row) (k : ℕ) :
    ((rows.drop k).filter Row.isEarlier).map Row.message =
      ((rows.filter Row.isEarlier).map Row.message).drop
        ((rows.take k).countP Row.isEarlier) := by
  have hsplit : rows.filter Row.isEarlier =
      (rows.take k).filter Row.isEarlier ++ (rows.drop k).filter Row.isEarlier := by
    rw [← List.filter_append, List.take_append_drop]
  have hlength : (((rows.take k).filter Row.isEarlier).map Row.message).length =
      (rows.take k).countP Row.isEarlier := by
    rw [List.length_map, List.countP_eq_length_filter]
  rw [hsplit, List.map_append, List.drop_left' hlength]

/-- A history that a pass may be given. -/
def Passing (history : List Message) (s : CronSession) : Prop :=
  Traced history s ∧ ∀ row ∈ s.rows, isFrameworkOperationalMessage row.message = false

theorem Passing.pass (h : Passing history s) {pass : CompactionPass} (hlegal : PassLegal s pass) :
    Passing history (s.pass pass) := by
  obtain ⟨h, hnotice⟩ := h
  have hself : conversationRows s.rows = s.rows :=
    List.filter_eq_self.mpr fun row hrow => by rw [hnotice row hrow]; rfl
  obtain ⟨hplan, hpos, hwithin, hfront⟩ := hlegal
  have hrows := applyRows_eq hplan hpos hnotice
  rw [hself] at hwithin hfront
  have hmem : ∀ {p : Row → Prop}, p ⟨State.summaryMessage pass.host (s.rows.map Row.message)
      pass.summary, .compaction⟩ → p ⟨State.acknowledgement pass.host, .compaction⟩ →
      (∀ row ∈ s.rows, p row) → ∀ row ∈ pass.applyRows s.rows, p row := by
    intro p hsummary hack hall row hrow
    rw [hrows] at hrow
    rcases List.mem_cons.mp hrow with rfl | hrow
    · exact hsummary
    rcases List.mem_cons.mp hrow with rfl | hrow
    · exact hack
    · exact hall row (List.mem_of_mem_drop hrow)
  refine ⟨⟨?_, fun hpaired => ?_, fun hattempt => ?_, fun hdone => ?_⟩, hmem rfl rfl hnotice⟩
  · rw [CronSession.pass, hself]
    dsimp only
    rw [hrows, ← h.earlier, ← map_filter_drop]
    rfl
  · obtain ⟨o, ho⟩ := (h.paired hpaired).drop pass.suffixStart.toNat
    rw [CronSession.pass, hrows]
    exact pairedRows_projection (ho.start (by rw [List.head?_drop]; exact hfront))
  · rw [CronSession.pass, hrows]
    exact (((h.last hattempt).drop _).cons rfl).cons rfl
  · exact ⟨(h.done hdone).1, hmem rfl rfl (h.done hdone).2⟩

theorem Traced.compact (h : Traced history s)
    (hnotice : ∀ row ∈ s.rows, isFrameworkOperationalMessage row.message = false)
    {passes : List CompactionPass} (hlegal : Along CronSession.pass PassLegal s passes) :
    Traced history (s.compact passes) ∧ StoreTraced (s.compact passes) := by
  have hrun : Passing history (run CronSession.pass s passes) :=
    run_invariant (fun s pass hs hpass => hs.pass hpass) ⟨h, hnotice⟩ hlegal
  exact ⟨⟨hrun.1.earlier, hrun.1.paired, hrun.1.last, hrun.1.done⟩, ⟨List.Sublist.refl _, rfl⟩⟩

/-! ## The steps -/

theorem isTick_tagged {more : List Message} :
    ∀ row ∈ more.map (Row.mk · .tick), row.isTick = true := by
  intro row hrow
  obtain ⟨m, -, rfl⟩ := List.mem_map.mp hrow
  rfl

theorem Traced.append (h : Traced history s) (hattempt : s.attempt ≠ none) (more : List Message)
    (persists : Bool) : Traced history (s.append more persists) where
  earlier := by
    rw [CronSession.append]
    dsimp only
    rw [List.filter_append, filter_earlier_ticks isTick_tagged, List.append_nil]
    exact h.earlier
  paired hpaired := (h.paired hpaired).append (pairedRows_ticks isTick_tagged)
  last _ := (h.last hattempt).append isTick_tagged
  done hdone := absurd (h.done hdone).1 hattempt

theorem StoreTraced.append (h : StoreTraced s) (more : List Message) (persists : Bool) :
    StoreTraced (s.append more persists) := by
  have hrows : (s.append more persists).rows.filter (!·.isTick) = s.rows.filter (!·.isTick) := by
    rw [CronSession.append]
    dsimp only
    rw [List.filter_append, filter_ticks isTick_tagged, List.append_nil]
  cases persists with
  | false => exact ⟨h.sublist.trans (List.sublist_append_left _ _), h.kept.trans hrows.symm⟩
  | true =>
      refine ⟨h.sublist.append_right _, ?_⟩
      rw [hrows, CronSession.append, if_pos rfl, List.filter_append, filter_ticks isTick_tagged,
        List.append_nil, h.kept]

/-- What the work between two attempts appends. -/
theorem Traced.others (h : Traced history s) (hattempt : s.attempt = none) {more : List Message}
    (hmore : State.Paired more) : Traced history (s.others more) := by
  have htick : ∀ row ∈ more.map (Row.mk · .earlier), row.isTick = false := by
    intro row hrow
    obtain ⟨m, -, rfl⟩ := List.mem_map.mp hrow
    rfl
  have hmessages : (more.map (Row.mk · .earlier)).map Row.message = more := by
    rw [List.map_map]
    exact List.map_id more
  have hearlier : (more.map (Row.mk · .earlier)).filter Row.isEarlier =
      more.map (Row.mk · .earlier) := List.filter_eq_self.mpr fun row hrow => by
    obtain ⟨m, -, rfl⟩ := List.mem_map.mp hrow
    rfl
  refine ⟨?_, fun hpaired => (h.paired hpaired).append ((pairedRows_iff htick).mpr ?_),
    fun hne => absurd hattempt hne, fun hdone => ⟨hattempt, fun row hrow => ?_⟩⟩
  · rw [CronSession.others]
    dsimp only
    rw [List.filter_append, List.map_append, hearlier, hmessages, h.earlier]
  · rwa [hmessages]
  · rcases List.mem_append.mp hrow with hrow | hrow
    · exact (h.done hdone).2 row hrow
    · exact htick row hrow

theorem StoreTraced.others (h : StoreTraced s) (more : List Message) :
    StoreTraced (s.others more) := by
  refine ⟨h.sublist.append_right _, ?_⟩
  rw [CronSession.others]
  dsimp only
  rw [List.filter_append, List.filter_append, h.kept]

/-- What a cut leaves where the count fits. -/
theorem take_fits (h : Traced history s) (hlast : TickLast s.rows) {snapshotCount : ℕ}
    (hfits : FitsSnapshot s.rows snapshotCount) :
    (∀ row ∈ s.rows.take snapshotCount, row.isTick = false) ∧
      ((s.rows.take snapshotCount).filter Row.isEarlier).map Row.message = s.remaining := by
  obtain ⟨front, behind, hrows, hfront, hbehind⟩ := hlast
  have hcount : s.rows.countP (!·.isTick) = front.length := by
    rw [hrows, List.countP_eq_length_filter, List.filter_append, filter_not_tick hfront,
      filter_ticks hbehind, List.append_nil]
  have hearlier : s.rows.filter Row.isEarlier = front.filter Row.isEarlier := by
    rw [hrows, List.filter_append, filter_earlier_ticks hbehind, List.append_nil]
  have htake : snapshotCount ≤ front.length →
      s.rows.take snapshotCount = front.take snapshotCount := by
    intro hle
    rw [hrows, List.take_append_of_le_length hle]
  rcases hfits with hcut | ⟨htick, hle⟩ | ⟨hnone, hle⟩
  · rw [hcount] at hcut
    rw [htake hcut.ge, List.take_of_length_le hcut.le, ← hearlier]
    exact ⟨hfront, h.earlier⟩
  · rw [List.take_of_length_le hle]
    exact ⟨htick, h.earlier⟩
  · rw [hcount] at hle
    refine ⟨fun row hrow => ?_, ?_⟩
    · rw [htake hle] at hrow
      exact hfront row (List.mem_of_mem_take hrow)
    · have hnil : ∀ {part : List Row}, (∀ row ∈ part, row ∈ s.rows) →
          part.filter Row.isEarlier = [] := fun hpart =>
        List.filter_eq_nil_iff.mpr fun row hrow => by rw [hnone row (hpart row hrow)]; decide
      rw [← h.earlier, hnil fun row hrow => List.mem_of_mem_take hrow, hnil fun row hrow => hrow]

/-- The message is done. -/
theorem finish_completed (h : Traced history s) (hstore : StoreTraced s) {msg : CronMessage}
    (hmsg : cronJobShouldIsolateFromEternalSession msg = true) {snapshotCount : ℕ}
    (hlast : TickLast s.rows) (hfits : FitsSnapshot s.rows snapshotCount) {persists : Bool}
    (hpersists : snapshotCount < s.rows.length → persists = true) :
    Traced history (s.finish msg snapshotCount .completed persists) ∧
      StoreTraced (s.finish msg snapshotCount .completed persists) := by
  obtain ⟨htick, hearlier⟩ := take_fits h hlast hfits
  have hrows : (s.finish msg snapshotCount .completed persists).rows =
      s.rows.take snapshotCount := by
    rw [CronSession.finish, hmsg]
    rfl
  have hstored : (s.finish msg snapshotCount .completed persists).stored =
      s.rows.take snapshotCount := by
    rw [CronSession.finish, hmsg, show AttemptEnd.completed.returnsRow = false from rfl,
      Bool.not_false, Bool.and_true, if_pos rfl]
    dsimp only
    split_ifs with htrim
    · rfl
    · by_cases hcut : snapshotCount < s.rows.length
      · have hlength : (s.rows.take snapshotCount).length = snapshotCount :=
          List.length_take_of_le hcut.le
        exact absurd ⟨by omega, hpersists hcut⟩ htrim
      · rw [List.take_of_length_le (by omega)] at htick ⊢
        exact hstore.eq htick
  refine ⟨⟨?_, fun hpaired => ?_, fun hne => absurd rfl hne, fun _ => ⟨rfl, ?_⟩⟩, ⟨?_, ?_⟩⟩
  · rw [hrows]
    exact hearlier
  · rw [hrows]
    exact (h.paired hpaired).take snapshotCount
  · rw [hrows]
    exact htick
  · rw [hrows, hstored]
  · rw [hrows, hstored]

/-- The row goes back to the inbox: the history stays as it is. -/
theorem finish_returned (h : Traced history s) (hstore : StoreTraced s) (msg : CronMessage)
    (snapshotCount : ℕ) {how : AttemptEnd} (hhow : how.returnsRow = true) (persists : Bool) :
    Traced history (s.finish msg snapshotCount how persists) ∧
      StoreTraced (s.finish msg snapshotCount how persists) := by
  have hfinish : s.finish msg snapshotCount how persists =
      { s with attempt := none, completed := false } := by
    rw [CronSession.finish, hhow]
    simp
  rw [hfinish]
  exact ⟨⟨h.earlier, h.paired, fun hne => absurd rfl hne, fun hdone => Bool.noConfusion hdone⟩,
    ⟨hstore.sublist, hstore.kept⟩⟩

theorem traced_step {msg : CronMessage}
    (hmsg : cronJobShouldIsolateFromEternalSession msg = true) {action : CronAction}
    (h : Traced history s ∧ StoreTraced s) (hlegal : CronLegal s action)
    (hC : Undisturbed s action) :
    Traced history (cronStep msg s action) ∧ StoreTraced (cronStep msg s action) := by
  have hsame := h
  obtain ⟨h, hstore⟩ := h
  cases action with
  | start =>
      rw [cronStep]
      split_ifs with hstart
      · obtain ⟨hattempt, hcompleted⟩ := hstart
        refine ⟨⟨h.earlier, h.paired, fun _ => ?_, fun hdone => ?_⟩,
          ⟨hstore.sublist, hstore.kept⟩⟩
        · exact ⟨s.rows, [], (List.append_nil _).symm, hC hattempt hcompleted,
            fun row hrow => by cases hrow⟩
        · exact absurd (hcompleted.symm.trans hdone) Bool.false_ne_true
      · exact hsame
  | addUserMessage persists =>
      rw [cronStep, CronSession.addUserMessage]
      split_ifs with hattempt
      · exact hsame
      · exact hsame
      · exact ⟨h.append hattempt _ persists, hstore.append _ persists⟩
  | append more persists =>
      rw [cronStep]
      split_ifs with hattempt
      · exact hsame
      · exact ⟨h.append hattempt more persists, hstore.append more persists⟩
  | compact passes => exact h.compact hC hlegal
  | finish how persists =>
      rw [cronStep]
      cases hattempt : s.attempt with
      | none => exact hsame
      | some snapshotCount =>
          have hlast := h.last (by rw [hattempt]; exact Option.some_ne_none _)
          cases how with
          | completed =>
              obtain ⟨hfits, hpersists⟩ := hC snapshotCount hattempt
              exact finish_completed h hstore hmsg hlast hfits hpersists
          | _ => exact finish_returned h hstore msg snapshotCount rfl persists
  | others more =>
      rw [cronStep]
      split_ifs with hattempt
      · exact ⟨h.others hattempt hlegal, hstore.others more⟩
      · exact hsame

end

/-- In every run that leaves the measured history alone, a tick that is done has
left no trace. -/
theorem tick_leaves_no_trace (history : List Message) (msg : CronMessage)
    (actions : List CronAction) (hmsg : cronJobShouldIsolateFromEternalSession msg = true)
    (hlegal : Along (cronStep msg) CronLegal (.of history) actions)
    (hC : Along (cronStep msg) Undisturbed (.of history) actions) :
    Throughout (cronStep msg) (Isolated history) (.of history) actions := by
  have hstart : Traced history (.of history) ∧ StoreTraced (.of history) :=
    ⟨traced_of history, ⟨List.Sublist.refl _, rfl⟩⟩
  have hruns : Throughout (cronStep msg) (fun s => Traced history s ∧ StoreTraced s)
      (.of history) actions :=
    throughout_of_step (fun _ _ h hboth => traced_step hmsg h hboth.1 hboth.2)
      hstart (hlegal.and hC)
  exact hruns.mono fun _ h => h.1.isolated h.2

/-- Three messages of before. -/
def shortHistory : List Message :=
  [State.plainMessage .user (js "hello") (.ofInt 0 Js.zero_small),
    State.plainMessage .assistant (js "hello") (.ofInt 0 Js.zero_small),
    State.plainMessage .user (js "thanks") (.ofInt 0 Js.zero_small)]

def watchTick : CronMessage where
  id := js "tick"
  threadId := js "cron"
  content := .text (js "check the build")
  timestamp := .ofInt 0 Js.zero_small
  source := some (js "cron")
  selfInvocation := none

def tickAnswer : Message := State.plainMessage .assistant (js "green") (.ofInt 0 Js.zero_small)

/-- A pass that summarizes as many rows as it writes. -/
def evenPass : CompactionPass where
  host := { now := fun _ => .ofInt 0 Js.zero_small, readFileSync := fun _ => none }
  planFilePath := none
  summary := js "greetings"
  suffixStart := 2

/-- Given up before anything was appended, then done with a compaction on the way. -/
def undisturbedTick : List CronAction :=
  [.start, .finish .prewarmDeferred true, .start, .addUserMessage true, .compact [evenPass],
    .append [tickAnswer] true, .finish .completed true]

theorem undisturbed_tick_leaves_no_trace :
    Throughout (cronStep watchTick) (Isolated shortHistory) (.of shortHistory) undisturbedTick :=
  tick_leaves_no_trace shortHistory watchTick undisturbedTick (by decide) (by decide) (by decide)

/-- The provider is not there at first. -/
def deferredTick : List CronAction :=
  [.start, .addUserMessage true, .finish .providerDeferred true, .start, .append [tickAnswer] true,
    .finish .completed true]

theorem deferred_tick_remains :
    ¬ ∀ history msg actions, cronJobShouldIsolateFromEternalSession msg = true →
      Along (cronStep msg) CronLegal (.of history) actions →
      Throughout (cronStep msg) (Isolated history) (.of history) actions := by
  intro h
  have hlast := (h shortHistory watchTick deferredTick (by decide) (by decide)).last (by decide)
  have hrows : (run (cronStep watchTick) (.of shortHistory) deferredTick).rows.any Row.isTick =
      true := by decide
  obtain ⟨row, hrow, htick⟩ := List.any_eq_true.mp hrows
  exact absurd ((hlast.1.tick row hrow).symm.trans htick) Bool.false_ne_true

end Shizuha.Gateway
