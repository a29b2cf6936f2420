import Shizuha.Gateway.MessageAdmission
import Shizuha.Machine

/-!
# One row for a message

A message is recognised by its row, so it is appended once as long as its row
is in memory whenever it is admitted again. What rewrites the history may drop
the row: it becomes part of a summary, or goes with the history it was in. The
condition `Recognised` says that this has not happened to a message that comes
again, and it is exactly what a run needs.
-/

namespace Shizuha.Gateway

open Js Agent Machine

variable {s : EternalSession} {action : AdmissionAction} {messages rows : List Message}

/-- The ids of the user rows. -/
def userIds (messages : List Message) : List Text :=
  messages.filterMap fun m => if m.role = .user then m.id else none

/-- No message that has an id has been appended twice, or has two rows. -/
structure OneRow (s : EternalSession) : Prop where
  appended : ∀ id ≠ [], s.appended.count id ≤ 1
  active : ∀ id ≠ [], (userIds s.messages).count id ≤ 1
  stored : ∀ id ≠ [], (userIds s.stored).count id ≤ 1

/-- The ids of these rows are their own. -/
def FreshRows (rows messages : List Message) : Prop :=
  ∀ id ≠ [], id ∈ userIds rows → (userIds rows).count id ≤ 1 ∧ id ∉ userIds messages

/-- A message that comes again finds its row in memory, and the rows of a turn
have no id of a message. -/
def Recognised (s : EternalSession) : AdmissionAction → Prop
  | .message msg persists => msg.id ≠ [] → msg.id ∉ userIds s.messages →
      msg.id ∉ s.appended ∧ (persists = true → msg.id ∉ userIds s.stored)
  | .turn rows => FreshRows rows s.messages ∧ FreshRows rows s.stored
  | _ => True

/-! ## Ids -/

@[simp] theorem userIds_append (a b : List Message) : userIds (a ++ b) = userIds a ++ userIds b :=
  List.filterMap_append

theorem userIds_sublist (h : rows.Sublist messages) : (userIds rows).Sublist (userIds messages) :=
  h.filterMap _

theorem mem_userIds {id : Text} : id ∈ userIds messages ↔ ∃ m ∈ messages, m.role = .user ∧
    m.id = some id := by
  simp only [userIds, List.mem_filterMap, Option.ite_none_right_eq_some]

theorem alreadyPersisted_iff {msg : AdmittedMessage} :
    s.alreadyPersisted msg = true ↔ msg.id ≠ [] ∧ msg.id ∈ userIds s.messages := by
  simp only [EternalSession.alreadyPersisted, AdmittedMessage.isRow, mem_userIds, Bool.and_eq_true,
    decide_eq_true_eq, List.any_eq_true]

theorem userIds_plain (role : Role) (content : Text) (now : Double) :
    userIds (State.plainMessage role content now :: messages) = userIds messages := by
  have hnone : (if (State.plainMessage role content now).role = .user then
      (State.plainMessage role content now).id else none) = none := ite_self none
  exact List.filterMap_cons_none hnone

theorem userIds_planSuffix (host : State.ProjectionHost) (path : Option Text)
    (compacted : List Message) : userIds (State.planSuffix host path compacted) = [] := by
  cases path with
  | none => rfl
  | some path =>
      rw [State.planSuffix]
      split_ifs
      · rfl
      · cases host.readFileSync path with
        | none => rfl
        | some content =>
            dsimp only
            split_ifs
            · rfl
            · exact (userIds_plain _ _ _).trans (userIds_plain _ _ _)

theorem slice_sublist (l : List Message) (start : Int) : (slice l start).Sublist l := by
  rw [slice]
  split_ifs
  · exact List.drop_sublist _ _
  · exact List.drop_sublist _ _

/-- A pass keeps rows and writes some that have no id. -/
theorem userIds_pass (pass : CompactionPass) :
    (userIds (pass.apply messages)).Sublist (userIds messages) := by
  have hkept : (modelConversationMessages messages).Sublist messages := by
    rw [modelConversationMessages_eq_filter]
    exact List.filter_sublist
  rw [CompactionPass.apply, State.projectCompactedMessages, userIds_append, userIds_planSuffix, List.append_nil, State.summaryMessage, userIds_plain,
    State.acknowledgement, userIds_plain]
  exact userIds_sublist ((slice_sublist _ _).trans hkept)

theorem userIds_compactPasses (messages : List Message) (passes : List CompactionPass) :
    (userIds (compactPasses messages passes)).Sublist (userIds messages) := by
  induction passes generalizing messages with
  | nil => exact .refl _
  | cons pass passes ih => exact (ih (pass.apply messages)).trans (userIds_pass pass)

theorem userIds_cons (m : Message) (messages : List Message) :
    userIds (m :: messages) =
      (if m.role = .user then m.id else none).toList ++ userIds messages := by
  rw [userIds, List.filterMap_cons]
  cases (if m.role = .user then m.id else none) with
  | none => rfl
  | some id => rfl

theorem userIds_loaded (messages : List Message) :
    (userIds (messages.map loadedRow)).Sublist (userIds messages) := by
  induction messages with
  | nil => exact .refl _
  | cons m messages ih =>
      rw [List.map_cons, userIds_cons, userIds_cons]
      refine .append ?_ ih
      rw [loadedRow]
      by_cases hrole : m.role = .user
      · rw [if_pos hrole, if_pos hrole]
        cases m.id with
        | none => exact .refl _
        | some id =>
            by_cases hid : id = []
            · simp [hid]
            · simp [hid]
      · rw [if_neg hrole, if_neg hrole]

theorem userIds_userMessage (msg : AdmittedMessage) : userIds [msg.userMessage] = [msg.id] := rfl

/-! ## One step -/

theorem oneRow_rewrite (h : OneRow s) {persists : Bool}
    (hkept : (userIds messages).Sublist (userIds s.messages)) :
    OneRow (s.rewrite messages persists) := by
  have hactive : ∀ id ≠ [], (userIds messages).count id ≤ 1 :=
    fun id hid => (hkept.count_le id).trans (h.active id hid)
  refine ⟨h.appended, hactive, fun id hid => ?_⟩
  rw [EternalSession.rewrite]
  cases persists with
  | true => exact hactive id hid
  | false => exact h.stored id hid

/-- One more id at the end of a list that has no id twice. -/
theorem count_concat_le_iff {ids : List Text} {id' : Text} (h : ∀ id ≠ [], ids.count id ≤ 1) :
    (∀ id ≠ [], (ids ++ [id']).count id ≤ 1) ↔ (id' ≠ [] → id' ∉ ids) := by
  constructor
  · intro hcount hid' hmem
    have htwo := hcount id' hid'
    have hone := List.count_pos_iff.2 hmem
    rw [List.count_append, List.count_singleton_self] at htwo
    omega
  · intro hnew id hid
    rw [List.count_append, List.count_singleton]
    by_cases heq : id' = id
    · subst heq
      have hzero := List.count_eq_zero.2 (hnew hid)
      simp [hzero]
    · simpa [heq] using h id hid

theorem oneRow_admit (h : OneRow s) (msg : AdmittedMessage) (persists : Bool) :
    OneRow (s.processMessage msg persists) ↔ Recognised s (.message msg persists) := by
  rw [EternalSession.processMessage]
  by_cases hfound : s.alreadyPersisted msg = true
  · rw [if_pos hfound]
    have hrow := alreadyPersisted_iff.1 hfound
    exact iff_of_true h fun _ hnot => absurd hrow.2 hnot
  · rw [if_neg hfound]
    have hnone : msg.id ≠ [] → msg.id ∉ userIds s.messages := by
      intro hid hmem
      exact hfound (alreadyPersisted_iff.2 ⟨hid, hmem⟩)
    have hactive := (count_concat_le_iff h.active).2 hnone
    rw [← userIds_userMessage, ← userIds_append] at hactive
    constructor
    · intro hrow hid _
      refine ⟨(count_concat_le_iff h.appended).1 hrow.appended hid, ?_⟩
      intro hpersists
      have hstored := hrow.stored
      dsimp only at hstored
      rw [if_pos hpersists, userIds_append, userIds_userMessage] at hstored
      exact (count_concat_le_iff h.stored).1 hstored hid
    · intro hrec
      have hnew : msg.id ≠ [] → msg.id ∉ s.appended := fun hid => (hrec hid (hnone hid)).1
      refine ⟨(count_concat_le_iff h.appended).2 hnew, hactive, ?_⟩
      dsimp only
      by_cases hpersists : persists = true
      · rw [if_pos hpersists, userIds_append, userIds_userMessage]
        exact (count_concat_le_iff h.stored).2 fun hid => (hrec hid (hnone hid)).2 hpersists
      · rw [if_neg hpersists]
        exact h.stored

theorem count_append_le_iff (h : ∀ id ≠ [], (userIds messages).count id ≤ 1) :
    (∀ id ≠ [], (userIds (messages ++ rows)).count id ≤ 1) ↔ FreshRows rows messages := by
  constructor
  · intro hcount id hid hmem
    have hsum := hcount id hid
    have hone := List.count_pos_iff.2 hmem
    rw [userIds_append, List.count_append] at hsum
    refine ⟨by omega, ?_⟩
    intro hold
    have hpos := List.count_pos_iff.2 hold
    omega
  · intro hfresh id hid
    rw [userIds_append, List.count_append]
    by_cases hmem : id ∈ userIds rows
    · have hzero := List.count_eq_zero.2 (hfresh id hid hmem).2
      have hone := (hfresh id hid hmem).1
      omega
    · have hzero := List.count_eq_zero.2 hmem
      have hone := h id hid
      omega

theorem oneRow_turn (h : OneRow s) (rows : List Message) :
    OneRow (admissionStep s (.turn rows)) ↔ Recognised s (.turn rows) := by
  rw [Recognised, ← count_append_le_iff h.active, ← count_append_le_iff h.stored]
  exact ⟨fun hrow => ⟨hrow.active, hrow.stored⟩, fun hboth => ⟨h.appended, hboth.1, hboth.2⟩⟩

theorem oneRow_step (h : OneRow s) : OneRow (admissionStep s action) ↔ Recognised s action := by
  cases action with
  | message msg persists => exact oneRow_admit h msg persists
  | turn rows => exact oneRow_turn h rows
  | compact passes =>
      exact iff_of_true (oneRow_rewrite h (userIds_compactPasses s.messages passes)) trivial
  | rotate persists => exact iff_of_true (oneRow_rewrite h (List.nil_sublist _)) trivial
  | recover capsule now passes =>
      refine iff_of_true (oneRow_rewrite h ?_) trivial
      rw [userIds_plain]
      exact userIds_compactPasses s.messages passes
  | trimCron snapshotCount persists =>
      exact iff_of_true (oneRow_rewrite h (userIds_sublist (List.take_sublist _ _))) trivial
  | restart =>
      refine iff_of_true ⟨h.appended, fun id hid => ?_, h.stored⟩ trivial
      exact ((userIds_loaded s.stored).count_le id).trans (h.stored id hid)
  | restartAnew =>
      exact iff_of_true ⟨h.appended, fun id _ => Nat.zero_le _, fun id _ => Nat.zero_le _⟩ trivial

/-- In every state of a run no message that has an id has been appended twice or
has two rows, exactly when every message that comes again finds its row. -/
theorem one_row_iff (actions : List AdmissionAction) :
    Throughout admissionStep OneRow ⟨[], [], []⟩ actions ↔
      Along admissionStep Recognised ⟨[], [], []⟩ actions :=
  throughout_iff_along (fun _ _ h => oneRow_step h)
    ⟨fun _ _ => Nat.zero_le _, fun _ _ => Nat.zero_le _, fun _ _ => Nat.zero_le _⟩

/-! ## A summarised message -/

def midnight : Double := Double.ofInt 0 zero_small

def longTask : AdmittedMessage := ⟨js "m1", js "main", .text (js "migrate"), midnight⟩

/-- The message is put back when the provider goes away during its turn, and
the rows of the turn are compacted before it is admitted again. -/
def deferredTask : List AdmissionAction :=
  [.message longTask true,
    .turn [State.plainMessage .assistant (js "reading") midnight,
      State.plainMessage .assistant (js "editing") midnight],
    .compact [⟨⟨fun _ => midnight, fun _ => none⟩, none, js "a migration", 2⟩],
    .message longTask true]

theorem one_row_twice : ¬ Throughout admissionStep OneRow ⟨[], [], []⟩ deferredTask := by
  intro hrun
  have hcount := hrun.last.appended (js "m1") (by decide)
  have htwo : (run admissionStep ⟨[], [], []⟩ deferredTask).appended.count (js "m1") = 2 := by
    decide +kernel
  omega

end Shizuha.Gateway
