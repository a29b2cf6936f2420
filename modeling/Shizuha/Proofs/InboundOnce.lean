import Mathlib.Data.Finset.Card
import Shizuha.ConnectClient.Inbound
import Shizuha.Machine

/-!
# Handed over once, and when at all

Frames and reconnects of one client, with no more ids than its window holds.
Nothing is handed over twice. A frame is taken for a duplicate when its id is in
the window, and the id gets there before the content and the limits of a replay
are looked at: an id that was met for the first time in a frame one of these
dropped is in the window and was never handed over. `pending_step` says that
this is the only way into that state, and there is no way out of it.
-/

namespace Shizuha.ConnectClient

open Js Machine

inductive InboundEvent where
  | opened
  | frame (nowMs : ℤ) (msg : InboundFrame)

section

variable (env : Platform)

def inboundStep (s : InboundState) : InboundEvent → InboundState
  | .opened => s.opened
  | .frame nowMs msg => s.handleMessage env nowMs msg

/-- The id of a frame, when it parses and has one. -/
def InboundEvent.messageId : InboundEvent → Option Text
  | .opened => none
  | .frame _ msg =>
      (parseConnectInboundMessageEvent env msg).bind fun p =>
        if p.messageId = [] then none else some p.messageId

/-- Frames and reconnects with at most 2048 ids among them. -/
structure InboundRun where
  events : List InboundEvent
  few : (events.filterMap (InboundEvent.messageId env)).toFinset.card ≤ 2048

def InboundState.start : InboundState := ⟨0, [], []⟩

/-- The ids that were handed to `onMessage`. -/
def InboundState.handed (s : InboundState) : List Text :=
  (s.delivered.map Delivered.messageId).filter fun id => decide (id ≠ [])

/-- The content asks for no turn, or the limits of a replay refuse it. -/
def Refused (s : InboundState) (nowMs : ℤ) (msg : InboundFrame)
    (p : ParsedConnectInboundMessage) : Prop :=
  suppressionReason env p ≠ none ∨
    msg.replayed = true ∧
      shouldAcceptMissedMessageReplay env p.createdAt s.missedReplayAccepted nowMs ≠ none

/-- A frame whose content asks for a turn is a duplicate only of what was handed
over, and else is handed over unless it is a replay past the limits. -/
def FrameFair (s : InboundState) : InboundEvent → Prop
  | .opened => True
  | .frame nowMs msg => ∀ p, parseConnectInboundMessageEvent env msg = some p →
      p.messageId ≠ [] → suppressionReason env p = none →
      (p.messageId ∈ s.recentInboundMessageIds → p.messageId ∈ s.handed) ∧
        (p.messageId ∉ s.handed → ¬ Refused env s nowMs msg p →
          p.messageId ∈ (s.handleMessage env nowMs msg).handed)

/-- The frame brings this id for the first time and is dropped. -/
def Loses (s : InboundState) (id : Text) : InboundEvent → Prop
  | .opened => False
  | .frame nowMs msg => ∃ p, parseConnectInboundMessageEvent env msg = some p ∧
      p.messageId = id ∧ id ≠ [] ∧ id ∉ s.recentInboundMessageIds ∧ Refused env s nowMs msg p

/-- A frame with this id and with content that asks for a turn. -/
def Asks (id : Text) : InboundEvent → Prop
  | .opened => False
  | .frame _ msg => ∃ p, parseConnectInboundMessageEvent env msg = some p ∧
      p.messageId = id ∧ id ≠ [] ∧ suppressionReason env p = none

/-- No id that a frame loses comes again. -/
def NoneLost : InboundState → List InboundEvent → Prop
  | _, [] => True
  | s, e :: rest => (∀ id, Loses env s id e → ∀ e' ∈ rest, ¬ Asks env id e') ∧
      NoneLost (inboundStep env s e) rest

/-- In the window and never handed over. -/
def Pending (s : InboundState) (id : Text) : Prop :=
  id ∈ s.recentInboundMessageIds ∧ id ∉ s.handed

/-! ## What a frame does -/

inductive Handled (s : InboundState) (nowMs : ℤ) (msg : InboundFrame) (s' : InboundState) :
    Prop where
  | ignored (hparse : parseConnectInboundMessageEvent env msg = none) (heq : s' = s)
  | anonymous {p : ParsedConnectInboundMessage}
      (hparse : parseConnectInboundMessageEvent env msg = some p) (hid : p.messageId = [])
      (hrecent : s'.recentInboundMessageIds = s.recentInboundMessageIds)
      (hhanded : s'.handed = s.handed)
  | duplicate {p : ParsedConnectInboundMessage}
      (hparse : parseConnectInboundMessageEvent env msg = some p) (hid : p.messageId ≠ [])
      (hseen : p.messageId ∈ s.recentInboundMessageIds) (heq : s' = s)
  | dropped {p : ParsedConnectInboundMessage}
      (hparse : parseConnectInboundMessageEvent env msg = some p) (hid : p.messageId ≠ [])
      (hnew : p.messageId ∉ s.recentInboundMessageIds) (hrefused : Refused env s nowMs msg p)
      (hrecent : s'.recentInboundMessageIds = (s.remember p.messageId).recentInboundMessageIds)
      (hhanded : s'.handed = s.handed)
  | handedOver {p : ParsedConnectInboundMessage}
      (hparse : parseConnectInboundMessageEvent env msg = some p) (hid : p.messageId ≠ [])
      (hnew : p.messageId ∉ s.recentInboundMessageIds) (haccepted : ¬ Refused env s nowMs msg p)
      (hrecent : s'.recentInboundMessageIds = (s.remember p.messageId).recentInboundMessageIds)
      (hhanded : s'.handed = s.handed ++ [p.messageId])

end

variable {env : Platform} {s s' : InboundState} {e : InboundEvent} {id : Text} {nowMs : ℤ}
  {msg : InboundFrame} {p : ParsedConnectInboundMessage}

@[simp] theorem handed_remember (s : InboundState) (id : Text) :
    (s.remember id).handed = s.handed := by
  rw [InboundState.remember]
  split_ifs <;> rfl

@[simp] theorem missed_remember (s : InboundState) (id : Text) :
    (s.remember id).missedReplayAccepted = s.missedReplayAccepted := by
  rw [InboundState.remember]
  split_ifs <;> rfl

theorem handed_deliver (s : InboundState) (p : ParsedConnectInboundMessage) :
    (s.deliver env p).handed =
      if p.messageId = [] then s.handed else s.handed ++ [p.messageId] := by
  rw [InboundState.handed, InboundState.deliver, List.map_append, List.filter_append]
  split_ifs with hid <;> simp [InboundState.handed, hid]

/-- What comes after the window: nothing when the frame is refused. -/
theorem admitNew_cases (env : Platform) (s : InboundState) (nowMs : ℤ) (msg : InboundFrame)
    (p : ParsedConnectInboundMessage) :
    (Refused env s nowMs msg p ∧ s.admitNew env nowMs msg.replayed p = s) ∨
      (¬ Refused env s nowMs msg p ∧
        (s.admitNew env nowMs msg.replayed p).recentInboundMessageIds =
          s.recentInboundMessageIds ∧
        (s.admitNew env nowMs msg.replayed p).handed = (s.deliver env p).handed) := by
  rw [InboundState.admitNew]
  cases hreason : suppressionReason env p with
  | some reason => exact .inl ⟨.inl (by rw [hreason]; exact Option.some_ne_none _), by simp⟩
  | none =>
      cases hreplayed : msg.replayed with
      | false =>
          refine .inr ⟨?_, by simp [InboundState.deliver], by simp⟩
          rintro (h | h)
          · exact h hreason
          · rw [hreplayed] at h
            exact absurd h.1 (by decide)
      | true =>
          cases hlimit : shouldAcceptMissedMessageReplay env p.createdAt s.missedReplayAccepted
              nowMs with
          | some refusal =>
              exact .inl ⟨.inr ⟨hreplayed, by rw [hlimit]; exact Option.some_ne_none _⟩, by simp⟩
          | none =>
              refine .inr ⟨?_, by simp [InboundState.deliver], ?_⟩
              · rintro (h | h)
                · exact h hreason
                · exact h.2 hlimit
              · simp only [Option.isSome_none, Bool.false_eq_true, if_false, if_true]
                rw [handed_deliver, handed_deliver]
                rfl

theorem refused_remember :
    Refused env (s.remember id) nowMs msg p ↔ Refused env s nowMs msg p := by
  rw [Refused, Refused, missed_remember]

theorem handled (env : Platform) (s : InboundState) (nowMs : ℤ) (msg : InboundFrame) :
    Handled env s nowMs msg (s.handleMessage env nowMs msg) := by
  cases hparse : parseConnectInboundMessageEvent env msg with
  | none => exact .ignored hparse (by rw [InboundState.handleMessage, hparse])
  | some p =>
      have heq : s.handleMessage env nowMs msg =
          if p.messageId ≠ [] ∧ p.messageId ∈ s.recentInboundMessageIds then s
          else (s.remember p.messageId).admitNew env nowMs msg.replayed p := by
        rw [InboundState.handleMessage, hparse]
      rw [heq]
      by_cases hid : p.messageId = []
      · rw [if_neg (fun h => h.1 hid)]
        have hremember : s.remember p.messageId = s := by rw [InboundState.remember, if_pos hid]
        rw [hremember]
        rcases admitNew_cases env s nowMs msg p with ⟨-, h⟩ | ⟨-, hrecent, hhanded⟩
        · exact .anonymous hparse hid (by rw [h]) (by rw [h])
        · exact .anonymous hparse hid hrecent (by rw [hhanded, handed_deliver, if_pos hid])
      · by_cases hseen : p.messageId ∈ s.recentInboundMessageIds
        · rw [if_pos ⟨hid, hseen⟩]
          exact .duplicate hparse hid hseen rfl
        · rw [if_neg (fun h => hseen h.2)]
          rcases admitNew_cases env (s.remember p.messageId) nowMs msg p with
            ⟨hrefused, h⟩ | ⟨haccepted, hrecent, hhanded⟩
          · exact .dropped hparse hid hseen (refused_remember.mp hrefused) (by rw [h])
              (by rw [h, handed_remember])
          · refine .handedOver hparse hid hseen (fun h => haccepted (refused_remember.mpr h))
              hrecent ?_
            rw [hhanded, handed_deliver, if_neg hid, handed_remember]

/-! ## Runs -/

/-- The window has room for every id there is, and holds all that was handed
over. -/
structure Within (ids : Finset Text) (s : InboundState) : Prop where
  few : ids.card ≤ 2048
  nodup : s.recentInboundMessageIds.Nodup
  known : ∀ id ∈ s.recentInboundMessageIds, id ∈ ids
  seen : ∀ id ∈ s.handed, id ∈ s.recentInboundMessageIds
  once : s.handed.Nodup

variable {ids : Finset Text}

theorem nodup_append_singleton {l : List Text} (h : l.Nodup) (hid : id ∉ l) :
    (l ++ [id]).Nodup := by
  rw [List.nodup_append]
  refine ⟨h, List.nodup_singleton _, fun a ha b hb => ?_⟩
  rw [List.mem_singleton.mp hb]
  exact fun heq => hid (heq ▸ ha)

/-- Nothing leaves the window. -/
theorem Within.remember (h : Within ids s) (hid : id ≠ []) (hmem : id ∈ ids)
    (hnew : id ∉ s.recentInboundMessageIds) :
    (s.remember id).recentInboundMessageIds = s.recentInboundMessageIds ++ [id] := by
  have hnodup := nodup_append_singleton h.nodup hnew
  have hlength : (s.recentInboundMessageIds ++ [id]).length ≤ 2048 := by
    rw [← List.toFinset_card_of_nodup hnodup]
    refine (Finset.card_le_card fun a ha => ?_).trans h.few
    rcases List.mem_append.mp (List.mem_toFinset.mp ha) with ha | ha
    · exact h.known a ha
    · rw [List.mem_singleton.mp ha]
      exact hmem
  rw [InboundState.remember, if_neg hid]
  show (if 2048 < (s.recentInboundMessageIds ++ [id]).length then _ else _) = _
  rw [if_neg (not_lt.mpr hlength)]

theorem messageId_frame (hparse : parseConnectInboundMessageEvent env msg = some p)
    (hid : p.messageId ≠ []) :
    InboundEvent.messageId env (.frame nowMs msg) = some p.messageId := by
  rw [InboundEvent.messageId, hparse, Option.bind_some, if_neg hid]

theorem Within.step (h : Within ids s)
    (hmem : ∀ id ∈ InboundEvent.messageId env e, id ∈ ids) :
    Within ids (inboundStep env s e) := by
  cases e with
  | opened => exact ⟨h.few, h.nodup, h.known, h.seen, h.once⟩
  | frame nowMs msg =>
      show Within ids (s.handleMessage env nowMs msg)
      cases handled env s nowMs msg with
      | ignored _ heq | duplicate _ _ _ heq =>
          rw [heq]
          exact h
      | anonymous _ _ hrecent hhanded =>
          exact ⟨h.few, hrecent ▸ h.nodup, hrecent ▸ h.known, by rw [hrecent, hhanded]; exact h.seen,
            hhanded ▸ h.once⟩
      | @dropped p hparse hid hnew _ hrecent hhanded =>
          have hin := hmem p.messageId (messageId_frame hparse hid)
          rw [h.remember hid hin hnew] at hrecent
          refine ⟨h.few, ?_, fun id hid' => ?_, fun id hid' => ?_, hhanded ▸ h.once⟩
          · rw [hrecent]
            exact nodup_append_singleton h.nodup hnew
          · rw [hrecent, List.mem_append, List.mem_singleton] at hid'
            exact hid'.elim (h.known id) fun heq => heq ▸ hin
          · rw [hhanded] at hid'
            rw [hrecent]
            exact List.mem_append_left _ (h.seen id hid')
      | @handedOver p hparse hid hnew _ hrecent hhanded =>
          have hin := hmem p.messageId (messageId_frame hparse hid)
          rw [h.remember hid hin hnew] at hrecent
          refine ⟨h.few, ?_, fun id hid' => ?_, fun id hid' => ?_, ?_⟩
          · rw [hrecent]
            exact nodup_append_singleton h.nodup hnew
          · rw [hrecent, List.mem_append, List.mem_singleton] at hid'
            exact hid'.elim (h.known id) fun heq => heq ▸ hin
          · rw [hhanded] at hid'
            rw [hrecent]
            rcases List.mem_append.mp hid' with hid' | hid'
            · exact List.mem_append_left _ (h.seen id hid')
            · exact List.mem_append_right _ hid'
          · rw [hhanded]
            exact nodup_append_singleton h.once fun hhand => hnew (h.seen _ hhand)

/-- An id is in the window without having been handed over when it was so
before, or when this event loses it. -/
theorem pending_step (h : Within ids s)
    (hmem : ∀ id ∈ InboundEvent.messageId env e, id ∈ ids) :
    Pending (inboundStep env s e) id ↔ Pending s id ∨ Loses env s id e := by
  cases e with
  | opened => exact (or_iff_left (fun hfalse => hfalse)).symm
  | frame nowMs msg =>
      rw [Pending]
      show id ∈ (s.handleMessage env nowMs msg).recentInboundMessageIds ∧
        id ∉ (s.handleMessage env nowMs msg).handed ↔ _
      cases handled env s nowMs msg with
      | ignored hparse heq =>
          rw [heq]
          refine (or_iff_left ?_).symm
          rintro ⟨p, hp, -⟩
          rw [hparse] at hp
          cases hp
      | @anonymous p hparse hid hrecent hhanded =>
          rw [hrecent, hhanded]
          refine (or_iff_left ?_).symm
          rintro ⟨p', hp', rfl, hne, -⟩
          rw [hparse] at hp'
          cases hp'
          exact hne hid
      | @duplicate p hparse hid hseen heq =>
          rw [heq]
          refine (or_iff_left ?_).symm
          rintro ⟨p', hp', rfl, -, hnew, -⟩
          rw [hparse] at hp'
          cases hp'
          exact hnew hseen
      | @dropped p hparse hid hnew hrefused hrecent hhanded =>
          rw [hrecent, hhanded, h.remember hid (hmem _ (messageId_frame hparse hid)) hnew,
            List.mem_append, List.mem_singleton]
          constructor
          · rintro ⟨hin | rfl, hnot⟩
            · exact .inl ⟨hin, hnot⟩
            · exact .inr ⟨p, hparse, rfl, hid, hnew, hrefused⟩
          · rintro (⟨hin, hnot⟩ | ⟨p', hp', rfl, -, -, -⟩)
            · exact ⟨.inl hin, hnot⟩
            · rw [hparse] at hp'
              cases hp'
              exact ⟨.inr rfl, fun hhand => hnew (h.seen _ hhand)⟩
      | @handedOver p hparse hid hnew haccepted hrecent hhanded =>
          rw [hrecent, hhanded, h.remember hid (hmem _ (messageId_frame hparse hid)) hnew,
            List.mem_append, List.mem_singleton, List.mem_append, List.mem_singleton]
          constructor
          · rintro ⟨hin | rfl, hnot⟩
            · exact .inl ⟨hin, fun hhand => hnot (.inl hhand)⟩
            · exact absurd (.inr rfl) hnot
          · rintro (⟨hin, hnot⟩ | ⟨p', hp', rfl, -, -, hrefused⟩)
            · refine ⟨.inl hin, ?_⟩
              rintro (hhand | rfl)
              · exact hnot hhand
              · exact hnew hin
            · rw [hparse] at hp'
              cases hp'
              exact absurd hrefused haccepted

/-- A frame is treated fairly exactly when its id is not in the window for
nothing. -/
theorem frameFair_iff :
    FrameFair env s e ↔ ∀ id, Pending s id → ¬ Asks env id e := by
  cases e with
  | opened => exact iff_of_true trivial fun _ _ hfalse => hfalse
  | frame nowMs msg =>
      constructor
      · rintro hfair id ⟨hin, hnot⟩ ⟨p, hparse, rfl, hid, hreason⟩
        exact hnot ((hfair p hparse hid hreason).1 hin)
      · intro hpending p hparse hid hreason
        have hseen : p.messageId ∈ s.recentInboundMessageIds → p.messageId ∈ s.handed := by
          intro hin
          by_contra hnot
          exact hpending _ ⟨hin, hnot⟩ ⟨p, hparse, rfl, hid, hreason⟩
        refine ⟨hseen, fun hnot haccepted => ?_⟩
        cases handled env s nowMs msg with
        | ignored hparse' =>
            rw [hparse] at hparse'
            cases hparse'
        | anonymous hparse' hid' =>
            rw [hparse] at hparse'
            cases hparse'
            exact absurd hid' hid
        | duplicate hparse' _ hin =>
            rw [hparse] at hparse'
            cases hparse'
            exact absurd (hseen hin) hnot
        | dropped hparse' _ _ hrefused =>
            rw [hparse] at hparse'
            cases hparse'
            exact absurd hrefused haccepted
        | handedOver hparse' _ _ _ _ hhanded =>
            rw [hparse] at hparse'
            cases hparse'
            rw [hhanded]
            exact List.mem_append_right _ (List.mem_singleton.mpr rfl)

/-- All frames are treated fairly exactly when no id that is in the window for
nothing comes again, now or after it got there. -/
theorem along_fair_iff {events : List InboundEvent} (h : Within ids s)
    (hmem : ∀ e ∈ events, ∀ id ∈ InboundEvent.messageId env e, id ∈ ids) :
    Along (inboundStep env) (FrameFair env) s events ↔
      NoneLost env s events ∧ ∀ id, Pending s id → ∀ e ∈ events, ¬ Asks env id e := by
  induction events generalizing s with
  | nil => simp [NoneLost]
  | cons e rest ih =>
      have hhere := hmem e List.mem_cons_self
      have hrest := ih (h.step hhere) fun e' he' => hmem e' (List.mem_cons_of_mem _ he')
      rw [along_cons, frameFair_iff, hrest, NoneLost]
      simp only [pending_step h hhere, List.forall_mem_cons]
      constructor
      · rintro ⟨hfair, hlost, hpending⟩
        exact ⟨⟨fun id hloses => hpending id (.inr hloses), hlost⟩,
          fun id hid => ⟨hfair id hid, hpending id (.inl hid)⟩⟩
      · rintro ⟨⟨hloses, hlost⟩, hpending⟩
        exact ⟨fun id hid => (hpending id hid).1, hlost,
          fun id hid => hid.elim (fun hid => (hpending id hid).2) (hloses id)⟩

/-- Every frame is handed over or was handed over before, unless its content asks
for no turn or a limit refuses it, and nothing is handed over twice, exactly when
no id is lost by its first frame and comes again. -/
theorem replays_deliverable_iff (env : Platform) (r : InboundRun env) :
    (Along (inboundStep env) (FrameFair env) .start r.events ∧
        Throughout (inboundStep env) (fun s => s.handed.Nodup) .start r.events) ↔
      NoneLost env .start r.events := by
  have hstart : Within (r.events.filterMap (InboundEvent.messageId env)).toFinset .start :=
    ⟨r.few, List.nodup_nil, by simp [InboundState.start],
      by simp [InboundState.handed, InboundState.start], List.nodup_nil⟩
  have hmem : ∀ e ∈ r.events, ∀ id ∈ InboundEvent.messageId env e,
      id ∈ (r.events.filterMap (InboundEvent.messageId env)).toFinset := by
    intro e he id hid
    exact List.mem_toFinset.mpr (List.mem_filterMap.mpr ⟨e, he, hid⟩)
  have honce : Throughout (inboundStep env) (fun s => s.handed.Nodup) .start r.events :=
    (throughout_of_step (fun _ _ h hC => h.step hC) hstart (along_of_forall hmem _)).mono
      fun _ h => h.once
  rw [along_fair_iff hstart hmem, and_iff_left honce, and_iff_left_iff_imp]
  rintro - id ⟨hin, -⟩
  cases hin

/-! ## Past the cap once

A client that takes one replay a connection: the second one is dropped, and
dropped again when it comes after a reconnect.
-/

def oneReplay : Platform where
  toLowerCase := fun t => t
  dateParse := fun _ => none
  formatControl := fun _ => false
  extendedPictographic := fun _ => false
  emojiModifier := fun _ => false
  selfUserId := []
  maxMissedMessages := some 1
  maxMissedAgeHours := none

def missed (id : Text) : InboundEvent :=
  .frame 0 ⟨true, some (js "c1"),
    some ⟨none, some (js "hello"), none, [], none, none, some id, none, none, none⟩⟩

theorem replay_never_handed :
    ¬ Along (inboundStep oneReplay) (FrameFair oneReplay) .start
      [missed (js "m1"), missed (js "m2"), .opened, missed (js "m2")] := by
  rintro ⟨-, -, -, hfair, -⟩
  have hduplicate := (hfair ⟨js "c1", js "hello", [], [], js "m2", none, .unknown, none⟩ rfl
    (by decide) rfl).1 (by decide +kernel)
  revert hduplicate
  decide +kernel

end Shizuha.ConnectClient
