import Shizuha.Workflows.Store

/-!
# The move that is checked and the moves that are listed

Both functions filter the transitions of a workflow, one by the two ends and one
by the first end and the trigger. The check then looks at the first transition
left to it and at no other, so the two agree as long as that one lets the actor
whenever any does (`agrees_iff`).
-/

namespace Shizuha.Workflows

open Js

variable {workflow : WorkflowDefinition} {currentStatus targetStatus : Text}
  {actorType : ActorType} {t : WorkflowTransition}

/-- The transition goes from the one status to the other. -/
def WorkflowTransition.joins (t : WorkflowTransition) (currentStatus targetStatus : Text) :
    Bool :=
  t.fromStatus == currentStatus && t.toStatus == targetStatus

theorem WorkflowTransition.joins_iff :
    t.joins currentStatus targetStatus = true ↔ t.fromStatus = currentStatus ∧ t.toStatus = targetStatus := by
  simp [WorkflowTransition.joins]

theorem mem_getValidTransitions :
    t ∈ getValidTransitions workflow currentStatus (some actorType) ↔
      t ∈ workflow.transitions ∧ t.fromStatus = currentStatus ∧ t.admits actorType = true := by
  simp [getValidTransitions]

/-- The check takes the first transition with the two ends, if the actor may. -/
theorem validateTransition_ok_iff :
    validateTransition workflow currentStatus targetStatus actorType = .ok t ↔
      workflow.transitions.find? (·.joins currentStatus targetStatus) = some t ∧
        t.admits actorType = true := by
  have hhead : workflow.transitions.find? (·.joins currentStatus targetStatus)
      = (workflow.transitions.filter (·.joins currentStatus targetStatus)).head? :=
    List.head?_filter.symm
  rw [hhead, validateTransition,
    show (fun t : WorkflowTransition => t.fromStatus == currentStatus && t.toStatus == targetStatus)
      = (·.joins currentStatus targetStatus) from rfl]
  cases workflow.transitions.filter (·.joins currentStatus targetStatus) with
  | nil => simp
  | cons first rest =>
      simp only [List.head?_cons, Option.some.injEq]
      split_ifs with hadmits
      · constructor
        · intro h
          cases h
          exact ⟨rfl, hadmits⟩
        · intro h
          rw [h.1]
      · constructor
        · intro h
          cases h
        · intro h
          rw [h.1] at hadmits
          exact absurd h.2 hadmits

/-- A move is valid exactly when one that leads there is listed, and what is
taken is listed. -/
def Agrees (workflow : WorkflowDefinition) (currentStatus targetStatus : Text)
    (actorType : ActorType) : Prop :=
  ((∃ t, validateTransition workflow currentStatus targetStatus actorType = .ok t) ↔
    ∃ t ∈ getValidTransitions workflow currentStatus (some actorType), t.toStatus = targetStatus) ∧
  ∀ t, validateTransition workflow currentStatus targetStatus actorType = .ok t →
    t ∈ getValidTransitions workflow currentStatus (some actorType) ∧ t.toStatus = targetStatus

/-- The first transition between the two statuses lets the actor, if any does. -/
def FirstAdmits (workflow : WorkflowDefinition) (currentStatus targetStatus : Text)
    (actorType : ActorType) : Prop :=
  (∃ t ∈ workflow.transitions, t.joins currentStatus targetStatus = true ∧
    t.admits actorType = true) →
  ∃ first, workflow.transitions.find? (·.joins currentStatus targetStatus) = some first ∧
    first.admits actorType = true

theorem mem_of_validateTransition
    (h : validateTransition workflow currentStatus targetStatus actorType = .ok t) :
    t ∈ getValidTransitions workflow currentStatus (some actorType) ∧ t.toStatus = targetStatus := by
  obtain ⟨hfind, hadmits⟩ := validateTransition_ok_iff.mp h
  have hjoins := List.find?_some hfind
  have hends := WorkflowTransition.joins_iff.mp hjoins
  have hmem := List.mem_of_find?_eq_some hfind
  exact ⟨mem_getValidTransitions.mpr ⟨hmem, hends.1, hadmits⟩, hends.2⟩

/-- Every workflow, whether it was validated or not. -/
theorem agrees_iff (workflow : WorkflowDefinition) (currentStatus targetStatus : Text)
    (actorType : ActorType) :
    Agrees workflow currentStatus targetStatus actorType ↔
      FirstAdmits workflow currentStatus targetStatus actorType := by
  constructor
  · intro hagrees hany
    obtain ⟨t, hmem, hjoins, hadmits⟩ := hany
    have hends := WorkflowTransition.joins_iff.mp hjoins
    have hlisted := mem_getValidTransitions.mpr ⟨hmem, hends.1, hadmits⟩
    obtain ⟨first, hfirst⟩ := hagrees.1.mpr ⟨t, hlisted, hends.2⟩
    exact ⟨first, validateTransition_ok_iff.mp hfirst⟩
  · intro hfirst
    refine ⟨⟨?taken, ?listed⟩, fun t => mem_of_validateTransition⟩
    case taken =>
      intro htaken
      obtain ⟨t, ht⟩ := htaken
      exact ⟨t, mem_of_validateTransition ht⟩
    case listed =>
      intro hlisted
      obtain ⟨t, hmem, hto⟩ := hlisted
      obtain ⟨hmem, hfrom, hadmits⟩ := mem_getValidTransitions.mp hmem
      obtain ⟨first, htaken⟩ := hfirst
        ⟨t, hmem, WorkflowTransition.joins_iff.mpr ⟨hfrom, hto⟩, hadmits⟩
      exact ⟨first, validateTransition_ok_iff.mpr htaken⟩

/-- A review that a person approves, or an agent: two ways between the same
statuses, the person's listed first. -/
def reviewWorkflow : WorkflowDefinition where
  name := js "review"
  statuses := [⟨js "open"⟩, ⟨js "done"⟩]
  initialStatus := js "open"
  transitions :=
    [⟨js "open", js "done", js "human", none⟩, ⟨js "open", js "done", js "agent", none⟩]

/-- The agent is offered its own way and refused it. -/
theorem agent_refused :
    validateWorkflowDefinition reviewWorkflow = .ok () ∧
      ¬ Agrees reviewWorkflow (js "open") (js "done") .agent := by
  refine ⟨by decide, ?_⟩
  intro hagrees
  obtain ⟨t, ht⟩ := hagrees.1.mpr
    ⟨⟨js "open", js "done", js "agent", none⟩, by decide, by decide⟩
  rw [show validateTransition reviewWorkflow (js "open") (js "done") .agent
    = .error (js "Transition from \"open\" to \"done\" requires \"human\" but actor is \"agent\"")
    by decide] at ht
  cases ht

end Shizuha.Workflows
