import Shizuha.Js.Replacement

/-!
# Workflows

A workflow names the statuses of a task and the transitions between them, each
open to one kind of actor or to any. Two functions read the transitions: the one
that checks a move and the one that lists the moves there are. A transition may
also carry texts, in which the variables of the move are filled in.

The file a definition is kept in is left out.
-/

namespace Shizuha.Workflows

open Js

inductive ActorType where
  | human
  | agent
  | auto
  deriving DecidableEq, Repr

def ActorType.text : ActorType → Text
  | .human => js "human"
  | .agent => js "agent"
  | .auto => js "auto"

structure WorkflowStatus where
  id : Text
  deriving DecidableEq, Repr

structure TransitionAction where
  assignTo : Option Text
  assignTeam : Option Text
  addLabel : Option Text
  removeLabel : Option Text
  comment : Option Text
  deriving DecidableEq, Repr

structure WorkflowTransition where
  /-- `from`. -/
  fromStatus : Text
  /-- `to`. -/
  toStatus : Text
  /-- Any text until the definition is validated. -/
  trigger : Text
  onTransition : Option TransitionAction
  deriving DecidableEq, Repr

structure WorkflowDefinition where
  name : Text
  statuses : List WorkflowStatus
  initialStatus : Text
  transitions : List WorkflowTransition
  deriving DecidableEq, Repr

/-! ## Validation -/

def triggers : List Text := [js "auto", js "human", js "agent", js "any"]

def validateTransitions (statusIds : List Text) : List WorkflowTransition → Except Text Unit
  | [] => .ok ()
  | t :: rest =>
      if t.fromStatus ∉ statusIds then
        .error (js "Transition references unknown status \"" ++ t.fromStatus ++ js "\"")
      else if t.toStatus ∉ statusIds then
        .error (js "Transition references unknown status \"" ++ t.toStatus ++ js "\"")
      else if t.trigger ∉ triggers then
        .error (js "Invalid trigger \"" ++ t.trigger ++ js "\" on transition " ++ t.fromStatus
          ++ js " → " ++ t.toStatus)
      else validateTransitions statusIds rest

def validateWorkflowDefinition (workflow : WorkflowDefinition) : Except Text Unit :=
  if trim workflow.name = [] then .error (js "Workflow name is required")
  else if workflow.statuses = [] then .error (js "At least one status is required")
  else
    let statusIds := workflow.statuses.map WorkflowStatus.id
    if workflow.initialStatus = [] ∨ workflow.initialStatus ∉ statusIds then
      .error (js "Initial status \"" ++ workflow.initialStatus
        ++ js "\" not found in statuses")
    else validateTransitions statusIds workflow.transitions

/-! ## Transitions -/

/-- The trigger lets the actor. -/
def WorkflowTransition.admits (t : WorkflowTransition) (actorType : ActorType) : Bool :=
  t.trigger == js "any" || t.trigger == actorType.text

/-- The transition taken, or the error. -/
def validateTransition (workflow : WorkflowDefinition) (currentStatus targetStatus : Text)
    (actorType : ActorType) : Except Text WorkflowTransition :=
  let matching := workflow.transitions.filter fun t =>
    t.fromStatus == currentStatus && t.toStatus == targetStatus
  match matching with
  | [] =>
      let validTargets := (workflow.transitions.filter fun t => t.fromStatus == currentStatus).map
        WorkflowTransition.toStatus
      let listed := join (js ", ") validTargets
      .error (js "No transition from \"" ++ currentStatus ++ js "\" to \"" ++ targetStatus
        ++ js "\". Valid targets: " ++ if listed = [] then js "none" else listed)
  | transition :: _ =>
      if transition.admits actorType then .ok transition
      else
        .error (js "Transition from \"" ++ currentStatus ++ js "\" to \"" ++ targetStatus
          ++ js "\" requires \"" ++ transition.trigger ++ js "\" but actor is \""
          ++ actorType.text ++ js "\"")

def getValidTransitions (workflow : WorkflowDefinition) (currentStatus : Text)
    (actorType : Option ActorType) : List WorkflowTransition :=
  workflow.transitions.filter fun t =>
    t.fromStatus == currentStatus &&
      match actorType with
      | none => true
      | some actorType => t.admits actorType

/-! ## Templates -/

/-- The variables of a move, in the order they are enumerated. A name is a word,
so the pattern it is put into takes it literally. -/
structure Vars where
  entries : List (Text × Text)
  nodup : (entries.map Prod.fst).Nodup
  words : ∀ e ∈ entries, ∀ u ∈ e.1, isWord u = true

/-- `{{key}}`. -/
def placeholder (key : Text) : Text := js "\x7b\x7b" ++ key ++ js "\x7d\x7d"

def applyEntries (template : Text) : List (Text × Text) → Text
  | [] => template
  | (key, value) :: rest =>
      applyEntries ((Regex.lit (placeholder key)).replaceAll (fun m => substitution m value)
        template) rest

def applyTemplate (template : Text) (vars : Vars) : Text := applyEntries template vars.entries

/-- A field that is there and not empty, with its variables filled in. -/
def filledIn (field : Option Text) (vars : Vars) : Option Text :=
  (field.filter (· ≠ [])).map fun template => applyTemplate template vars

/-- What a transition asks for. The labels are taken as they are. -/
def executeTransitionActions (action : TransitionAction) (vars : Vars) : TransitionAction where
  assignTo := filledIn action.assignTo vars
  assignTeam := filledIn action.assignTeam vars
  comment := filledIn action.comment vars
  addLabel := action.addLabel.filter (· ≠ [])
  removeLabel := action.removeLabel.filter (· ≠ [])

end Shizuha.Workflows
