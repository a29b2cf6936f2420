import Shizuha.Js.Dict
import Shizuha.LocalCore.Protocol
import Shizuha.Machine

/-!
# Proposed edits in the editor

`FileDiffHandler` keeps the diffs a core has proposed until they are accepted
or rejected. Its methods are asynchronous: each runs from one `await` to the
next without a break and anything may happen in between, so a call is where it
waits and an event is either a new call, something that comes back to a call
that waits, or a change of the session, the connection or the workspace.

A commit runs under a lock that is a chain of promises: a call takes the next
place in the line and enters when the one before it has left.

What the previews show and the messages to the user are left out, and a
proposal is settled when its preview begins to open: nothing after that
changes the handler.
-/

namespace Shizuha.Vscode

open Js LocalCore

structure WorkspaceFolder where
  uri : Text
  scheme : Text
  deriving DecidableEq

/-- What the handler reads of the editor and the connection. -/
structure Host where
  isTrusted : Bool
  workspaceFolder : Option WorkspaceFolder
  currentSessionId : Option Text
  currentConnectionGeneration : ℕ
  deriving DecidableEq

/-- The session, the connection and the workspace are these. -/
def Host.Owns (host : Host) (sessionId : Text) (connectionGeneration : ℕ)
    (workspaceRootUri : Text) : Prop :=
  host.currentSessionId = some sessionId ∧
    host.currentConnectionGeneration = connectionGeneration ∧
    host.workspaceFolder.map WorkspaceFolder.uri = some workspaceRootUri

instance (host : Host) (sessionId : Text) (connectionGeneration : ℕ) (workspaceRootUri : Text) :
    Decidable (host.Owns sessionId connectionGeneration workspaceRootUri) :=
  inferInstanceAs (Decidable (_ ∧ _ ∧ _))

structure PendingDiff where
  id : Text
  filePath : Text
  originalContent : Option Text
  proposedContent : Text
  description : Option Text
  language : Option Text
  isUnsupported : Bool
  unsupportedReason : Option Text
  workspaceRootUri : Text
  canonicalTarget : Text
  sessionId : Text
  connectionGeneration : ℕ
  invalidationEpoch : ℕ
  /-- Which proposal made the object: what `===` compares. -/
  proposal : ℕ
  deriving DecidableEq

inductive DiffAction where
  | accepted
  | rejected
  deriving DecidableEq

structure DiffActionResult where
  diffId : Text
  filePath : Text
  action : DiffAction
  sessionId : Text
  connectionGeneration : ℕ
  deriving DecidableEq

/-- What a call returns. -/
inductive CallResult where
  | proposed (pending : PendingDiff)
  | failed (message : Text)
  | action (result : Option DiffActionResult)
  | actions (results : List DiffActionResult)

inductive CommitOperation where
  | accept (diffId : Text) (pending : PendingDiff)
  | reject (diffId : Text) (pending : PendingDiff)
  | rejectAll

/-- What a proposal has read before it waits for its target. -/
structure Proposal where
  diff : DiffProposedPayload
  id : Text
  sessionId : Text
  connectionGeneration : ℕ
  workspaceRootUri : Text
  invalidationEpoch : ℕ
  proposal : ℕ

def Proposal.pending (p : Proposal) (canonicalTarget : Text) : PendingDiff where
  id := p.id
  filePath := p.diff.filePath
  originalContent := p.diff.originalContent
  proposedContent := p.diff.proposedContent
  description := p.diff.description
  language := p.diff.language
  isUnsupported := p.diff.isUnsupported
  unsupportedReason := p.diff.unsupportedReason
  workspaceRootUri := p.workspaceRootUri
  canonicalTarget := canonicalTarget
  sessionId := p.sessionId
  connectionGeneration := p.connectionGeneration
  invalidationEpoch := p.invalidationEpoch
  proposal := p.proposal

/-- Where a call waits. -/
inductive Call where
  /-- `handleDiffProposed`, for its target. -/
  | proposing (p : Proposal)
  /-- `acceptDiff`, for its target. -/
  | resolving (diffId : Text) (pending : PendingDiff)
  /-- `acceptDiff`, for the target's content before the lock. -/
  | preflight (diffId : Text) (pending : PendingDiff)
  /-- Any, for its place in the line. -/
  | waiting (ticket : ℕ) (operation : CommitOperation)
  /-- `acceptDiff`, for the target's content under the lock. -/
  | committing (ticket : ℕ) (diffId : Text) (pending : PendingDiff)
  /-- `acceptDiff`, for the edit. -/
  | applying (ticket : ℕ) (diffId : Text) (pending : PendingDiff)
  /-- `rejectAll`, between two diffs. -/
  | rejecting (ticket : ℕ) (rest : List (Text × PendingDiff)) (results : List DiffActionResult)
  | settled (result : CallResult)

/-- What `openTextDocument` or `lstat` says of a target. -/
inductive TargetAnswer where
  | opened (text : Text)
  | missing
  | present
  | failed
  deriving DecidableEq

inductive FileDiffEvent where
  | reserveDiffId
  | handleDiffProposed (diff : DiffProposedPayload) (preassignedId : Option Text)
      (proposalSessionId : Option Text) (proposalConnectionGeneration : Option ℕ)
  | acceptDiff (diffId : Text)
  | rejectDiff (diffId : Text)
  | rejectAll
  /-- `resolveWorkspaceTarget` has settled; `owner` is the folder that has the target. -/
  | targetResolved (call : ℕ) (target : Except Text Text) (owner : Option Text)
  | targetRead (call : ℕ) (answer : TargetAnswer)
  | lockReleased (call : ℕ)
  /-- `applyEdit` has settled, `none` for a rejection. -/
  | editApplied (call : ℕ) (applied : Option Bool)
  | nextRejected (call : ℕ)
  | hostChanged (host : Host)

structure FileDiffHandler where
  pendingDiffs : Dict PendingDiff
  seq : ℕ
  invalidationEpoch : ℕ
  /-- The places given out in the line, and those left. -/
  issued : ℕ
  released : ℕ
  host : Host
  proposals : ℕ
  calls : List Call
  /-- `onDiffResult`. -/
  results : List DiffActionResult
  /-- The diffs `applyEdit` was started for. -/
  edits : List PendingDiff

namespace FileDiffHandler

def create (host : Host) : FileDiffHandler :=
  ⟨Table.empty, 0, 0, 0, 0, host, 0, [], [], []⟩

def diffId (n : ℕ) : Text := js "diff-" ++ decimal n

def nextId (h : FileDiffHandler) : FileDiffHandler := { h with seq := h.seq + 1 }

def call (h : FileDiffHandler) (c : Call) : FileDiffHandler := { h with calls := h.calls ++ [c] }

/-- The call goes on to where it waits next. -/
def resume (h : FileDiffHandler) (i : ℕ) (c : Call) : FileDiffHandler :=
  { h with calls := h.calls.set i c }

/-! ## Proposing -/

/-- The handler after a proposal has been numbered, and its identifier. -/
def identify (h : FileDiffHandler) (preassignedId : Option Text) : Text × FileDiffHandler :=
  match preassignedId with
  | some id => (id, { h with proposals := h.proposals + 1 })
  | none => (diffId (h.seq + 1), { h.nextId with proposals := h.proposals + 1 })

def handleDiffProposed (h : FileDiffHandler) (diff : DiffProposedPayload)
    (preassignedId proposalSessionId : Option Text) (proposalConnectionGeneration : Option ℕ) :
    FileDiffHandler :=
  let sessionId := proposalSessionId.or h.host.currentSessionId
  let generation := proposalConnectionGeneration.getD h.host.currentConnectionGeneration
  let identified := h.identify preassignedId
  let fail := fun message => identified.2.call (.settled (.failed message))
  match h.host.workspaceFolder with
  | none => fail (js "Open one local file workspace before previewing a diff.")
  | some root =>
      if root.scheme ≠ js "file" then
        fail (js "Open one local file workspace before previewing a diff.")
      else
        match sessionId with
        | none => fail (js "A live core session is required before previewing a diff.")
        | some sessionId =>
            if sessionId = [] then
              fail (js "A live core session is required before previewing a diff.")
            else
              identified.2.call (.proposing
                ⟨diff, identified.1, sessionId, generation, root.uri, h.invalidationEpoch,
                  h.proposals⟩)

/-- A proposal has its target. -/
def propose (h : FileDiffHandler) (i : ℕ) (p : Proposal) (target : Except Text Text) :
    FileDiffHandler :=
  match target with
  | .error message => h.resume i (.settled (.failed message))
  | .ok canonicalTarget =>
      if h.invalidationEpoch = p.invalidationEpoch ∧
          h.host.Owns p.sessionId p.connectionGeneration p.workspaceRootUri then
        { h with pendingDiffs := Dict.set h.pendingDiffs p.id (p.pending canonicalTarget) }.resume
          i (.settled (.proposed (p.pending canonicalTarget)))
      else
        h.resume i (.settled (.failed (js "Diff ownership changed while preparing the proposal.")))

/-! ## The lock -/

def withCommitLock (h : FileDiffHandler) (place : FileDiffHandler → Call → FileDiffHandler)
    (operation : CommitOperation) : FileDiffHandler :=
  place { h with issued := h.issued + 1 } (.waiting h.issued operation)

/-- The operation is over. -/
def leave (h : FileDiffHandler) (i : ℕ) (result : CallResult) : FileDiffHandler :=
  { h with released := h.released + 1 }.resume i (.settled result)

/-! ## Rejecting -/

def result (diffId : Text) (pending : PendingDiff) (action : DiffAction) : DiffActionResult :=
  ⟨diffId, pending.filePath, action, pending.sessionId, pending.connectionGeneration⟩

/-- The diff under this identifier is this object. -/
def IsPending (h : FileDiffHandler) (diffId : Text) (pending : PendingDiff) : Prop :=
  (Dict.find h.pendingDiffs diffId).map PendingDiff.proposal = some pending.proposal

instance (h : FileDiffHandler) (diffId : Text) (pending : PendingDiff) :
    Decidable (h.IsPending diffId pending) := inferInstanceAs (Decidable (_ = _))

/-- A pending diff is done with. -/
def report (h : FileDiffHandler) (diffId : Text) (pending : PendingDiff) (action : DiffAction) :
    FileDiffHandler :=
  { h with
    pendingDiffs := Dict.remove h.pendingDiffs diffId
    results := h.results ++ [result diffId pending action] }

def rejectPending (h : FileDiffHandler) (diffId : Text) (pending : PendingDiff) :
    FileDiffHandler × Option DiffActionResult :=
  if h.IsPending diffId pending then
    (h.report diffId pending .rejected, some (result diffId pending .rejected))
  else (h, none)

/-- A round of `rejectAll`'s loop, up to its `await`. -/
def rejectNext (h : FileDiffHandler) (i ticket : ℕ) (results : List DiffActionResult) :
    List (Text × PendingDiff) → FileDiffHandler
  | [] => h.leave i (.actions results)
  | (id, pending) :: rest =>
      let rejected := h.rejectPending id pending
      rejected.1.resume i (.rejecting ticket rest (results ++ rejected.2.toList))

def rejectDiff (h : FileDiffHandler) (diffId : Text) : FileDiffHandler :=
  match Dict.find h.pendingDiffs diffId with
  | none => h.call (.settled (.action none))
  | some pending => h.withCommitLock call (.reject diffId pending)

def rejectAll (h : FileDiffHandler) : FileDiffHandler :=
  { h with invalidationEpoch := h.invalidationEpoch + 1 }.withCommitLock call .rejectAll

/-! ## Accepting -/

def acceptDiff (h : FileDiffHandler) (diffId : Text) : FileDiffHandler :=
  let give := h.call (.settled (.action none))
  if !h.host.isTrusted then give
  else
    match Dict.find h.pendingDiffs diffId with
    | none => give
    | some pending =>
        if pending.isUnsupported then give
        else if h.host.workspaceFolder.map WorkspaceFolder.scheme = some (js "file") ∧
            h.host.Owns pending.sessionId pending.connectionGeneration
              pending.workspaceRootUri then
          h.call (.resolving diffId pending)
        else give

/-- `acceptDiff` has its target. -/
def resolveTarget (h : FileDiffHandler) (i : ℕ) (diffId : Text) (pending : PendingDiff)
    (target : Except Text Text) (owner : Option Text) : FileDiffHandler :=
  match target with
  | .error _ => h.resume i (.settled (.action none))
  | .ok target =>
      if target = pending.canonicalTarget ∧ owner = some pending.workspaceRootUri then
        h.resume i (.preflight diffId pending)
      else h.resume i (.settled (.action none))

/-- The target is as it was when the diff was proposed. -/
def Unchanged (pending : PendingDiff) (answer : TargetAnswer) : Prop :=
  answer = match pending.originalContent with
    | some text => .opened text
    | none => .missing

instance (pending : PendingDiff) (answer : TargetAnswer) : Decidable (Unchanged pending answer) :=
  inferInstanceAs (Decidable (_ = _))

/-- The check before the lock. -/
def preflight (h : FileDiffHandler) (i : ℕ) (diffId : Text) (pending : PendingDiff)
    (answer : TargetAnswer) : FileDiffHandler :=
  if Unchanged pending answer then
    h.withCommitLock (fun h => h.resume i) (.accept diffId pending)
  else h.resume i (.settled (.action none))

/-- The lock is taken: the ownership is checked once more. -/
def beginCommit (h : FileDiffHandler) (i ticket : ℕ) (diffId : Text) (pending : PendingDiff) :
    FileDiffHandler :=
  if h.IsPending diffId pending ∧ h.invalidationEpoch = pending.invalidationEpoch ∧
      h.host.Owns pending.sessionId pending.connectionGeneration pending.workspaceRootUri then
    h.resume i (.committing ticket diffId pending)
  else h.leave i (.action none)

/-- The check under the lock, and the edit. -/
def commit (h : FileDiffHandler) (i ticket : ℕ) (diffId : Text) (pending : PendingDiff)
    (answer : TargetAnswer) : FileDiffHandler :=
  if Unchanged pending answer then
    { h with edits := h.edits ++ [pending] }.resume i (.applying ticket diffId pending)
  else h.leave i (.action none)

def finishEdit (h : FileDiffHandler) (i : ℕ) (diffId : Text) (pending : PendingDiff)
    (applied : Option Bool) : FileDiffHandler :=
  if applied = some true then
    (h.report diffId pending .accepted).leave i (.action (some (result diffId pending .accepted)))
  else h.leave i (.action none)

/-! ## Events -/

/-- The lock is free for a call. -/
def enter (h : FileDiffHandler) (i ticket : ℕ) : CommitOperation → FileDiffHandler
  | .accept diffId pending => h.beginCommit i ticket diffId pending
  | .reject diffId pending =>
      let rejected := h.rejectPending diffId pending
      rejected.1.leave i (.action rejected.2)
  | .rejectAll => h.rejectNext i ticket [] h.pendingDiffs.rows

/-- One event. Nothing comes back to a call that does not wait for it. -/
def step (h : FileDiffHandler) : FileDiffEvent → FileDiffHandler
  | .reserveDiffId => h.nextId
  | .handleDiffProposed diff preassignedId proposalSessionId proposalConnectionGeneration =>
      h.handleDiffProposed diff preassignedId proposalSessionId proposalConnectionGeneration
  | .acceptDiff diffId => h.acceptDiff diffId
  | .rejectDiff diffId => h.rejectDiff diffId
  | .rejectAll => h.rejectAll
  | .targetResolved i target owner =>
      match h.calls[i]? with
      | some (.proposing p) => h.propose i p target
      | some (.resolving diffId pending) => h.resolveTarget i diffId pending target owner
      | _ => h
  | .targetRead i answer =>
      match h.calls[i]? with
      | some (.preflight diffId pending) => h.preflight i diffId pending answer
      | some (.committing ticket diffId pending) => h.commit i ticket diffId pending answer
      | _ => h
  | .lockReleased i =>
      match h.calls[i]? with
      | some (.waiting ticket operation) =>
          if ticket = h.released then h.enter i ticket operation else h
      | _ => h
  | .editApplied i applied =>
      match h.calls[i]? with
      | some (.applying _ diffId pending) => h.finishEdit i diffId pending applied
      | _ => h
  | .nextRejected i =>
      match h.calls[i]? with
      | some (.rejecting ticket rest results) => h.rejectNext i ticket results rest
      | _ => h
  | .hostChanged host => { h with host := host }

end FileDiffHandler

end Shizuha.Vscode
