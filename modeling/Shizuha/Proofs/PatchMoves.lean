import Shizuha.Tools.ApplyPatch

/-!
# What a patch leaves

A move writes its destination and then removes its source, so that a file that
is moved onto itself is lost, and stays lost until a later hunk writes its path
again. That is the only way in which a run differs from the fold of the hunks.

The relation between the two file systems is `Lost`: they agree but for the
paths of a set, where the run has no file and the fold has one. A hunk that
succeeds keeps it for the set that `lostAfter` says.
-/

namespace Shizuha.Tools

open Js

variable {context : ToolContext} {files ideal files' : Files} {summary summary' : PatchSummary}
  {hunk : PatchHunk} {hunks : List PatchHunk} {path : Text} {lost : Text → Prop}

/-- Where a hunk moves its file, when it does. -/
def PatchHunk.destination : PatchHunk → Option Text
  | .update _ movePath _ => movePath.filter fun dest => dest ≠ []
  | _ => none

def PatchHunk.source : PatchHunk → Text
  | .add path _ | .delete path | .update path _ _ => path

/-- The hunk moves the file of a path onto itself. -/
def PatchHunk.MovesOnto (context : ToolContext) (hunk : PatchHunk) (path : Text) : Prop :=
  ∃ dest, hunk.destination = some dest ∧ context.resolveSafePath dest = path ∧
    context.resolveSafePath hunk.source = path

/-- The hunk writes a path without reading it: it adds the file, or moves
another one there. -/
def PatchHunk.Writes (context : ToolContext) (hunk : PatchHunk) (path : Text) : Prop :=
  (∃ name contents, hunk = .add name contents ∧ context.resolveSafePath name = path) ∨
    ∃ dest, hunk.destination = some dest ∧ context.resolveSafePath dest = path ∧
      context.resolveSafePath hunk.source ≠ path

/-- A path the hunks have something to do with. -/
def PatchHunk.Names (context : ToolContext) (hunk : PatchHunk) (path : Text) : Prop :=
  context.resolveSafePath hunk.source = path ∨
    ∃ dest, hunk.destination = some dest ∧ context.resolveSafePath dest = path

/-- Whatever is moved onto itself is written again by a later hunk. -/
def MovesRewritten (context : ToolContext) : List PatchHunk → Prop
  | [] => True
  | hunk :: hunks =>
      (∀ path, hunk.MovesOnto context path → ∃ later ∈ hunks, later.Writes context path) ∧
        MovesRewritten context hunks

/-- The run has lost the files of these paths, and nothing else. -/
def Lost (lost : Text → Prop) (files ideal : Files) : Prop :=
  ∀ path, (lost path → files path = none ∧ (ideal path).isSome = true) ∧
    (¬ lost path → files path = ideal path)

/-- What is lost once a hunk has been carried out. -/
def lostAfter (context : ToolContext) (hunk : PatchHunk) (lost : Text → Prop) (path : Text) : Prop :=
  lost path ∧ ¬ hunk.Writes context path ∨ hunk.MovesOnto context path

theorem Lost.eq_iff (h : Lost lost files ideal) : files = ideal ↔ ∀ path, ¬ lost path := by
  constructor
  · intro heq path hlost
    obtain ⟨hnone, hsome⟩ := (h path).1 hlost
    rw [← heq, hnone] at hsome
    exact absurd hsome (by simp)
  · intro hnone
    funext path
    exact (h path).2 (hnone path)

theorem Lost.present (h : Lost lost files ideal) (hsome : files path ≠ none) :
    ¬ lost path ∧ files path = ideal path := by
  have hkept : ¬ lost path := fun hlost => hsome ((h path).1 hlost).1
  exact ⟨hkept, (h path).2 hkept⟩

theorem Lost.congr {lost' : Text → Prop} (h : Lost lost files ideal)
    (hiff : ∀ path, lost' path ↔ lost path) : Lost lost' files ideal := by
  intro path
  rw [hiff]
  exact h path

theorem Lost.write (h : Lost lost files ideal) (path contents : Text) :
    Lost (fun p => lost p ∧ p ≠ path) (files.write path contents) (ideal.write path contents) := by
  intro p
  by_cases hp : p = path
  · subst hp
    simp [Files.write]
  · simpa [Files.write, Function.update_of_ne hp, hp] using h p

theorem Lost.erase (h : Lost lost files ideal) (hkept : ¬ lost path) :
    Lost lost (Function.update files path none) (Function.update ideal path none) := by
  intro p
  by_cases hp : p = path
  · subst hp
    simp [hkept]
  · simpa [Function.update_of_ne hp] using h p

/-- A file that is there is read the same in both. -/
theorem Lost.newContent {source : Text} {chunks : List UpdateFileChunk} {content : Text}
    (h : Lost lost files ideal) (hread : newContent files source path chunks = .ok content) :
    ¬ lost source ∧ Tools.newContent ideal source path chunks = .ok content := by
  have hsome : files source ≠ none := by
    intro hnone
    rw [Tools.newContent, Files.read, hnone] at hread
    cases hread
  obtain ⟨hkept, heq⟩ := h.present hsome
  refine ⟨hkept, ?_⟩
  rw [Tools.newContent, Files.read, ← heq]
  exact hread

theorem unlink_ok (h : files.unlink path = .ok files') :
    files path ≠ none ∧ files' = Function.update files path none := by
  rw [Files.unlink] at h
  cases hfile : files path with
  | none =>
      rw [hfile] at h
      cases h
  | some bytes =>
      rw [hfile] at h
      exact ⟨by simp, (Except.ok.inj h).symm⟩

/-! ## One hunk -/

theorem lost_add {name contents : Text} (h : Lost lost files ideal) :
    Lost (lostAfter context (.add name contents) lost)
      (files.write (context.resolveSafePath name) contents)
      (ideal.write (context.resolveSafePath name) contents) := by
  refine (h.write _ contents).congr fun path => ?_
  have hwrites : (PatchHunk.add name contents).Writes context path ↔
      path = context.resolveSafePath name := by
    simp only [PatchHunk.Writes, PatchHunk.destination]
    constructor
    · rintro (⟨name', contents', heq, rfl⟩ | ⟨dest, hdest, -⟩)
      · cases heq
        rfl
      · cases hdest
    · rintro rfl
      exact .inl ⟨name, contents, rfl, rfl⟩
  have hmoves : ¬ (PatchHunk.add name contents).MovesOnto context path := by
    rintro ⟨dest, hdest, -⟩
    cases hdest
  rw [lostAfter, hwrites]
  simp [hmoves]

/-- A hunk without a destination that adds nothing loses nothing, and brings
nothing back. -/
theorem lostAfter_still (hdest : hunk.destination = none)
    (hadd : ∀ name contents, hunk ≠ .add name contents) :
    lostAfter context hunk lost path ↔ lost path := by
  have hwrites : ¬ hunk.Writes context path := by
    rintro (⟨name, contents, heq, -⟩ | ⟨dest, hsome, -⟩)
    · exact hadd name contents heq
    · rw [hdest] at hsome
      cases hsome
  have hmoves : ¬ hunk.MovesOnto context path := by
    rintro ⟨dest, hsome, -⟩
    rw [hdest] at hsome
    cases hsome
  rw [lostAfter]
  simp [hwrites, hmoves]

theorem lostAfter_move {dest : Text} (hdest : hunk.destination = some dest)
    (hadd : ∀ name contents, hunk ≠ .add name contents) :
    lostAfter context hunk lost path ↔
      if context.resolveSafePath dest = context.resolveSafePath hunk.source then
        lost path ∨ path = context.resolveSafePath dest
      else lost path ∧ path ≠ context.resolveSafePath dest := by
  have hwrites : hunk.Writes context path ↔
      context.resolveSafePath dest = path ∧ context.resolveSafePath hunk.source ≠ path := by
    rw [PatchHunk.Writes, hdest]
    constructor
    · rintro (⟨name, contents, heq, -⟩ | ⟨dest', hsome, hwrites⟩)
      · exact absurd heq (hadd name contents)
      · rwa [Option.some.inj hsome]
    · exact fun hwrites => .inr ⟨dest, rfl, hwrites⟩
  have hmoves : hunk.MovesOnto context path ↔
      context.resolveSafePath dest = path ∧ context.resolveSafePath hunk.source = path := by
    rw [PatchHunk.MovesOnto, hdest]
    constructor
    · rintro ⟨dest', hsome, hmoves⟩
      rwa [Option.some.inj hsome]
    · exact fun hmoves => ⟨dest, rfl, hmoves⟩
  rw [lostAfter, hwrites, hmoves]
  split_ifs with hself
  · rw [← hself]
    constructor
    · rintro (⟨hlost, -⟩ | ⟨rfl, -⟩)
      · exact .inl hlost
      · exact .inr rfl
    · rintro (hlost | rfl)
      · exact .inl ⟨hlost, fun hboth => hboth.2 hboth.1⟩
      · exact .inr ⟨rfl, rfl⟩
  · constructor
    · rintro (⟨hlost, hnot⟩ | ⟨rfl, hsame⟩)
      · refine ⟨hlost, fun heq => hnot ⟨heq.symm, fun hsame => hself ?_⟩⟩
        rw [hsame, heq]
      · exact absurd hsame.symm hself
    · rintro ⟨hlost, hne⟩
      exact .inl ⟨hlost, fun hboth => hne hboth.1.symm⟩

/-- The file of an update is there, so it can be removed under either path. -/
theorem unlink_write {source target content : Text} (hsome : files source ≠ none) :
    (files.write target content).unlink source =
      .ok (Function.update (files.write target content) source none) := by
  have hthere : files.write target content source ≠ none := by
    rw [Files.write]
    by_cases heq : source = target
    · rw [heq, Function.update_self]
      simp
    · rwa [Function.update_of_ne heq]
  rw [Files.unlink]
  cases hfile : files.write target content source with
  | none => exact absurd hfile hthere
  | some bytes => rfl

theorem newContent_present {source filePath content : Text} {chunks : List UpdateFileChunk}
    (h : newContent files source filePath chunks = .ok content) : files source ≠ none := by
  intro hnone
  rw [newContent, Files.read, hnone] at h
  cases h

/-- What a hunk that succeeds has done. -/
theorem executeHunk_cases
    (hrun : executeHunk context files summary hunk = .ok (files', summary')) :
    (∃ name contents, hunk = .add name contents ∧
      files' = files.write (context.resolveSafePath name) contents) ∨
    (∃ name, hunk = .delete name ∧ files (context.resolveSafePath name) ≠ none ∧
      files' = Function.update files (context.resolveSafePath name) none) ∨
    ∃ name movePath chunks content, hunk = .update name movePath chunks ∧
      newContent files (context.resolveSafePath name) name chunks = .ok content ∧
      ((movePath.filter (fun dest => dest ≠ []) = none ∧
          files' = files.write (context.resolveSafePath name) content) ∨
        ∃ dest, movePath.filter (fun dest => dest ≠ []) = some dest ∧
          files' = Function.update (files.write (context.resolveSafePath dest) content)
            (context.resolveSafePath name) none) := by
  cases hunk with
  | add name contents =>
      rw [executeHunk] at hrun
      cases hrun
      exact .inl ⟨name, contents, rfl, rfl⟩
  | delete name =>
      rw [executeHunk] at hrun
      cases hgone : files.unlink (context.resolveSafePath name) with
      | error e =>
          rw [hgone] at hrun
          cases hrun
      | ok left =>
          rw [hgone] at hrun
          cases hrun
          obtain ⟨hthere, rfl⟩ := unlink_ok hgone
          exact .inr (.inl ⟨name, rfl, hthere, rfl⟩)
  | update name movePath chunks =>
      rw [executeHunk] at hrun
      cases hread : newContent files (context.resolveSafePath name) name chunks with
      | error e =>
          rw [hread] at hrun
          cases hrun
      | ok content =>
          rw [hread] at hrun
          refine .inr (.inr ⟨name, movePath, chunks, content, rfl, hread, ?_⟩)
          cases hdest : movePath.filter fun dest => dest ≠ [] with
          | none =>
              simp only [hdest] at hrun
              cases hrun
              exact .inl ⟨rfl, rfl⟩
          | some dest =>
              have hremoved := @unlink_write files _ (context.resolveSafePath dest) content
                (newContent_present hread)
              simp only [hdest] at hrun
              change (do
                let files ← (files.write (context.resolveSafePath dest) content).unlink
                  (context.resolveSafePath name)
                return (files, { summary with modified := summary.modified ++ [dest] }) :
                  Except PatchFailure (Files × PatchSummary)) = _ at hrun
              rw [hremoved] at hrun
              cases hrun
              exact .inr ⟨dest, rfl, rfl⟩

theorem executeHunk_lost (h : Lost lost files ideal)
    (hrun : executeHunk context files summary hunk = .ok (files', summary')) :
    ∃ ideal', applyHunk context ideal hunk = .ok ideal' ∧
      Lost (lostAfter context hunk lost) files' ideal' := by
  obtain ⟨name, contents, rfl, rfl⟩ | ⟨name, rfl, hthere, rfl⟩ |
    ⟨name, movePath, chunks, content, rfl, hread, hcase⟩ := executeHunk_cases hrun
  · exact ⟨_, rfl, lost_add h⟩
  · obtain ⟨hkept, heq⟩ := h.present hthere
    refine ⟨Function.update ideal (context.resolveSafePath name) none, ?_, ?_⟩
    · rw [applyHunk, Files.unlink, ← heq]
      cases hfile : files (context.resolveSafePath name) with
      | none => exact absurd hfile hthere
      | some bytes => rfl
    · exact (h.erase hkept).congr fun path => lostAfter_still rfl (by intros; simp)
  · obtain ⟨hkept, hideal⟩ := h.newContent hread
    obtain ⟨hdest, rfl⟩ | ⟨dest, hdest, rfl⟩ := hcase
    · have hstill : (PatchHunk.update name movePath chunks).destination = none := hdest
      refine ⟨ideal.write (context.resolveSafePath name) content, ?_, ?_⟩
      · simp only [applyHunk, hideal, hdest]
        rfl
      · refine (h.write _ content).congr fun path => ?_
        rw [lostAfter_still hstill (by intros; simp)]
        constructor
        · exact fun hlost => ⟨hlost, fun heq => hkept (heq ▸ hlost)⟩
        · exact fun hboth => hboth.1
    · have hmove : (PatchHunk.update name movePath chunks).destination = some dest := hdest
      have hsource : context.resolveSafePath (PatchHunk.update name movePath chunks).source =
          context.resolveSafePath name := rfl
      by_cases hself : context.resolveSafePath dest = context.resolveSafePath name
      · refine ⟨ideal.write (context.resolveSafePath dest) content, ?_, ?_⟩
        · simp only [applyHunk, hideal, hdest]
          exact if_pos hself
        · refine Lost.congr ?_ fun path => lostAfter_move hmove (by intros; simp)
          rw [hsource, ← hself]
          intro path
          simp only [if_pos]
          by_cases hpath : path = context.resolveSafePath dest
          · subst hpath
            simp [Files.write]
          · simpa [Files.write, Function.update_of_ne hpath, hpath] using h path
      · refine ⟨Function.update (ideal.write (context.resolveSafePath dest) content)
          (context.resolveSafePath name) none, ?_, ?_⟩
        · simp only [applyHunk, hideal, hdest]
          change (if context.resolveSafePath dest = context.resolveSafePath name then _
            else _) = _
          rw [if_neg hself]
          exact unlink_write (newContent_present hideal)
        · refine ((h.write _ content).erase fun hlost => hkept hlost.1).congr fun path => ?_
          rw [lostAfter_move hmove (by intros; simp), hsource, if_neg hself]

/-! ## A run -/

theorem executeHunks_cons (hrun : executeHunks context files summary (hunk :: hunks) =
    .ok (files', summary')) :
    ∃ between report, executeHunk context files summary hunk = .ok (between, report) ∧
      executeHunks context between report hunks = .ok (files', summary') := by
  rw [executeHunks] at hrun
  cases hfirst : executeHunk context files summary hunk with
  | error e =>
      rw [hfirst] at hrun
      cases hrun
  | ok done =>
      rw [hfirst] at hrun
      exact ⟨done.1, done.2, rfl, hrun⟩

/-- The fold goes through as well, and ends in the same files when everything
that was lost, or is lost on the way, is written again. -/
theorem executeHunks_lost (h : Lost lost files ideal)
    (hrun : executeHunks context files summary hunks = .ok (files', summary')) :
    ∃ ideal', applyHunks context ideal hunks = .ok ideal' ∧
      (ideal' = files' ↔
        (∀ path, lost path → ∃ later ∈ hunks, later.Writes context path) ∧
          MovesRewritten context hunks) := by
  induction hunks generalizing files ideal summary lost with
  | nil =>
      rw [executeHunks] at hrun
      cases hrun
      refine ⟨ideal, rfl, ?_⟩
      rw [eq_comm, h.eq_iff]
      constructor
      · exact fun hnone => ⟨fun path hlost => absurd hlost (hnone path), trivial⟩
      · intro hboth path hlost
        obtain ⟨later, hmem, -⟩ := hboth.1 path hlost
        exact absurd hmem List.not_mem_nil
  | cons hunk hunks ih =>
      obtain ⟨between, report, hfirst, hrest⟩ := executeHunks_cons hrun
      obtain ⟨next, hnext, hlost⟩ := executeHunk_lost h hfirst
      obtain ⟨ideal', hfold, hiff⟩ := ih hlost hrest
      refine ⟨ideal', ?_, hiff.trans ?_⟩
      · rw [applyHunks, List.foldlM_cons, hnext]
        exact hfold
      · constructor
        · rintro ⟨hafter, hlater⟩
          refine ⟨fun path hpath => ?_, fun path hmoves => hafter path (.inr hmoves), hlater⟩
          by_cases hwrites : hunk.Writes context path
          · exact ⟨hunk, List.mem_cons_self, hwrites⟩
          · obtain ⟨later, hmem, hw⟩ := hafter path (.inl ⟨hpath, hwrites⟩)
            exact ⟨later, List.mem_cons_of_mem _ hmem, hw⟩
        · rintro ⟨hbefore, hmoves, hlater⟩
          refine ⟨fun path hpath => ?_, hlater⟩
          rcases hpath with ⟨hpath, hwrites⟩ | hpath
          · obtain ⟨later, hmem, hw⟩ := hbefore path hpath
            rcases List.mem_cons.mp hmem with rfl | hmem
            · exact absurd hw hwrites
            · exact ⟨later, hmem, hw⟩
          · exact hmoves path hpath

theorem executeHunk_unnamed (hrun : executeHunk context files summary hunk = .ok (files', summary'))
    (hnames : ¬ hunk.Names context path) : files' path = files path := by
  have hsource : path ≠ context.resolveSafePath hunk.source := fun heq => hnames (.inl heq.symm)
  obtain ⟨name, contents, rfl, rfl⟩ | ⟨name, rfl, -, rfl⟩ |
    ⟨name, movePath, chunks, content, rfl, -, ⟨-, rfl⟩ | ⟨dest, hdest, rfl⟩⟩ :=
    executeHunk_cases hrun
  · exact Function.update_of_ne hsource _ _
  · exact Function.update_of_ne hsource _ _
  · exact Function.update_of_ne hsource _ _
  · have htarget : path ≠ context.resolveSafePath dest :=
      fun heq => hnames (.inr ⟨dest, hdest, heq.symm⟩)
    exact (Function.update_of_ne hsource _ _).trans (Function.update_of_ne htarget _ _)

theorem executeHunks_unnamed
    (hrun : executeHunks context files summary hunks = .ok (files', summary'))
    (hnames : ∀ hunk ∈ hunks, ¬ hunk.Names context path) : files' path = files path := by
  induction hunks generalizing files summary with
  | nil =>
      rw [executeHunks] at hrun
      cases hrun
      rfl
  | cons hunk hunks ih =>
      obtain ⟨between, report, hfirst, hrest⟩ := executeHunks_cons hrun
      calc files' path = between path :=
            ih hrest fun hunk hmem => hnames hunk (List.mem_cons_of_mem _ hmem)
        _ = files path := executeHunk_unnamed hfirst (hnames hunk List.mem_cons_self)

/-- A patch that succeeds leaves what the fold of its hunks says, and everything
else as it was, exactly when each file it moves onto itself is written again
later on. -/
theorem patch_folds_iff (context : ToolContext) (files files' : Files) (summary : PatchSummary)
    (hunks : List PatchHunk)
    (hrun : executeHunks context files ⟨[], [], []⟩ hunks = .ok (files', summary)) :
    (applyHunks context files hunks = .ok files' ∧
        ∀ path, (∀ hunk ∈ hunks, ¬ hunk.Names context path) → files' path = files path) ↔
      MovesRewritten context hunks := by
  have hnothing : Lost (fun _ => False) files files := fun path => ⟨False.elim, fun _ => rfl⟩
  obtain ⟨ideal', hfold, hiff⟩ := executeHunks_lost hnothing hrun
  constructor
  · rintro ⟨heq, -⟩
    rw [hfold] at heq
    exact (hiff.mp (Except.ok.inj heq)).2
  · intro hrewritten
    refine ⟨?_, fun path hnames => executeHunks_unnamed hrun hnames⟩
    rw [hfold, hiff.mpr ⟨fun path hlost => hlost.elim, hrewritten⟩]

/-! ## A file moved onto itself -/

def inRoot : ToolContext := ⟨js "/", js "/"⟩

/-- One file, of one line. -/
def oneFile : Files := Function.update (fun _ => none) (js "/a") (some (utf8Encode (js "x\n")))

def rewritten : List UpdateFileChunk := [⟨none, [js "x"], [js "y"], false⟩]

theorem patch_folds_update :
    (applyHunks inRoot oneFile [.update (js "a") none rewritten] =
          .ok (oneFile.write (js "/a") (js "y\n")) ∧
        ∀ path, (∀ hunk ∈ [PatchHunk.update (js "a") none rewritten], ¬ hunk.Names inRoot path) →
          oneFile.write (js "/a") (js "y\n") path = oneFile path) ↔
      MovesRewritten inRoot [.update (js "a") none rewritten] :=
  patch_folds_iff inRoot oneFile _ ⟨[], [js "a"], []⟩ _ rfl

/-- It is gone after the run, and the fold leaves it at its path. -/
theorem patch_loses_file : ∃ files' summary,
    executeHunks inRoot oneFile ⟨[], [], []⟩ [.update (js "a") (some (js "./a")) rewritten] =
      .ok (files', summary) ∧
    applyHunks inRoot oneFile [.update (js "a") (some (js "./a")) rewritten] ≠ .ok files' := by
  refine ⟨Function.update (oneFile.write (js "/a") (js "y\n")) (js "/a") none, _, rfl, ?_⟩
  intro heq
  have hfold : applyHunks inRoot oneFile [.update (js "a") (some (js "./a")) rewritten] =
      .ok (oneFile.write (js "/a") (js "y\n")) := rfl
  rw [hfold] at heq
  have hfile := congrFun (Except.ok.inj heq) (js "/a")
  rw [Function.update_self, Files.write, Function.update_self] at hfile
  cases hfile

end Shizuha.Tools
