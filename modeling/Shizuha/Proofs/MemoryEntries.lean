import Shizuha.Machine
import Shizuha.Proofs.ConsolidatedFacts

/-!
# The entries that are read back

The entries are one text with a delimiter between them and no escapes. Read back
they are what was written as long as the delimiters found are those that were
put in: no entry has one in it, and none but the last has, with the delimiter
after it, one that begins sooner (`readEntries_write`). Pieces of a file are so
already; a new entry has to be, and so has the one before it.

Entries are compared as they stand. The consolidation leaves the last one with a
line feed after it, and that is not the entry the tool would add.
-/

namespace Shizuha.Memory

open Js Machine

/-! ## Reading back what was written -/

theorem delimiter_ne_nil : ENTRY_DELIMITER ≠ [] := by decide

theorem trim_eq_nil_iff {s : Text} : trim s = [] ↔ ∀ u ∈ s, isSpace u = true := by
  constructor
  · intro h
    rw [trim, List.rdropWhile_eq_nil_iff] at h
    have hall : s.dropWhile isSpace = [] := by
      cases hdrop : s.dropWhile isSpace with
      | nil => rfl
      | cons u rest =>
          have hhead := List.head?_dropWhile_not isSpace s
          rw [hdrop] at h hhead
          have hu := h u List.mem_cons_self
          rw [List.head?_cons] at hhead
          simp only [hu] at hhead
          cases hhead
    exact List.dropWhile_eq_nil_iff.mp hall
  · intro h
    rw [trim, List.dropWhile_eq_nil_iff.mpr h]
    rfl

theorem trim_trim (s : Text) : trim (trim s) = trim s := by
  have hsame := trim_surround (a := []) (b := []) (by simp) (by simp) (trim_trimmed s)
  simpa using hsame

/-- A blank file has only blank pieces, so it need not be told apart. -/
theorem readEntries_some (raw : FileText) :
    readEntries (some raw) = (splitOn ENTRY_DELIMITER raw.text).filter fun e => trim e ≠ [] := by
  rw [readEntries]
  split_ifs with hblank
  · symm
    rw [List.filter_eq_nil_iff]
    intro piece hpiece
    obtain ⟨pieces, last, hsplit, hjoin, -, -⟩ := splitOn_spec delimiter_ne_nil raw.text
    have hsub : ∀ u ∈ piece, u ∈ raw.text := by
      intro u hu
      rw [hsplit] at hpiece
      rw [hjoin, rejoin, List.mem_append, List.mem_flatten]
      rcases List.mem_append.mp hpiece with hp | hp
      · exact .inl ⟨_, List.mem_map_of_mem hp, List.mem_append_left _ hu⟩
      · exact .inr (List.mem_singleton.mp hp ▸ hu)
    have hspace := trim_eq_nil_iff.mp hblank
    simp [trim_eq_nil_iff.mpr fun u hu => hspace u (hsub u hu)]
  · rfl

/-- Entries that are read back as they are. -/
structure Rewritable (entries : List Text) : Prop where
  ends : ∀ pieces last, entries = pieces ++ [last] →
    (∀ e ∈ pieces, Ends ENTRY_DELIMITER e) ∧ Free ENTRY_DELIMITER last
  nonblank : ∀ e ∈ entries, trim e ≠ []
  wellFormed : ∀ e ∈ entries, WellFormed e

theorem readEntries_write {entries : List Text} (h : Rewritable entries) :
    readEntries (some (writeEntries entries)) = entries := by
  have htext : (writeEntries entries).text = join ENTRY_DELIMITER entries :=
    wellFormed_join wellFormed_delimiter h.wellFormed
  rw [readEntries_some, htext]
  rcases List.eq_nil_or_concat entries with rfl | ⟨pieces, last, rfl⟩
  · rfl
  · rw [List.concat_eq_append] at h ⊢
    obtain ⟨hends, hfree⟩ := h.ends pieces last rfl
    rw [join, intercalate_concat, splitOn_rejoin delimiter_ne_nil hends hfree,
      List.filter_eq_self]
    intro e he
    simpa using h.nonblank e he

theorem wellFormed_pieces {raw : FileText} :
    ∀ piece ∈ splitOn ENTRY_DELIMITER raw.text, WellFormed piece := by
  obtain ⟨pieces, last, hsplit, hjoin, -, -⟩ := splitOn_spec delimiter_ne_nil raw.text
  have hwf := raw.wellFormed
  rw [hsplit]
  rw [hjoin] at hwf
  clear hsplit hjoin
  induction pieces with
  | nil =>
      intro piece hpiece
      rw [List.nil_append, List.mem_singleton] at hpiece
      rw [hpiece]
      exact hwf
  | cons first pieces ih =>
      have hcons : rejoin ENTRY_DELIMITER (first :: pieces) last =
          first ++ newline :: ([167] ++ newline :: rejoin ENTRY_DELIMITER pieces last) := by
        have hdelimiter : ENTRY_DELIMITER = newline :: ([167] ++ [newline]) := by decide
        simp [rejoin, hdelimiter]
      rw [hcons] at hwf
      obtain ⟨hfirst, hrest⟩ := wellFormed_split (by decide) (by decide) hwf
      obtain ⟨-, hlater⟩ := wellFormed_split (by decide) (by decide) hrest
      intro piece hpiece
      rcases List.mem_cons.mp hpiece with heq | hpiece
      · rw [heq]
        exact hfirst
      · exact ih hlater piece hpiece

/-- Some of the entries of a file, in their order, can be written again. -/
theorem rewritable_of_sublist {file : Option FileText} {entries : List Text}
    (h : entries.Sublist (readEntries file)) : Rewritable entries := by
  cases file with
  | none =>
      rw [readEntries, List.sublist_nil] at h
      subst h
      exact ⟨fun pieces last heq => by simp at heq, by simp, by simp⟩
  | some raw =>
      rw [readEntries_some] at h
      have hsub := h.trans List.filter_sublist
      refine ⟨fun pieces last heq => ?_, fun e he => ?_, fun e he => ?_⟩
      · obtain ⟨before, final, hsplit, -, hends, hfree⟩ := splitOn_spec delimiter_ne_nil raw.text
        rw [heq, hsplit] at hsub
        have hlast : ∀ e, e ∈ before ∨ e = final → Free ENTRY_DELIMITER e := by
          intro e he
          rcases he with he | he
          · exact (hends e he).free delimiter_ne_nil
          · rw [he]
            exact hfree
        have hinit : pieces.Sublist before := by
          obtain ⟨l₁, l₂, hl, h₁, h₂⟩ := List.sublist_append_iff.mp hsub
          cases l₂ with
          | nil =>
              rw [List.append_nil] at hl
              rw [← hl] at h₁
              exact (List.sublist_append_left pieces [last]).trans h₁
          | cons e l₂ =>
              have hnil : l₂ = [] := by
                have hle := h₂.length_le
                exact List.length_eq_zero_iff.mp (by simpa using hle)
              rw [hnil] at hl
              rw [(List.append_inj' hl rfl).1]
              exact h₁
        refine ⟨fun e he => hends e (hinit.subset he), hlast last ?_⟩
        have hmem := hsub.subset (List.mem_append_right pieces (List.mem_singleton_self last))
        simpa using hmem
      · have hmem := (List.mem_filter.mp (h.subset he)).2
        simpa using hmem
      · exact wellFormed_pieces e (hsub.subset he)

/-- What begins a delimiter that the one after the entry would end. -/
def Tailed (e : Text) : Prop := [newline, 167] <:+ e

instance (e : Text) : Decidable (Tailed e) := inferInstanceAs (Decidable (_ <:+ _))

theorem ends_of_untailed {e : Text} (hfree : Free ENTRY_DELIMITER e) (h : ¬ Tailed e) :
    Ends ENTRY_DELIMITER e := by
  have hdelimiter : ENTRY_DELIMITER = [newline, 167, newline] := by decide
  intro a b heq
  rcases List.append_eq_append_iff.mp heq with ⟨a', ha, hd⟩ | ⟨c, he, hd⟩
  · have hlength := congrArg List.length hd
    rw [List.length_append, List.length_append] at hlength
    have hnil : a' = [] := List.length_eq_zero_iff.mp (by omega)
    rw [ha, hnil, List.append_nil]
  · -- Where in the delimiter the earlier one would begin.
    rw [hdelimiter] at hd
    cases c with
    | nil => rw [he, List.append_nil]
    | cons x c =>
        cases c with
        | nil => simp [newline] at hd
        | cons y c =>
            cases c with
            | nil =>
                simp only [List.cons_append, List.nil_append, List.cons.injEq] at hd
                refine absurd ⟨a, ?_⟩ h
                rw [he, ← hd.1, ← hd.2.1]
            | cons z rest =>
                simp only [List.cons_append, List.nil_append, List.cons.injEq] at hd
                refine absurd ?_ (hfree a rest)
                rw [he, ← hd.1, ← hd.2.1, ← hd.2.2.1, hdelimiter]
                rfl

/-! ## Runs -/

inductive MemoryStep where
  | act (action : MemoryAction)
  | consolidate (sessionLog : Option FileText)

def memoryStep (toLowerCase : Text → Text) (file : Option FileText) :
    MemoryStep → Option FileText
  | .act action => (executeMemoryAction file action).2
  | .consolidate sessionLog => (consolidateMemory toLowerCase sessionLog file).memoryFile

/-- No entry is there twice, whatever is around it. -/
def DistinctEntries (file : Option FileText) : Prop := ((readEntries file).map trim).Nodup

/-- What an action has to do to the list of entries. -/
structure RightAction (file : Option FileText) (action : MemoryAction) : Prop where
  added : ∀ content entries, action = .add content →
    (executeMemoryAction file action).1 = .added entries →
      readEntries (executeMemoryAction file action).2 =
        readEntries file ++ [trim (content.getD [])]
  removed : ∀ entries, (executeMemoryAction file action).1 = .removed entries →
    ∃ before e after, readEntries file = before ++ e :: after ∧
      readEntries (executeMemoryAction file action).2 = before ++ after
  other : (∀ entries, (executeMemoryAction file action).1 ≠ .added entries ∧
      (executeMemoryAction file action).1 ≠ .removed entries) →
    readEntries (executeMemoryAction file action).2 = readEntries file

def RightStep (file : Option FileText) : MemoryStep → Prop
  | .act action => RightAction file action
  | .consolidate _ => True

/-! ## The condition -/

/-- The addition of an entry goes through. -/
def Fits (file : Option FileText) (trimmed : Text) : Prop :=
  trimmed ≠ [] ∧ trimmed ∉ readEntries file ∧
    (join ENTRY_DELIMITER (readEntries file ++ [trimmed])).length ≤ CHAR_LIMIT

/-- UTF-8 can carry the entry, no delimiter is in it or begins before it, and no
entry is the same but for what is around it. -/
structure Addable (file : Option FileText) (trimmed : Text) : Prop where
  wellFormed : WellFormed trimmed
  undelimited : includes trimmed ENTRY_DELIMITER = false
  untailed : ∀ e ∈ readEntries file, ¬ Tailed e
  distinct : ∀ e ∈ readEntries file, trim e ≠ trimmed

/-- The facts are different from each other and from the entries, whatever is
around them. -/
structure Appendable (file : Option FileText) (facts : List Text) : Prop where
  untailed : ∀ e ∈ readEntries file, ¬ Tailed e
  distinct : (facts.map fun f => trim (f.drop 2)).Nodup
  fresh : ∀ f ∈ facts, trim (f.drop 2) ∉ (readEntries file).map trim

def Meets (toLowerCase : Text → Text) (file : Option FileText) : MemoryStep → Prop
  | .act (.add content) => Fits file (trim (content.getD [])) →
      Addable file (trim (content.getD []))
  | .act (.remove _) => True
  | .consolidate sessionLog => ∀ log ∈ sessionLog, 20 ≤ (trim log.text).length →
      newFactsOf toLowerCase file log.text ≠ [] →
        Appendable file (newFactsOf toLowerCase file log.text)

/-! ## The actions -/

theorem executeAdd_cases (file : Option FileText) (content : Option Text) :
    (Fits file (trim (content.getD [])) ∧ executeAdd file content =
        (.added (readEntries file ++ [trim (content.getD [])]),
          some (writeEntries (readEntries file ++ [trim (content.getD [])])))) ∨
      ((∀ entries, (executeAdd file content).1 ≠ .added entries ∧
          (executeAdd file content).1 ≠ .removed entries) ∧
        (executeAdd file content).2 = file) := by
  rw [executeAdd]
  dsimp only
  split_ifs with hblank hthere hlong
  · exact .inr ⟨by simp, rfl⟩
  · exact .inr ⟨by simp, rfl⟩
  · exact .inr ⟨by simp, rfl⟩
  · exact .inl ⟨⟨hblank, hthere, not_lt.mp hlong⟩, rfl⟩

theorem executeRemove_cases (file : Option FileText) (old_text : Option Text) :
    (∃ before e after, readEntries file = before ++ e :: after ∧
        executeRemove file old_text =
          (.removed (before ++ after), some (writeEntries (before ++ after)))) ∨
      ((∀ entries, (executeRemove file old_text).1 ≠ .added entries ∧
          (executeRemove file old_text).1 ≠ .removed entries) ∧
        (executeRemove file old_text).2 = file) := by
  rw [executeRemove]
  dsimp only
  split_ifs with hblank
  · exact .inr ⟨by simp, rfl⟩
  · split
    · exact .inr ⟨by simp, rfl⟩
    · next found hfound =>
        left
        have hmem : found ∈ readEntries file := by
          have hin : found ∈ (readEntries file).filter fun e =>
              includes e (trim (old_text.getD [])) := by simp [hfound]
          exact List.mem_of_mem_filter hin
        obtain ⟨before, after, hentries⟩ := List.append_of_mem hmem
        have hmatch : includes found (trim (old_text.getD [])) = true := by
          have hin : found ∈ (readEntries file).filter fun e =>
              includes e (trim (old_text.getD [])) := by simp [hfound]
          exact (List.mem_filter.mp hin).2
        rw [hentries, List.filter_append, List.filter_cons_of_pos (by simpa using hmatch)] at hfound
        -- The text would match another copy of the entry as well.
        have hlength := congrArg List.length hfound
        simp only [List.length_append, List.length_cons, List.length_nil] at hlength
        have hbefore : found ∉ before := by
          intro hin
          have hin' : found ∈ before.filter fun e => includes e (trim (old_text.getD [])) :=
            List.mem_filter.mpr ⟨hin, hmatch⟩
          have hpos := List.length_pos_of_mem hin'
          omega
        have hafter : found ∉ after := by
          intro hin
          have hin' : found ∈ after.filter fun e => includes e (trim (old_text.getD [])) :=
            List.mem_filter.mpr ⟨hin, hmatch⟩
          have hpos := List.length_pos_of_mem hin'
          omega
        have hfilter : (readEntries file).filter (· ≠ found) = before ++ after := by
          have hkeep : ∀ part : List Text, found ∉ part → part.filter (· ≠ found) = part := by
            intro part hpart
            rw [List.filter_eq_self]
            intro e he
            have hne : e ≠ found := fun heq => hpart (heq ▸ he)
            simpa using hne
          rw [hentries, List.filter_append, List.filter_cons_of_neg (by simp), hkeep before hbefore,
            hkeep after hafter]
        exact ⟨before, found, after, hentries, by rw [hfilter]⟩
    · exact .inr ⟨by simp, rfl⟩

theorem rewritable_concat {file : Option FileText} {trimmed : Text} (hne : trim trimmed ≠ [])
    (h : Addable file trimmed) : Rewritable (readEntries file ++ [trimmed]) := by
  have hsame := rewritable_of_sublist (List.Sublist.refl (readEntries file))
  refine ⟨fun pieces last heq => ?_, fun e he => ?_, fun e he => ?_⟩
  · obtain ⟨hpieces, hlast⟩ := List.append_inj' heq rfl
    rw [← hpieces, ← List.head_eq_of_cons_eq hlast]
    refine ⟨fun e he => ?_, free_of_not_includes h.undelimited⟩
    refine ends_of_untailed ?_ (h.untailed e he)
    rcases List.eq_nil_or_concat (readEntries file) with hnil | ⟨before, final, hconcat⟩
    · rw [hnil] at he
      cases he
    · rw [List.concat_eq_append] at hconcat
      obtain ⟨hends, hfree⟩ := hsame.ends before final hconcat
      rw [hconcat] at he
      rcases List.mem_append.mp he with he | he
      · exact (hends e he).free delimiter_ne_nil
      · rw [List.mem_singleton.mp he]
        exact hfree
  · rcases List.mem_append.mp he with he | he
    · exact hsame.nonblank e he
    · rw [List.mem_singleton.mp he]
      exact hne
  · rcases List.mem_append.mp he with he | he
    · exact hsame.wellFormed e he
    · rw [List.mem_singleton.mp he]
      exact h.wellFormed

theorem rightAction_of_other {file : Option FileText} {action : MemoryAction}
    (hother : ∀ entries, (executeMemoryAction file action).1 ≠ .added entries ∧
      (executeMemoryAction file action).1 ≠ .removed entries)
    (hfile : (executeMemoryAction file action).2 = file) : RightAction file action where
  added := fun _ entries _ h => absurd h (hother entries).1
  removed := fun entries h => absurd h (hother entries).2
  other := fun _ => by rw [hfile]

theorem nodup_map_append {L M : List Text} (hL : (L.map trim).Nodup) (hM : (M.map trim).Nodup)
    (h : ∀ m ∈ M, trim m ∉ L.map trim) : ((L ++ M).map trim).Nodup := by
  rw [List.map_append, List.nodup_append']
  refine ⟨hL, hM, ?_⟩
  intro t htL htM
  obtain ⟨m, hm, rfl⟩ := List.mem_map.mp htM
  exact h m hm htL

theorem step_act {file : Option FileText} {toLowerCase : Text → Text} (action : MemoryAction)
    (hdistinct : DistinctEntries file) (h : Meets toLowerCase file (.act action)) :
    RightAction file action ∧ DistinctEntries (executeMemoryAction file action).2 := by
  cases action with
  | add content =>
      rcases executeAdd_cases file content with ⟨hfits, hadd⟩ | ⟨hother, hfile⟩
      · have haddable : Addable file (trim (content.getD [])) := h hfits
        have hne : trim (trim (content.getD [])) ≠ [] := by
          rw [trim_trim]
          exact hfits.1
        have hread := readEntries_write (rewritable_concat hne haddable)
        have hstep : executeMemoryAction file (.add content) =
            (.added (readEntries file ++ [trim (content.getD [])]),
              some (writeEntries (readEntries file ++ [trim (content.getD [])]))) := hadd
        refine ⟨⟨fun content' entries hc _ => ?_, fun entries h => ?_, fun hother => ?_⟩, ?_⟩
        · cases hc
          rw [hstep]
          exact hread
        · rw [hstep] at h
          cases h
        · rw [hstep] at hother
          exact absurd rfl (hother _).1
        · rw [hstep, DistinctEntries, hread]
          refine nodup_map_append hdistinct (List.nodup_singleton _) fun m hm => ?_
          rw [List.mem_singleton.mp hm, trim_trim, List.mem_map]
          intro hin
          obtain ⟨e, he, heq⟩ := hin
          exact haddable.distinct e he heq
      · have hstep : (executeMemoryAction file (.add content)).2 = file := hfile
        refine ⟨rightAction_of_other hother hstep, ?_⟩
        rw [hstep]
        exact hdistinct
  | remove old_text =>
      rcases executeRemove_cases file old_text with ⟨before, e, after, hentries, hremove⟩ |
        ⟨hother, hfile⟩
      · have hsub : (before ++ after).Sublist (readEntries file) := by
          rw [hentries]
          exact (List.Sublist.refl before).append (List.sublist_cons_self e after)
        have hread := readEntries_write (rewritable_of_sublist hsub)
        have hstep : executeMemoryAction file (.remove old_text) =
            (.removed (before ++ after), some (writeEntries (before ++ after))) := hremove
        refine ⟨⟨fun content entries hc => ?_, fun entries _ => ?_, fun hother => ?_⟩, ?_⟩
        · cases hc
        · rw [hstep]
          exact ⟨before, e, after, hentries, hread⟩
        · rw [hstep] at hother
          exact absurd rfl (hother _).2
        · rw [hstep, DistinctEntries, hread]
          exact hdistinct.sublist (hsub.map trim)
      · have hstep : (executeMemoryAction file (.remove old_text)).2 = file := hfile
        refine ⟨rightAction_of_other hother hstep, ?_⟩
        rw [hstep]
        exact hdistinct

/-! ## The consolidation -/

theorem newline_not_mem_fact {log : FileText} {f : Text} (h : f ∈ factsOf log.text) :
    newline ∉ f.drop 2 := by
  intro hin
  have hnone := not_mem_splitOnP f (mem_factsOf.mp h).1 newline (List.mem_of_mem_drop hin)
  exact absurd hnone (by decide)

theorem free_of_newline_not_mem {e : Text} (h : newline ∉ e) : Free ENTRY_DELIMITER e := by
  intro a b heq
  refine h ?_
  rw [heq, show ENTRY_DELIMITER = [newline, 167, newline] by decide]
  simp

theorem not_tailed_of_newline_not_mem {e : Text} (h : newline ∉ e) : ¬ Tailed e := by
  intro htail
  exact h (htail.subset (List.mem_cons_self))

theorem trim_concat_newline (s : Text) : trim (s ++ [newline]) = trim s := by
  rw [trim, trim, List.dropWhile_append]
  split_ifs with hempty
  · rw [List.isEmpty_iff] at hempty
    rw [hempty]
    rfl
  · exact List.rdropWhile_concat_pos isSpace _ _ (by decide)

/-- The section is read as the facts, the last one with a line feed. -/
theorem splitOn_section {facts : List Text} {last : Text}
    (h : ∀ f ∈ facts ++ [last], newline ∉ f) :
    splitOn ENTRY_DELIMITER (join ENTRY_DELIMITER (facts ++ [last]) ++ [newline]) =
      facts ++ [last ++ [newline]] := by
  have hjoin : join ENTRY_DELIMITER (facts ++ [last]) ++ [newline] =
      rejoin ENTRY_DELIMITER facts (last ++ [newline]) := by
    rw [join, intercalate_concat, rejoin, rejoin, List.append_assoc]
  rw [hjoin]
  refine splitOn_rejoin delimiter_ne_nil (fun f hf => ?_) fun a b heq => ?_
  · have hf' := h f (List.mem_append_left _ hf)
    exact ends_of_untailed (free_of_newline_not_mem hf') (not_tailed_of_newline_not_mem hf')
  · -- Two line feeds would be in it.
    have hcount := congrArg (List.count newline) heq
    have hlast : List.count newline last = 0 :=
      List.count_eq_zero.mpr (h last (by simp))
    have htwo : List.count newline ENTRY_DELIMITER = 2 := by decide
    rw [List.count_append, List.count_append, List.count_append, hlast, htwo,
      List.count_singleton_self] at hcount
    omega

theorem tailed_last {raw : FileText} (h : ∀ e ∈ readEntries (some raw), ¬ Tailed e)
    {pieces : List Text} {last : Text}
    (hsplit : splitOn ENTRY_DELIMITER raw.text = pieces ++ [last]) : ¬ Tailed last := by
  intro htail
  refine h last ?_ htail
  rw [readEntries_some, hsplit, List.mem_filter]
  refine ⟨by simp, ?_⟩
  have hin : (167 : UInt16) ∈ last := htail.subset (by simp)
  have hne : trim last ≠ [] := by
    intro hblank
    have hspace := trim_eq_nil_iff.mp hblank 167 hin
    exact absurd hspace (by decide)
  simpa using hne

/-- What a consolidation adds to the entries. -/
theorem readEntries_append {file : Option FileText} {facts : List Text} {last : Text}
    (huntailed : ∀ e ∈ readEntries file, ¬ Tailed e)
    (hnewline : ∀ f ∈ facts ++ [last], newline ∉ f)
    (hwf : WellFormed (ENTRY_DELIMITER ++ (join ENTRY_DELIMITER (facts ++ [last]) ++ [newline]))) :
    readEntries (some (.append file
        (ENTRY_DELIMITER ++ (join ENTRY_DELIMITER (facts ++ [last]) ++ [newline])))) =
      readEntries file ++ (facts ++ [last ++ [newline]]).filter fun e => trim e ≠ [] := by
  have htext := textOf_append file hwf
  rw [textOf] at htext
  rw [readEntries_some, htext]
  cases file with
  | none =>
      show List.filter _ (splitOn ENTRY_DELIMITER (ENTRY_DELIMITER ++ _)) = [] ++ _
      rw [splitOn_sep delimiter_ne_nil, splitOn_section hnewline]
      rfl
  | some raw =>
      obtain ⟨pieces, last', hsplit, -, -, hfree⟩ := splitOn_spec delimiter_ne_nil raw.text
      have hends := ends_of_untailed hfree (tailed_last huntailed hsplit)
      show List.filter _ (splitOn ENTRY_DELIMITER (raw.text ++ (ENTRY_DELIMITER ++ _))) = _
      rw [splitOn_append delimiter_ne_nil hsplit hends, splitOn_section hnewline,
        List.filter_append, readEntries_some]

theorem step_consolidate {file : Option FileText} {toLowerCase : Text → Text}
    {sessionLog : Option FileText} (hdistinct : DistinctEntries file)
    (h : Meets toLowerCase file (.consolidate sessionLog)) :
    DistinctEntries (consolidateMemory toLowerCase sessionLog file).memoryFile := by
  cases sessionLog with
  | none => exact hdistinct
  | some log =>
      rw [consolidateMemory]
      dsimp only
      split_ifs with hshort hnone
      · exact hdistinct
      · exact hdistinct
      · have happend := h log rfl (not_lt.mp hshort) hnone
        have hfacts : ∀ f ∈ newFactsOf toLowerCase file log.text, f ∈ factsOf log.text :=
          fun f hf => (mem_newFactsOf.mp hf).1
        have hsection := wellFormed_sectionOf fun f hf => wellFormed_fact (hfacts f hf)
        generalize newFactsOf toLowerCase file log.text = new at hnone happend hfacts hsection
        rcases List.eq_nil_or_concat new with hnil | ⟨facts, last, hconcat⟩
        · exact absurd hnil hnone
        · rw [List.concat_eq_append] at hconcat
          have hnewline : ∀ f ∈ facts.map (List.drop 2) ++ [last.drop 2], newline ∉ f := by
            intro f hf
            rcases List.mem_append.mp hf with hf | hf
            · obtain ⟨g, hg, rfl⟩ := List.mem_map.mp hf
              exact newline_not_mem_fact (hfacts g (by simp [hconcat, hg]))
            · rw [List.mem_singleton.mp hf]
              exact newline_not_mem_fact (hfacts last (by simp [hconcat]))
          have hmap : new.map (List.drop 2) = facts.map (List.drop 2) ++ [last.drop 2] := by
            rw [hconcat, List.map_append]
            rfl
          rw [sectionOf, hmap] at hsection
          rw [sectionOf, hmap, DistinctEntries,
            readEntries_append happend.untailed hnewline hsection]
          have htrims : (facts.map (List.drop 2) ++ [last.drop 2 ++ [newline]]).map trim =
              new.map fun f => trim (f.drop 2) := by
            rw [hconcat]
            simp [trim_concat_newline]
          have hall := nodup_map_append (L := readEntries file)
            (M := facts.map (List.drop 2) ++ [last.drop 2 ++ [newline]]) hdistinct
            (by rw [htrims]; exact happend.distinct) ?_
          · exact hall.sublist ((List.Sublist.refl _ |>.append List.filter_sublist).map trim)
          · intro m hm
            have hin : trim m ∈ new.map fun f => trim (f.drop 2) := by
              rw [← htrims]
              exact List.mem_map_of_mem hm
            obtain ⟨f, hf, heq⟩ := List.mem_map.mp hin
            rw [← heq]
            exact happend.fresh f hf

/-! ## Every run -/

/-- As long as the steps meet the condition, every action does to the entries
what it reports, and no entry comes twice. -/
theorem memory_round_trip (toLowerCase : Text → Text) (ops : List MemoryStep)
    (h : Along (memoryStep toLowerCase) (Meets toLowerCase) none ops) :
    Along (memoryStep toLowerCase) RightStep none ops ∧
      Throughout (memoryStep toLowerCase) DistinctEntries none ops := by
  have hstep : ∀ file op, DistinctEntries file → Meets toLowerCase file op →
      RightStep file op ∧ DistinctEntries (memoryStep toLowerCase file op) := by
    intro file op hdistinct hmeets
    cases op with
    | act action => exact step_act action hdistinct hmeets
    | consolidate sessionLog => exact ⟨trivial, step_consolidate hdistinct hmeets⟩
  have hstart : DistinctEntries none := List.nodup_nil
  exact ⟨along_of_step hstep hstart h,
    throughout_of_step (fun file op hd hm => (hstep file op hd hm).2) hstart h⟩

def sampleSteps : List MemoryStep :=
  [.act (.add (some (js " build with make "))), .consolidate (some flushedLog),
    .act (.remove (some (js "make")))]

theorem memory_round_trip_sample :
    Along (memoryStep id) RightStep none sampleSteps ∧
      Throughout (memoryStep id) DistinctEntries none sampleSteps := by
  refine memory_round_trip id sampleSteps ⟨fun _ => ⟨by decide, by decide, by decide, by decide⟩,
    fun log hlog _ _ => ?_, trivial, trivial⟩
  cases hlog
  exact ⟨by decide, by decide, by decide⟩

/-- An entry with a delimiter in it comes back as two; and a fact that the
consolidation has added can be added again. -/
theorem entry_comes_apart :
    ¬ Along (memoryStep id) RightStep none [.act (.add (some (js "a\n§\nb")))] ∧
      ¬ Throughout (memoryStep id) DistinctEntries none
        [.consolidate (some flushedLog), .act (.add (some (js "deploys need an approval")))] := by
  constructor
  · intro h
    have hadded := h.1.added (some (js "a\n§\nb")) [js "a\n§\nb"] rfl rfl
    exact absurd hadded (by decide)
  · intro h
    have hlast : DistinctEntries _ := h.last
    exact absurd hlast (show ¬ List.Nodup _ by decide)

end Shizuha.Memory
