import Shizuha.Memory.Entries

/-!
# What a consolidation keeps

The log is emptied as a whole once one of its facts is new. So every bullet has
to be in what was appended or be known already, and "known" asks for all
keywords of a fact, of which there may be none. A fact with a keyword is appended
or its keywords are in the memory (`consolidation_keeps`); what stands in the log
beside the bullets goes with it.
-/

namespace Shizuha.Memory

open Js

variable {toLowerCase : Text → Text} {log : FileText} {memoryFile : Option FileText}

/-- What is in the file, if there is one. -/
def textOf (file : Option FileText) : Text :=
  match file with
  | none => []
  | some raw => raw.text

/-- The consolidation has emptied the log. -/
def Empties (toLowerCase : Text → Text) (log : FileText) (memoryFile : Option FileText) : Prop :=
  (consolidateMemory toLowerCase (some log) memoryFile).sessionLog = some (.of [])

/-- The entries are what was added to the end of the memory, each after a
delimiter. -/
def Appends (toLowerCase : Text → Text) (log : FileText) (memoryFile : Option FileText)
    (entries : List Text) : Prop :=
  textOf (consolidateMemory toLowerCase (some log) memoryFile).memoryFile =
    textOf memoryFile ++ (ENTRY_DELIMITER ++ (join ENTRY_DELIMITER entries ++ [newline]))

/-- The memory has a keyword of the fact, and all that were selected. -/
def HasKeywords (toLowerCase : Text → Text) (memoryFile : Option FileText) (fact : Text) : Prop :=
  keywordsOf toLowerCase fact ≠ [] ∧
    ∀ kw ∈ keywordsOf toLowerCase fact,
      includes (existingOf toLowerCase memoryFile) kw = true

/-- Nothing of the log is lost when it is emptied. -/
structure ForgetsNothing (toLowerCase : Text → Text) (log : FileText)
    (memoryFile : Option FileText) : Prop where
  facts : ∀ line ∈ logLines log.text, isBullet line = true →
    (∃ entries, Appends toLowerCase log memoryFile entries ∧ line.drop 2 ∈ entries) ∨
      HasKeywords toLowerCase memoryFile line
  others : ∀ line ∈ logLines log.text, isBullet line = false → line ≠ [] →
    line ∈ logLines (textOf (consolidateMemory toLowerCase (some log) memoryFile).sessionLog)

/-! ## The facts are read and written as they are -/

theorem not_surrogate_of_isTerminator (u : UInt16) (h : isTerminator u = true) :
    isHighSurrogate u = false ∧ isLowSurrogate u = false := by
  simp only [isTerminator, Bool.or_eq_true, beq_iff_eq] at h
  rcases h with ((rfl | rfl) | rfl) | rfl <;> decide

theorem mem_factsOf {content f : Text} :
    f ∈ factsOf content ↔ f ∈ logLines content ∧ isBullet f = true := List.mem_filter

theorem isBullet_split {line : Text} (h : isBullet line = true) :
    line = js "- " ++ line.drop 2 := by
  rw [isBullet, Bool.and_eq_true] at h
  obtain ⟨rest, rfl⟩ := List.isPrefixOf_iff_prefix.mp h.1
  rfl

theorem wellFormed_fact {f : Text} (h : f ∈ factsOf log.text) : WellFormed (f.drop 2) := by
  obtain ⟨hline, hbullet⟩ := mem_factsOf.mp h
  have hwf := wellFormed_splitOnP not_surrogate_of_isTerminator log.wellFormed f hline
  rw [isBullet_split hbullet] at hwf
  have hsplit : js "- " ++ f.drop 2 = [45] ++ 32 :: f.drop 2 := rfl
  rw [hsplit] at hwf
  exact (wellFormed_split (by decide) (by decide) hwf).2

theorem wellFormed_join {sep : Text} (hsep : WellFormed sep) {parts : List Text}
    (h : ∀ p ∈ parts, WellFormed p) : WellFormed (join sep parts) := by
  induction parts with
  | nil => rfl
  | cons part parts ih =>
      have hrest := ih fun p hp => h p (List.mem_cons_of_mem _ hp)
      cases parts with
      | nil => simpa [join] using h part List.mem_cons_self
      | cons next rest =>
          have hcons : join sep (part :: next :: rest) =
              part ++ (sep ++ join sep (next :: rest)) := by
            rw [join, List.intercalate_cons_cons, List.append_assoc]
            rfl
          rw [hcons]
          exact (h part List.mem_cons_self).append (hsep.append hrest)

theorem wellFormed_delimiter : WellFormed ENTRY_DELIMITER := by decide

theorem wellFormed_sectionOf {facts : List Text} (h : ∀ f ∈ facts, WellFormed (f.drop 2)) :
    WellFormed (sectionOf facts) := by
  have hparts : ∀ p ∈ facts.map (List.drop 2), WellFormed p := by
    intro p hp
    obtain ⟨f, hf, rfl⟩ := List.mem_map.mp hp
    exact h f hf
  exact wellFormed_delimiter.append
    ((wellFormed_join wellFormed_delimiter hparts).append (by decide))

theorem textOf_append (file : Option FileText) {s : Text} (h : WellFormed s) :
    textOf (some (.append file s)) = textOf file ++ s := by
  cases file with
  | none => exact h
  | some raw => exact congrArg (raw.text ++ ·) h

/-! ## What is kept -/

theorem mem_newFactsOf {f : Text} :
    f ∈ newFactsOf toLowerCase memoryFile log.text ↔ f ∈ factsOf log.text ∧
      isKnown toLowerCase (existingOf toLowerCase memoryFile) f = false := by
  rw [newFactsOf, List.mem_filter, Bool.not_eq_true']

/-- The log is emptied when there is something new in it, and then the new facts
are appended. -/
theorem consolidateMemory_empties (h : Empties toLowerCase log memoryFile) :
    log.text = [] ∨
      (consolidateMemory toLowerCase (some log) memoryFile).memoryFile =
        some (.append memoryFile (sectionOf (newFactsOf toLowerCase memoryFile log.text))) := by
  rw [Empties, consolidateMemory] at h
  rw [consolidateMemory]
  dsimp only at h ⊢
  split_ifs at h ⊢ with hshort hnone
  · left
    rw [Option.some.inj h]
    rfl
  · left
    rw [Option.some.inj h]
    rfl
  · exact .inr rfl

theorem appends_newFacts (h : Empties toLowerCase log memoryFile) (hlog : log.text ≠ []) :
    Appends toLowerCase log memoryFile
      ((newFactsOf toLowerCase memoryFile log.text).map (List.drop 2)) := by
  have hfile := (consolidateMemory_empties h).resolve_left hlog
  have hwf : WellFormed (sectionOf (newFactsOf toLowerCase memoryFile log.text)) :=
    wellFormed_sectionOf fun f hf => wellFormed_fact (mem_newFactsOf.mp hf).1
  rw [Appends, hfile, textOf_append memoryFile hwf]
  rfl

/-- When a consolidation empties the log, it has appended the new facts and
nothing else, and a fact with a keyword is one of them unless the memory has its
keywords. -/
theorem consolidation_keeps (toLowerCase : Text → Text) (log : FileText)
    (memoryFile : Option FileText) (h : Empties toLowerCase log memoryFile)
    (hlog : log.text ≠ []) :
    ∃ entries, Appends toLowerCase log memoryFile entries ∧
      (∀ e ∈ entries, js "- " ++ e ∈ logLines log.text) ∧
      ∀ line ∈ logLines log.text, isBullet line = true → keywordsOf toLowerCase line ≠ [] →
        line.drop 2 ∈ entries ∨ HasKeywords toLowerCase memoryFile line := by
  refine ⟨_, appends_newFacts h hlog, fun e he => ?_, fun line hline hbullet hkeywords => ?_⟩
  · obtain ⟨f, hf, rfl⟩ := List.mem_map.mp he
    obtain ⟨hline, hbullet⟩ := mem_factsOf.mp (mem_newFactsOf.mp hf).1
    rw [← isBullet_split hbullet]
    exact hline
  · by_cases hknown : isKnown toLowerCase (existingOf toLowerCase memoryFile) line = true
    · exact .inr ⟨hkeywords, List.all_eq_true.mp hknown⟩
    · left
      exact List.mem_map_of_mem (mem_newFactsOf.mpr
        ⟨mem_factsOf.mpr ⟨hline, hbullet⟩, Bool.eq_false_iff.mpr hknown⟩)

/-- A log as the flush before a compaction writes it. -/
def flushedLog : FileText where
  text := js "\n## Auto-saved before compaction\n- use tabs for code\n- deploys need an approval\n"
  wellFormed := by decide

theorem consolidation_keeps_flushed :
    ∃ entries, Appends id flushedLog none entries ∧
      (∀ e ∈ entries, js "- " ++ e ∈ logLines flushedLog.text) ∧
      ∀ line ∈ logLines flushedLog.text, isBullet line = true → keywordsOf id line ≠ [] →
        line.drop 2 ∈ entries ∨ HasKeywords id none line :=
  consolidation_keeps id flushedLog none rfl (by decide)

/-- The heading goes with the log, and it is nowhere else. -/
theorem heading_erased :
    Empties id flushedLog none ∧ ¬ ForgetsNothing id flushedLog none := by
  refine ⟨rfl, fun h => ?_⟩
  have hheading := h.others (js "## Auto-saved before compaction") (by decide) (by decide)
    (by decide)
  exact absurd hheading (by decide)

end Shizuha.Memory
