import Shizuha.State.Anchor
import Shizuha.Machine

/-!
# When the task anchor survives compaction

The summary message is an encoding of the anchor in free text: the heading,
the anchor, a blank line and the next heading. The reader finds the heading
and takes what follows, up to the first line that opens with one to three
hashes and a space. So the code is a code exactly when the anchor has no such
line of its own. When a later line of the anchor opens a heading the reader
stops there and a strictly shorter task comes back; when the first line does,
the section reads as empty and the task is looked for again in what was kept.
-/

namespace Shizuha.State

open Js Agent

/-! ## Lines that open a heading -/

/-- At most `k` more hashes, and then a space. -/
def hashesThenSpace : ℕ → Text → Bool
  | _, [] => false
  | 0, u :: _ => u == 32
  | k + 1, u :: s => u == 32 || (u == 35 && hashesThenSpace k s)

/-- One to three hashes and a space at the head of a text. -/
def opensHeading : Text → Bool
  | [] => false
  | u :: s => u == 35 && hashesThenSpace 2 s

/-- What the reader's pattern matches: a line feed, and a line that opens a
heading. -/
def breaksSection : Text → Bool
  | [] => false
  | u :: s => u == newline && opensHeading s

/-- The rounds of the hash quantifier, followed by the space. -/
theorem hash_rounds (k fuel : ℕ) (left s : Text) (g : Option Text) (hfuel : s.length < fuel) :
    (rounds (Regex.unit (· == 35)).run true fuel 0 (some k) ⟨left, s, g⟩).flatMap
      (Regex.unit (· == 32)).run = [] ↔ hashesThenSpace k s = false := by
  induction k generalizing fuel left s with
  | zero =>
      obtain ⟨fuel, rfl⟩ : ∃ n, fuel = n + 1 := ⟨fuel - 1, by omega⟩
      cases s <;> simp [rounds, Regex.run, hashesThenSpace]
  | succ k ih =>
      obtain ⟨fuel, rfl⟩ : ∃ n, fuel = n + 1 := ⟨fuel - 1, by omega⟩
      cases s with
      | nil => simp [rounds, Regex.run, hashesThenSpace]
      | cons u s =>
          have ih := ih fuel (u :: left) s (by simpa using hfuel)
          by_cases hu : u = 35
          · subst hu
            have hbody : (Regex.unit (· == 35)).run ⟨left, 35 :: s, g⟩ = [⟨35 :: left, s, g⟩] := by
              simp [Regex.run]
            have hspace : (Regex.unit (· == 32)).run ⟨left, 35 :: s, g⟩ = [] := by
              simp [Regex.run]
            simp only [rounds, hbody, hashesThenSpace]
            simpa [hspace] using ih
          · simp [rounds, Regex.run, hashesThenSpace, hu]

theorem headingBreak_run (left s : Text) :
    headingBreak.run ⟨left, s, none⟩ = [] ↔ breaksSection s = false := by
  have hunfold : headingBreak.run ⟨left, s, none⟩ =
      (((Regex.unit (· == newline)).run ⟨left, s, none⟩).flatMap fun d =>
        ((Regex.rep true 1 (some 3) (Regex.unit (· == 35))).run d).flatMap
          (Regex.unit (· == 32)).run) := rfl
  rw [hunfold]
  cases s with
  | nil => simp [Regex.run, breaksSection]
  | cons u s =>
      by_cases hu : u = newline
      · subst hu
        cases s with
        | nil => simp [Regex.run, rounds, breaksSection, opensHeading]
        | cons v s =>
            have hrounds := hash_rounds 2 (1 + (v :: s).length) (v :: newline :: left) s none
              (by simp; omega)
            by_cases hv : v = 35
            · subst hv
              simpa [Regex.run, rounds, breaksSection, opensHeading] using hrounds
            · simp [Regex.run, rounds, breaksSection, opensHeading, hv]
      · simp [Regex.run, breaksSection, hu]

theorem sectionBody_eq (after : Text) :
    sectionBody after = trim (cutWhere breaksSection after) := by
  have h := before_execFrom (r := headingBreak) rfl headingBreak_run [] after
  simp only [List.reverse_nil, List.nil_append] at h
  rw [← h, sectionBody, Regex.exec]
  cases headingBreak.execFrom [] after <;> rfl

/-! ## Cutting an anchor out of what follows it -/

theorem hashesThenSpace_append (k : ℕ) (s t : Text) :
    hashesThenSpace k (s ++ newline :: t) = hashesThenSpace k s := by
  induction k generalizing s with
  | zero => cases s <;> rfl
  | succ k ih =>
      cases s with
      | nil => rfl
      | cons u s => rw [List.cons_append, hashesThenSpace, hashesThenSpace, ih]

/-- A heading opens within its line. -/
theorem opensHeading_append (s t : Text) : opensHeading (s ++ newline :: t) = opensHeading s := by
  cases s with
  | nil => rfl
  | cons u s => rw [List.cons_append, opensHeading, opensHeading, hashesThenSpace_append]

theorem breaksSection_append {s : Text} (hs : s ≠ []) (t : Text) :
    breaksSection (s ++ newline :: t) = breaksSection s := by
  cases s with
  | nil => exact absurd rfl hs
  | cons u s => rw [List.cons_append, breaksSection, breaksSection, opensHeading_append]

/-- Either no line after the first opens a heading and the cut reaches past
the anchor, or it falls inside. -/
theorem cutWhere_append (a t : Text) :
    cutWhere breaksSection (a ++ newline :: t) =
      if cutWhere breaksSection a = a then a ++ cutWhere breaksSection (newline :: t)
      else cutWhere breaksSection a := by
  induction a with
  | nil => exact (if_pos rfl).symm
  | cons u s ih =>
      have hbreak := breaksSection_append (List.cons_ne_nil u s) t
      rw [List.cons_append] at hbreak
      rw [List.cons_append, cutWhere, hbreak]
      cases h : breaksSection (u :: s) with
      | true => simp [cutWhere, h]
      | false =>
          rw [if_neg Bool.false_ne_true, ih]
          have hcut : cutWhere breaksSection (u :: s) = u :: cutWhere breaksSection s := by
            rw [cutWhere, h, if_neg Bool.false_ne_true]
          rw [hcut]
          split_ifs with h1 h2 h2
          · rfl
          · exact absurd (by rw [h1]) h2
          · exact absurd (List.cons.inj h2).2 h1
          · rfl

theorem cutWhere_isPrefix (P : Text → Bool) (s : Text) : cutWhere P s <+: s := by
  induction s with
  | nil => exact List.prefix_rfl
  | cons u s ih =>
      rw [cutWhere]
      split_ifs
      · exact List.nil_prefix
      · exact List.cons_prefix_cons.mpr ⟨rfl, ih⟩

theorem cutWhere_length_lt {P : Text → Bool} {s : Text} (h : cutWhere P s ≠ s) :
    (cutWhere P s).length < s.length :=
  lt_of_le_of_ne (cutWhere_isPrefix P s).length_le
    fun heq => h ((cutWhere_isPrefix P s).eq_of_length heq)

/-! The lines of a text, and the two places a heading can open. -/

/-- A text is its first line, or goes on after it. -/
def FirstLine (l s : Text) : Prop := s = l ∨ ∃ t, s = l ++ newline :: t

theorem FirstLine.opensHeading {l s : Text} (h : FirstLine l s) :
    opensHeading s = opensHeading l := by
  rcases h with rfl | ⟨t, rfl⟩
  · rfl
  · exact opensHeading_append l t

theorem lines_spec (s : Text) :
    ∃ l ls, lines s = l :: ls ∧ FirstLine l s ∧
      (cutWhere breaksSection s = s ↔ ∀ l' ∈ ls, opensHeading l' = false) := by
  induction s with
  | nil => exact ⟨[], [], rfl, Or.inl rfl, by simp [cutWhere]⟩
  | cons u s ih =>
      obtain ⟨l, ls, hlines, hfirst, hcut⟩ := ih
      by_cases hu : u = newline
      · subst hu
        refine ⟨[], l :: ls, by rw [lines, if_pos rfl, hlines], Or.inr ⟨s, rfl⟩, ?_⟩
        have hbreak : breaksSection (newline :: s) = opensHeading l := by
          rw [breaksSection, hfirst.opensHeading]
          rfl
        rw [cutWhere, hbreak]
        cases h : opensHeading l with
        | true => simp [h]
        | false => simp [h, hcut]
      · refine ⟨u :: l, ls, by rw [lines, if_neg hu, hlines], ?_, ?_⟩
        · rcases hfirst with rfl | ⟨t, rfl⟩
          · exact Or.inl rfl
          · exact Or.inr ⟨t, rfl⟩
        · have hbreak : breaksSection (u :: s) = false := by simp [breaksSection, hu]
          rw [cutWhere, hbreak, if_neg Bool.false_ne_true]
          simp [hcut]

/-! ## The section of a summary message -/

/-- What follows an anchor in a summary message: a blank line and a heading. -/
def SectionEnd (t : Text) : Prop := ∃ t', t = newline :: newline :: 35 :: 35 :: 32 :: t'

theorem SectionEnd.cut {t : Text} (h : SectionEnd t) :
    ∃ t', t = newline :: t' ∧ cutWhere breaksSection t = [newline] ∧
      opensHeading t' = false := by
  obtain ⟨t', rfl⟩ := h
  have hne : newline ≠ 35 := by decide
  exact ⟨_, rfl, by simp [cutWhere, breaksSection, opensHeading, hashesThenSpace, hne], by
    simp [opensHeading, hne]⟩

theorem space_newline {u : UInt16} (h : u ∈ [newline]) : isSpace u = true := by
  rw [List.mem_singleton.mp h]
  rfl

/-- The section reads as empty, as the anchor or as less than the anchor,
according to the first line of the anchor that opens a heading. -/
theorem sectionBody_anchor {a t : Text} (ha : Trimmed a) (hne : a ≠ []) (ht : SectionEnd t) :
    (opensHeading a = true → sectionBody (newline :: (a ++ t)) = []) ∧
    ((∀ l ∈ lines a, opensHeading l = false) → sectionBody (newline :: (a ++ t)) = a) ∧
    (opensHeading a = false → (∃ l ∈ lines a, opensHeading l = true) →
      sectionBody (newline :: (a ++ t)) ≠ [] ∧ sectionBody (newline :: (a ++ t)) ≠ a) := by
  obtain ⟨t', rfl, hcut, -⟩ := ht.cut
  obtain ⟨l, ls, hlines, hfirst, hls⟩ := lines_spec a
  have hopen : breaksSection (newline :: (a ++ newline :: t')) = opensHeading a := by
    rw [breaksSection, opensHeading_append]
    rfl
  rw [sectionBody_eq, cutWhere, hopen]
  refine ⟨fun h => ?_, fun h => ?_, fun h hlater => ?_⟩
  · rw [h, if_pos rfl]
    rfl
  · rw [hlines] at h
    have h0 : opensHeading a = false := hfirst.opensHeading.trans (h l (by simp))
    have hself := hls.mpr fun l' hl' => h l' (by simp [hl'])
    rw [h0, if_neg Bool.false_ne_true, cutWhere_append, if_pos hself, hcut,
      ← List.singleton_append, ← List.append_assoc]
    exact trim_surround (fun _ => space_newline) (fun _ => space_newline) ha
  · have hself : cutWhere breaksSection a ≠ a := by
      intro hself
      obtain ⟨l', hl', htrue⟩ := hlater
      rw [hlines, List.mem_cons] at hl'
      rcases hl' with rfl | hl'
      · rw [← hfirst.opensHeading, h] at htrue
        exact Bool.false_ne_true htrue
      · rw [hls.mp hself l' hl'] at htrue
        exact Bool.false_ne_true htrue
    rw [h, if_neg Bool.false_ne_true, cutWhere_append, if_neg hself]
    -- The anchor starts with something that is not white space, and the cut
    -- keeps it.
    obtain ⟨u, s, rfl⟩ := List.exists_cons_of_ne_nil hne
    have hu : isSpace u = false := ha.head u (by simp)
    have hu' : u ≠ newline := by
      rintro rfl
      exact absurd hu (by decide)
    obtain ⟨c, hc⟩ : ∃ c, cutWhere breaksSection (u :: s) = u :: c := by
      rw [cutWhere, if_neg (by simp [breaksSection, hu'])]
      exact ⟨_, rfl⟩
    have hlen := cutWhere_length_lt hself
    have htrim : trim (newline :: cutWhere breaksSection (u :: s)) =
        trim (cutWhere breaksSection (u :: s)) := by
      rw [trim, trim, List.dropWhile_cons_of_pos (by rfl)]
    rw [htrim]
    constructor
    · rw [hc, ← List.singleton_append]
      obtain ⟨d, hd⟩ := trim_append (a := [u]) (b := c) (by simp)
        ⟨by simpa using hu, by simpa using hu⟩
      rw [hd]
      simp
    · intro heq
      have hle := length_trim_le (cutWhere breaksSection (u :: s))
      rw [heq] at hle
      omega

/-! ## What is read from the projection -/

theorem userInstruction_trimmed (m : Message) : Trimmed (userInstruction m) := by
  have hnil : Trimmed [] := ⟨by simp, by simp⟩
  rw [userInstruction]
  split_ifs
  · exact hnil
  · dsimp only
    split_ifs
    · exact hnil
    · exact trim_trimmed _

theorem firstUserInstruction_trimmed (messages : List Message) :
    Trimmed (firstUserInstruction messages) := by
  induction messages with
  | nil => exact ⟨by simp [firstUserInstruction], by simp [firstUserInstruction]⟩
  | cons m rest ih =>
      rw [firstUserInstruction]
      split_ifs
      · exact ih
      · exact userInstruction_trimmed m

theorem sectionFromPriorSummary_trimmed (messages : List Message) (heading : Text) :
    Trimmed (sectionFromPriorSummary messages heading) := by
  induction messages with
  | nil => exact ⟨by simp [sectionFromPriorSummary], by simp [sectionFromPriorSummary]⟩
  | cons m rest ih =>
      rw [sectionFromPriorSummary]
      split
      · exact ih
      · dsimp only
        split_ifs
        · exact ih
        · rw [sectionBody_eq]
          exact trim_trimmed _

theorem extractTaskAnchor_trimmed (messages : List Message) :
    Trimmed (extractTaskAnchor messages) := by
  rw [extractTaskAnchor]
  split_ifs
  · exact firstUserInstruction_trimmed messages
  · exact sectionFromPriorSummary_trimmed messages TASK_ANCHOR_HEADING

theorem taskAnchorHeading_cons : TASK_ANCHOR_HEADING = 35 :: TASK_ANCHOR_HEADING.tail := by
  simp [TASK_ANCHOR_HEADING, js, unitsOf]

theorem currentTaskHeading_cons :
    CURRENT_TASK_HEADING = 35 :: 35 :: 32 :: CURRENT_TASK_HEADING.drop 3 := by
  simp [CURRENT_TASK_HEADING, js, unitsOf]

theorem summaryHeading_cons : js "\n\n## Summary\n" =
    newline :: newline :: 35 :: 35 :: 32 :: (js "\n\n## Summary\n").drop 5 := by
  simp [js, unitsOf]

theorem anchorBlocks_eq {messages : List Message} (hne : extractTaskAnchor messages ≠ []) :
    anchorBlocks messages = [TASK_ANCHOR_HEADING ++ newline :: extractTaskAnchor messages] ∨
    ∃ c, anchorBlocks messages = [TASK_ANCHOR_HEADING ++ newline :: extractTaskAnchor messages,
      CURRENT_TASK_HEADING ++ c] := by
  rw [anchorBlocks, if_pos hne, List.append_assoc, List.singleton_append, List.filter_cons_of_pos (by simp)]
  split_ifs with h
  · rw [List.append_assoc, List.filter_cons_of_pos (by simp)]
    exact Or.inr ⟨_, rfl⟩
  · exact Or.inl rfl

/-- The summary message holds the heading, the anchor and then the end of the
section, whatever else it holds. -/
theorem summaryBody_eq {messages : List Message} (summary : Text)
    (hne : extractTaskAnchor messages ≠ []) :
    ∃ t, SectionEnd t ∧ summaryBody messages summary =
      TASK_ANCHOR_HEADING ++ newline :: (extractTaskAnchor messages ++ t) := by
  rw [summaryBody]
  rcases anchorBlocks_eq hne with h | ⟨c, h⟩
  · rw [h, if_pos (by simp)]
    refine ⟨js "\n\n## Summary\n" ++ summary, ⟨(js "\n\n## Summary\n").drop 5 ++ summary, ?_⟩, ?_⟩
    · rw [summaryHeading_cons]
      simp
    · simp [join]
  · rw [h, if_pos (by simp)]
    refine ⟨[newline, newline] ++ CURRENT_TASK_HEADING ++ c ++ js "\n\n## Summary\n" ++ summary,
      ⟨CURRENT_TASK_HEADING.drop 3 ++ c ++ js "\n\n## Summary\n" ++ summary, ?_⟩, ?_⟩
    · rw [currentTaskHeading_cons]
      simp
    · simp [join, List.intercalate]

theorem userInstruction_summaryMessage (host : ProjectionHost) (messages : List Message)
    (summary : Text) : userInstruction (summaryMessage host messages summary) = [] := by
  obtain ⟨c, hc⟩ := trim_append (a := SUMMARY_ENVELOPE) (b := newline :: summaryBody messages summary)
    (by decide) ⟨by simp [SUMMARY_ENVELOPE, js, unitsOf, isSpace],
      by simp [SUMMARY_ENVELOPE, js, unitsOf, isSpace]⟩
  have htext : fallbackMessageText (summaryMessage host messages summary) =
      SUMMARY_ENVELOPE ++ newline :: summaryBody messages summary := by
    simp [summaryMessage, plainMessage, fallbackMessageText]
  rw [userInstruction, htext, hc]
  split_ifs
  · rfl
  · exact if_pos (startsWith_append _ _)

/-- The section read back from a summary message, if it reads as anything. -/
theorem sectionFromPriorSummary_summaryMessage (host : ProjectionHost) {messages : List Message}
    (summary : Text) (hne : extractTaskAnchor messages ≠ []) (rest : List Message) :
    ∃ t, SectionEnd t ∧
      sectionFromPriorSummary (summaryMessage host messages summary :: rest) TASK_ANCHOR_HEADING =
        if sectionBody (newline :: (extractTaskAnchor messages ++ t)) = [] then
          sectionFromPriorSummary rest TASK_ANCHOR_HEADING
        else sectionBody (newline :: (extractTaskAnchor messages ++ t)) := by
  obtain ⟨t, ht, hbody⟩ := summaryBody_eq summary hne
  refine ⟨t, ht, ?_⟩
  have hcontent : stringContent (summaryMessage host messages summary) =
      (SUMMARY_ENVELOPE ++ [newline]) ++
        (TASK_ANCHOR_HEADING ++ newline :: (extractTaskAnchor messages ++ t)) := by
    rw [← hbody]
    simp [summaryMessage, plainMessage, stringContent]
  have hat : indexOf TASK_ANCHOR_HEADING (stringContent (summaryMessage host messages summary)) =
      some (SUMMARY_ENVELOPE ++ [newline]).length := by
    rw [hcontent, taskAnchorHeading_cons]
    exact indexOf_append (by decide)
  have hafter : (stringContent (summaryMessage host messages summary)).drop
      ((SUMMARY_ENVELOPE ++ [newline]).length + TASK_ANCHOR_HEADING.length) =
        newline :: (extractTaskAnchor messages ++ t) := by
    rw [hcontent, ← List.append_assoc, ← List.length_append, List.drop_left]
  rw [sectionFromPriorSummary, hat]
  simp only [hafter]

/-- The acknowledgement says nothing to either reader. -/
theorem extractTaskAnchor_acknowledgement (host : ProjectionHost) (rest : List Message) :
    sectionFromPriorSummary (acknowledgement host :: rest) TASK_ANCHOR_HEADING =
        sectionFromPriorSummary rest TASK_ANCHOR_HEADING ∧
      firstUserInstruction (acknowledgement host :: rest) = firstUserInstruction rest := by
  constructor
  · have hnone : indexOf TASK_ANCHOR_HEADING (stringContent (acknowledgement host)) = none := by
      rw [taskAnchorHeading_cons]
      exact indexOf_eq_none (by simp [acknowledgement, plainMessage, stringContent, js, unitsOf])
    rw [sectionFromPriorSummary, hnone]
  · rw [firstUserInstruction, if_pos]
    rw [userInstruction, if_pos (Or.inl (by simp [acknowledgement, plainMessage]))]

/-- The messages a projection keeps as they are: the suffix, and the plan. -/
def keptMessages (host : ProjectionHost) (planFilePath : Option Text) (messages : List Message)
    (suffixStart : Int) : List Message :=
  slice messages suffixStart ++ planSuffix host planFilePath (slice messages suffixStart)

theorem planAlreadyPresent_project (host : ProjectionHost) (messages recent : List Message)
    (summary : Text) :
    planAlreadyPresent (summaryMessage host messages summary :: acknowledgement host :: recent) =
      planAlreadyPresent recent := by
  have hmarker : PLAN_MARKER = 91 :: 83 :: PLAN_MARKER.drop 2 := by
    simp [PLAN_MARKER, js, unitsOf]
  have henvelope : SUMMARY_ENVELOPE = 91 :: 67 :: SUMMARY_ENVELOPE.drop 2 := by
    simp [SUMMARY_ENVELOPE, js, unitsOf]
  have hsummary : startsWith (stringContent (summaryMessage host messages summary)) PLAN_MARKER =
      false := by
    rw [hmarker]
    simp only [summaryMessage, plainMessage, stringContent]
    rw [henvelope]
    simp [startsWith, List.isPrefixOf]
  have hack : startsWith (stringContent (acknowledgement host)) PLAN_MARKER = false := by
    rw [hmarker]
    simp [acknowledgement, plainMessage, stringContent, startsWith, List.isPrefixOf, js, unitsOf]
  rw [planAlreadyPresent, List.any_cons, List.any_cons, hsummary, hack]
  rfl

theorem projectCompactedMessages_eq (host : ProjectionHost) (planFilePath : Option Text)
    (messages : List Message) (summary : Text) (suffixStart : Int) :
    projectCompactedMessages host planFilePath messages summary suffixStart =
      summaryMessage host messages summary :: acknowledgement host ::
        keptMessages host planFilePath messages suffixStart := by
  have hplan : ∀ recent, planSuffix host planFilePath
      (summaryMessage host messages summary :: acknowledgement host :: recent) =
        planSuffix host planFilePath recent := by
    intro recent
    cases planFilePath with
    | none => rfl
    | some path => rw [planSuffix, planSuffix, planAlreadyPresent_project]
  rw [projectCompactedMessages, keptMessages]
  simp only [hplan, List.cons_append]

/-! ## One compaction, and any number of them -/

/-- The anchor is carried by a compaction that keeps these messages: no line
of it opens a heading, or its first line does and the kept messages anchor to
it once more. -/
def AnchorCarried (anchor : Text) (kept : List Message) : Prop :=
  (∀ l ∈ lines anchor, opensHeading l = false) ∨
    (opensHeading anchor = true ∧ extractTaskAnchor kept = anchor)

theorem extractTaskAnchor_project_iff (host : ProjectionHost) (planFilePath : Option Text)
    (messages : List Message) (summary : Text) (suffixStart : Int)
    (hne : extractTaskAnchor messages ≠ []) :
    extractTaskAnchor (projectCompactedMessages host planFilePath messages summary suffixStart) =
        extractTaskAnchor messages ↔
      AnchorCarried (extractTaskAnchor messages)
        (keptMessages host planFilePath messages suffixStart) := by
  obtain ⟨t, ht, hsection⟩ := sectionFromPriorSummary_summaryMessage host summary hne
    (acknowledgement host :: keptMessages host planFilePath messages suffixStart)
  obtain ⟨hackSection, hackUser⟩ := extractTaskAnchor_acknowledgement host
    (keptMessages host planFilePath messages suffixStart)
  obtain ⟨hfirst, hnone, hlater⟩ :=
    sectionBody_anchor (extractTaskAnchor_trimmed messages) hne ht
  rw [projectCompactedMessages_eq, AnchorCarried]
  cases hopen : opensHeading (extractTaskAnchor messages) with
  | true =>
      -- The section reads as empty, so what is kept decides.
      rw [hfirst hopen, if_pos rfl, hackSection] at hsection
      have hkept : extractTaskAnchor (summaryMessage host messages summary ::
          acknowledgement host :: keptMessages host planFilePath messages suffixStart) =
          extractTaskAnchor (keptMessages host planFilePath messages suffixStart) := by
        rw [extractTaskAnchor, hsection, firstUserInstruction,
          if_pos (userInstruction_summaryMessage host messages summary), hackUser,
          extractTaskAnchor]
      obtain ⟨l, ls, hlines, hl, -⟩ := lines_spec (extractTaskAnchor messages)
      have hsome : ¬ ∀ l ∈ lines (extractTaskAnchor messages), opensHeading l = false := by
        intro hall
        rw [hlines] at hall
        rw [hl.opensHeading, hall l (by simp)] at hopen
        exact Bool.false_ne_true hopen
      rw [hkept]
      simp [hsome]
  | false =>
      by_cases hall : ∀ l ∈ lines (extractTaskAnchor messages), opensHeading l = false
      · rw [hnone hall, if_neg hne] at hsection
        rw [extractTaskAnchor, hsection, if_neg hne]
        exact iff_of_true rfl (Or.inl hall)
      · have hsome : ∃ l ∈ lines (extractTaskAnchor messages), opensHeading l = true := by
          by_contra hno
          exact hall fun l hl => eq_false_of_ne_true fun htrue => hno ⟨l, hl, htrue⟩
        obtain ⟨hbody, hneq⟩ := hlater hopen hsome
        rw [if_neg hbody] at hsection
        rw [extractTaskAnchor, hsection, if_neg hbody]
        simp [hneq, hall]

/-- Everything a compaction is given but the messages. -/
structure Compaction where
  host : ProjectionHost
  planFilePath : Option Text
  summary : Text
  suffixStart : Int

def compact (messages : List Message) (c : Compaction) : List Message :=
  projectCompactedMessages c.host c.planFilePath messages c.summary c.suffixStart

def Compaction.kept (c : Compaction) (messages : List Message) : List Message :=
  keptMessages c.host c.planFilePath messages c.suffixStart

/-- The anchor survives any number of compactions exactly when each of them
carries it. An anchor without a heading line is carried by all of them. -/
theorem taskAnchor_survives_iff (messages : List Message) {anchor : Text}
    (h : extractTaskAnchor messages = anchor) (hne : anchor ≠ []) (compactions : List Compaction) :
    Machine.Throughout compact (fun ms => extractTaskAnchor ms = anchor) messages compactions ↔
      Machine.Along compact (fun ms c => AnchorCarried anchor (c.kept ms)) messages
        compactions := by
  refine Machine.throughout_iff_along (fun ms c hms => ?_) h
  have hstep := extractTaskAnchor_project_iff c.host c.planFilePath ms c.summary c.suffixStart
    (by rw [hms]; exact hne)
  rw [hms] at hstep
  exact hstep

/-! The smallest inputs: one message, one compaction that keeps nothing. -/

/-- What one user said, with nothing else known of the message. -/
def userSaid (s : Text) : Message := ⟨none, none, none, .user, .text s, none⟩

/-- A host whose clock stands still and that has no files. -/
def stillHost : ProjectionHost := ⟨fun _ => Double.ofInt 0 zero_small, fun _ => none⟩

theorem taskAnchor_survives_oneLine :
    Machine.Throughout compact (fun ms => extractTaskAnchor ms = js "Fix it")
      [userSaid (js "Fix it")] [⟨stillHost, none, js "Done.", 1⟩] :=
  (taskAnchor_survives_iff [userSaid (js "Fix it")] (by decide +kernel)
    (by decide +kernel) [⟨stillHost, none, js "Done.", 1⟩]).mpr
      ⟨Or.inl (by decide +kernel), trivial⟩

/-- A task with a heading in it comes back cut at the heading. -/
theorem taskAnchor_heading_lost :
    extractTaskAnchor [userSaid (js "Fix it\n## Steps\nAll of them")] =
        js "Fix it\n## Steps\nAll of them" ∧
      extractTaskAnchor (projectCompactedMessages stillHost none
        [userSaid (js "Fix it\n## Steps\nAll of them")] (js "Done.") 1) = js "Fix it" := by
  decide +kernel

end Shizuha.State
