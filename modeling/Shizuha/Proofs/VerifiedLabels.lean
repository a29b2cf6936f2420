import Shizuha.Gateway.SenderLabels

/-!
# What a label proves

A label that says verified is a text like any other: a bracket, a name with the
mark behind it, perhaps a room, and a bracket. A name, a room or a text that
holds these units gives a message the label without a signature. So a message
whose signature was not accepted goes without the label exactly when what it puts
into its own has no mark where a label could end, and neither has its text.
-/

namespace Shizuha.Gateway.Labels

open Js LocalCore Machine
open State (truthy)

/-! ## The labels of signed messages -/

/-- A label that a correctly signed message would get. -/
def VerifiedLabel (label : Text) : Prop :=
  ∃ (msg : InboundMessage) (publicKeyHex : Text), given msg.senderPublicKey = some publicKeyHex ∧
    (given msg.signature).isSome ∧
      formatChannelPrefix (msg.named (.accepted publicKeyHex)) = some label

def roomMark : Text := verifiedMark ++ js " · #"

/-- The mark, and a place after it where a label can end. -/
def Marked (s : Text) : Prop :=
  ∃ a b, s = a ++ (verifiedMark ++ 93 :: b) ∨ ∃ c, s = a ++ (roomMark ++ (c ++ 93 :: b))

/-- A text that begins as such a label does. -/
def Opens (s : Text) : Prop := ∃ rest, s = 91 :: rest ∧ Marked rest

theorem given_append_mark (name : Text) :
    given (some (name ++ verifiedMark)) = some (name ++ verifiedMark) := by
  rw [given, Option.filter_some, if_pos]
  simp [verifiedMark, js, unitsOf]

/-- What is between the brackets of a label with the mark. -/
def Badge (body : Text) : Prop :=
  ∃ x, body = x ++ verifiedMark ∨ ∃ c, body = x ++ (roomMark ++ c)

theorem badge_join (channel room : List Text) (hchannel : channel.length ≤ 1)
    (hroom : room = [] ∨ ∃ c, room = [js "#" ++ c]) (name : Text) :
    Badge (join (js " · ") (channel ++ [name ++ verifiedMark] ++ room)) := by
  obtain ⟨before, hbefore⟩ : ∃ before, ∀ more : List Text,
      join (js " · ") (channel ++ (name ++ verifiedMark) :: more) =
        before ++ join (js " · ") ((name ++ verifiedMark) :: more) := by
    cases channel with
    | nil => exact ⟨[], fun more => rfl⟩
    | cons channel rest =>
        have hrest : rest = [] := by
          rw [List.length_cons] at hchannel
          exact List.length_eq_zero_iff.mp (by omega)
        subst hrest
        exact ⟨channel ++ js " · ", fun more => by simp [join, List.intercalate_cons_cons]⟩
  rw [List.append_assoc, List.singleton_append, hbefore]
  rcases hroom with rfl | ⟨c, rfl⟩
  · exact ⟨before ++ name, .inl (by simp [join])⟩
  · exact ⟨before ++ name, .inr ⟨c, by simp [join, roomMark, js, unitsOf]⟩⟩

theorem badge_named {msg : InboundMessage} {publicKeyHex : Text} {parts : List Text}
    (h : labelParts (msg.named (.accepted publicKeyHex)) = some parts) :
    parts ≠ [] ∧ Badge (join (js " · ") parts) := by
  have hgiven := given_append_mark (msg.userName.getD (publicKeyHex.take 8))
  rw [labelParts, InboundMessage.named, hgiven, if_neg (by simp)] at h
  dsimp only at h
  generalize msg.userName.getD (publicKeyHex.take 8) = name at h
  have hchannel : (if msg.channelType = .http then []
      else [js ((CHANNEL_LABELS msg.channelType).getD msg.channelType.text)]).length ≤ 1 := by
    split_ifs <;> simp
  generalize (if msg.channelType = .http then ([] : List Text)
      else [js ((CHANNEL_LABELS msg.channelType).getD msg.channelType.text)]) = channel at h hchannel
  cases hname : msg.channelName.filter truthy with
  | none =>
      rw [hname, Option.some_inj] at h
      have hbadge := badge_join channel [] hchannel (.inl rfl) name
      rw [List.append_nil, h] at hbadge
      exact ⟨by rw [← h]; simp, hbadge⟩
  | some channelName =>
      rw [hname] at h
      obtain ⟨c, -, rfl⟩ := Option.map_eq_some_iff.mp h
      exact ⟨by simp, badge_join channel _ hchannel (.inr ⟨c, rfl⟩) name⟩

/-- A signed message from the web, by a user of this name in this room. -/
def signedMessage (userName : Text) (channelName : Option Json) : InboundMessage where
  id := []
  channelType := .http
  userId := []
  userName := some userName
  senderPublicKey := some [48]
  signature := some [48]
  content := .text []
  timestamp := ⟨0, isDouble_intCast zero_small⟩
  channelName := channelName

theorem verifiedLabel_signedMessage {userName : Text} {channelName : Option Json}
    {room : List Text}
    (h : labelParts ((signedMessage userName channelName).named (.accepted [48])) =
      some ((userName ++ verifiedMark) :: room)) :
    VerifiedLabel (91 :: join (js " · ") ((userName ++ verifiedMark) :: room) ++ [93]) := by
  refine ⟨signedMessage userName channelName, [48], rfl, rfl, ?_⟩
  rw [formatChannelPrefix, h, Option.map_some, if_neg (by simp)]
  rfl

theorem labelParts_signedMessage (userName : Text) :
    labelParts ((signedMessage userName none).named (.accepted [48])) =
      some [userName ++ verifiedMark] := by
  rw [labelParts, InboundMessage.named, signedMessage, Option.getD_some, given_append_mark,
    if_neg (by simp)]
  rfl

theorem labelParts_signedMessage_room (userName : Text) {v : Json} {c : Text}
    (hv : truthy v = true) (hc : stringOf v = some c) :
    labelParts ((signedMessage userName (some v)).named (.accepted [48])) =
      some [userName ++ verifiedMark, js "#" ++ c] := by
  rw [labelParts, InboundMessage.named, signedMessage, Option.getD_some, given_append_mark,
    if_neg (by simp)]
  dsimp only
  rw [Option.filter_some, if_pos hv]
  dsimp only
  rw [hc]
  rfl

/-- Any text may be the name of a user, and any the name of a room. -/
theorem verifiedLabel_iff (label : Text) :
    VerifiedLabel label ↔ ∃ body, Badge body ∧ label = 91 :: body ++ [93] := by
  constructor
  · rintro ⟨msg, publicKeyHex, -, -, hlabel⟩
    obtain ⟨parts, hparts, hlabel⟩ := Option.map_eq_some_iff.mp hlabel
    obtain ⟨hne, hbadge⟩ := badge_named hparts
    rw [if_neg hne] at hlabel
    exact ⟨_, hbadge, by rw [← hlabel]; rfl⟩
  · rintro ⟨body, ⟨x, hbody⟩, rfl⟩
    rcases hbody with rfl | ⟨c, rfl⟩
    · have hlabel := verifiedLabel_signedMessage (labelParts_signedMessage x)
      simpa [join] using hlabel
    · -- an empty list is a name, and its text is empty
      obtain ⟨v, hv, hc⟩ : ∃ v, truthy v = true ∧ stringOf v = some c := by
        by_cases hc : c = []
        · exact ⟨.arr [], rfl, by rw [hc, stringOf, joinedItems]; rfl⟩
        · exact ⟨.str c, by simp [truthy, hc], by rw [stringOf]⟩
      have hlabel := verifiedLabel_signedMessage (labelParts_signedMessage_room x hv hc)
      simpa [join, roomMark, js, unitsOf] using hlabel

/-! ## Where a text has the mark -/

section Marks

variable {α : Type*} {p a b s t : List α} {u : α}

/-- A text in which the separator is not is in what is before the separator, or in
what is behind it. -/
theorem eq_append_around (hu : u ∉ p) (h : a ++ (p ++ b) = s ++ u :: t) :
    (∃ b', s = a ++ (p ++ b') ∧ b = b' ++ u :: t) ∨
      ∃ a', t = a' ++ (p ++ b) ∧ a = s ++ u :: a' := by
  rw [← List.append_assoc] at h
  rcases List.append_eq_append_iff.mp h with ⟨c, hs, hb⟩ | ⟨c, hap, ht⟩
  · exact .inl ⟨c, by rw [hs, List.append_assoc], hb⟩
  · cases c with
    | nil => exact .inl ⟨[], by simpa using hap.symm, by simpa using ht.symm⟩
    | cons v c =>
        rw [List.cons_append, List.cons.injEq] at ht
        obtain ⟨rfl, rfl⟩ := ht
        rcases List.append_eq_append_iff.mp hap with ⟨d, -, hp⟩ | ⟨d, hd, hp⟩
        · exact absurd (by rw [hp]; simp) hu
        · cases d with
          | nil => exact absurd (by rw [List.nil_append] at hp; rw [← hp]; simp) hu
          | cons w d =>
              rw [List.cons_append, List.cons.injEq] at hp
              obtain ⟨rfl, rfl⟩ := hp
              exact .inr ⟨d, by rw [List.append_assoc], hd⟩

end Marks

/-- The label itself has the mark where one can end. -/
def LabelMarked (body : Text) : Prop :=
  verifiedMark <:+ body ∨ (verifiedMark ++ [93]) <:+: body ∨ roomMark <:+: body

theorem marked_around (body rest : Text) :
    Marked (body ++ 93 :: rest) ↔ LabelMarked body ∨ Marked rest := by
  constructor
  · rintro ⟨a, b, h | ⟨c, h⟩⟩
    · rcases eq_append_around (by decide) h.symm with ⟨b', rfl, hb⟩ | ⟨a', rfl, -⟩
      · cases b' with
        | nil => exact .inl (.inl ⟨a, by rw [List.append_nil]⟩)
        | cons u b' =>
            rw [List.cons_append, List.cons.injEq] at hb
            obtain ⟨rfl, -⟩ := hb
            exact .inl (.inr (.inl ⟨a, b', by simp⟩))
      · exact .inr ⟨a', b, .inl rfl⟩
    · rcases eq_append_around (by decide) h.symm with ⟨b', rfl, -⟩ | ⟨a', rfl, -⟩
      · exact .inl (.inr (.inr ⟨a, b', by rw [List.append_assoc]⟩))
      · exact .inr ⟨a', b, .inr ⟨c, rfl⟩⟩
  · rintro ((⟨a, rfl⟩ | ⟨a, b, rfl⟩ | ⟨a, b, rfl⟩) | ⟨a, b, rfl | ⟨c, rfl⟩⟩)
    · exact ⟨a, rest, .inl (by simp)⟩
    · exact ⟨a, b ++ 93 :: rest, .inl (by simp)⟩
    · exact ⟨a, rest, .inr ⟨b, by simp⟩⟩
    · exact ⟨body ++ 93 :: a, b, .inl (by simp)⟩
    · exact ⟨body ++ 93 :: a, b, .inr ⟨c, by simp⟩⟩

theorem not_marked_nil : ¬ Marked [] := by
  rintro ⟨a, b, h | ⟨c, h⟩⟩ <;> simp [verifiedMark, roomMark, js, unitsOf] at h

/-- A text begins with the label of a signed message when it opens like one. -/
theorem opens_iff (s : Text) : (∃ label, VerifiedLabel label ∧ label <+: s) ↔ Opens s := by
  constructor
  · rintro ⟨label, hlabel, t, rfl⟩
    obtain ⟨body, ⟨x, rfl | ⟨c, rfl⟩⟩, rfl⟩ := (verifiedLabel_iff label).mp hlabel
    · exact ⟨_, by rw [List.append_assoc]; rfl, x, t, .inl (by simp)⟩
    · exact ⟨_, by rw [List.append_assoc]; rfl, x, t, .inr ⟨c, by simp⟩⟩
  · rintro ⟨rest, rfl, x, t, rfl | ⟨c, rfl⟩⟩
    · exact ⟨_, (verifiedLabel_iff _).mpr ⟨_, ⟨x, .inl rfl⟩, rfl⟩, t, by simp⟩
    · exact ⟨_, (verifiedLabel_iff _).mpr ⟨_, ⟨x, .inr ⟨c, rfl⟩⟩, rfl⟩, t, by simp⟩

/-! ## One message -/

/-- The content begins with a label that says verified. -/
def SaysVerified (content : Content) : Prop :=
  ∃ text ∈ content.leading, ∃ label, VerifiedLabel label ∧ label <+: text

/-- The parts of the label and the first text, as they stand one behind the other,
open like the label of a signed message. -/
def OpensUnder (parts : List Text) (said : Option Text) : Prop :=
  if parts = [] then ∃ s ∈ said, Opens s
  else LabelMarked (join (js " · ") parts) ∨ ∃ s ∈ said, Marked (js " " ++ s)

/-- No label goes in front of a content that is neither a text nor blocks. -/
def ForgeableUnder (parts : List Text) : Content → Prop
  | .text s => OpensUnder parts (some s)
  | .blocks items => OpensUnder parts (items.findSome? ContentBlock.said)
  | .other v => ∃ s ∈ stringOf v, Opens s

def Forgeable (msg : InboundMessage) : Prop :=
  ∃ parts ∈ labelParts msg, ForgeableUnder parts msg.content

theorem saysVerified_text (s : Text) : SaysVerified (.text s) ↔ Opens s := by
  rw [SaysVerified, ← opens_iff]
  simp [Content.leading]

theorem saysVerified_blocks (items : List ContentBlock) :
    SaysVerified (.blocks items) ↔ ∃ s ∈ items.findSome? ContentBlock.said, Opens s := by
  simp only [SaysVerified, opens_iff]
  rfl

/-- What a label opens with, in front of a text or alone. -/
theorem opens_label (body t : Text) :
    Opens (js "[" ++ body ++ js "]" ++ t) ↔ LabelMarked body ∨ Marked t := by
  have heq : js "[" ++ body ++ js "]" ++ t = 91 :: (body ++ 93 :: t) := by simp [js, unitsOf]
  rw [heq, Opens, ← marked_around]
  simp

theorem labelFirst_said (label : Text) (items : List ContentBlock) :
    (labelFirst label items).map (fun items => items.findSome? ContentBlock.said) =
      (items.findSome? ContentBlock.said).map fun s => some (label ++ js " " ++ s) := by
  induction items with
  | nil => rfl
  | cons item items ih =>
      cases item with
      | text s => rfl
      | other block =>
          rw [labelFirst, Option.map_map, List.findSome?_cons]
          exact ih

theorem saysVerified_labelled {parts : List Text} {content content' left : Content}
    (h : labelled (if parts = [] then [] else js "[" ++ join (js " · ") parts ++ js "]") content =
      some (content', left)) :
    SaysVerified content' ↔ ForgeableUnder parts content := by
  by_cases hparts : parts = []
  · rw [if_pos hparts] at h
    cases content with
    | text s =>
        cases h
        rw [if_pos rfl, saysVerified_text, ForgeableUnder, OpensUnder, if_pos hparts]
        simp
    | blocks items =>
        cases h
        rw [saysVerified_blocks, ForgeableUnder, OpensUnder, if_pos hparts]
    | other v =>
        obtain ⟨s, hs, h⟩ := Option.map_eq_some_iff.mp h
        cases h
        rw [saysVerified_text, ForgeableUnder, hs]
        simp
  rw [if_neg hparts] at h
  generalize hlabel : js "[" ++ join (js " · ") parts ++ js "]" = label at h
  have hne : label ≠ [] := by simp [← hlabel, js, unitsOf]
  cases content with
  | text s =>
      rw [labelled, if_neg hne] at h
      cases h
      rw [saysVerified_text, ← hlabel, List.append_assoc _ (js " "), opens_label, ForgeableUnder,
        OpensUnder, if_neg hparts]
      simp
  | blocks items =>
      have hsaid := labelFirst_said label items
      rw [labelled, if_neg hne] at h
      rw [ForgeableUnder, OpensUnder, if_neg hparts]
      cases hfirst : labelFirst label items with
      | some items' =>
          rw [hfirst] at h hsaid
          cases h
          obtain ⟨s, hs, hsaid⟩ := Option.map_eq_some_iff.mp hsaid.symm
          have hsaid : items'.findSome? ContentBlock.said = some (label ++ js " " ++ s) :=
            hsaid.symm
          rw [saysVerified_blocks, hsaid, hs]
          simp only [Option.mem_def, Option.some_inj, exists_eq_left']
          rw [← hlabel, List.append_assoc _ (js " "), opens_label]
      | none =>
          rw [hfirst] at h hsaid
          cases h
          have hnone : items.findSome? ContentBlock.said = none := by simpa using hsaid.symm
          have hopens := opens_label (join (js " · ") parts) []
          rw [List.append_nil, hlabel] at hopens
          rw [saysVerified_blocks, hnone, List.findSome?_cons, ContentBlock.said]
          simp [hopens, not_marked_nil]
  | other v =>
      obtain ⟨s, hs, h⟩ := Option.map_eq_some_iff.mp h
      cases h
      rw [saysVerified_text, ForgeableUnder, hs]
      simp

/-- What is appended for a message says verified when the message is such that it
can. -/
theorem saysVerified_iff {msg : InboundMessage} {content left : Content}
    (h : messageContent msg = some (content, left)) : SaysVerified content ↔ Forgeable msg := by
  obtain ⟨label, hlabel, h⟩ := Option.bind_eq_some_iff.mp h
  obtain ⟨parts, hparts, rfl⟩ := Option.map_eq_some_iff.mp hlabel
  rw [Forgeable, hparts, saysVerified_labelled h]
  simp

/-- Of a message whose content cannot be made nothing is appended. -/
theorem not_forgeable_of_none {msg : InboundMessage} (h : messageContent msg = none) :
    ¬ Forgeable msg := by
  rintro ⟨parts, hparts, hforgeable⟩
  rw [messageContent, formatChannelPrefix, hparts, Option.map_some, Option.bind_some] at h
  cases hcontent : msg.content with
  | text s =>
      rw [hcontent, labelled] at h
      exact absurd h (by simp)
  | blocks items =>
      rw [hcontent, labelled] at h
      generalize (if parts = [] then [] else js "[" ++ join (js " · ") parts ++ js "]") = label at h
      split_ifs at h
      cases hfirst : labelFirst label items with
      | none => rw [hfirst] at h; exact absurd h (by simp)
      | some items' => rw [hfirst] at h; exact absurd h (by simp)
  | other v =>
      rw [hcontent, labelled, Option.map_eq_none_iff] at h
      rw [hcontent, ForgeableUnder, h] at hforgeable
      simp at hforgeable

/-! ## A run -/

section Runs

variable (cryptoVerify : Text → Text → Text → Option Bool)

/-- Whatever was appended and begins with a label that says verified is from a message
whose signature was accepted. -/
def Unforged (g : ProcessState) : Prop :=
  ∀ a ∈ g.appended, SaysVerified a.content → g.accepted a.object = true

/-- A message that gets through, and is not in the session, has had its signature
accepted or cannot be taken for one that has. -/
def Honest (g : ProcessState) : ProcessEvent → Prop
  | .arrive object passes =>
      passes = true → alreadyPersisted g.messages (g.objects object).id = false →
        g.accepted object = true ∨
          (verification cryptoVerify (g.objects object)).isAccepted = true ∨
            ¬ Forgeable ((g.objects object).named (verification cryptoVerify (g.objects object)))
  | .rewrite _ => True

/-- The process before the first message. -/
def begun (objects : ℕ → InboundMessage) (messages : List Text) : ProcessState :=
  ⟨objects, messages, [], fun _ => false⟩

theorem id_named (msg : InboundMessage) (verdict : Verification) :
    (msg.named verdict).id = msg.id := by
  cases verdict <;> rfl

/-- Where nothing is appended the messages are as they were, but for one that may
have been accepted. -/
theorem Unforged.of_appended {g g' : ProcessState} (h : Unforged g)
    (happended : g'.appended = g.appended)
    (haccepted : ∀ object, g.accepted object = true → g'.accepted object = true) :
    Unforged g' := by
  intro a ha hsays
  rw [happended] at ha
  exact haccepted _ (h a ha hsays)

theorem unforged_append_iff {g g' : ProcessState} (h : Unforged g) {object : ℕ} {content : Content}
    (happended : g'.appended = g.appended ++ [⟨object, content⟩])
    (haccepted : ∀ object, g.accepted object = true → g'.accepted object = true) :
    Unforged g' ↔ (SaysVerified content → g'.accepted object = true) := by
  constructor
  · intro h' hsays
    exact h' ⟨object, content⟩ (by rw [happended]; simp) hsays
  · intro hnew a ha hsays
    rw [happended, List.mem_append, List.mem_singleton] at ha
    rcases ha with ha | rfl
    · exact haccepted _ (h a ha hsays)
    · exact hnew hsays

theorem unforged_step_iff (g : ProcessState) (event : ProcessEvent) (h : Unforged g) :
    Unforged (processStep cryptoVerify g event) ↔ Honest cryptoVerify g event := by
  cases event with
  | rewrite messages => exact iff_of_true (h.of_appended rfl fun _ h => h) trivial
  | arrive object passes =>
      rw [processStep, processMessage, Honest]
      generalize hverdict : verification cryptoVerify (g.objects object) = verdict
      have haccepted : ∀ other, g.accepted other = true →
          Function.update g.accepted object (g.accepted object || verdict.isAccepted) other =
            true := by
        intro other hother
        by_cases hobject : other = object
        · subst hobject
          rw [Function.update_self, hother, Bool.true_or]
        · rw [Function.update_of_ne hobject, hother]
      dsimp only
      cases passes with
      | false => exact iff_of_true (h.of_appended rfl haccepted) (by simp)
      | true =>
          rw [if_pos rfl]
          cases hcontent : messageContent ((g.objects object).named verdict) with
          | none =>
              refine iff_of_true (h.of_appended rfl haccepted) fun _ _ => ?_
              exact .inr (.inr (not_forgeable_of_none hcontent))
          | some made =>
              obtain ⟨content, left⟩ := made
              rw [id_named]
              dsimp only
              cases hpersisted : alreadyPersisted g.messages (g.objects object).id with
              | true =>
                  rw [if_pos rfl]
                  exact iff_of_true (h.of_appended rfl haccepted) (by simp)
              | false =>
                  rw [if_neg (by simp), unforged_append_iff h rfl haccepted,
                    saysVerified_iff hcontent]
                  dsimp only
                  rw [Function.update_self, Bool.or_eq_true]
                  constructor
                  · intro hsays _ _
                    by_cases hforgeable : Forgeable ((g.objects object).named verdict)
                    · rcases hsays hforgeable with hold | hnew
                      · exact .inl hold
                      · exact .inr (.inl hnew)
                    · exact .inr (.inr hforgeable)
                  · intro hhonest hforgeable
                    rcases hhonest rfl rfl with hold | hnew | hnot
                    · exact .inl hold
                    · exact .inr hnew
                    · exact absurd hforgeable hnot

/-- In every run, what is appended with a label that says verified is from messages
with an accepted signature, exactly when no other message that gets through could
be taken for one of them. -/
theorem verified_badge_iff (objects : ℕ → InboundMessage) (messages : List Text)
    (events : List ProcessEvent) :
    Throughout (processStep cryptoVerify) Unforged (begun objects messages) events ↔
      Along (processStep cryptoVerify) (Honest cryptoVerify) (begun objects messages) events :=
  throughout_iff_along (fun g event h => unforged_step_iff cryptoVerify g event h)
    (by simp [Unforged, begun])

/-- A message from nobody in particular, whose name has the mark. -/
def forgedMessage : InboundMessage where
  id := js "m1"
  channelType := .telegram
  userId := js "42"
  userName := some (js "Alice ✓")
  senderPublicKey := none
  signature := none
  content := .text (js "hi")
  timestamp := ⟨0, isDouble_intCast zero_small⟩
  channelName := none

/-- It is given the label of a signed message by Alice. -/
theorem badge_forged :
    ¬ Throughout (processStep fun _ _ _ => some false) Unforged
      (begun (fun _ => forgedMessage) []) [.arrive 0 true] := by
  intro h
  have happended : (processStep (fun _ _ _ => some false) (begun (fun _ => forgedMessage) [])
      (.arrive 0 true)).appended = [⟨0, .text (js "[Telegram · Alice ✓] hi")⟩] := rfl
  have hsays : SaysVerified (.text (js "[Telegram · Alice ✓] hi")) :=
    (saysVerified_text _).mpr
      ⟨js "Telegram · Alice ✓] hi", rfl, js "Telegram · Alice", js " hi", .inl rfl⟩
  have haccepted := h.2 ⟨0, _⟩ (by rw [happended]; exact List.mem_singleton_self _) hsays
  exact absurd haccepted (by decide)

end Runs

end Shizuha.Gateway.Labels
