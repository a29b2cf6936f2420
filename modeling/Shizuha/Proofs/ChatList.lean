import Shizuha.Web.ChatSync
import Shizuha.KeySorted

/-!
# What an insertion does to the chat list

The comparison of the source is the order of a key, so a list it sorts is in
the order of that key and the binary search finds the place of a message in it.
`insertOrdered_cases` says once what becomes of a list in order: an entry is
replaced by the message merged into it, or nothing happens, or the message is
put in. Two results rest on it. The list keeps its ids and client ids distinct
exactly when the message's two ids do not name two different entries. And
messages the server has stamped come out in the order of their sequence
numbers, whatever the deliveries were.
-/

namespace Shizuha.Web

open Js

variable {time : Text → Option ℤ}

/-! ## The order as the order of a key -/

/-- The key of a message, with the id as numbers. -/
def sortKey (time : Text → Option ℤ) (m : ChatMessage) : WithTop ℚ ×ₗ ℤ ×ₗ List ℕ :=
  toLex ((orderKey time m).1,
    toLex ((orderKey time m).2.1, (orderKey time m).2.2.map UInt16.toNat))

theorem compare_lt_iff {a b : ChatMessage} :
    compareMessages time a b = .lt ↔ sortKey time a < sortKey time b := by
  rw [sortKey, sortKey, Prod.Lex.toLex_lt_toLex, Prod.Lex.toLex_lt_toLex, compareMessages]
  simp only [textBefore]
  split_ifs <;> grind

theorem compare_ne_gt_iff {a b : ChatMessage} :
    compareMessages time a b ≠ .gt ↔ sortKey time a ≤ sortKey time b := by
  have hgt : compareMessages time a b = .gt ↔ sortKey time b < sortKey time a := by
    rw [sortKey, sortKey, Prod.Lex.toLex_lt_toLex, Prod.Lex.toLex_lt_toLex, compareMessages]
    simp only [textBefore]
    split_ifs <;> grind
  rw [ne_eq, hgt, not_lt]

/-- The list is in the order of `compareMessages`. -/
def InOrder (time : Text → Option ℤ) (l : List ChatMessage) : Prop :=
  l.Pairwise fun a b => compareMessages time a b ≠ .gt

instance (l : List ChatMessage) : Decidable (InOrder time l) :=
  inferInstanceAs (Decidable (List.Pairwise _ _))

theorem inOrder_iff {l : List ChatMessage} : InOrder time l ↔ KeySorted (sortKey time) l := by
  rw [InOrder, KeySorted]
  simp only [compare_ne_gt_iff]

variable {l a b : List ChatMessage} {e x msg : ChatMessage} {now : ℤ} {opts : InsertOptions}

theorem sortMessages_perm : (sortMessages time l).Perm l := List.perm_insertionSort ..

theorem sortMessages_sorted : KeySorted (sortKey time) (sortMessages time l) := by
  rw [sortMessages]
  simp only [compare_ne_gt_iff]
  have htotal : Std.Total fun a b : ChatMessage => sortKey time a ≤ sortKey time b :=
    ⟨fun a b => le_total _ _⟩
  have htrans : IsTrans ChatMessage fun a b => sortKey time a ≤ sortKey time b :=
    ⟨fun _ _ _ => le_trans⟩
  exact List.pairwise_insertionSort (fun a b => sortKey time a ≤ sortKey time b) l

/-! ## The binary search -/

/-- Everything before the slot is below the message, nothing from it on. -/
structure Slot (time : Text → Option ℤ) (l : List ChatMessage) (msg : ChatMessage) (k : ℕ) :
    Prop where
  below : ∀ i (hi : i < l.length), i < k → sortKey time l[i] < sortKey time msg
  above : ∀ i (hi : i < l.length), k ≤ i → sortKey time msg ≤ sortKey time l[i]

/-- The search keeps the slot between its two bounds. -/
theorem searchSlot_slot (hs : KeySorted (sortKey time) l) {fuel lo hi : ℕ} (hfuel : hi ≤ lo + fuel)
    (hle : lo ≤ hi) (hlen : hi ≤ l.length)
    (hbelow : ∀ i (h : i < l.length), i < lo → sortKey time l[i] < sortKey time msg)
    (habove : ∀ i (h : i < l.length), hi ≤ i → sortKey time msg ≤ sortKey time l[i]) :
    Slot time l msg (searchSlot time l msg fuel lo hi) := by
  have hmono := List.pairwise_iff_getElem.mp hs
  induction fuel generalizing lo hi with
  | zero =>
      rw [searchSlot]
      exact ⟨hbelow, fun i h hi' => habove i h (by omega)⟩
  | succ fuel ih =>
      rw [searchSlot]
      split_ifs with hlt
      · have hmid : (lo + hi) / 2 < l.length := by omega
        simp only [List.getElem?_eq_getElem hmid]
        split_ifs with hcompare
        · refine ih (by omega) (by omega) hlen (fun i h hi' => ?_) habove
          have hmsg := compare_lt_iff.mp hcompare
          rcases Nat.lt_or_ge i ((lo + hi) / 2) with hbefore | hafter
          · exact (hmono i _ h hmid hbefore).trans_lt hmsg
          · have heq : i = (lo + hi) / 2 := by omega
            subst heq
            exact hmsg
        · refine ih (by omega) (by omega) (by omega) hbelow fun i h hi' => ?_
          have hmsg := not_lt.mp fun hlt => hcompare (compare_lt_iff.mpr hlt)
          rcases Nat.eq_or_lt_of_le hi' with heq | hafter
          · subst heq
            exact hmsg
          · exact hmsg.trans (hmono _ i hmid h hafter)
      · exact ⟨hbelow, fun i h hi' => habove i h (by omega)⟩

theorem binaryInsert_perm : (binaryInsert time l msg).Perm (msg :: l) := by
  rw [binaryInsert]
  refine List.perm_middle.trans (List.Perm.cons _ ?_)
  rw [List.take_append_drop]

theorem binaryInsert_sorted (hs : KeySorted (sortKey time) l) :
    KeySorted (sortKey time) (binaryInsert time l msg) := by
  have hslot : Slot time l msg (searchSlot time l msg l.length 0 l.length) :=
    searchSlot_slot hs (by omega) (by omega) (le_refl _) (fun _ _ h => absurd h (by omega))
      (fun i h hi => absurd h (by omega))
  rw [binaryInsert]
  refine KeySorted.around ?_ (fun y hy => ?_) fun y hy => ?_
  · rw [List.take_append_drop]
    exact hs
  · obtain ⟨i, hi, rfl⟩ := List.mem_iff_getElem.mp hy
    rw [List.length_take] at hi
    rw [List.getElem_take]
    exact (hslot.below i (by omega) (by omega)).le
  · obtain ⟨i, hi, rfl⟩ := List.mem_iff_getElem.mp hy
    rw [List.length_drop] at hi
    rw [List.getElem_drop]
    exact hslot.above _ (by omega) (by omega)

/-! ## The four rules -/

/-- An entry of the list with the client id of the message. -/
def ChatMessage.sameCmidAs (m msg : ChatMessage) : Prop := msg.cmid ≠ none ∧ m.cmid = msg.cmid

theorem cmid_eq_iff {m : ChatMessage} (h : msg.cmid ≠ none) :
    m.clientMessageId.join = msg.clientMessageId.join ↔ m.cmid = msg.cmid := by
  rw [ChatMessage.cmid, ChatMessage.cmid] at *
  cases hm : m.clientMessageId.join with
  | none =>
      cases hmsg : msg.clientMessageId.join with
      | none => simp
      | some t =>
          rw [hmsg] at h
          by_cases ht : t = [] <;> simp_all
  | some s =>
      cases hmsg : msg.clientMessageId.join with
      | none => simp [hmsg] at h
      | some t =>
          rw [hmsg] at h
          by_cases ht : t = [] <;> by_cases hs : s = [] <;> simp_all

theorem sameCmid_some {i : ℕ} (h : sameCmid l msg = some i) :
    ∃ a e b, l = a ++ e :: b ∧ a.length = i ∧ e.sameCmidAs msg := by
  rw [sameCmid] at h
  split at h
  · cases h
  · next t ht =>
      obtain ⟨a, e, b, hl, hi, he⟩ := findIdx?_split h
      have hmsg : msg.cmid ≠ none := by
        rw [ht]
        exact Option.some_ne_none t
      exact ⟨a, e, b, hl, hi, hmsg, (cmid_eq_iff hmsg).mp (of_decide_eq_true he)⟩

theorem sameCmid_none (h : sameCmid l msg = none) : ∀ m ∈ l, ¬ m.sameCmidAs msg := by
  rintro m hm ⟨hmsg, hcmid⟩
  rw [sameCmid] at h
  split at h
  · next hnone => exact hmsg hnone
  · have hno := List.findIdx?_eq_none_iff.mp h m hm
    exact absurd ((cmid_eq_iff hmsg).mpr hcmid) (of_decide_eq_false hno)

theorem sameId_none (h : sameId l msg = none) : ∀ m ∈ l, m.id ≠ msg.id := by
  intro m hm
  exact of_decide_eq_false (List.findIdx?_eq_none_iff.mp h m hm)

theorem pendingEcho_some {i : ℕ} (h : pendingEcho opts l msg = some i) :
    (opts.isServerEcho = true ∧ msg.role = .user) ∧
      ∃ a e b, l = a ++ e :: b ∧ a.length = i ∧ msg.echoes e = true := by
  rw [pendingEcho] at h
  split_ifs at h with hecho
  exact ⟨hecho, findIdx?_split h⟩

/-- The message in the place of an entry, by the first of the rules that finds
one. -/
inductive Replaces (opts : InsertOptions) (l : List ChatMessage) (msg : ChatMessage) :
    ChatMessage → ChatMessage → Prop where
  | cmid {e : ChatMessage} (h : e.sameCmidAs msg) :
      Replaces opts l msg e { e.spread msg with id := msg.id, pending := some (some false) }
  | id {e : ChatMessage} (hcmid : ∀ m ∈ l, ¬ m.sameCmidAs msg) (h : e.id = msg.id) :
      Replaces opts l msg e (e.spread msg)
  | echo {e : ChatMessage} (hcmid : ∀ m ∈ l, ¬ m.sameCmidAs msg) (hid : ∀ m ∈ l, m.id ≠ msg.id)
      (hecho : opts.isServerEcho = true ∧ msg.role = .user) (h : msg.echoes e = true) :
      Replaces opts l msg e { msg with pending := some (some false) }

theorem updateInPlace_spec (hs : KeySorted (sortKey time) (a ++ e :: b)) :
    KeySorted (sortKey time) (updateInPlace time (a ++ e :: b) a.length x) ∧
      (updateInPlace time (a ++ e :: b) a.length x).Perm (a ++ x :: b) := by
  rw [updateInPlace, set_split]
  split_ifs with hout
  · exact ⟨sortMessages_sorted, sortMessages_perm⟩
  · refine ⟨hs.replace (fun y hy => ?_) fun y hy => ?_, List.Perm.refl _⟩
    · rw [outOfOrder, Bool.or_eq_true, not_or] at hout
      have hleft := hout.1
      have hpos : 0 < a.length := by
        cases a with
        | nil => cases hy
        | cons => simp
      have hget : (a ++ x :: b)[a.length - 1]? = some y := by
        rw [List.getElem?_append_left (by omega), ← List.getLast?_eq_getElem?]
        exact hy
      rw [if_pos hpos, hget] at hleft
      exact compare_ne_gt_iff.mp (by simpa using hleft)
    · rw [outOfOrder, Bool.or_eq_true, not_or] at hout
      have hright := hout.2
      have hget : (a ++ x :: b)[a.length + 1]? = some y := by
        rw [List.getElem?_append_right (by omega)]
        cases b with
        | nil => cases hy
        | cons z rest => simpa using hy
      rw [hget] at hright
      exact compare_ne_gt_iff.mp (by simpa using hright)

/-- What becomes of a list in order: it stays in order, and it is the list with
an entry replaced, or the list as it was, or the list and the message. -/
theorem insertOrdered_cases (now : ℤ) (msg : ChatMessage) (opts : InsertOptions)
    (hs : KeySorted (sortKey time) l) :
    KeySorted (sortKey time) (insertOrdered time now l msg opts) ∧
      ((∃ a e b x, l = a ++ e :: b ∧ Replaces opts l msg e x ∧
          (insertOrdered time now l msg opts).Perm (a ++ x :: b)) ∨
        (∀ m ∈ l, ¬ m.sameCmidAs msg) ∧ (∀ m ∈ l, m.id ≠ msg.id) ∧
          (isDuplicate time now opts l msg = true ∧ insertOrdered time now l msg opts = l ∨
            (isDuplicate time now opts l msg = false ∧ pendingEcho opts l msg = none) ∧
              (insertOrdered time now l msg opts).Perm (msg :: l))) := by
  have hset {a b : List ChatMessage} {e x : ChatMessage} :
      KeySorted (sortKey time) (sortMessages time ((a ++ e :: b).set a.length x)) ∧
        (sortMessages time ((a ++ e :: b).set a.length x)).Perm (a ++ x :: b) := by
    rw [set_split]
    exact ⟨sortMessages_sorted, sortMessages_perm⟩
  have hget {a b : List ChatMessage} {e : ChatMessage} : (a ++ e :: b).getD a.length msg = e := by
    simp
  rw [insertOrdered]
  split
  · next i hcmid =>
      obtain ⟨a, e, b, rfl, rfl, he⟩ := sameCmid_some hcmid
      simp only [hget]
      exact ⟨hset.1, .inl ⟨a, e, b, _, rfl, .cmid he, hset.2⟩⟩
  · next hcmid =>
      have hcmid := sameCmid_none hcmid
      split
      · next i hid =>
          obtain ⟨a, e, b, rfl, rfl, he⟩ := findIdx?_split hid
          simp only [hget]
          have hspec := updateInPlace_spec (x := e.spread msg) hs
          exact ⟨hspec.1, .inl ⟨a, e, b, _, rfl, .id hcmid (of_decide_eq_true he), hspec.2⟩⟩
      · next hid =>
          have hid := sameId_none hid
          split
          · next i hecho =>
              obtain ⟨hserver, a, e, b, rfl, rfl, he⟩ := pendingEcho_some hecho
              exact ⟨hset.1, .inl ⟨a, e, b, _, rfl, .echo hcmid hid hserver he, hset.2⟩⟩
          · next hecho =>
              split_ifs with hduplicate
              · exact ⟨hs, .inr ⟨hcmid, hid, .inl ⟨hduplicate, rfl⟩⟩⟩
              · exact ⟨binaryInsert_sorted hs, .inr ⟨hcmid, hid,
                  .inr ⟨⟨eq_false_of_ne_true hduplicate, hecho⟩, binaryInsert_perm⟩⟩⟩

/-! ## Distinct ids -/

/-- What the rest of the client relies on. -/
structure WellKept (time : Text → Option ℤ) (l : List ChatMessage) : Prop where
  inOrder : InOrder time l
  ids : (l.map ChatMessage.id).Nodup
  cmids : (l.filterMap ChatMessage.cmid).Nodup

structure ChatList (time : Text → Option ℤ) where
  entries : List ChatMessage
  kept : WellKept time entries

/-- The entries a message may take the place of. -/
def Matched (opts : InsertOptions) (msg e : ChatMessage) : Prop :=
  e.id = msg.id ∨ e.sameCmidAs msg ∨
    (opts.isServerEcho = true ∧ msg.role = .user) ∧ msg.echoes e = true

/-- An insertion leaves a list as good as it was, with the message in it unless
it was a duplicate, and with every entry it did not match. -/
structure InsertionKept (time : Text → Option ℤ) (now : ℤ) (l : List ChatMessage)
    (msg : ChatMessage) (opts : InsertOptions) : Prop where
  kept : WellKept time (insertOrdered time now l msg opts)
  shown : (∃ m ∈ insertOrdered time now l msg opts, m.id = msg.id) ∨
    isDuplicate time now opts l msg = true ∧ insertOrdered time now l msg opts = l
  others : ∀ e ∈ l, ¬ Matched opts msg e → e ∈ insertOrdered time now l msg opts

/-- The client id and the id of the message do not name two different
entries. -/
def NoCrossMatch (l : List ChatMessage) (msg : ChatMessage) : Prop :=
  ∀ e ∈ l, ∀ e' ∈ l, e.sameCmidAs msg → e'.id = msg.id → e'.id = e.id

theorem Replaces.matched (h : Replaces opts l msg e x) : Matched opts msg e := by
  cases h with
  | cmid h => exact .inr (.inl h)
  | id _ h => exact .inl h
  | echo _ _ hecho h => exact .inr (.inr ⟨hecho, h⟩)

theorem Replaces.id_eq (h : Replaces opts l msg e x) : x.id = msg.id := by
  cases h <;> rfl

theorem spread_cmid (h : msg.cmid ≠ none) : (e.spread msg).cmid = msg.cmid := by
  cases hfield : msg.clientMessageId with
  | none => simp [ChatMessage.cmid, hfield] at h
  | some v => simp [ChatMessage.cmid, ChatMessage.spread, hfield]

theorem spread_cmid_or (e msg : ChatMessage) :
    (e.spread msg).cmid = msg.cmid ∨ (e.spread msg).cmid = e.cmid := by
  cases hfield : msg.clientMessageId with
  | none => exact .inr (by simp [ChatMessage.cmid, ChatMessage.spread, hfield])
  | some v => exact .inl (by simp [ChatMessage.cmid, ChatMessage.spread, hfield])

/-- A client id of the message that is a new one. -/
theorem cmid_new {c : Text} (h : ∀ m ∈ l, ¬ m.sameCmidAs msg) (hc : msg.cmid = some c) :
    ∀ m ∈ l, m.cmid ≠ some c := by
  intro m hm heq
  exact h m hm ⟨by rw [hc]; exact Option.some_ne_none c, heq.trans hc.symm⟩

theorem Replaces.cmids (h : Replaces opts (a ++ e :: b) msg e x)
    (hcmids : ((a ++ e :: b).filterMap ChatMessage.cmid).Nodup) :
    ((a ++ x :: b).filterMap ChatMessage.cmid).Nodup := by
  have hothers : ∀ y ∈ a ++ b, y ∈ a ++ e :: b := by
    intro y hy
    rcases List.mem_append.mp hy with hy | hy
    · exact List.mem_append_left _ hy
    · exact List.mem_append_right _ (List.mem_cons_of_mem _ hy)
  refine nodup_replace hcmids fun c hc y hy => ?_
  cases h with
  | cmid h =>
      have hx : (e.spread msg).cmid = some c := hc
      rw [spread_cmid h.1, ← h.2] at hx
      exact ne_of_nodup_split hcmids hx y hy
  | id hcmid h =>
      rcases spread_cmid_or e msg with hx | hx
      · exact cmid_new hcmid (hx.symm.trans hc) y (hothers y hy)
      · exact ne_of_nodup_split hcmids (hx.symm.trans hc) y hy
  | echo hcmid hid hecho h => exact cmid_new hcmid hc y (hothers y hy)

/-- The replaced entry is the only one with the id, or none has it. -/
theorem Replaces.others_id (h : Replaces opts (a ++ e :: b) msg e x)
    (hids : ((a ++ e :: b).map ChatMessage.id).Nodup) (hcross : NoCrossMatch (a ++ e :: b) msg) :
    ∀ y ∈ a ++ b, y.id ≠ msg.id := by
  have hunique : ∀ y ∈ a ++ b, y.id ≠ e.id := by
    rw [← List.filterMap_eq_map] at hids
    intro y hy heq
    exact ne_of_nodup_split hids rfl y hy (by simpa using heq)
  intro y hy heq
  have hmem : y ∈ a ++ e :: b := by
    rcases List.mem_append.mp hy with hy | hy
    · exact List.mem_append_left _ hy
    · exact List.mem_append_right _ (List.mem_cons_of_mem _ hy)
  cases h with
  | cmid h => exact hunique y hy (hcross e (by simp) y hmem h heq)
  | id hcmid h => exact hunique y hy (heq.trans h.symm)
  | echo hcmid hid hecho h => exact hid y hmem heq

theorem insertOrdered_keeps (h : WellKept time l) (hcross : NoCrossMatch l msg) :
    InsertionKept time now l msg opts := by
  obtain ⟨hsorted, hcases⟩ := insertOrdered_cases now msg opts
    (inOrder_iff.mp h.inOrder)
  have hin := inOrder_iff.mpr hsorted
  rcases hcases with ⟨a, e, b, x, rfl, hreplaces, hperm⟩ |
    ⟨hcmid, hid, ⟨hduplicate, heq⟩ | ⟨-, hperm⟩⟩
  · have hothers := hreplaces.others_id h.ids hcross
    have hids : ((a ++ x :: b).map ChatMessage.id).Nodup := by
      have hbefore := h.ids
      rw [← List.filterMap_eq_map] at hbefore ⊢
      refine nodup_replace hbefore fun v hv y hy heq => hothers y hy ?_
      rw [← hreplaces.id_eq]
      exact (Option.some.inj (heq.trans hv.symm))
    refine ⟨⟨hin, (hperm.map _).nodup_iff.mpr hids,
      (hperm.filterMap _).nodup_iff.mpr (hreplaces.cmids h.cmids)⟩,
      .inl ⟨x, hperm.mem_iff.mpr (by simp), hreplaces.id_eq⟩, fun y hy hunmatched => ?_⟩
    refine hperm.mem_iff.mpr ?_
    rcases List.mem_append.mp hy with hy | hy
    · exact List.mem_append_left _ hy
    · rcases List.mem_cons.mp hy with rfl | hy
      · exact absurd hreplaces.matched hunmatched
      · exact List.mem_append_right _ (List.mem_cons_of_mem _ hy)
  · refine ⟨?_, .inr ⟨hduplicate, heq⟩, fun y hy _ => ?_⟩
    · rw [heq]
      exact h
    · rw [heq]
      exact hy
  · refine ⟨⟨hin, (hperm.map _).nodup_iff.mpr ?_, (hperm.filterMap _).nodup_iff.mpr ?_⟩,
      .inl ⟨msg, hperm.mem_iff.mpr List.mem_cons_self, rfl⟩,
      fun y hy _ => hperm.mem_iff.mpr (List.mem_cons_of_mem _ hy)⟩
    · rw [List.map_cons, List.nodup_cons]
      refine ⟨fun hmem => ?_, h.ids⟩
      obtain ⟨m, hm, heq⟩ := List.mem_map.mp hmem
      exact hid m hm heq
    · cases hc : msg.cmid with
      | none =>
          rw [List.filterMap_cons_none hc]
          exact h.cmids
      | some c =>
          rw [List.filterMap_cons_some hc, List.nodup_cons]
          refine ⟨fun hmem => ?_, h.cmids⟩
          obtain ⟨m, hm, heq⟩ := List.mem_filterMap.mp hmem
          exact cmid_new hcmid hc m hm heq

/-- Two entries named by the message's two ids become two entries with its
id. -/
theorem noCrossMatch_of_kept (h : WellKept time l) (hkept : InsertionKept time now l msg opts) :
    NoCrossMatch l msg := by
  intro e he e' he' hcmid hid
  by_contra hne
  rcases (insertOrdered_cases now msg opts
    (inOrder_iff.mp h.inOrder)).2 with ⟨a, e₀, b, x, rfl, hreplaces, hperm⟩ | ⟨hnone, -⟩
  · have hsame : e₀.sameCmidAs msg := by
      cases hreplaces with
      | cmid h => exact h
      | id hnone => exact absurd hcmid (hnone e he)
      | echo hnone => exact absurd hcmid (hnone e he)
    obtain ⟨c, hc⟩ := Option.ne_none_iff_exists'.mp hcmid.1
    obtain rfl : e = e₀ :=
      eq_of_nodup_filterMap h.cmids he (by simp) (hcmid.2.trans hc) (hsame.2.trans hc)
    have hdiff : e' ≠ e := fun heq => hne (by rw [heq])
    have hother : e' ∈ a ++ b := by
      simp only [List.mem_append, List.mem_cons] at he' ⊢
      tauto
    -- the entry that was there and the one that was replaced now share the id
    have hnodup : ((a ++ x :: b).map ChatMessage.id).Nodup :=
      (hperm.map ChatMessage.id).nodup_iff.mp hkept.kept.ids
    rw [← List.filterMap_eq_map] at hnodup
    exact ne_of_nodup_split hnodup rfl e' hother (by simp [hid, hreplaces.id_eq])
  · exact hnone e he hcmid

/-- The list stays well kept exactly when the message's two ids do not name two
entries. -/
theorem insertOrdered_kept_iff (time : Text → Option ℤ) (now : ℤ) (l : ChatList time)
    (msg : ChatMessage) (opts : InsertOptions) :
    InsertionKept time now l.entries msg opts ↔ NoCrossMatch l.entries msg :=
  ⟨noCrossMatch_of_kept l.kept, insertOrdered_keeps l.kept⟩

/-! ## Twice the same id

A message sent from here, known by its client id, and the same message as a
page of history brought it, without one. The echo carries both ids. -/

def noTime : Text → Option ℤ := fun _ => some 0

def chatEntry (id : Text) (seqNum : Optional ℚ) (clientMessageId : Optional Text) : ChatMessage where
  id := id
  role := .user
  content := js "hi"
  createdAt := js "2026-01-01T00:00:00Z"
  seqNum := seqNum
  pending := none
  clientMessageId := clientMessageId

def sentAndFetched : List ChatMessage :=
  [chatEntry (js "s1") (some (some 4)) none, chatEntry (js "c1") none (some (some (js "c1")))]

theorem wellKept_sentAndFetched : WellKept noTime sentAndFetched where
  inOrder := by decide +kernel
  ids := by decide
  cmids := by decide

theorem insertOrdered_repeats_id :
    WellKept noTime sentAndFetched ∧
      ¬ InsertionKept noTime 0 sentAndFetched
        (chatEntry (js "s1") (some (some 4)) (some (some (js "c1")))) ⟨false, true⟩ := by
  refine ⟨wellKept_sentAndFetched, fun h => ?_⟩
  have hids := h.kept.ids
  exact absurd hids (by decide +kernel)

end Shizuha.Web
