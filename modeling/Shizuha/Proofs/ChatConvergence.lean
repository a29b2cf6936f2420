import Shizuha.Proofs.ChatList

/-!
# Deliveries in any order

A set of messages the server has stamped, delivered in any order, any number of
times and with any flags. Whatever has been delivered so far, the list holds
one copy of each of its messages, alike but for the pending mark, and nothing
else. A list in order with distinct sequence numbers is determined by what is
in it, so two complete deliveries end in the same ids.
-/

namespace Shizuha.Web

open Js

variable {time : Text → Option ℤ}

/-- Messages with sequence numbers of the server's, none of them pending, whose
ids, sequence numbers and client ids tell them apart. -/
structure StampedSet where
  messages : List ChatMessage
  stamped : ∀ m ∈ messages, m.seqNum.join ≠ none ∧ m.isPending = false
  ids : (messages.map ChatMessage.id).Nodup
  seqNums : (messages.filterMap fun m => m.seqNum.join).Nodup
  cmids : (messages.filterMap fun m => m.clientMessageId.join).Nodup
  serverIds : ∀ m ∈ messages, isClientOnlyMessageId m.id = false

/-- One delivery: a message, the options, and the time on the client. -/
structure DeliveryStep where
  msg : ChatMessage
  opts : InsertOptions
  now : ℤ

/-- A sequence of deliveries of messages of the set, each at least once. -/
structure Delivery (s : StampedSet) where
  steps : List DeliveryStep
  sent : ∀ d ∈ steps, d.msg ∈ s.messages
  complete : ∀ m ∈ s.messages, ∃ d ∈ steps, d.msg = m

def deliver (time : Text → Option ℤ) (l : List ChatMessage) (steps : List DeliveryStep) :
    List ChatMessage :=
  steps.foldl (fun l d => insertOrdered time d.now l d.msg d.opts) l

def seqOf (m : ChatMessage) : ℚ := m.seqNum.join.getD 0

/-- The messages by their sequence numbers. -/
def StampedSet.bySeqNum (s : StampedSet) : List ChatMessage :=
  s.messages.insertionSort fun a b => seqOf a ≤ seqOf b

/-- The same message, not pending. -/
structure CopyOf (m e : ChatMessage) : Prop where
  pending : e.isPending = false
  same : e = { m with pending := e.pending }

/-- What the list is after some deliveries. -/
structure Holds (time : Text → Option ℤ) (s : StampedSet) (got : List ChatMessage)
    (l : List ChatMessage) : Prop where
  sorted : KeySorted (sortKey time) l
  copies : ∀ e ∈ l, ∃ m ∈ s.messages, CopyOf m e
  ids : (l.map ChatMessage.id).Nodup
  shown : ∀ i, i ∈ l.map ChatMessage.id ↔ i ∈ got.map ChatMessage.id

variable {s : StampedSet} {got l : List ChatMessage} {m m' e msg : ChatMessage} {d : DeliveryStep}

theorem StampedSet.eq_of_id (hm : m ∈ s.messages) (hm' : m' ∈ s.messages) (h : m.id = m'.id) :
    m = m' := List.inj_on_of_nodup_map s.ids hm hm' h

/-- Messages of the set with one client id are one message. -/
theorem StampedSet.eq_of_cmid (hm : m ∈ s.messages) (hm' : m' ∈ s.messages)
    (h : m.sameCmidAs m') : m = m' := by
  have hjoin := (cmid_eq_iff h.1).mpr h.2
  cases hc : m'.clientMessageId.join with
  | none => exact absurd (by simp [ChatMessage.cmid, hc]) h.1
  | some c => exact eq_of_nodup_filterMap s.cmids hm hm' (hjoin.trans hc) hc

theorem CopyOf.self (h : m.isPending = false) : CopyOf m m := ⟨h, rfl⟩

/-- Merging a message into its own copy gives a copy. -/
theorem CopyOf.spread (hmsg : msg.isPending = false) (h : CopyOf msg e) :
    CopyOf msg (e.spread msg) := by
  obtain ⟨hpending, hsame⟩ := h
  constructor
  · rw [ChatMessage.isPending] at hmsg hpending ⊢
    cases hp : msg.pending with
    | none => simpa [ChatMessage.spread, hp] using hpending
    | some v => simpa [ChatMessage.spread, hp] using hmsg
  · rw [hsame]
    simp [ChatMessage.spread]

theorem Holds.step (h : Holds time s got l) (hsent : d.msg ∈ s.messages) :
    Holds time s (d.msg :: got) (insertOrdered time d.now l d.msg d.opts) := by
  obtain ⟨hsorted, hcases⟩ := insertOrdered_cases d.now d.msg d.opts h.sorted
  have hpending := (s.stamped _ hsent).2
  rcases hcases with ⟨a, e, b, x, rfl, hreplaces, hperm⟩ | ⟨hcmid, hid, hcases⟩
  · obtain ⟨m, hm, hcopy⟩ := h.copies e (by simp)
    have hid : e.id = m.id := by rw [hcopy.same]
    -- the replaced entry is a copy of the message itself
    obtain ⟨rfl, hx⟩ : m = d.msg ∧ CopyOf d.msg x := by
      cases hreplaces with
      | cmid hcmid =>
          have hsame : m.sameCmidAs d.msg := by
            refine ⟨hcmid.1, ?_⟩
            rw [← hcmid.2, hcopy.same]
            rfl
          have heq := s.eq_of_cmid hm hsent hsame
          subst heq
          refine ⟨rfl, rfl, ?_⟩
          rw [(hcopy.spread hpending).same]
      | id _ hsame =>
          have heq := s.eq_of_id hm hsent (hid.symm.trans hsame)
          subst heq
          exact ⟨rfl, hcopy.spread hpending⟩
      | echo _ _ _ hecho =>
          rw [ChatMessage.echoes, hcopy.pending] at hecho
          cases hecho
    have hids : (insertOrdered time d.now (a ++ e :: b) d.msg d.opts |>.map ChatMessage.id).Perm
        ((a ++ e :: b).map ChatMessage.id) := by
      refine (hperm.map ChatMessage.id).trans ?_
      rw [List.map_append, List.map_append, List.map_cons, List.map_cons, hreplaces.id_eq, hid]
    refine ⟨hsorted, fun y hy => ?_, hids.nodup_iff.mpr h.ids, fun i => ?_⟩
    · rcases List.mem_append.mp (hperm.mem_iff.mp hy) with hy | hy
      · exact h.copies y (List.mem_append_left _ hy)
      · rcases List.mem_cons.mp hy with rfl | hy
        · exact ⟨d.msg, hsent, hx⟩
        · exact h.copies y (List.mem_append_right _ (List.mem_cons_of_mem _ hy))
    · rw [hids.mem_iff, h.shown, List.map_cons, List.mem_cons]
      refine ⟨.inr, fun hi => hi.elim (fun heq => ?_) fun hi => hi⟩
      rw [← h.shown, heq, ← hid]
      simp
  · have hinsert : (insertOrdered time d.now l d.msg d.opts).Perm (d.msg :: l) := by
      rcases hcases with ⟨hduplicate, -⟩ | ⟨-, hperm⟩
      · simp [isDuplicate, s.serverIds _ hsent] at hduplicate
      · exact hperm
    refine ⟨hsorted, fun y hy => ?_, (hinsert.map _).nodup_iff.mpr ?_, fun i => ?_⟩
    · rcases List.mem_cons.mp (hinsert.mem_iff.mp hy) with rfl | hy
      · exact ⟨d.msg, hsent, .self hpending⟩
      · exact h.copies y hy
    · rw [List.map_cons, List.nodup_cons]
      refine ⟨fun hmem => ?_, h.ids⟩
      obtain ⟨y, hy, heq⟩ := List.mem_map.mp hmem
      exact hid y hy heq
    · rw [(hinsert.map ChatMessage.id).mem_iff, List.map_cons, List.map_cons, List.mem_cons,
        List.mem_cons, h.shown]

theorem Holds.deliver {steps : List DeliveryStep} (h : Holds time s got l)
    (hsent : ∀ d ∈ steps, d.msg ∈ s.messages) :
    ∃ got', (∀ d ∈ steps, d.msg ∈ got') ∧ (∀ m ∈ got, m ∈ got') ∧
      (∀ m ∈ got', m ∈ got ∨ m ∈ s.messages) ∧ Holds time s got' (deliver time l steps) := by
  induction steps generalizing got l with
  | nil => exact ⟨got, by simp, fun _ hm => hm, fun _ hm => .inl hm, h⟩
  | cons d rest ih =>
      obtain ⟨got', hrest, hkept, honly, hholds⟩ :=
        ih (h.step (hsent d List.mem_cons_self)) fun d' hd' => hsent d' (List.mem_cons_of_mem _ hd')
      refine ⟨got', fun d' hd' => ?_, fun m hm => hkept m (List.mem_cons_of_mem _ hm),
        fun m hm => ?_, hholds⟩
      · rcases List.mem_cons.mp hd' with rfl | hd'
        · exact hkept _ List.mem_cons_self
        · exact hrest d' hd'
      · rcases honly m hm with hm | hm
        · rcases List.mem_cons.mp hm with rfl | hm
          · exact .inr (hsent d List.mem_cons_self)
          · exact .inl hm
        · exact .inr hm

theorem Holds.nil : Holds time s [] [] := by
  refine ⟨List.Pairwise.nil, ?_, List.nodup_nil, ?_⟩ <;> simp

/-! ## The order of the list -/

/-- What the order of stamped messages can be read off. -/
def stampOf (m : ChatMessage) : ℚ × Text := (seqOf m, m.id)

theorem CopyOf.stampOf (h : CopyOf m e) : stampOf e = stampOf m := by
  rw [h.same]
  rfl

/-- Messages of the set with one sequence number are one message. -/
theorem StampedSet.eq_of_seqOf (hm : m ∈ s.messages) (hm' : m' ∈ s.messages)
    (h : seqOf m = seqOf m') : m = m' := by
  obtain ⟨n, hn⟩ := Option.ne_none_iff_exists'.mp (s.stamped m hm).1
  obtain ⟨n', hn'⟩ := Option.ne_none_iff_exists'.mp (s.stamped m' hm').1
  rw [seqOf, seqOf, hn, hn', Option.getD_some, Option.getD_some] at h
  exact eq_of_nodup_filterMap s.seqNums hm hm' hn (hn'.trans (congrArg some h.symm))

theorem StampedSet.bySeqNum_perm (s : StampedSet) : s.bySeqNum.Perm s.messages :=
  List.perm_insertionSort ..

theorem StampedSet.bySeqNum_sorted (s : StampedSet) :
    s.bySeqNum.Pairwise fun a b => seqOf a ≤ seqOf b := by
  have htotal : Std.Total fun a b : ChatMessage => seqOf a ≤ seqOf b := ⟨fun a b => le_total _ _⟩
  have htrans : IsTrans ChatMessage fun a b => seqOf a ≤ seqOf b := ⟨fun _ _ _ => le_trans⟩
  exact List.pairwise_insertionSort _ _

/-- Between stamped messages the sequence numbers decide. -/
theorem seqOf_le_of_sortKey {a b : ChatMessage} (ha : a.seqNum.join ≠ none)
    (hb : b.seqNum.join ≠ none) (h : sortKey time a ≤ sortKey time b) : seqOf a ≤ seqOf b := by
  obtain ⟨x, hx⟩ := Option.ne_none_iff_exists'.mp ha
  obtain ⟨y, hy⟩ := Option.ne_none_iff_exists'.mp hb
  have hfirst : (x : WithTop ℚ) ≤ y := by
    rw [sortKey, sortKey, Prod.Lex.toLex_le_toLex] at h
    simp only [orderKey, hx, hy] at h
    exact h.elim le_of_lt fun h => h.1.le
  rw [seqOf, seqOf, hx, hy]
  exact WithTop.coe_le_coe.mp hfirst

/-- A list that shows the whole set is the set by its sequence numbers. -/
theorem Holds.map_stampOf (h : Holds time s got l)
    (hgot : ∀ m ∈ s.messages, m.id ∈ got.map ChatMessage.id) :
    l.map stampOf = s.bySeqNum.map stampOf := by
  have hnodup {l : List ChatMessage} (hids : (l.map ChatMessage.id).Nodup) :
      (l.map stampOf).Nodup := by
    have hsecond : (l.map stampOf).map Prod.snd = l.map ChatMessage.id := by
      rw [List.map_map]
      rfl
    exact (hsecond ▸ hids).of_map
  have hmem : ∀ p, p ∈ l.map stampOf ↔ p ∈ s.bySeqNum.map stampOf := by
    intro p
    rw [(s.bySeqNum_perm.map stampOf).mem_iff, List.mem_map, List.mem_map]
    constructor
    · rintro ⟨e, he, rfl⟩
      obtain ⟨m, hm, hcopy⟩ := h.copies e he
      exact ⟨m, hm, hcopy.stampOf.symm⟩
    · rintro ⟨m, hm, rfl⟩
      obtain ⟨e, he, hid⟩ := List.mem_map.mp ((h.shown m.id).mpr (hgot m hm))
      obtain ⟨m', hm', hcopy⟩ := h.copies e he
      have heq : m' = m := s.eq_of_id hm' hm (by rw [← hid, hcopy.same])
      exact ⟨e, he, heq ▸ hcopy.stampOf⟩
  have hids : (s.bySeqNum.map ChatMessage.id).Nodup :=
    (s.bySeqNum_perm.map ChatMessage.id).nodup_iff.mpr s.ids
  have hperm : (l.map stampOf).Perm (s.bySeqNum.map stampOf) :=
    (List.perm_ext_iff_of_nodup (hnodup h.ids) (hnodup hids)).mpr hmem
  have hstamped : ∀ e ∈ l, e.seqNum.join ≠ none := by
    intro e he
    obtain ⟨m, hm, hcopy⟩ := h.copies e he
    rw [hcopy.same]
    exact (s.stamped m hm).1
  have hsorted : (l.map stampOf).Pairwise fun p q => p.1 ≤ q.1 := by
    refine List.pairwise_map.mpr (h.sorted.imp_of_mem fun {a b} ha hb hab => ?_)
    exact seqOf_le_of_sortKey (hstamped a ha) (hstamped b hb) hab
  refine List.Perm.eq_of_pairwise ?_ hsorted (List.pairwise_map.mpr s.bySeqNum_sorted) hperm
  intro p q hp hq hpq hqp
  rw [hmem] at hp
  obtain ⟨m, hm, rfl⟩ := List.mem_map.mp hp
  obtain ⟨m', hm', rfl⟩ := List.mem_map.mp hq
  rw [s.eq_of_seqOf (s.bySeqNum_perm.mem_iff.mp hm) (s.bySeqNum_perm.mem_iff.mp hm')
    (le_antisymm hpq hqp)]

theorem map_id_of_map_stampOf {l l' : List ChatMessage} (h : l.map stampOf = l'.map stampOf) :
    l.map ChatMessage.id = l'.map ChatMessage.id := by
  have hsecond := congrArg (List.map Prod.snd) h
  rwa [List.map_map, List.map_map] at hsecond

/-- However the messages of a set arrive, the list shows each of them once, by
their sequence numbers. -/
theorem chatList_order_independent (time : Text → Option ℤ) (s : StampedSet) (d₁ d₂ : Delivery s) :
    (deliver time [] d₁.steps).map ChatMessage.id = (deliver time [] d₂.steps).map ChatMessage.id ∧
      (deliver time [] d₁.steps).map ChatMessage.id = s.bySeqNum.map ChatMessage.id := by
  have hdelivered (d : Delivery s) :
      (deliver time [] d.steps).map ChatMessage.id = s.bySeqNum.map ChatMessage.id := by
    obtain ⟨got, hgot, -, -, hholds⟩ := Holds.nil.deliver d.sent
    refine map_id_of_map_stampOf (hholds.map_stampOf fun m hm => ?_)
    obtain ⟨step, hstep, rfl⟩ := d.complete m hm
    exact List.mem_map_of_mem (hgot step hstep)
  exact ⟨(hdelivered d₁).trans (hdelivered d₂).symm, hdelivered d₁⟩

end Shizuha.Web
