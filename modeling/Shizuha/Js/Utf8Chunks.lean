import Shizuha.Js.Utf8

/-!
# UTF-8 read in pieces

A text that is decoded piece by piece comes out as it does in one go exactly
when no piece begins in the middle of a character (`decode_pieces_iff`). What
tells the two apart is how many characters come out: every byte that begins a
character leaves at least one, cut short or not, and a byte in the middle of one
that is read first leaves another.
-/

namespace Shizuha.Js

/-- A byte that only goes on a character. -/
def isTail (b : UInt8) : Bool := 0x80 ≤ b && b ≤ 0xBF

/-- The bytes that begin a character. -/
def heads (bytes : Bytes) : ℕ := bytes.countP fun b => !isTail b

/-- The characters of a text without halves of pairs. -/
def points (s : Text) : ℕ := s.countP fun u => !isLowSurrogate u

/-- The bytes are the encoding of some text. -/
def ValidUtf8 (bytes : Bytes) : Prop :=
  ∃ ns : List ℕ, (∀ n ∈ ns, IsScalar n) ∧ bytes = scalarBytes ns

theorem heads_append (a b : Bytes) : heads (a ++ b) = heads a + heads b := List.countP_append

theorem heads_cons (b : UInt8) (rest : Bytes) :
    heads (b :: rest) = heads rest + if isTail b then 0 else 1 := by
  rw [heads, heads, List.countP_cons]
  cases isTail b <;> rfl

theorem points_append (s t : Text) : points (s ++ t) = points s + points t :=
  List.countP_append

/-! ## One character -/

theorem isTail_iff {b : UInt8} : isTail b = true ↔ 0x80 ≤ b.toNat ∧ b.toNat ≤ 0xBF := by
  rw [isTail, Bool.and_eq_true, decide_eq_true_eq, decide_eq_true_eq, UInt8.le_iff_toNat_le,
    UInt8.le_iff_toNat_le]
  simp only [UInt8.reduceToNat]

theorem isTail_ofNat {n : ℕ} (h : n < 256) :
    isTail (UInt8.ofNat n) = true ↔ 0x80 ≤ n ∧ n ≤ 0xBF := by
  rw [isTail_iff, toNat_byte h]

/-- The first byte of a character begins it, and the others go on. -/
theorem utf8Bytes_shape {n : ℕ} (h : IsScalar n) :
    ∃ b tail, utf8Bytes n = b :: tail ∧ isTail b = false ∧ ∀ c ∈ tail, isTail c = true := by
  have hn : n < 0x110000 := by
    rw [IsScalar] at h
    omega
  have hhead : ∀ m, m < 256 → (m < 0x80 ∨ 0xC0 ≤ m) → isTail (UInt8.ofNat m) = false := by
    intro m hm hout
    rw [Bool.eq_false_iff, ne_eq, isTail_ofNat hm]
    omega
  have htail : ∀ m, isTail (UInt8.ofNat (0x80 + m % 64)) = true := by
    intro m
    rw [isTail_ofNat (by omega)]
    omega
  rw [utf8Bytes]
  split_ifs with h1 h2 h3
  · exact ⟨_, [], rfl, hhead n (by omega) (by omega), by simp⟩
  all_goals
    refine ⟨_, _, rfl, hhead _ (by omega) (by omega), fun c hc => ?_⟩
    simp only [List.mem_cons, List.not_mem_nil, or_false] at hc
  · rw [hc]
    exact htail n
  · rcases hc with hc | hc <;> rw [hc] <;> apply htail
  · rcases hc with hc | hc | hc <;> rw [hc] <;> apply htail

theorem heads_utf8Bytes {n : ℕ} (h : IsScalar n) : heads (utf8Bytes n) = 1 := by
  obtain ⟨b, tail, hbytes, hb, htail⟩ := utf8Bytes_shape h
  have hzero : heads tail = 0 := by
    rw [heads, List.countP_eq_zero]
    intro c hc
    simp [htail c hc]
  rw [hbytes, heads_cons, hzero, hb]
  rfl

theorem points_codePoint {n : ℕ} (h : IsScalar n) : points (codePoint n) = 1 := by
  rw [IsScalar] at h
  rw [codePoint]
  split_ifs with hsmall
  · have hunit : isLowSurrogate (UInt16.ofNat n) = false := by
      rw [Bool.eq_false_iff, ne_eq, isLowSurrogate_iff, UInt16.toNat_ofNat']
      omega
    rw [points, List.countP_singleton, hunit]
    rfl
  · have hhigh : isLowSurrogate (UInt16.ofNat (0xD800 + (n - 0x10000) / 0x400)) = false := by
      rw [Bool.eq_false_iff, ne_eq, isLowSurrogate_iff, UInt16.toNat_ofNat']
      omega
    have hlow : isLowSurrogate (UInt16.ofNat (0xDC00 + (n - 0x10000) % 0x400)) = true := by
      rw [isLowSurrogate_iff, UInt16.toNat_ofNat']
      omega
    rw [points, List.countP_cons, List.countP_singleton, hhigh, hlow]
    rfl

theorem heads_scalarBytes {ns : List ℕ} (h : ∀ n ∈ ns, IsScalar n) :
    heads (scalarBytes ns) = ns.length := by
  induction ns with
  | nil => rfl
  | cons n ns ih =>
      have hn := heads_utf8Bytes (h n List.mem_cons_self)
      have hrest := ih fun m hm => h m (List.mem_cons_of_mem _ hm)
      rw [show scalarBytes (n :: ns) = utf8Bytes n ++ scalarBytes ns from rfl, heads_append, hn,
        hrest, List.length_cons]
      omega

theorem points_scalarText {ns : List ℕ} (h : ∀ n ∈ ns, IsScalar n) :
    points (scalarText ns) = ns.length := by
  induction ns with
  | nil => rfl
  | cons n ns ih =>
      have hn := points_codePoint (h n List.mem_cons_self)
      have hrest := ih fun m hm => h m (List.mem_cons_of_mem _ hm)
      rw [show scalarText (n :: ns) = codePoint n ++ scalarText ns from rfl, points_append, hn,
        hrest, List.length_cons]
      omega

theorem utf8Decode_scalarBytes {ns : List ℕ} (h : ∀ n ∈ ns, IsScalar n) :
    utf8Decode (scalarBytes ns) = scalarText ns := by
  have hrun := utf8Run_scalarBytes h []
  rw [List.append_nil] at hrun
  rw [utf8Decode, hrun]
  exact List.append_nil _

/-! ## What comes out of any bytes -/

/-- A byte the reader waits for is one that goes on. -/
def Utf8State.WaitsForTail (q : Utf8State) : Prop := 0x80 ≤ q.least ∧ q.greatest ≤ 0xBF

theorem waitsForTail_start : Utf8State.start.WaitsForTail := ⟨by decide, by decide⟩

/-- The character the reader is in the middle of. -/
def Utf8State.begun (q : Utf8State) : ℕ := if q.owed = 0 then 0 else 1

theorem utf8First_tail {b : UInt8} (h : isTail b = true) : utf8First b = ([0xFFFD], .start) := by
  rw [isTail_iff] at h
  rw [utf8First, if_neg, if_neg, if_neg, if_neg]
  all_goals
    simp only [UInt8.le_iff_toNat_le, UInt8.reduceToNat]
    omega

/-- A byte between characters comes out at once or begins one. -/
theorem one_le_utf8First (b : UInt8) : 1 ≤ points (utf8First b).1 + (utf8First b).2.begun := by
  rw [utf8First]
  split_ifs with h1
  · have hlt : b.toNat ≤ 0x7F := by
      rw [UInt8.le_iff_toNat_le] at h1
      exact h1
    have hunit : isLowSurrogate (UInt16.ofNat b.toNat) = false := by
      rw [Bool.eq_false_iff, ne_eq, isLowSurrogate_iff, UInt16.toNat_ofNat']
      omega
    rw [points, List.countP_singleton, hunit]
    exact Nat.le_add_right 1 _
  all_goals simp [Utf8State.begun, points, not_surrogate_replacement.2]

theorem waitsForTail_utf8First (b : UInt8) : (utf8First b).2.WaitsForTail := by
  rw [utf8First]
  split_ifs <;> first | exact waitsForTail_start | exact ⟨by simp, by simp⟩

theorem waitsForTail_utf8Next (q : Utf8State) (b : UInt8) :
    (utf8Next q b).2.WaitsForTail := by
  rw [utf8Next]
  split
  · exact waitsForTail_utf8First b
  · split_ifs
    · exact waitsForTail_start
    · exact ⟨UInt8.le_refl _, UInt8.le_refl _⟩
    · exact waitsForTail_utf8First b

theorem begun_le_one (q : Utf8State) : q.begun ≤ 1 := by
  rw [Utf8State.begun]
  split_ifs <;> omega

theorem one_le_points {ns : List ℕ} {s : Text} (h : ∀ n ∈ ns, IsScalar n)
    (hs : s = scalarText ns) (hne : s ≠ []) : 1 ≤ points s := by
  rw [hs, points_scalarText h]
  refine List.length_pos_iff.mpr fun hnil => hne ?_
  rw [hs, hnil]
  rfl

theorem codePoint_ne_nil (n : ℕ) : codePoint n ≠ [] := by
  rw [codePoint]
  split_ifs <;> simp

/-- A byte adds the character it begins, and keeps the one begun before it. -/
theorem points_utf8Next {q : Utf8State} (hgood : q.Good) (h : q.WaitsForTail) (b : UInt8) :
    q.begun + (if isTail b then 0 else 1)
      ≤ points (utf8Next q b).1 + (utf8Next q b).2.begun := by
  have hfirst := one_le_utf8First b
  obtain ⟨-, ns, hns, htext⟩ := utf8Out_next hgood b
  have hpoint := one_le_points hns htext
  generalize hnext : utf8Next q b = out at hpoint ⊢
  rw [utf8Next] at hnext
  split at hnext
  · next howed =>
      rw [Utf8State.begun, if_pos howed, ← hnext]
      split_ifs <;> omega
  · next owed howed =>
      have hbegun : q.begun = 1 := by
        rw [Utf8State.begun, if_neg (by omega)]
      rw [hbegun]
      by_cases hrange : q.least ≤ b ∧ b ≤ q.greatest
      · -- It goes on: the character comes out now, or is still begun.
        have htail : isTail b = true := by
          have hlo := UInt8.le_iff_toNat_le.mp (UInt8.le_trans h.1 hrange.1)
          have hhi := UInt8.le_iff_toNat_le.mp (UInt8.le_trans hrange.2 h.2)
          exact isTail_iff.mpr ⟨hlo, hhi⟩
        rw [if_pos htail]
        simp only [if_pos hrange] at hnext
        split_ifs at hnext with hlast
        · have hout : out.1 = codePoint (q.bits * 64 + (b.toNat - 0x80)) := by rw [← hnext]
          have hne : out.1 ≠ [] := by
            rw [hout]
            apply codePoint_ne_nil
          have hone := hpoint hne
          omega
        · have howes : out.2.begun = 1 := by
            rw [← hnext, Utf8State.begun, if_neg hlast]
          omega
      · -- It does not: a replacement, and the byte is read again.
        simp only [if_neg hrange] at hnext
        have hreplaced : points out.1 = points (utf8First b).1 + 1 := by
          rw [← hnext]
          simp [points, not_surrogate_replacement.2]
        have hsame : out.2 = (utf8First b).2 := by rw [← hnext]
        rw [hreplaced, hsame]
        split_ifs <;> omega

theorem heads_le_points {q : Utf8State} (hgood : q.Good) (h : q.WaitsForTail) (bytes : Bytes) :
    q.begun + heads bytes ≤ points (utf8Run q bytes) := by
  induction bytes generalizing q with
  | nil =>
      rw [utf8Run, Utf8State.begun]
      split_ifs <;> simp [heads, points, not_surrogate_replacement.2]
  | cons b rest ih =>
      have hstep := points_utf8Next hgood h b
      have hrest := ih (utf8Out_next hgood b).1 (waitsForTail_utf8Next q b)
      rw [utf8Run_cons, points_append, heads_cons]
      omega

/-! ## Pieces -/

/-- A piece that begins in the middle of a character. -/
def startsInside : Bytes → Bool
  | [] => false
  | b :: _ => isTail b

theorem heads_le_points_decode (bytes : Bytes) :
    heads bytes + (if startsInside bytes then 1 else 0) ≤ points (utf8Decode bytes) := by
  cases bytes with
  | nil => simp [startsInside, heads, utf8Decode, utf8Run]
  | cons b rest =>
      rw [startsInside]
      by_cases htail : isTail b = true
      · have hfirst := utf8First_tail htail
        have hrest := heads_le_points (q := .start) trivial waitsForTail_start rest
        have hone : points [0xFFFD] = 1 := by decide
        rw [utf8Decode, utf8Run_cons, utf8Next_start, hfirst, points_append, hone, heads_cons,
          htail]
        simp only [if_true]
        omega
      · have hall := heads_le_points (q := .start) trivial waitsForTail_start (b :: rest)
        rw [if_neg htail]
        exact le_trans (Nat.le_add_left _ _) hall

theorem heads_flatten_le (pieces : List Bytes) :
    heads pieces.flatten + pieces.countP startsInside
      ≤ points (pieces.map utf8Decode).flatten := by
  induction pieces with
  | nil => simp [heads, points]
  | cons piece pieces ih =>
      have hpiece := heads_le_points_decode piece
      rw [List.flatten_cons, heads_append, List.map_cons, List.flatten_cons, points_append,
        List.countP_cons]
      omega

/-- Where the second part begins a character, a valid text is cut between
characters. -/
theorem split_scalarBytes {ns : List ℕ} (h : ∀ n ∈ ns, IsScalar n) {a b : Bytes}
    (heq : scalarBytes ns = a ++ b) (hb : startsInside b = false) :
    ∃ ms ks, ns = ms ++ ks ∧ a = scalarBytes ms ∧ b = scalarBytes ks := by
  induction ns generalizing a with
  | nil =>
      obtain ⟨rfl, rfl⟩ := List.append_eq_nil_iff.mp heq.symm
      exact ⟨[], [], rfl, rfl, rfl⟩
  | cons n ns ih =>
      cases a with
      | nil => exact ⟨[], n :: ns, rfl, rfl, heq.symm⟩
      | cons x a =>
          obtain ⟨c, tail, hbytes, -, htail⟩ := utf8Bytes_shape (h n List.mem_cons_self)
          have heq' : utf8Bytes n ++ scalarBytes ns = (x :: a) ++ b := heq
          rw [hbytes, List.cons_append, List.cons_append, List.cons.injEq] at heq'
          obtain ⟨hx, hrest⟩ := heq'
          rcases List.append_eq_append_iff.mp hrest with ⟨a', ha, hns⟩ | ⟨b', htl, hbb⟩
          · -- The whole character is in the first part.
            obtain ⟨ms, ks, hsplit, ha', hb'⟩ :=
              ih (fun m hm => h m (List.mem_cons_of_mem _ hm)) hns
            refine ⟨n :: ms, ks, by rw [hsplit]; rfl, ?_, hb'⟩
            rw [show scalarBytes (n :: ms) = utf8Bytes n ++ scalarBytes ms from rfl, hbytes, ha,
              ha', hx]
            rfl
          · -- The second part begins where the character goes on, so not at all.
            cases b' with
            | nil =>
                rw [List.append_nil] at htl
                rw [List.nil_append] at hbb
                refine ⟨[n], ns, rfl, ?_, hbb⟩
                rw [show scalarBytes [n] = utf8Bytes n ++ [] from rfl, List.append_nil, hbytes, hx,
                  htl]
            | cons y b' =>
                have hy := htail y (by rw [htl]; simp)
                rw [hbb, List.cons_append, startsInside, hy] at hb
                cases hb

theorem validUtf8_pieces {pieces : List Bytes} (h : ValidUtf8 pieces.flatten)
    (hstarts : ∀ piece ∈ pieces, startsInside piece = false) :
    ∀ piece ∈ pieces, ValidUtf8 piece := by
  have hflat : ∀ rest : List Bytes, (∀ piece ∈ rest, startsInside piece = false) →
      startsInside rest.flatten = false := by
    intro rest hrest
    induction rest with
    | nil => rfl
    | cons piece rest ih =>
        cases piece with
        | nil => exact ih fun p hp => hrest p (List.mem_cons_of_mem _ hp)
        | cons b piece => exact hrest (b :: piece) List.mem_cons_self
  induction pieces with
  | nil => simp
  | cons piece pieces ih =>
      obtain ⟨ns, hns, heq⟩ := h
      rw [List.flatten_cons] at heq
      have hrest : ∀ p ∈ pieces, startsInside p = false := fun p hp =>
        hstarts p (List.mem_cons_of_mem _ hp)
      obtain ⟨ms, ks, rfl, hpiece, hothers⟩ := split_scalarBytes hns heq.symm (hflat _ hrest)
      intro p hp
      rcases List.mem_cons.mp hp with rfl | hp
      · exact ⟨ms, fun n hn => hns n (List.mem_append_left _ hn), hpiece⟩
      · exact ih ⟨ks, fun n hn => hns n (List.mem_append_right _ hn), hothers⟩ hrest p hp

theorem decode_pieces {pieces : List Bytes} (h : ∀ piece ∈ pieces, ValidUtf8 piece) :
    (pieces.map utf8Decode).flatten = utf8Decode pieces.flatten := by
  have hscalars : ∃ ns : List ℕ, (∀ n ∈ ns, IsScalar n) ∧ pieces.flatten = scalarBytes ns ∧
      (pieces.map utf8Decode).flatten = scalarText ns := by
    induction pieces with
    | nil => exact ⟨[], by simp, rfl, rfl⟩
    | cons piece pieces ih =>
        obtain ⟨ms, hms, hpiece⟩ := h piece List.mem_cons_self
        obtain ⟨ks, hks, hbytes, htext⟩ := ih fun p hp => h p (List.mem_cons_of_mem _ hp)
        refine ⟨ms ++ ks, ?_, ?_, ?_⟩
        · intro n hn
          rcases List.mem_append.mp hn with hn | hn
          · exact hms n hn
          · exact hks n hn
        · rw [List.flatten_cons, scalarBytes_append, hpiece, hbytes]
        · rw [List.map_cons, List.flatten_cons, scalarText_append, hpiece,
            utf8Decode_scalarBytes hms, htext]
  obtain ⟨ns, hns, hbytes, htext⟩ := hscalars
  rw [htext, hbytes, utf8Decode_scalarBytes hns]

/-- A valid text decoded in pieces comes out whole exactly when every piece is
valid by itself. -/
theorem decode_pieces_iff {pieces : List Bytes} (h : ValidUtf8 pieces.flatten) :
    (pieces.map utf8Decode).flatten = utf8Decode pieces.flatten ↔
      ∀ piece ∈ pieces, ValidUtf8 piece := by
  constructor
  · intro heq
    have hle := heads_flatten_le pieces
    have hwhole : points (utf8Decode pieces.flatten) = heads pieces.flatten := by
      obtain ⟨ns, hns, hbytes⟩ := h
      rw [hbytes, utf8Decode_scalarBytes hns, points_scalarText hns, heads_scalarBytes hns]
    rw [heq, hwhole] at hle
    have hnone : pieces.countP startsInside = 0 := by omega
    refine validUtf8_pieces h fun piece hpiece => ?_
    rw [List.countP_eq_zero] at hnone
    exact Bool.eq_false_iff.mpr (hnone piece hpiece)
  · exact decode_pieces

end Shizuha.Js
