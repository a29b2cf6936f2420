import Shizuha.Js.Text

/-!
# Buffers

Byte strings and the two encodings text goes in and out of them with. UTF-8 is
read by a machine of one byte at a time that never fails: a byte that cannot
go on a sequence ends it as a replacement character and is read again as the
first of another, and so is what a text ends in the middle of.
-/

namespace Shizuha.Js

abbrev Bytes := List UInt8

/-- A code point as its UTF-8 bytes. -/
def utf8Bytes (n : ℕ) : Bytes :=
  if n < 0x80 then [UInt8.ofNat n]
  else if n < 0x800 then [UInt8.ofNat (0xC0 + n / 64), UInt8.ofNat (0x80 + n % 64)]
  else if n < 0x10000 then
    [UInt8.ofNat (0xE0 + n / 4096), UInt8.ofNat (0x80 + n / 64 % 64), UInt8.ofNat (0x80 + n % 64)]
  else
    [UInt8.ofNat (0xF0 + n / 262144), UInt8.ofNat (0x80 + n / 4096 % 64),
      UInt8.ofNat (0x80 + n / 64 % 64), UInt8.ofNat (0x80 + n % 64)]

/-- `Buffer.from(s, 'utf8')`: a unit that is half of no pair is written as the
replacement character. -/
def utf8Encode : Text → Bytes
  | [] => []
  | [u] => utf8Bytes (if isHighSurrogate u || isLowSurrogate u then 0xFFFD else u.toNat)
  | u :: v :: s =>
      if isHighSurrogate u && isLowSurrogate v then
        utf8Bytes (0x10000 + (u.toNat - 0xD800) * 0x400 + (v.toNat - 0xDC00)) ++ utf8Encode s
      else
        utf8Bytes (if isHighSurrogate u || isLowSurrogate u then 0xFFFD else u.toNat) ++
          utf8Encode (v :: s)

/-- Where the reader stands: the bytes still owed, the range the next one may
be in, and the bits so far. -/
structure Utf8State where
  owed : ℕ
  least : UInt8
  greatest : UInt8
  bits : ℕ

def Utf8State.start : Utf8State := ⟨0, 0x80, 0xBF, 0⟩

/-- The units of a code point. -/
def codePoint (n : ℕ) : Text :=
  if n < 0x10000 then [UInt16.ofNat n]
  else
    [UInt16.ofNat (0xD800 + (n - 0x10000) / 0x400), UInt16.ofNat (0xDC00 + (n - 0x10000) % 0x400)]

/-- A byte between characters. -/
def utf8First (b : UInt8) : Text × Utf8State :=
  if b ≤ 0x7F then ([UInt16.ofNat b.toNat], .start)
  else if 0xC2 ≤ b ∧ b ≤ 0xDF then ([], ⟨1, 0x80, 0xBF, b.toNat - 0xC0⟩)
  else if 0xE0 ≤ b ∧ b ≤ 0xEF then
    ([], ⟨2, if b = 0xE0 then 0xA0 else 0x80, if b = 0xED then 0x9F else 0xBF, b.toNat - 0xE0⟩)
  else if 0xF0 ≤ b ∧ b ≤ 0xF4 then
    ([], ⟨3, if b = 0xF0 then 0x90 else 0x80, if b = 0xF4 then 0x8F else 0xBF, b.toNat - 0xF0⟩)
  else ([0xFFFD], .start)

def utf8Next (q : Utf8State) (b : UInt8) : Text × Utf8State :=
  match q.owed with
  | 0 => utf8First b
  | owed + 1 =>
      if q.least ≤ b ∧ b ≤ q.greatest then
        let bits := q.bits * 64 + (b.toNat - 0x80)
        if owed = 0 then (codePoint bits, .start) else ([], ⟨owed, 0x80, 0xBF, bits⟩)
      else (0xFFFD :: (utf8First b).1, (utf8First b).2)

def utf8Run (q : Utf8State) : Bytes → Text
  | [] => if q.owed = 0 then [] else [0xFFFD]
  | b :: rest => (utf8Next q b).1 ++ utf8Run (utf8Next q b).2 rest

/-- `toString('utf8')`. -/
def utf8Decode (bytes : Bytes) : Text := utf8Run .start bytes

/-! ## base64url -/

def isBase64url (u : UInt16) : Bool :=
  isDigit u || (65 ≤ u && u ≤ 90) || (97 ≤ u && u ≤ 122) || u == 45 || u == 95

def sextet (u : UInt16) : ℕ :=
  if 65 ≤ u ∧ u ≤ 90 then u.toNat - 65
  else if 97 ≤ u ∧ u ≤ 122 then u.toNat - 71
  else if isDigit u then u.toNat + 4
  else if u = 45 then 62
  else 63

/-- `Buffer.from(s, 'base64url')` of a text in the alphabet. The bits of the
last unit that fill no byte are dropped. -/
def base64urlDecode : Text → Bytes
  | a :: b :: c :: d :: rest =>
      let n := ((sextet a * 64 + sextet b) * 64 + sextet c) * 64 + sextet d
      UInt8.ofNat (n / 65536) :: UInt8.ofNat (n / 256 % 256) :: UInt8.ofNat (n % 256) ::
        base64urlDecode rest
  | [a, b, c] =>
      let n := (sextet a * 64 + sextet b) * 64 + sextet c
      [UInt8.ofNat (n / 1024), UInt8.ofNat (n / 4 % 256)]
  | [a, b] => [UInt8.ofNat ((sextet a * 64 + sextet b) / 16)]
  | _ => []

end Shizuha.Js

/-!
# Text that UTF-8 carries

A scalar is a code point that is no surrogate. Well-formed texts are the
sequences of scalars, and on them the two encodings undo each other: both are
read off a scalar at a time. What the decoder returns is such a sequence
whatever the bytes are, since the range a state allows for its next byte keeps
the bits it collects inside the scalars.
-/

namespace Shizuha.Js

def IsScalar (n : ℕ) : Prop := n < 0xD800 ∨ 0xE000 ≤ n ∧ n < 0x110000

/-- A sequence of scalars as a text and as bytes. -/
def scalarText (ns : List ℕ) : Text := ns.flatMap codePoint

def scalarBytes (ns : List ℕ) : Bytes := ns.flatMap utf8Bytes

theorem scalarText_append (ns ms : List ℕ) : scalarText (ns ++ ms) = scalarText ns ++ scalarText ms :=
  List.flatMap_append

theorem scalarBytes_append (ns ms : List ℕ) :
    scalarBytes (ns ++ ms) = scalarBytes ns ++ scalarBytes ms := List.flatMap_append

/-! ## One unit -/

theorem isHighSurrogate_iff (u : UInt16) :
    isHighSurrogate u = true ↔ 0xD800 ≤ u.toNat ∧ u.toNat ≤ 0xDBFF := by
  simp [isHighSurrogate, UInt16.le_iff_toNat_le]

theorem isLowSurrogate_iff (u : UInt16) :
    isLowSurrogate u = true ↔ 0xDC00 ≤ u.toNat ∧ u.toNat ≤ 0xDFFF := by
  simp [isLowSurrogate, UInt16.le_iff_toNat_le]

/-- A unit outside the pairs is a scalar by itself. -/
theorem isScalar_unit {u : UInt16} (hh : isHighSurrogate u = false) (hl : isLowSurrogate u = false) :
    IsScalar u.toNat := by
  have hlt := u.toNat_lt
  rw [← Bool.not_eq_true, isHighSurrogate_iff] at hh
  rw [← Bool.not_eq_true, isLowSurrogate_iff] at hl
  rw [IsScalar]
  omega

theorem codePoint_unit (u : UInt16) : codePoint u.toNat = [u] := by
  rw [codePoint, if_pos u.toNat_lt, UInt16.ofNat_toNat]

/-- Two halves of a pair, as the scalar they denote. -/
def pairScalar (u v : UInt16) : ℕ := 0x10000 + (u.toNat - 0xD800) * 0x400 + (v.toNat - 0xDC00)

theorem isScalar_pair {u v : UInt16} (hu : isHighSurrogate u = true) (hv : isLowSurrogate v = true) :
    IsScalar (pairScalar u v) := by
  rw [isHighSurrogate_iff] at hu
  rw [isLowSurrogate_iff] at hv
  unfold IsScalar pairScalar
  generalize u.toNat = a at hu ⊢
  generalize v.toNat = b at hv ⊢
  omega

theorem codePoint_pair {u v : UInt16} (hu : isHighSurrogate u = true)
    (hv : isLowSurrogate v = true) : codePoint (pairScalar u v) = [u, v] := by
  rw [isHighSurrogate_iff] at hu
  rw [isLowSurrogate_iff] at hv
  have hparts : ¬ pairScalar u v < 0x10000 ∧
      0xD800 + (pairScalar u v - 0x10000) / 0x400 = u.toNat ∧
      0xDC00 + (pairScalar u v - 0x10000) % 0x400 = v.toNat := by
    unfold pairScalar
    generalize u.toNat = a at hu ⊢
    generalize v.toNat = b at hv ⊢
    omega
  rw [codePoint, if_neg hparts.1, hparts.2.1, hparts.2.2, UInt16.ofNat_toNat, UInt16.ofNat_toNat]

theorem isScalar_replacement : IsScalar 0xFFFD := by
  rw [IsScalar]
  omega

theorem codePoint_replacement : codePoint 0xFFFD = [0xFFFD] := rfl

/-! ## Encoding -/

/-- A text, its well-formed version and its bytes, a scalar at a time. -/
theorem exists_scalars (s : Text) : ∃ ns : List ℕ, (∀ n ∈ ns, IsScalar n) ∧
    toWellFormed s = scalarText ns ∧ utf8Encode s = scalarBytes ns := by
  have hcons : ∀ {n : ℕ} {t : Text} {r s' : Text} {e : Bytes}, IsScalar n → codePoint n = t →
      (∃ ns : List ℕ, (∀ n ∈ ns, IsScalar n) ∧ r = scalarText ns ∧ e = scalarBytes ns) →
      s' = t ++ r → ∃ ns : List ℕ, (∀ n ∈ ns, IsScalar n) ∧ s' = scalarText ns ∧
        utf8Bytes n ++ e = scalarBytes ns := by
    intro n t r s' e hn ht hrest hs
    obtain ⟨ns, hns, hr, he⟩ := hrest
    refine ⟨n :: ns, ?_, ?_, ?_⟩
    · intro m hm
      rcases List.mem_cons.mp hm with rfl | hm
      · exact hn
      · exact hns m hm
    · rw [hs, hr, ← ht]
      rfl
    · rw [he]
      rfl
  have hnil : ∃ ns : List ℕ, (∀ n ∈ ns, IsScalar n) ∧ ([] : Text) = scalarText ns ∧
      ([] : Bytes) = scalarBytes ns := ⟨[], by simp, rfl, rfl⟩
  induction s using toWellFormed.induct with
  | case1 => exact hnil
  | case2 u hu =>
      have h := hcons isScalar_replacement codePoint_replacement hnil (List.append_nil _).symm
      rw [toWellFormed, if_pos hu, utf8Encode, if_pos hu]
      simpa using h
  | case3 u hu =>
      rw [toWellFormed, if_neg hu, utf8Encode, if_neg hu]
      simp only [Bool.or_eq_true, not_or, Bool.not_eq_true] at hu
      have h := hcons (isScalar_unit hu.1 hu.2) (codePoint_unit u) hnil (List.append_nil _).symm
      simpa using h
  | case4 u v s hu hv ih =>
      rw [toWellFormed, if_pos hu, if_pos hv, utf8Encode, if_pos (by simp [hu, hv])]
      exact hcons (isScalar_pair hu hv) (codePoint_pair hu hv) ih rfl
  | case5 u v s hu hv ih =>
      rw [toWellFormed, if_pos hu, if_neg hv, utf8Encode, if_neg (by simp [hv]),
        if_pos (by simp [hu])]
      exact hcons isScalar_replacement codePoint_replacement ih rfl
  | case6 u v s hu hl ih =>
      rw [toWellFormed, if_neg hu, if_pos hl, utf8Encode, if_neg (by simp [hu]),
        if_pos (by simp [hl])]
      exact hcons isScalar_replacement codePoint_replacement ih rfl
  | case7 u v s hu hl ih =>
      rw [toWellFormed, if_neg hu, if_neg hl, utf8Encode, if_neg (by simp [hu]),
        if_neg (by simp [hu, hl])]
      simp only [Bool.not_eq_true] at hu hl
      exact hcons (isScalar_unit hu hl) (codePoint_unit u) ih rfl

/-! ## Decoding what was encoded -/

theorem toNat_byte {n : ℕ} (h : n < 256) : (UInt8.ofNat n).toNat = n := by
  rw [UInt8.toNat_ofNat', Nat.mod_eq_of_lt h]

/-- A byte the state allows, when more are owed after it. -/
theorem utf8Next_more {k : ℕ} {least greatest : UInt8} {bits : ℕ} {b : UInt8}
    (h : least ≤ b ∧ b ≤ greatest) :
    utf8Next ⟨k + 2, least, greatest, bits⟩ b =
      ([], ⟨k + 1, 0x80, 0xBF, bits * 64 + (b.toNat - 0x80)⟩) := by
  rw [utf8Next]
  simp only [if_pos h, Nat.add_eq_zero_iff, Nat.one_ne_zero, and_false, if_false]

/-- The last byte of a scalar. -/
theorem utf8Next_last {least greatest : UInt8} {bits : ℕ} {b : UInt8}
    (h : least ≤ b ∧ b ≤ greatest) :
    utf8Next ⟨1, least, greatest, bits⟩ b =
      (codePoint (bits * 64 + (b.toNat - 0x80)), .start) := by
  rw [utf8Next]
  simp only [if_pos h, if_true]

theorem utf8Next_start (b : UInt8) : utf8Next .start b = utf8First b := rfl

/-- A continuation byte of a scalar. -/
theorem tail_range {n : ℕ} (h : n < 64) :
    (0x80 ≤ UInt8.ofNat (0x80 + n) ∧ UInt8.ofNat (0x80 + n) ≤ 0xBF) ∧
      (UInt8.ofNat (0x80 + n)).toNat - 0x80 = n := by
  have hb := toNat_byte (n := 0x80 + n) (by omega)
  refine ⟨?_, by omega⟩
  rw [UInt8.le_iff_toNat_le, UInt8.le_iff_toNat_le, hb]
  simp only [UInt8.reduceToNat]
  omega

theorem utf8First_ascii {n : ℕ} (h : n < 0x80) :
    utf8First (UInt8.ofNat n) = (codePoint n, .start) := by
  have hb := toNat_byte (n := n) (by omega)
  have hle : UInt8.ofNat n ≤ 0x7F := by
    rw [UInt8.le_iff_toNat_le, hb]
    simp only [UInt8.reduceToNat]
    omega
  rw [utf8First, if_pos hle, hb, codePoint, if_pos (by omega)]

theorem utf8First_two {m : ℕ} (h : 2 ≤ m ∧ m < 32) :
    utf8First (UInt8.ofNat (0xC0 + m)) = ([], ⟨1, 0x80, 0xBF, m⟩) := by
  have hb := toNat_byte (n := 0xC0 + m) (by omega)
  rw [utf8First, if_neg, if_pos, hb]
  · simp
  · simp only [UInt8.le_iff_toNat_le, hb, UInt8.reduceToNat]
    omega
  · simp only [UInt8.le_iff_toNat_le, hb, UInt8.reduceToNat]
    omega

theorem utf8First_three {m : ℕ} (h : m < 16) :
    utf8First (UInt8.ofNat (0xE0 + m)) =
      ([], ⟨2, if m = 0 then 0xA0 else 0x80, if m = 13 then 0x9F else 0xBF, m⟩) := by
  have hb := toNat_byte (n := 0xE0 + m) (by omega)
  have he0 : UInt8.ofNat (0xE0 + m) = 0xE0 ↔ m = 0 := by
    rw [← UInt8.toNat_inj, hb]
    simp
  have hed : UInt8.ofNat (0xE0 + m) = 0xED ↔ m = 13 := by
    rw [← UInt8.toNat_inj, hb]
    simp only [UInt8.reduceToNat]
    omega
  rw [utf8First, if_neg, if_neg, if_pos, hb]
  · simp only [he0, hed, Nat.add_sub_cancel_left]
  · simp only [UInt8.le_iff_toNat_le, hb, UInt8.reduceToNat]
    omega
  · simp only [UInt8.le_iff_toNat_le, hb, UInt8.reduceToNat]
    omega
  · simp only [UInt8.le_iff_toNat_le, hb, UInt8.reduceToNat]
    omega

theorem utf8First_four {m : ℕ} (h : m < 5) :
    utf8First (UInt8.ofNat (0xF0 + m)) =
      ([], ⟨3, if m = 0 then 0x90 else 0x80, if m = 4 then 0x8F else 0xBF, m⟩) := by
  have hb := toNat_byte (n := 0xF0 + m) (by omega)
  have hf0 : UInt8.ofNat (0xF0 + m) = 0xF0 ↔ m = 0 := by
    rw [← UInt8.toNat_inj, hb]
    simp
  have hf4 : UInt8.ofNat (0xF0 + m) = 0xF4 ↔ m = 4 := by
    rw [← UInt8.toNat_inj, hb]
    simp only [UInt8.reduceToNat]
    omega
  rw [utf8First, if_neg, if_neg, if_neg, if_pos, hb]
  · simp only [hf0, hf4, Nat.add_sub_cancel_left]
  · simp only [UInt8.le_iff_toNat_le, hb, UInt8.reduceToNat]
    omega
  · simp only [UInt8.le_iff_toNat_le, hb, UInt8.reduceToNat]
    omega
  · simp only [UInt8.le_iff_toNat_le, hb, UInt8.reduceToNat]
    omega
  · simp only [UInt8.le_iff_toNat_le, hb, UInt8.reduceToNat]
    omega

theorem utf8Run_cons (q : Utf8State) (b : UInt8) (rest : Bytes) :
    utf8Run q (b :: rest) = (utf8Next q b).1 ++ utf8Run (utf8Next q b).2 rest := rfl

/-- The bytes of a scalar are read as the scalar. -/
theorem utf8Run_scalar {n : ℕ} (h : IsScalar n) (rest : Bytes) :
    utf8Run .start (utf8Bytes n ++ rest) = codePoint n ++ utf8Run .start rest := by
  rw [utf8Bytes]
  split_ifs with h1 h2 h3
  · rw [List.singleton_append, utf8Run_cons, utf8Next_start, utf8First_ascii h1]
  · obtain ⟨ht, hv⟩ := tail_range (n := n % 64) (by omega)
    simp only [List.cons_append, List.nil_append, utf8Run_cons, utf8Next_start,
      utf8First_two (m := n / 64) (by omega), utf8Next_last ht, hv]
    rw [show n / 64 * 64 + n % 64 = n by omega]
  · obtain ⟨ht1, hv1⟩ := tail_range (n := n / 64 % 64) (by omega)
    obtain ⟨ht2, hv2⟩ := tail_range (n := n % 64) (by omega)
    have hsecond : (if n / 4096 = 0 then 0xA0 else (0x80 : UInt8)) ≤
          UInt8.ofNat (0x80 + n / 64 % 64) ∧
        UInt8.ofNat (0x80 + n / 64 % 64) ≤ (if n / 4096 = 13 then 0x9F else 0xBF) := by
      rw [IsScalar] at h
      have hb := toNat_byte (n := 0x80 + n / 64 % 64) (by omega)
      constructor
      · split_ifs
        · rw [UInt8.le_iff_toNat_le, hb]
          simp only [UInt8.reduceToNat]
          omega
        · exact ht1.1
      · split_ifs
        · rw [UInt8.le_iff_toNat_le, hb]
          simp only [UInt8.reduceToNat]
          omega
        · exact ht1.2
    simp only [List.cons_append, List.nil_append, utf8Run_cons, utf8Next_start,
      utf8First_three (m := n / 4096) (by omega), utf8Next_more (k := 0) hsecond, hv1,
      utf8Next_last ht2, hv2]
    rw [show (n / 4096 * 64 + n / 64 % 64) * 64 + n % 64 = n by omega]
  · rw [IsScalar] at h
    obtain ⟨ht1, hv1⟩ := tail_range (n := n / 4096 % 64) (by omega)
    obtain ⟨ht2, hv2⟩ := tail_range (n := n / 64 % 64) (by omega)
    obtain ⟨ht3, hv3⟩ := tail_range (n := n % 64) (by omega)
    have hsecond : (if n / 262144 = 0 then 0x90 else (0x80 : UInt8)) ≤
          UInt8.ofNat (0x80 + n / 4096 % 64) ∧
        UInt8.ofNat (0x80 + n / 4096 % 64) ≤ (if n / 262144 = 4 then 0x8F else 0xBF) := by
      have hb := toNat_byte (n := 0x80 + n / 4096 % 64) (by omega)
      constructor
      · split_ifs
        · rw [UInt8.le_iff_toNat_le, hb]
          simp only [UInt8.reduceToNat]
          omega
        · exact ht1.1
      · split_ifs
        · rw [UInt8.le_iff_toNat_le, hb]
          simp only [UInt8.reduceToNat]
          omega
        · exact ht1.2
    simp only [List.cons_append, List.nil_append, utf8Run_cons, utf8Next_start,
      utf8First_four (m := n / 262144) (by omega), utf8Next_more (k := 1) hsecond, hv1,
      utf8Next_more (k := 0) ht2, hv2, utf8Next_last ht3, hv3]
    rw [show ((n / 262144 * 64 + n / 4096 % 64) * 64 + n / 64 % 64) * 64 + n % 64 = n by omega]

theorem utf8Run_scalarBytes {ns : List ℕ} (h : ∀ n ∈ ns, IsScalar n) (rest : Bytes) :
    utf8Run .start (scalarBytes ns ++ rest) = scalarText ns ++ utf8Run .start rest := by
  induction ns with
  | nil => rfl
  | cons n ns ih =>
      have hrest := ih fun m hm => h m (List.mem_cons_of_mem n hm)
      show utf8Run .start ((utf8Bytes n ++ scalarBytes ns) ++ rest) =
        (codePoint n ++ scalarText ns) ++ utf8Run .start rest
      rw [List.append_assoc, utf8Run_scalar (h n (by simp)), hrest, List.append_assoc]

/-- What goes out as UTF-8 comes back well formed. -/
theorem utf8Decode_encode (s : Text) : utf8Decode (utf8Encode s) = toWellFormed s := by
  obtain ⟨ns, hns, htext, hbytes⟩ := exists_scalars s
  have h := utf8Run_scalarBytes hns []
  rw [List.append_nil] at h
  rw [utf8Decode, hbytes, h, htext]
  exact List.append_nil _

/-! ## Decoding any bytes -/

/-- The bits a state may end with are a scalar's. -/
def Utf8State.Good (q : Utf8State) : Prop :=
  match q.owed with
  | 0 => True
  | 1 => ∀ b, q.least ≤ b → b ≤ q.greatest → IsScalar (q.bits * 64 + (b.toNat - 0x80))
  | 2 => ∀ b, q.least ≤ b → b ≤ q.greatest → ∀ x < 64,
      IsScalar ((q.bits * 64 + (b.toNat - 0x80)) * 64 + x)
  | 3 => ∀ b, q.least ≤ b → b ≤ q.greatest → ∀ x < 64, ∀ y < 64,
      IsScalar (((q.bits * 64 + (b.toNat - 0x80)) * 64 + x) * 64 + y)
  | _ => False

/-- Scalars and a state that goes on with them. -/
def Utf8Out (out : Text × Utf8State) : Prop :=
  out.2.Good ∧ ∃ ns : List ℕ, (∀ n ∈ ns, IsScalar n) ∧ out.1 = scalarText ns

theorem utf8Out_nil {q : Utf8State} (h : q.Good) : Utf8Out ([], q) := ⟨h, [], by simp, rfl⟩

theorem utf8Out_one {n : ℕ} (h : IsScalar n) : Utf8Out (codePoint n, .start) :=
  ⟨trivial, [n], by simpa using h, (List.append_nil _).symm⟩

theorem tail_lt {b : UInt8} (h : 0x80 ≤ b ∧ b ≤ 0xBF) : b.toNat - 0x80 < 64 := by
  simp only [UInt8.le_iff_toNat_le, UInt8.reduceToNat] at h
  omega

theorem utf8Out_first (b : UInt8) : Utf8Out (utf8First b) := by
  have hlt := b.toNat_lt
  unfold utf8First
  by_cases h1 : b ≤ 0x7F
  · rw [if_pos h1]
    simp only [UInt8.le_iff_toNat_le, UInt8.reduceToNat] at h1
    have hcode : [UInt16.ofNat b.toNat] = codePoint b.toNat := by
      rw [codePoint, if_pos (by omega)]
    rw [hcode]
    exact utf8Out_one (by rw [IsScalar]; omega)
  rw [if_neg h1]
  by_cases h2 : 0xC2 ≤ b ∧ b ≤ 0xDF
  · rw [if_pos h2]
    refine utf8Out_nil fun c hlo hhi => ?_
    have hc := tail_lt ⟨hlo, hhi⟩
    simp only [UInt8.le_iff_toNat_le, UInt8.reduceToNat] at h2
    show IsScalar ((b.toNat - 0xC0) * 64 + (c.toNat - 0x80))
    rw [IsScalar]
    omega
  rw [if_neg h2]
  by_cases h3 : 0xE0 ≤ b ∧ b ≤ 0xEF
  · rw [if_pos h3]
    refine utf8Out_nil fun c hlo hhi x hx => ?_
    have hhi' : c ≤ if b = 0xED then 0x9F else 0xBF := hhi
    have hrange : c.toNat ≤ 0xBF ∧ (b.toNat = 0xED → c.toNat ≤ 0x9F) := by
      by_cases hb : b = 0xED
      · rw [if_pos hb, UInt8.le_iff_toNat_le] at hhi'
        simp only [UInt8.reduceToNat] at hhi'
        exact ⟨by omega, fun _ => hhi'⟩
      · rw [if_neg hb, UInt8.le_iff_toNat_le] at hhi'
        simp only [UInt8.reduceToNat] at hhi'
        exact ⟨hhi', fun h => absurd (UInt8.toNat_inj.mp h) hb⟩
    simp only [UInt8.le_iff_toNat_le, UInt8.reduceToNat] at h3
    show IsScalar (((b.toNat - 0xE0) * 64 + (c.toNat - 0x80)) * 64 + x)
    rw [IsScalar]
    omega
  rw [if_neg h3]
  by_cases h4 : 0xF0 ≤ b ∧ b ≤ 0xF4
  · rw [if_pos h4]
    refine utf8Out_nil fun c hlo hhi x hx y hy => ?_
    have hlo' : (if b = 0xF0 then 0x90 else 0x80) ≤ c := hlo
    have hhi' : c ≤ if b = 0xF4 then 0x8F else 0xBF := hhi
    have hleast : b.toNat = 0xF0 → 0x90 ≤ c.toNat := by
      intro h
      rw [if_pos (UInt8.toNat_inj.mp h), UInt8.le_iff_toNat_le] at hlo'
      exact hlo'
    have hrange : c.toNat ≤ 0xBF ∧ (b.toNat = 0xF4 → c.toNat ≤ 0x8F) := by
      by_cases hb : b = 0xF4
      · rw [if_pos hb, UInt8.le_iff_toNat_le] at hhi'
        simp only [UInt8.reduceToNat] at hhi'
        exact ⟨by omega, fun _ => hhi'⟩
      · rw [if_neg hb, UInt8.le_iff_toNat_le] at hhi'
        simp only [UInt8.reduceToNat] at hhi'
        exact ⟨hhi', fun h => absurd (UInt8.toNat_inj.mp h) hb⟩
    simp only [UInt8.le_iff_toNat_le, UInt8.reduceToNat] at h4
    show IsScalar ((((b.toNat - 0xF0) * 64 + (c.toNat - 0x80)) * 64 + x) * 64 + y)
    rw [IsScalar]
    omega
  rw [if_neg h4]
  exact utf8Out_one isScalar_replacement

theorem utf8Out_next {q : Utf8State} (hq : q.Good) (b : UInt8) : Utf8Out (utf8Next q b) := by
  obtain ⟨owed, least, greatest, bits⟩ := q
  -- A byte that cannot go on leaves a replacement and is read again.
  have hbad : ∀ owed, ¬ (least ≤ b ∧ b ≤ greatest) →
      Utf8Out (utf8Next ⟨owed + 1, least, greatest, bits⟩ b) := by
    intro owed hnot
    obtain ⟨hgood, ns, hns, htext⟩ := utf8Out_first b
    rw [utf8Next]
    simp only [if_neg hnot]
    refine ⟨hgood, 0xFFFD :: ns, ?_, ?_⟩
    · intro n hn
      rcases List.mem_cons.mp hn with rfl | hn
      · exact isScalar_replacement
      · exact hns n hn
    · show 0xFFFD :: (utf8First b).1 = codePoint 0xFFFD ++ scalarText ns
      rw [htext, codePoint_replacement]
      rfl
  match owed with
  | 0 => exact utf8Out_first b
  | 1 =>
      by_cases hb : least ≤ b ∧ b ≤ greatest
      · rw [utf8Next_last hb]
        exact utf8Out_one (hq b hb.1 hb.2)
      · exact hbad 0 hb
  | 2 =>
      by_cases hb : least ≤ b ∧ b ≤ greatest
      · rw [utf8Next_more (k := 0) hb]
        exact utf8Out_nil fun c hlo hhi => hq b hb.1 hb.2 _ (tail_lt ⟨hlo, hhi⟩)
      · exact hbad 1 hb
  | 3 =>
      by_cases hb : least ≤ b ∧ b ≤ greatest
      · rw [utf8Next_more (k := 1) hb]
        exact utf8Out_nil fun c hlo hhi x hx => hq b hb.1 hb.2 _ (tail_lt ⟨hlo, hhi⟩) x hx
      · exact hbad 2 hb
  | n + 4 => exact hq.elim

theorem exists_scalars_run {q : Utf8State} (hq : q.Good) (bytes : Bytes) :
    ∃ ns : List ℕ, (∀ n ∈ ns, IsScalar n) ∧ utf8Run q bytes = scalarText ns := by
  induction bytes generalizing q with
  | nil =>
      rw [utf8Run]
      split_ifs
      · exact ⟨[], by simp, rfl⟩
      · exact ⟨[0xFFFD], by simpa using isScalar_replacement, rfl⟩
  | cons b rest ih =>
      obtain ⟨hgood, ns, hns, htext⟩ := utf8Out_next hq b
      obtain ⟨ms, hms, hrest⟩ := ih hgood
      refine ⟨ns ++ ms, ?_, ?_⟩
      · intro n hn
        rcases List.mem_append.mp hn with hn | hn
        · exact hns n hn
        · exact hms n hn
      · rw [utf8Run_cons, htext, hrest, scalarText_append]

/-! ## Scalars in texts -/

theorem utf8Bytes_unit {u : UInt16} {s : Text} (hh : isHighSurrogate u = false)
    (hl : isLowSurrogate u = false) : utf8Encode (u :: s) = utf8Bytes u.toNat ++ utf8Encode s := by
  cases s with
  | nil => simp [utf8Encode, hh, hl]
  | cons v s => simp [utf8Encode, hh, hl]

theorem utf8Encode_pair {u v : UInt16} {s : Text} (hu : isHighSurrogate u = true)
    (hv : isLowSurrogate v = true) :
    utf8Encode (u :: v :: s) = utf8Bytes (pairScalar u v) ++ utf8Encode s := by
  rw [utf8Encode, if_pos (by simp [hu, hv])]
  rfl

/-- The units of a scalar: one that is no half, or the two halves of a pair. -/
theorem codePoint_cases {n : ℕ} (h : IsScalar n) :
    (∃ u, codePoint n = [u] ∧ u.toNat = n ∧ isHighSurrogate u = false ∧
      isLowSurrogate u = false) ∨
    ∃ u v, codePoint n = [u, v] ∧ pairScalar u v = n ∧ isHighSurrogate u = true ∧
      isLowSurrogate v = true := by
  rw [IsScalar] at h
  by_cases hn : n < 0x10000
  · left
    have hu : (UInt16.ofNat n).toNat = n := by
      rw [UInt16.toNat_ofNat', Nat.mod_eq_of_lt (by omega)]
    refine ⟨UInt16.ofNat n, by rw [codePoint, if_pos hn], hu, ?_, ?_⟩
    · rw [← Bool.not_eq_true, isHighSurrogate_iff, hu]
      omega
    · rw [← Bool.not_eq_true, isLowSurrogate_iff, hu]
      omega
  · right
    have hu : (UInt16.ofNat (0xD800 + (n - 0x10000) / 0x400)).toNat =
        0xD800 + (n - 0x10000) / 0x400 := by
      rw [UInt16.toNat_ofNat', Nat.mod_eq_of_lt (by omega)]
    have hv : (UInt16.ofNat (0xDC00 + (n - 0x10000) % 0x400)).toNat =
        0xDC00 + (n - 0x10000) % 0x400 := by
      rw [UInt16.toNat_ofNat', Nat.mod_eq_of_lt (by omega)]
    have hback : 0x10000 + (0xD800 + (n - 0x10000) / 0x400 - 0xD800) * 0x400 +
        (0xDC00 + (n - 0x10000) % 0x400 - 0xDC00) = n := by omega
    refine ⟨_, _, by rw [codePoint, if_neg hn], ?_, ?_, ?_⟩
    · unfold pairScalar
      rw [hu, hv]
      exact hback
    · rw [isHighSurrogate_iff, hu]
      omega
    · rw [isLowSurrogate_iff, hv]
      omega

theorem utf8Encode_scalar {n : ℕ} (h : IsScalar n) (s : Text) :
    utf8Encode (codePoint n ++ s) = utf8Bytes n ++ utf8Encode s := by
  obtain ⟨u, hcode, hn, hh, hl⟩ | ⟨u, v, hcode, hn, hu, hv⟩ := codePoint_cases h
  · rw [hcode, List.singleton_append, utf8Bytes_unit hh hl, hn]
  · rw [hcode]
    show utf8Encode (u :: v :: s) = _
    rw [utf8Encode_pair hu hv, hn]

/-- A text in front of another, as bytes. -/
theorem utf8Encode_scalarText {ns : List ℕ} (h : ∀ n ∈ ns, IsScalar n) (s : Text) :
    utf8Encode (scalarText ns ++ s) = scalarBytes ns ++ utf8Encode s := by
  induction ns with
  | nil => rfl
  | cons n ns ih =>
      have hrest := ih fun m hm => h m (List.mem_cons_of_mem n hm)
      show utf8Encode ((codePoint n ++ scalarText ns) ++ s) =
        (utf8Bytes n ++ scalarBytes ns) ++ utf8Encode s
      rw [List.append_assoc, utf8Encode_scalar (h n (by simp)), hrest, List.append_assoc]

theorem utf8Encode_append {a : Text} (h : WellFormed a) (b : Text) :
    utf8Encode (a ++ b) = utf8Encode a ++ utf8Encode b := by
  obtain ⟨ns, hns, htext, hbytes⟩ := exists_scalars a
  rw [h] at htext
  rw [hbytes, htext, utf8Encode_scalarText hns]

/-- A text whose last unit opens no pair, in front of another. -/
theorem utf8Encode_append_last {a : Text} (h : ∀ u ∈ a.getLast?, isHighSurrogate u = false)
    (b : Text) : utf8Encode (a ++ b) = utf8Encode a ++ utf8Encode b := by
  induction a using utf8Encode.induct with
  | case1 => rfl
  | case2 u =>
      have hu : isHighSurrogate u = false := h u rfl
      cases b with
      | nil => simp [utf8Encode]
      | cons v s => simp [utf8Encode, hu]
  | case3 u v s hpair ih =>
      have hs : ∀ w ∈ s.getLast?, isHighSurrogate w = false := fun w hw => h w (by
        cases s with
        | nil => cases hw
        | cons x s => simpa using hw)
      show utf8Encode (u :: v :: (s ++ b)) = _
      rw [utf8Encode, if_pos hpair, utf8Encode, if_pos hpair, ih hs, List.append_assoc]
  | case4 u v s hpair ih =>
      have hs : ∀ w ∈ (v :: s).getLast?, isHighSurrogate w = false := fun w hw => h w (by
        simpa using hw)
      show utf8Encode (u :: v :: (s ++ b)) = _
      rw [utf8Encode, if_neg hpair, utf8Encode, if_neg hpair, List.append_assoc, ← ih hs]
      rfl

theorem wellFormed_scalarText {ns : List ℕ} (h : ∀ n ∈ ns, IsScalar n) :
    WellFormed (scalarText ns) := by
  induction ns with
  | nil => rfl
  | cons n ns ih =>
      have hrest := ih fun m hm => h m (List.mem_cons_of_mem n hm)
      have hn : WellFormed (codePoint n) := by
        obtain ⟨u, hcode, -, hh, hl⟩ | ⟨u, v, hcode, -, hu, hv⟩ := codePoint_cases (h n (by simp))
        · rw [hcode]
          exact wellFormed_singleton hh hl
        · rw [hcode]
          exact wellFormed_pair hu hv
      exact hn.append hrest

/-- Whatever is decoded is well formed. -/
theorem wellFormed_utf8Decode (bytes : Bytes) : WellFormed (utf8Decode bytes) := by
  obtain ⟨ns, hns, htext⟩ := exists_scalars_run (q := .start) trivial bytes
  rw [utf8Decode, htext]
  exact wellFormed_scalarText hns

end Shizuha.Js
