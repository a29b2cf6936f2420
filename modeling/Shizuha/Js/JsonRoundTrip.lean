import Shizuha.Js.JsonSpace

/-!
# What was written reads back

`read_print` is the round trip: the text of a value reads as that value, its
infinities turned into `null`. The induction is on the value, with the text
that follows left arbitrary: it must only not carry on a numeral, and a comma
or a closing bracket never does.
-/

namespace Shizuha.Js

/-! ## Strings -/

theorem hexValue_hexDigit : ∀ n < 16, hexValue (hexDigit n) = some n := by decide

theorem readHex_unicodeEscape (u : UInt16) :
    readHex (hexDigit (u.toNat / 4096)) (hexDigit (u.toNat / 256 % 16))
      (hexDigit (u.toNat / 16 % 16)) (hexDigit (u.toNat % 16)) = some u := by
  have hlt := u.toNat_lt
  rw [readHex, hexValue_hexDigit _ (by omega), hexValue_hexDigit _ (by omega),
    hexValue_hexDigit _ (by omega), hexValue_hexDigit _ (by omega)]
  have hsum : u.toNat / 4096 * 4096 + u.toNat / 256 % 16 * 256 + u.toNat / 16 % 16 * 16 +
      u.toNat % 16 = u.toNat := by omega
  exact congrArg some ((congrArg UInt16.ofNat hsum).trans UInt16.ofNat_toNat)

theorem readString_close (rest : Text) : readString (34 :: rest) = some ([], rest) := by
  rw [readString.eq_def]
  rfl

theorem readString_plain {u : UInt16} {s t rest : Text} (hq : u ≠ 34) (hb : u ≠ 92)
    (hc : ¬ u < 0x20) (h : readString t = some (s, rest)) :
    readString (u :: t) = some (u :: s, rest) := by
  rw [readString.eq_def]
  simp only [if_neg hq, if_neg hb, if_neg hc, h]
  rfl

theorem readString_short {c v : UInt16} {s t rest : Text} (hc : c ≠ 117)
    (hv : unescapeUnit c = some v) (h : readString t = some (s, rest)) :
    readString (92 :: c :: t) = some (v :: s, rest) := by
  rw [readString.eq_def]
  simp only [if_neg hc, hv, h]
  rfl

theorem readString_unicode {a b c d v : UInt16} {s t rest : Text}
    (hv : readHex a b c d = some v) (h : readString t = some (s, rest)) :
    readString (92 :: 117 :: a :: b :: c :: d :: t) = some (v :: s, rest) := by
  rw [readString.eq_def]
  simp only [hv, h]
  rfl

theorem unescapeUnit_shortEscape {u c : UInt16} (h : shortEscape u = some c) :
    c ≠ 117 ∧ unescapeUnit c = some u := by
  simp only [shortEscape] at h
  split_ifs at h <;> subst_vars <;> cases h <;> exact ⟨by decide, rfl⟩

theorem readString_escapeUnit {u : UInt16} {s t rest : Text}
    (h : readString t = some (s, rest)) :
    readString (escapeUnit u ++ t) = some (u :: s, rest) := by
  rw [escapeUnit]
  split
  · next c hc =>
    obtain ⟨hne, hv⟩ := unescapeUnit_shortEscape hc
    exact readString_short hne hv h
  · next hshort =>
    have hne : u ≠ 34 ∧ u ≠ 92 := by
      constructor <;> rintro rfl <;> simp [shortEscape] at hshort
    split_ifs with hlone
    · exact readString_unicode (readHex_unicodeEscape u) h
    · have hc : ¬ u < 0x20 := by
        intro hc
        simp [hc] at hlone
      exact readString_plain hne.1 hne.2 hc h

theorem surrogate_plain {u : UInt16} (h : isHighSurrogate u = true ∨ isLowSurrogate u = true) :
    u ≠ 34 ∧ u ≠ 92 ∧ ¬ u < 0x20 := by
  simp only [isHighSurrogate, isLowSurrogate, Bool.and_eq_true, decide_eq_true_eq,
    UInt16.le_iff_toNat_le, UInt16.lt_iff_toNat_lt, ne_eq, ← UInt16.toNat_inj] at h ⊢
  simp only [UInt16.reduceToNat] at h ⊢
  omega

theorem readString_escape (s rest : Text) :
    readString (escape s ++ 34 :: rest) = some (s, rest) := by
  induction s using escape.induct with
  | case1 => exact readString_close rest
  | case2 u =>
      rw [escape]
      exact readString_escapeUnit (readString_close rest)
  | case3 u v s hpair ih =>
      rw [Bool.and_eq_true] at hpair
      obtain ⟨hu1, hu2, hu3⟩ := surrogate_plain (Or.inl hpair.1)
      obtain ⟨hv1, hv2, hv3⟩ := surrogate_plain (Or.inr hpair.2)
      rw [escape, if_pos (by simp [hpair])]
      exact readString_plain hu1 hu2 hu3 (readString_plain hv1 hv2 hv3 ih)
  | case4 u v s hpair ih =>
      rw [escape, if_neg hpair, List.append_assoc]
      exact readString_escapeUnit ih

/-! ## Values -/

theorem skipSpace_cons {u : UInt16} {s : Text} (h : isJsonSpace u = false) :
    skipSpace (u :: s) = u :: s := by
  rw [skipSpace, List.dropWhile_cons_of_neg (by simp [h])]

/-- A unit no bracket, quote, letter or space is: where a numeral starts. -/
theorem digit_or_minus_cases {u : UInt16} (h : u = 45 ∨ isDigit u = true) :
    isJsonSpace u = false ∧ u ≠ 34 ∧ u ≠ 91 ∧ u ≠ 93 ∧ u ≠ 123 ∧ u ≠ 110 ∧ u ≠ 116 ∧
      u ≠ 102 := by
  simp only [isDigit, isJsonSpace, Bool.and_eq_true, decide_eq_true_eq, Bool.or_eq_false_iff,
    beq_eq_false_iff_ne, UInt16.le_iff_toNat_le, ne_eq, ← UInt16.toNat_inj] at h ⊢
  simp only [UInt16.reduceToNat] at h ⊢
  omega

theorem head_finiteText (x : Double) :
    ∃ u t, finiteText x = u :: t ∧ (u = 45 ∨ isDigit u = true) := by
  rw [finiteText, numeral]
  split_ifs with h0 h1
  · exact ⟨48, [], rfl, Or.inr rfl⟩
  · exact ⟨45, _, rfl, Or.inl rfl⟩
  · obtain ⟨u, t, hut, hu⟩ := head_layout
      (stripZeros (decimalOf |x.val|).1 (decimalOf |x.val|).1 (decimalOf |x.val|).2).1
      (stripZeros (decimalOf |x.val|).1 (decimalOf |x.val|).1 (decimalOf |x.val|).2).2
    exact ⟨u, t, hut, Or.inr hu⟩

/-- No value's text starts with a space or with the end of an array. -/
theorem head_print (v : Json) :
    ∃ u t, v.print = u :: t ∧ isJsonSpace u = false ∧ u ≠ 93 := by
  cases v with
  | null => exact ⟨_, _, rfl, rfl, by decide⟩
  | bool b => cases b <;> exact ⟨_, _, rfl, rfl, by decide⟩
  | num n =>
      cases n with
      | finite x =>
          obtain ⟨u, t, hut, hu⟩ := head_finiteText x
          have hcases := digit_or_minus_cases hu
          exact ⟨u, t, hut, hcases.1, hcases.2.2.2.1⟩
      | infinite negative => exact ⟨_, _, rfl, rfl, by decide⟩
  | str s => exact ⟨_, _, rfl, rfl, by decide⟩
  | arr items => exact ⟨_, _, rfl, rfl, by decide⟩
  | obj fields => exact ⟨_, _, rfl, rfl, by decide⟩

theorem readValue_finite {fuel : ℕ} (x : Double) {rest : Text} (h : Stops rest) :
    readValue (fuel + 1) (finiteText x ++ rest) = some (.num (.finite x), rest) := by
  have hread := readNumber_finiteText x h
  obtain ⟨u, t, hut, hu⟩ := head_finiteText x
  obtain ⟨hs, h34, h91, -, h123, h110, h116, h102⟩ := digit_or_minus_cases hu
  rw [hut, List.cons_append] at hread ⊢
  rw [readValue, skipSpace_cons hs]
  simp only [if_neg h34, if_neg h91, if_neg h123, if_neg h110, if_neg h116, if_neg h102, hread]
  rfl

theorem readValue_str {fuel : ℕ} (s rest : Text) :
    readValue (fuel + 1) (quote s ++ rest) = some (.str s, rest) := by
  have hread := readString_escape s rest
  rw [quote, List.append_assoc, List.cons_append, List.singleton_append, readValue,
    skipSpace_cons (by rfl)]
  simp only [if_true, hread]
  rfl

/-! Reading a bracketed text, one step at a time. -/

theorem readValue_arr {fuel : ℕ} {u : UInt16} {s rest : Text} {vs : List Json}
    (hs : isJsonSpace u = false) (hu : u ≠ 93)
    (h : readItems fuel (u :: s) = some (vs, rest)) :
    readValue (fuel + 1) (91 :: u :: s) = some (.arr vs, rest) := by
  rw [readValue, skipSpace_cons (by rfl)]
  simp only [if_neg (show (91 : UInt16) ≠ 34 by decide), if_true, skipSpace_cons hs, if_neg hu, h]
  rfl

theorem readItems_last {fuel : ℕ} {s rest : Text} {v : Json}
    (h : readValue fuel s = some (v, 93 :: rest)) :
    readItems (fuel + 1) s = some ([v], rest) := by
  rw [readItems, h]
  rfl

theorem readItems_more {fuel : ℕ} {s t rest : Text} {v : Json} {vs : List Json}
    (hv : readValue fuel s = some (v, 44 :: t)) (hvs : readItems fuel t = some (vs, rest)) :
    readItems (fuel + 1) s = some (v :: vs, rest) := by
  rw [readItems, hv]
  simp only [Option.bind_eq_bind, Option.bind_some, skipSpace_cons (u := 44) (by rfl), if_true,
    hvs]

theorem readValue_obj {fuel : ℕ} {s rest : Text} {fs : List (Text × Json)}
    (h : readFields fuel (34 :: s) = some (fs, rest)) :
    readValue (fuel + 1) (123 :: 34 :: s) = some (.obj fs, rest) := by
  rw [readValue, skipSpace_cons (by rfl)]
  simp only [if_neg (show (123 : UInt16) ≠ 34 by decide),
    if_neg (show (123 : UInt16) ≠ 91 by decide), if_true, skipSpace_cons (u := 34) (by rfl),
    if_neg (show (34 : UInt16) ≠ 125 by decide), h]
  rfl

theorem readFields_last {fuel : ℕ} {k t rest : Text} {v : Json}
    (h : readValue fuel t = some (v, 125 :: rest)) :
    readFields (fuel + 1) (quote k ++ 58 :: t) = some ([(k, v)], rest) := by
  have hkey := readString_escape k (58 :: t)
  rw [quote, List.append_assoc, List.cons_append, List.singleton_append, readFields,
    skipSpace_cons (by rfl)]
  simp only [if_true, hkey, Option.bind_eq_bind, Option.bind_some,
    skipSpace_cons (u := 58) (by rfl), h]
  rfl

theorem readFields_more {fuel : ℕ} {k s t rest : Text} {v : Json} {fs : List (Text × Json)}
    (hv : readValue fuel s = some (v, 44 :: t)) (hfs : readFields fuel t = some (fs, rest)) :
    readFields (fuel + 1) (quote k ++ 58 :: s) = some ((k, v) :: fs, rest) := by
  have hkey := readString_escape k (58 :: s)
  rw [quote, List.append_assoc, List.cons_append, List.singleton_append, readFields,
    skipSpace_cons (by rfl)]
  simp only [if_true, hkey, Option.bind_eq_bind, Option.bind_some,
    skipSpace_cons (u := 58) (by rfl), hv, skipSpace_cons (u := 44) (by rfl), hfs]

theorem stops_close {u : UInt16} {s : Text} (h : u = 44 ∨ u = 93 ∨ u = 125) :
    Stops (u :: s) := by
  rcases h with rfl | rfl | rfl <;> exact ⟨rfl, by decide, by decide, by decide⟩

/-- The texts inside brackets are not empty, and do not close them. -/
theorem head_printItems (v : Json) (items : List Json) :
    ∃ u t, printItems (v :: items) = u :: t ∧ isJsonSpace u = false ∧ u ≠ 93 := by
  obtain ⟨u, t, hut, hs, hu⟩ := head_print v
  cases items with
  | nil => exact ⟨u, t, by rw [printItems, hut], hs, hu⟩
  | cons w items => exact ⟨u, _, by rw [printItems, hut, List.cons_append], hs, hu⟩

theorem head_printFields (f : Text × Json) (fields : List (Text × Json)) :
    ∃ t, printFields (f :: fields) = 34 :: t := by
  cases fields with
  | nil => exact ⟨_, by rw [printFields, quote, List.cons_append, List.cons_append]⟩
  | cons g fields => exact ⟨_, by
      rw [printFields, quote, List.cons_append, List.cons_append, List.cons_append]⟩

mutual

/-- The text of a value reads as the value, whatever follows it. -/
theorem readValue_print (fuel : ℕ) (v : Json) (rest : Text)
    (hfuel : 2 * v.print.length ≤ fuel) (h : Stops rest) :
    readValue fuel (v.print ++ rest) = some (v.nullify, rest) := by
  match fuel, v with
  | 0, v =>
      obtain ⟨u, t, hut, -⟩ := head_print v
      rw [hut, List.length_cons] at hfuel
      omega
  | _ + 1, .null => rfl
  | _ + 1, .bool true => rfl
  | _ + 1, .bool false => rfl
  | _ + 1, .num (.finite x) => exact readValue_finite x h
  | _ + 1, .num (.infinite _) => rfl
  | _ + 1, .str s => exact readValue_str s rest
  | _ + 1, .arr [] => rfl
  | fuel + 1, .arr (w :: items) =>
      rw [Json.print, List.length_append, List.length_cons, List.length_singleton] at hfuel
      have hread := readItems_print fuel w items rest (by omega)
      obtain ⟨u, t, hut, hs, hu⟩ := head_printItems w items
      rw [hut, List.cons_append] at hread
      rw [Json.print, hut, List.append_assoc, List.cons_append, List.cons_append,
        List.singleton_append]
      exact readValue_arr hs hu hread
  | _ + 1, .obj [] => rfl
  | fuel + 1, .obj (f :: fields) =>
      rw [Json.print, List.length_append, List.length_cons, List.length_singleton] at hfuel
      have hread := readFields_print fuel f fields rest (by omega)
      obtain ⟨t, hut⟩ := head_printFields f fields
      rw [hut, List.cons_append] at hread
      rw [Json.print, hut, List.append_assoc, List.cons_append, List.cons_append,
        List.singleton_append]
      exact readValue_obj hread

theorem readItems_print (fuel : ℕ) (v : Json) (items : List Json) (rest : Text)
    (hfuel : 2 * (printItems (v :: items)).length + 1 ≤ fuel) :
    readItems fuel (printItems (v :: items) ++ 93 :: rest) =
      some (nullifyItems (v :: items), rest) := by
  match fuel, items with
  | 0, _ => omega
  | fuel + 1, [] =>
      rw [printItems] at hfuel ⊢
      exact readItems_last (readValue_print fuel v _ (by omega) (stops_close (by simp)))
  | fuel + 1, w :: items =>
      rw [printItems, List.length_append, List.length_cons] at hfuel
      rw [printItems, List.append_assoc, List.cons_append]
      exact readItems_more (readValue_print fuel v _ (by omega) (stops_close (by simp)))
        (readItems_print fuel w items rest (by omega))

theorem readFields_print (fuel : ℕ) (f : Text × Json) (fields : List (Text × Json))
    (rest : Text) (hfuel : 2 * (printFields (f :: fields)).length + 1 ≤ fuel) :
    readFields fuel (printFields (f :: fields) ++ 125 :: rest) =
      some (nullifyFields (f :: fields), rest) := by
  match fuel, f, fields with
  | 0, _, _ => omega
  | fuel + 1, (k, v), [] =>
      rw [printFields, List.length_append, List.length_cons] at hfuel
      rw [printFields, List.append_assoc, List.cons_append]
      exact readFields_last (readValue_print fuel v _ (by omega) (stops_close (by simp)))
  | fuel + 1, (k, v), g :: fields =>
      rw [printFields, List.length_append, List.length_append, List.length_cons,
        List.length_cons] at hfuel
      rw [printFields, List.append_assoc, List.append_assoc, List.cons_append, List.cons_append]
      exact readFields_more (readValue_print fuel v _ (by omega) (stops_close (by simp)))
        (readFields_print fuel g fields rest (by omega))

end

/-- The round trip, before the fields are put in order. -/
theorem read_print (v : Json) : Json.read v.print = some v.nullify := by
  have h := readValue_print (2 * v.print.length + 2) v [] (by omega) trivial
  rw [List.append_nil] at h
  rw [Json.read, h]
  rfl

/-- The round trip. -/
theorem parse_print (v : Json) : Json.parse v.print = some v.nullify.normalize := by
  rw [Json.parse, read_print, Option.map_some]

/-! ## Values that come back as they are -/

/-- A value that writing and reading leave alone: finite numbers, and objects
in property order. -/
structure Json.Representable (v : Json) : Prop where
  finite : v.nullify = v
  ordered : v.normalize = v

theorem Json.Representable.parse_print {v : Json} (h : v.Representable) :
    Json.parse v.print = some v := by
  rw [Js.parse_print, h.finite, h.ordered]

theorem nullifyItems_eq_map (items : List Json) : nullifyItems items = items.map Json.nullify := by
  induction items with
  | nil => rfl
  | cons v rest ih => rw [nullifyItems, ih, List.map_cons]

theorem normalizeItems_eq_map (items : List Json) :
    normalizeItems items = items.map Json.normalize := by
  induction items with
  | nil => rfl
  | cons v rest ih => rw [normalizeItems, ih, List.map_cons]

theorem representable_arr {items : List Json} (h : ∀ v ∈ items, v.Representable) :
    (Json.arr items).Representable where
  finite := by
    rw [Json.nullify, nullifyItems_eq_map]
    exact congrArg Json.arr ((List.map_congr_left fun v hv => (h v hv).finite).trans
      (List.map_id' items))
  ordered := by
    rw [Json.normalize, normalizeItems_eq_map]
    exact congrArg Json.arr ((List.map_congr_left fun v hv => (h v hv).ordered).trans
      (List.map_id' items))

theorem setField_append {k : Text} {v : Json} {fields : List (Text × Json)}
    (h : k ∉ fields.map Prod.fst) : setField k v fields = fields ++ [(k, v)] := by
  induction fields with
  | nil => rfl
  | cons f rest ih =>
      rw [List.map_cons, List.mem_cons, not_or] at h
      rw [setField, if_neg (Ne.symm h.1), ih h.2, List.cons_append]

theorem foldl_setField {fields acc : List (Text × Json)}
    (h : ((acc ++ fields).map Prod.fst).Nodup) :
    fields.foldl (fun acc f => setField f.1 f.2 acc) acc = acc ++ fields := by
  induction fields generalizing acc with
  | nil => rw [List.foldl_nil, List.append_nil]
  | cons f rest ih =>
      have hf : f.1 ∉ acc.map Prod.fst := by
        rw [List.map_append, List.nodup_append] at h
        exact fun hmem => h.2.2 f.1 hmem f.1 (by simp) rfl
      rw [List.foldl_cons, setField_append hf, ih (by simpa using h), List.append_assoc]
      rfl

/-- Fields without repeated keys and without integer keys are in order. -/
theorem buildFields_eq_self {fields : List (Text × Json)} (hnodup : (fields.map Prod.fst).Nodup)
    (hindex : ∀ f ∈ fields, indexKey f.1 = none) : buildFields fields = fields := by
  have hsome : fields.filter (fun f => (indexKey f.1).isSome) = [] :=
    List.filter_eq_nil_iff.mpr fun f hf => by simp [hindex f hf]
  have hnone : fields.filter (fun f => !(indexKey f.1).isSome) = fields :=
    List.filter_eq_self.mpr fun f hf => by simp [hindex f hf]
  rw [buildFields, foldl_setField (by simpa using hnodup), List.nil_append, propertyOrder, hsome,
    hnone, List.insertionSort_nil, List.nil_append]

theorem nullifyFields_eq_map (fields : List (Text × Json)) :
    nullifyFields fields = fields.map fun f => (f.1, f.2.nullify) := by
  induction fields with
  | nil => rfl
  | cons f rest ih => rw [nullifyFields, ih, List.map_cons]

theorem normalizeFields_eq_map (fields : List (Text × Json)) :
    normalizeFields fields = fields.map fun f => (f.1, f.2.normalize) := by
  induction fields with
  | nil => rfl
  | cons f rest ih => rw [normalizeFields, ih, List.map_cons]

/-- What becomes of an object whose keys are among `keys`. -/
theorem normalize_nullify_obj (keys : List Text) {fields : List (Text × Json)}
    (hfields : (fields.map Prod.fst).Sublist keys) (hnodup : keys.Nodup)
    (hindex : ∀ k ∈ keys, indexKey k = none) :
    (Json.obj fields).nullify.normalize =
      .obj (fields.map fun f => (f.1, f.2.nullify.normalize)) := by
  have hmap : (fields.map fun f => (f.1, f.2.nullify.normalize)).map Prod.fst =
      fields.map Prod.fst := by simp [List.map_map, Function.comp_def]
  rw [Json.nullify, Json.normalize, nullifyFields_eq_map, normalizeFields_eq_map, List.map_map,
    Function.comp_def, buildFields_eq_self]
  · rw [hmap]
    exact hnodup.sublist hfields
  · intro f hf
    obtain ⟨g, hg, rfl⟩ := List.mem_map.mp hf
    exact hindex g.1 (hfields.subset (List.mem_map_of_mem hg))

/-- An object whose keys are in order comes back when its values do. -/
theorem representable_obj {fields : List (Text × Json)} (hnodup : (fields.map Prod.fst).Nodup)
    (hindex : ∀ f ∈ fields, indexKey f.1 = none) (h : ∀ f ∈ fields, f.2.Representable) :
    (Json.obj fields).Representable where
  finite := by
    rw [Json.nullify, nullifyFields_eq_map]
    exact congrArg Json.obj ((List.map_congr_left fun f hf => by rw [(h f hf).finite]).trans
      (List.map_id' fields))
  ordered := by
    have hmap : (fields.map fun f => (f.1, f.2.normalize)) = fields :=
      (List.map_congr_left fun f hf => by rw [(h f hf).ordered]).trans (List.map_id' fields)
    rw [Json.normalize, normalizeFields_eq_map, hmap, buildFields_eq_self hnodup hindex]

/-- A key with a unit in it that is no digit. -/
theorem indexKey_eq_none {k : Text} {u : UInt16} (hu : u ∈ k) (h : isDigit u = false) :
    indexKey k = none := by
  rw [indexKey, if_neg]
  intro hk
  rw [← hk.1] at hu
  simp [isDigit_of_mem_decimal hu] at h

/-- A value on a line of its own. -/
theorem Json.Representable.parse_line {v : Json} (h : v.Representable) :
    Json.parse (v.print ++ [newline]) = some v :=
  parse_append_space h.parse_print fun u hu => by rw [List.mem_singleton.mp hu]; rfl

/-! ## What was written survives UTF-8

A lone surrogate is escaped, and nothing else that is written is one. -/

theorem not_surrogate_of_ascii {u : UInt16} (h : u < 128) :
    isHighSurrogate u = false ∧ isLowSurrogate u = false := by
  simp only [isHighSurrogate, isLowSurrogate, Bool.and_eq_false_iff, decide_eq_false_iff_not,
    UInt16.le_iff_toNat_le, UInt16.lt_iff_toNat_lt] at h ⊢
  simp only [UInt16.reduceToNat] at h ⊢
  omega

theorem wellFormed_of_ascii {s : Text} (h : ∀ u ∈ s, u < 128) : WellFormed s :=
  wellFormed_of_forall fun u hu => not_surrogate_of_ascii (h u hu)

/-- A replacement shows: a text that comes out in ASCII went in like that. -/
theorem wellFormed_of_ascii_result {s : Text} (h : ∀ u ∈ toWellFormed s, u < 128) :
    WellFormed s := by
  have hreplacement : ¬ (0xFFFD : UInt16) < 128 := by decide
  rw [WellFormed]
  induction s using toWellFormed.induct with
  | case1 => rfl
  | case2 u hu =>
      rw [toWellFormed, if_pos hu] at h
      exact absurd (h _ List.mem_cons_self) hreplacement
  | case3 u hu => rw [toWellFormed, if_neg hu]
  | case4 u v s hu hv ih =>
      rw [toWellFormed, if_pos hu, if_pos hv] at h ⊢
      have hascii := (not_surrogate_of_ascii (h u List.mem_cons_self)).1
      exact absurd hu (by simp [hascii])
  | case5 u v s hu hv ih =>
      rw [toWellFormed, if_pos hu, if_neg hv] at h
      exact absurd (h _ List.mem_cons_self) hreplacement
  | case6 u v s hu hl ih =>
      rw [toWellFormed, if_neg hu, if_pos hl] at h
      exact absurd (h _ List.mem_cons_self) hreplacement
  | case7 u v s hu hl ih =>
      rw [toWellFormed, if_neg hu, if_neg hl] at h ⊢
      rw [ih fun w hw => h w (List.mem_cons_of_mem _ hw)]

theorem hexDigit_ascii : ∀ n < 16, hexDigit n < 128 := by decide

theorem wellFormed_escapeUnit (u : UInt16) : WellFormed (escapeUnit u) := by
  rw [escapeUnit]
  split
  · next c hc =>
    refine wellFormed_of_ascii ?_
    simp only [shortEscape] at hc
    split_ifs at hc <;> cases hc <;> simp
  · split_ifs with hlone
    · have hlt := u.toNat_lt
      refine wellFormed_of_ascii ?_
      simp only [unicodeEscape, List.mem_cons, List.not_mem_nil, or_false]
      rintro v (rfl | rfl | rfl | rfl | rfl | rfl)
      · decide
      · decide
      · exact hexDigit_ascii _ (by omega)
      · exact hexDigit_ascii _ (by omega)
      · exact hexDigit_ascii _ (by omega)
      · exact hexDigit_ascii _ (by omega)
    · simp only [Bool.or_eq_true, not_or, Bool.not_eq_true] at hlone
      exact wellFormed_singleton hlone.1.2 hlone.2

theorem wellFormed_escape (s : Text) : WellFormed (escape s) := by
  induction s using escape.induct with
  | case1 => rfl
  | case2 u => exact wellFormed_escapeUnit u
  | case3 u v s hpair ih =>
      rw [escape, if_pos hpair]
      rw [Bool.and_eq_true] at hpair
      exact (wellFormed_pair hpair.1 hpair.2).append ih
  | case4 u v s hpair ih =>
      rw [escape, if_neg hpair]
      exact (wellFormed_escapeUnit u).append ih

theorem wellFormed_quote (s : Text) : WellFormed (quote s) :=
  ((wellFormed_escape s).cons (by rfl) (by rfl)).append (by rfl)

theorem digit_ascii {u : UInt16} (h : isDigit u = true) : u < 128 := by
  simp only [isDigit, Bool.and_eq_true, decide_eq_true_eq, UInt16.le_iff_toNat_le,
    UInt16.lt_iff_toNat_lt] at h ⊢
  simp only [UInt16.reduceToNat] at h ⊢
  omega

theorem decimal_ascii {n : ℕ} {u : UInt16} (h : u ∈ decimal n) : u < 128 :=
  digit_ascii (isDigit_of_mem_decimal h)

theorem layout_ascii {s : ℕ} {e : ℤ} {u : UInt16} (h : u ∈ layout s e) : u < 128 := by
  have hexp : ∀ n, u ∈ exponentText n → u < 128 := by
    intro n hu
    simp only [exponentText, List.mem_cons] at hu
    rcases hu with rfl | rfl | hu
    · decide
    · split_ifs <;> decide
    · exact decimal_ascii hu
  simp only [layout] at h
  split_ifs at h <;> simp only [List.mem_append, List.mem_cons, List.append_assoc,
    List.cons_append] at h
  · rcases h with h | h
    · exact decimal_ascii h
    · exact digit_ascii (isDigit_of_mem_zeros h)
  · rcases h with h | rfl | h
    · exact decimal_ascii (List.mem_of_mem_take h)
    · decide
    · exact decimal_ascii (List.mem_of_mem_drop h)
  · rcases h with rfl | rfl | h | h
    · decide
    · decide
    · exact digit_ascii (isDigit_of_mem_zeros h)
    · exact decimal_ascii h
  · rcases h with h | h
    · exact decimal_ascii h
    · exact hexp _ h
  · rcases h with h | rfl | h | h
    · exact decimal_ascii (List.mem_of_mem_take h)
    · decide
    · exact decimal_ascii (List.mem_of_mem_drop h)
    · exact hexp _ h

theorem wellFormed_numberText (n : Number) : WellFormed (numberText n) := by
  cases n with
  | infinite negative => rfl
  | finite x =>
      refine wellFormed_of_ascii fun u hu => ?_
      simp only [numberText, finiteText, numeral] at hu
      split_ifs at hu with h0 h1
      · rw [List.mem_singleton.mp hu]
        decide
      · rcases List.mem_cons.mp hu with rfl | hu
        · decide
        · exact layout_ascii hu
      · exact layout_ascii hu

mutual

theorem wellFormed_print (v : Json) : WellFormed v.print := by
  match v with
  | .null => rfl
  | .bool true => rfl
  | .bool false => rfl
  | .num n => exact wellFormed_numberText n
  | .str s => exact wellFormed_quote s
  | .arr items => exact ((wellFormed_printItems items).cons (by rfl) (by rfl)).append (by rfl)
  | .obj fields => exact ((wellFormed_printFields fields).cons (by rfl) (by rfl)).append (by rfl)

theorem wellFormed_printItems (items : List Json) : WellFormed (printItems items) := by
  match items with
  | [] => rfl
  | [v] => exact wellFormed_print v
  | v :: w :: items =>
      exact (wellFormed_print v).append
        ((wellFormed_printItems (w :: items)).cons (by rfl) (by rfl))

theorem wellFormed_printFields (fields : List (Text × Json)) :
    WellFormed (printFields fields) := by
  match fields with
  | [] => rfl
  | [(k, v)] => exact (wellFormed_quote k).append ((wellFormed_print v).cons (by rfl) (by rfl))
  | (k, v) :: f :: fields =>
      exact ((wellFormed_quote k).append ((wellFormed_print v).cons (by rfl) (by rfl))).append
        ((wellFormed_printFields (f :: fields)).cons (by rfl) (by rfl))

end

end Shizuha.Js
