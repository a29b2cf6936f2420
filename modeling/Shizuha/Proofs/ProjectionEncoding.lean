import Shizuha.Proofs.ProjectionAuthority
import Shizuha.Telemetry.PrefixFingerprint
import Shizuha.Js.Utf8

/-!
# One text for one envelope

The reader compares the text with the canonical one of the value it parses to
before it looks at any field, and the value that it returns is made of the
fields. The two fit together because the checks leave no room: an object whose
keys joined by commas are the expected ones, and which has all of the expected
fields, has no other field, so that the envelope as it is returned has the same
canonical text.

The other way round, the canonical text of an envelope that meets the checks
parses to the sorted value (`representable_sortKeys`), where every field is
found as in the unsorted one.
-/

namespace Shizuha.McpMultiplexer

open Js Telemetry

/-! ## The envelope as a value -/

/-- A number of the claims; a number that is no safe integer is in none. -/
def integer (n : ℤ) : Json :=
  if h : |n| < 2 ^ 53 then .num (.finite (.ofInt n h)) else .null

/-- The claims as the reader returns them, in the order it sets the fields. -/
def McpProjectionClaims.fields (c : McpProjectionClaims) : List (Text × Json) :=
  [(js "schema_version", integer 1), (js "source", .str (js "hive")),
    (js "mcp_services", .arr (c.mcpServices.map .str)), (js "fingerprint", .str c.fingerprint),
    (js "catalog_version", c.catalogVersion), (js "agent_audience", .str c.agentAudience),
    (js "issued_at", integer c.issuedAt), (js "expires_at", integer c.expiresAt),
    (js "generation", integer c.generation), (js "lease_deadline", integer c.leaseDeadline),
    (js "kid", .str c.kid)]

def McpProjectionClaims.toJson (c : McpProjectionClaims) : Json := .obj c.fields

def envelopeFields (projection : Json) (nonce signature : Text) : List (Text × Json) :=
  [(js "projection", projection), (js "nonce", .str nonce), (js "signature", .str signature)]

/-- The envelope as the reader returns it. -/
def envelopeJson (c : McpProjectionClaims) (nonce signature : Text) : Json :=
  .obj (envelopeFields c.toJson nonce signature)

/-- What the reader checks of the claims. -/
structure McpProjectionClaims.WellFormed (c : McpProjectionClaims) : Prop where
  services : ∀ s ∈ c.mcpServices, isService s = true
  ordered : c.mcpServices.length ≤ 64 ∧ ascending c.mcpServices = true
  nonempty : c.mcpServices ≠ []
  fingerprint : isHex64 c.fingerprint = true
  catalogVersion : isCatalogVersion (some c.catalogVersion) = true
  agentAudience : c.agentAudience ≠ []
  issuedAt : 0 < c.issuedAt ∧ c.issuedAt < 2 ^ 53
  expiresAt : 0 < c.expiresAt ∧ c.expiresAt < 2 ^ 53
  generation : 0 ≤ c.generation ∧ c.generation < 2 ^ 53
  leaseDeadline : 0 < c.leaseDeadline ∧ c.leaseDeadline < 2 ^ 53
  kid : isKid c.kid = true

structure WellFormedEnvelope (c : McpProjectionClaims) (nonce signature : Text) : Prop where
  claims : c.WellFormed
  nonce : isBase64urlOf 43 nonce = true
  signature : isBase64urlOf 86 signature = true

variable {crypto : Crypto} {fields fields' : List (Text × Json)} {name message : String}
  {v : Json} {c : McpProjectionClaims}

/-! ## Integers -/

theorem integer_of_lt {n : ℤ} (h : |n| < 2 ^ 53) : integer n = .num (.finite (.ofInt n h)) :=
  dif_pos h

theorem isSafeInteger_intCast {n : ℤ} (h : |n| < 2 ^ 53) : isSafeInteger (n : ℚ) = true := by
  have hle : |n| ≤ 2 ^ 53 - 1 := by omega
  have hcast : |(n : ℚ)| ≤ 2 ^ 53 - 1 := by exact_mod_cast hle
  simp [isSafeInteger, hcast]

/-- A safe integer is the number of its numerator. -/
theorem num_of_isSafeInteger {x : Double} (h : isSafeInteger x.val = true) :
    |x.val.num| < 2 ^ 53 ∧ Json.num (.finite x) = integer x.val.num := by
  simp only [isSafeInteger, decide_eq_true_eq] at h
  obtain ⟨hden, hle⟩ := h
  have hval : x.val = (x.val.num : ℚ) := (Rat.den_eq_one_iff _).mp hden |>.symm
  have hlt : |x.val.num| < 2 ^ 53 := by
    rw [hval] at hle
    have hcast : |x.val.num| ≤ 2 ^ 53 - 1 := by exact_mod_cast hle
    omega
  refine ⟨hlt, ?_⟩
  rw [integer_of_lt hlt]
  congr 2
  exact Double.ext hval

theorem integerField_integer {n : ℤ} (h : |n| < 2 ^ 53) {check : ℤ → Bool} (hcheck : check n = true)
    (message : String) : integerField (some (integer n)) check message = .ok n := by
  have hnum : ((n : ℚ)).num = n := Rat.num_intCast n
  rw [integer_of_lt h, integerField]
  show (if isSafeInteger (n : ℚ) && check (n : ℚ).num then _ else _) = _
  rw [isSafeInteger_intCast h, hnum, hcheck]
  rfl

theorem integerField_ok {o : Option Json} {check : ℤ → Bool} {n : ℤ}
    (h : integerField o check message = .ok n) :
    o = some (integer n) ∧ |n| < 2 ^ 53 ∧ check n = true := by
  rw [integerField.eq_def] at h
  split at h
  · next x =>
      split_ifs at h with hx
      · cases h
        rw [Bool.and_eq_true] at hx
        obtain ⟨hlt, heq⟩ := num_of_isSafeInteger hx.1
        exact ⟨congrArg some heq, hlt, hx.2⟩
      · cases h
  · cases h

theorem isNumber_one {o : Option Json} (h : isNumber 1 o = true) : o = some (integer 1) := by
  rw [isNumber.eq_def] at h
  split at h
  · next x =>
      have hval : x.val = 1 := of_decide_eq_true h
      rw [integer_of_lt (by decide)]
      congr 3
      exact Double.ext (hval.trans (Int.cast_one).symm)
  · cases h

theorem isText_eq {o : Option Json} {s : String} (h : isText s o = true) :
    o = some (.str (js s)) := by
  rw [isText.eq_def] at h
  split at h
  · next t => rw [of_decide_eq_true h]
  · cases h

theorem isCatalogVersion_some {o : Option Json} (h : isCatalogVersion o = true) :
    o = some (o.getD .null) := by
  cases o with
  | none => cases h
  | some v => rfl

/-! ## Texts and services -/

theorem textField_str {s : Text} {check : Text → Bool} (h : check s = true) (message : String) :
    textField (some (.str s)) check message = .ok s := if_pos h

theorem textField_check {o : Option Json} {check : Text → Bool} {s : Text}
    (h : textField o check message = .ok s) : check s = true := by
  rw [textField_ok h, textField] at h
  split_ifs at h with hcheck
  · exact hcheck
  · cases h

theorem serviceNames_str {ss : List Text} (h : ∀ s ∈ ss, isService s = true) :
    serviceNames (ss.map .str) = .ok ss := by
  induction ss with
  | nil => rfl
  | cons s rest ih =>
      rw [List.map_cons, serviceNames, textField_str (h s List.mem_cons_self),
        ih fun t ht => h t (List.mem_cons_of_mem _ ht)]
      rfl

theorem serviceNames_ok {items : List Json} {ss : List Text} (h : serviceNames items = .ok ss) :
    items = ss.map .str ∧ ∀ s ∈ ss, isService s = true := by
  induction items generalizing ss with
  | nil =>
      cases h
      exact ⟨rfl, by simp⟩
  | cons v rest ih =>
      simp only [serviceNames, Except.bind_ok_iff] at h
      obtain ⟨s, hs, names, hnames, h⟩ := h
      cases h
      obtain ⟨hrest, hall⟩ := ih hnames
      refine ⟨?_, fun t ht => ?_⟩
      · rw [List.map_cons, ← hrest, Option.some.inj (textField_ok hs)]
      · rcases List.mem_cons.mp ht with rfl | ht
        · exact textField_check hs
        · exact hall t ht

theorem parseServices_ok {o : Option Json} {ss : List Text} (h : parseServices o = .ok ss) :
    o = some (.arr (ss.map .str)) ∧ (∀ s ∈ ss, isService s = true) ∧
      (ss.length ≤ 64 ∧ ascending ss = true) ∧ ss ≠ [] := by
  rw [parseServices.eq_def] at h
  split at h
  · next items =>
      simp only [Except.bind_ok_iff, require_ok] at h
      obtain ⟨names, hnames, -, hordered, -, hne, h⟩ := h
      cases h
      obtain ⟨hitems, hall⟩ := serviceNames_ok hnames
      refine ⟨by rw [hitems], hall, by simpa using hordered, of_decide_eq_true hne⟩
  · cases h

theorem parseServices_arr (h : c.WellFormed) :
    parseServices (some (.arr (c.mcpServices.map .str))) = .ok c.mcpServices := by
  have hordered : (decide (c.mcpServices.length ≤ 64) && ascending c.mcpServices) = true := by
    simpa using h.ordered
  rw [parseServices, serviceNames_str h.services]
  show (do
    require (decide (c.mcpServices.length ≤ 64) && ascending c.mcpServices) _
    require (decide (c.mcpServices ≠ [])) _
    return c.mcpServices) = _
  rw [hordered, decide_eq_true h.nonempty]
  rfl

/-! ## Fields -/

theorem mem_of_prop (h : prop fields name = some v) : (js name, v) ∈ fields := by
  rw [prop, Option.map_eq_some_iff] at h
  obtain ⟨f, hf, rfl⟩ := h
  have hkey : f.1 = js name := by simpa using List.find?_some hf
  exact hkey ▸ List.mem_of_find?_eq_some hf

theorem prop_of_mem (hnodup : (fields.map Prod.fst).Nodup) (h : (js name, v) ∈ fields) :
    prop fields name = some v := by
  have hfound : (fields.find? fun f => f.1 = js name).isSome := by
    rw [List.find?_isSome]
    exact ⟨_, h, by simp⟩
  obtain ⟨f, hf⟩ := Option.isSome_iff_exists.mp hfound
  have hkey : f.1 = js name := by simpa using List.find?_some hf
  have hf' : f = (js name, v) :=
    List.inj_on_of_nodup_map hnodup (List.mem_of_find?_eq_some hf) h hkey
  rw [prop, hf, hf']
  rfl

theorem length_join (l : List Text) :
    (join [44] l).length = (l.map List.length).sum + (l.length - 1) := by
  induction l with
  | nil => rfl
  | cons a rest ih =>
      cases rest with
      | nil => simp [join]
      | cons b rest =>
          rw [join, List.intercalate_cons_cons] at *
          simp only [List.length_append, List.length_cons, List.length_nil, List.map_cons,
            List.sum_cons] at ih ⊢
          omega

theorem length_keyList (fields : List (Text × Json)) :
    (keyList fields).length =
      ((fields.map Prod.fst).map List.length).sum + ((fields.map Prod.fst).length - 1) := by
  have hperm := List.perm_insertionSort (fun k l => keyLE k l) (fields.map Prod.fst)
  show (join [44] _).length = _
  rw [length_join, hperm.length_eq, (hperm.map List.length).sum_eq]

theorem keyList_perm (h : fields.Perm fields') : keyList fields = keyList fields' :=
  congrArg (join [44]) (insertionSort_keys_perm (h.map Prod.fst))

/-- An object that has all of the wanted fields, under keys that join to the
wanted ones, has no others. -/
theorem perm_of_keyList (hne : fields' ≠ []) (hnodup : (fields'.map Prod.fst).Nodup)
    (hall : ∀ f ∈ fields', f ∈ fields) (h : keyList fields = keyList fields') :
    fields.Perm fields' := by
  obtain ⟨found, hfound, hsub⟩ := List.subperm_of_subset hnodup.of_map hall
  obtain ⟨rest, hfields⟩ := hsub.exists_perm_append
  have hperm : fields.Perm (fields' ++ rest) := hfields.trans (hfound.append_right rest)
  have hlen := congrArg List.length h
  rw [keyList_perm hperm, length_keyList, length_keyList] at hlen
  have hpos := List.length_pos_iff.mpr hne
  have hrest : rest = [] := by
    by_contra hrest
    have hrestPos := List.length_pos_iff.mpr hrest
    simp only [List.map_append, List.sum_append, List.length_append, List.length_map] at hlen
    omega
  rwa [hrest, List.append_nil] at hperm

/-! ## The claims -/

def claimNames : List Text :=
  [js "schema_version", js "source", js "mcp_services", js "fingerprint", js "catalog_version",
    js "agent_audience", js "issued_at", js "expires_at", js "generation", js "lease_deadline",
    js "kid"]

theorem fst_fields (c : McpProjectionClaims) : c.fields.map Prod.fst = claimNames := rfl

theorem nodup_fields (c : McpProjectionClaims) : (c.fields.map Prod.fst).Nodup := by
  rw [fst_fields]
  decide +kernel

theorem keyList_fields (c : McpProjectionClaims) : keyList c.fields = projectionFields := by
  show join [44] (claimNames.insertionSort fun k l => keyLE k l) = projectionFields
  rw [projectionFields, js_ofList]
  decide +kernel

theorem parseTimestampMs_ok {o : Option Json} {n : ℤ} (h : parseTimestampMs o message = .ok n) :
    o = some (integer n) ∧ 0 < n ∧ n < 2 ^ 53 := by
  obtain ⟨ho, hlt, hpos⟩ := integerField_ok h
  have habs := abs_lt.mp hlt
  exact ⟨ho, of_decide_eq_true hpos, habs.2⟩

theorem parseGeneration_ok {o : Option Json} {n : ℤ} (h : parseGeneration o = .ok n) :
    o = some (integer n) ∧ 0 ≤ n ∧ n < 2 ^ 53 := by
  obtain ⟨ho, hlt, hpos⟩ := integerField_ok h
  have habs := abs_lt.mp hlt
  exact ⟨ho, of_decide_eq_true hpos, habs.2⟩

/-- The claims that are read are well formed, and the object has their fields. -/
theorem parseClaims_ok (h : parseClaims fields = .ok c) :
    c.WellFormed ∧ ∀ f ∈ c.fields, f ∈ fields := by
  simp only [parseClaims, Except.bind_ok_iff, require_ok] at h
  obtain ⟨-, hcatalog, -, hschema, -, hsource, services, hservices, fingerprint, hfingerprint,
    audience, haudience, issuedAt, hissuedAt, expiresAt, hexpiresAt, generation, hgeneration,
    leaseDeadline, hleaseDeadline, kid, hkid, h⟩ := h
  cases h
  obtain ⟨hservicesEq, hnames, hordered, hnonempty⟩ := parseServices_ok hservices
  obtain ⟨hissuedEq, hissued⟩ := parseTimestampMs_ok hissuedAt
  obtain ⟨hexpiresEq, hexpires⟩ := parseTimestampMs_ok hexpiresAt
  obtain ⟨hgenerationEq, hgenerationRange⟩ := parseGeneration_ok hgeneration
  obtain ⟨hleaseEq, hlease⟩ := parseTimestampMs_ok hleaseDeadline
  have hcatalogEq := isCatalogVersion_some hcatalog
  refine ⟨?_, ?_⟩
  · exact
      { services := hnames, ordered := hordered, nonempty := hnonempty
        fingerprint := textField_check hfingerprint, catalogVersion := hcatalogEq ▸ hcatalog
        agentAudience := of_decide_eq_true (textField_check haudience), issuedAt := hissued
        expiresAt := hexpires, generation := hgenerationRange, leaseDeadline := hlease
        kid := textField_check hkid }
  · simp only [McpProjectionClaims.fields, List.forall_mem_cons]
    exact ⟨mem_of_prop (isNumber_one hschema), mem_of_prop (isText_eq hsource),
      mem_of_prop hservicesEq, mem_of_prop (textField_ok hfingerprint), mem_of_prop hcatalogEq,
      mem_of_prop (textField_ok haudience), mem_of_prop hissuedEq, mem_of_prop hexpiresEq,
      mem_of_prop hgenerationEq, mem_of_prop hleaseEq, mem_of_prop (textField_ok hkid), by simp⟩

theorem parseTimestampMs_integer {n : ℤ} (h : 0 < n ∧ n < 2 ^ 53) (message : String) :
    parseTimestampMs (some (integer n)) message = .ok n :=
  integerField_integer (abs_lt.mpr ⟨by omega, h.2⟩) (decide_eq_true h.1) _

theorem parseGeneration_integer {n : ℤ} (h : 0 ≤ n ∧ n < 2 ^ 53) :
    parseGeneration (some (integer n)) = .ok n :=
  integerField_integer (abs_lt.mpr ⟨by omega, h.2⟩) (decide_eq_true h.1) _

theorem isNumber_integer_one : isNumber 1 (some (integer 1)) = true := by
  rw [integer_of_lt (by decide)]
  have hone : ((1 : ℤ) : ℚ) = 1 := Int.cast_one
  exact decide_eq_true hone

/-- Well-formed claims are read off any object that has just their fields. -/
theorem parseClaims_of_perm (hc : c.WellFormed) (hperm : fields.Perm c.fields) :
    parseClaims fields = .ok c := by
  have hnodup : (fields.map Prod.fst).Nodup :=
    (hperm.map Prod.fst).nodup_iff.mpr (nodup_fields c)
  have hall : ∀ f ∈ c.fields, f ∈ fields := fun f hf => hperm.mem_iff.mpr hf
  simp only [McpProjectionClaims.fields, List.forall_mem_cons] at hall
  obtain ⟨hschema, hsource, hservices, hfingerprint, hcatalog, haudience, hissued, hexpires,
    hgeneration, hlease, hkid, -⟩ := hall
  simp only [parseClaims, Except.bind_ok_iff, require_ok, prop_of_mem hnodup hcatalog,
    prop_of_mem hnodup hschema, prop_of_mem hnodup hsource, prop_of_mem hnodup hservices,
    prop_of_mem hnodup hfingerprint, prop_of_mem hnodup haudience, prop_of_mem hnodup hissued,
    prop_of_mem hnodup hexpires, prop_of_mem hnodup hgeneration, prop_of_mem hnodup hlease,
    prop_of_mem hnodup hkid]
  exact ⟨(), hc.catalogVersion, (), isNumber_integer_one, (), by simp [isText], _,
    parseServices_arr hc, _, textField_str hc.fingerprint _, _,
    textField_str (decide_eq_true hc.agentAudience) _, _, parseTimestampMs_integer hc.issuedAt _,
    _, parseTimestampMs_integer hc.expiresAt _, _, parseGeneration_integer hc.generation, _,
    parseTimestampMs_integer hc.leaseDeadline _, _, textField_str hc.kid _, rfl⟩

/-! ## Safe numbers -/

theorem safeItems_eq_all (items : List Json) : safeItems items = items.all safeNumbers := by
  induction items with
  | nil => rfl
  | cons v rest ih => rw [safeItems, ih, List.all_cons]

theorem safeFields_eq_all (fields : List (Text × Json)) :
    safeFields fields = fields.all fun f => safeNumbers f.2 := by
  induction fields with
  | nil => rfl
  | cons f rest ih =>
      obtain ⟨k, v⟩ := f
      rw [safeFields, ih, List.all_cons]

mutual

theorem safeNumbers_sortKeys (v : Json) : safeNumbers (sortKeys v) = safeNumbers v := by
  match v with
  | .null => rfl
  | .bool _ => rfl
  | .num _ => rfl
  | .str _ => rfl
  | .arr items => rw [sortKeys, safeNumbers, safeNumbers, safeItems_sortItems items]
  | .obj fields =>
      have hperm := List.perm_insertionSort (fun f g => keyLE f.1 g.1) (sortFields fields)
      rw [sortKeys, safeNumbers, safeNumbers, safeFields_eq_all, hperm.all_eq,
        ← safeFields_eq_all, safeFields_sortFields fields]

theorem safeItems_sortItems (items : List Json) :
    safeItems (sortItems items) = safeItems items := by
  match items with
  | [] => rfl
  | v :: rest =>
      rw [sortItems, safeItems, safeItems, safeNumbers_sortKeys v, safeItems_sortItems rest]

theorem safeFields_sortFields (fields : List (Text × Json)) :
    safeFields (sortFields fields) = safeFields fields := by
  match fields with
  | [] => rfl
  | (k, v) :: rest =>
      rw [sortFields, safeFields, safeFields, safeNumbers_sortKeys v, safeFields_sortFields rest]

end

theorem canonicalize_ok_iff {text : Text} :
    canonicalizeProjectionJson v = .ok text ↔ safeNumbers v = true ∧ stableJson v = text := by
  simp only [canonicalizeProjectionJson, Except.bind_ok_iff, require_ok]
  constructor
  · intro ⟨_, hsafe, h⟩
    exact ⟨hsafe, Except.ok.inj h⟩
  · intro ⟨hsafe, h⟩
    exact ⟨(), hsafe, congrArg Except.ok h⟩

theorem canonicalize_sortKeys (v : Json) :
    canonicalizeProjectionJson (sortKeys v) = canonicalizeProjectionJson v := by
  rw [canonicalizeProjectionJson, canonicalizeProjectionJson, safeNumbers_sortKeys,
    stableJson_sortKeys]

theorem safeNumbers_integer (n : ℤ) : safeNumbers (integer n) = true := by
  rw [integer]
  split_ifs with h
  · exact isSafeInteger_intCast h
  · rfl

theorem safeNumbers_catalogVersion (h : isCatalogVersion (some v) = true) :
    safeNumbers v = true := by
  rw [isCatalogVersion.eq_def] at h
  split at h
  · next heq => cases heq; rfl
  · next heq =>
      cases heq
      rw [Bool.and_eq_true] at h
      exact h.1
  · cases h

theorem safeNumbers_toJson (hc : c.WellFormed) : safeNumbers c.toJson = true := by
  have hservices : safeNumbers (.arr (c.mcpServices.map .str)) = true := by
    rw [safeNumbers, safeItems_eq_all, List.all_map]
    exact List.all_eq_true.mpr fun _ _ => rfl
  simp only [McpProjectionClaims.toJson, McpProjectionClaims.fields, safeNumbers.eq_def (.obj _),
    safeFields, hservices, safeNumbers_integer, safeNumbers_catalogVersion hc.catalogVersion,
    Bool.true_and]
  rfl

/-! ## From the envelope to the text and back -/

theorem sortKeys_integer (n : ℤ) : sortKeys (integer n) = integer n := by
  rw [integer]
  split_ifs <;> rfl

theorem sortKeys_catalogVersion (h : isCatalogVersion (some v) = true) : sortKeys v = v := by
  rw [isCatalogVersion.eq_def] at h
  split at h
  · next heq => cases heq; rfl
  · next heq => cases heq; rfl
  · cases h

theorem sortFields_fields (hc : c.WellFormed) : sortFields c.fields = c.fields := by
  have hservices : sortKeys (.arr (c.mcpServices.map .str)) = .arr (c.mcpServices.map .str) := by
    rw [sortKeys, sortItems_eq_map, List.map_map]
    rfl
  simp only [McpProjectionClaims.fields, sortFields, hservices, sortKeys_integer,
    sortKeys_catalogVersion hc.catalogVersion]
  rfl

theorem representable_integer (n : ℤ) : (integer n).Representable := by
  rw [integer]
  split_ifs
  · exact ⟨rfl, rfl⟩
  · exact ⟨rfl, rfl⟩

theorem representable_catalogVersion (h : isCatalogVersion (some v) = true) :
    v.Representable := by
  rw [isCatalogVersion.eq_def] at h
  split at h
  · next heq => cases heq; exact ⟨rfl, rfl⟩
  · next heq => cases heq; exact ⟨rfl, rfl⟩
  · cases h

theorem indexKey_claimNames : ∀ k ∈ claimNames, indexKey k = none := by decide +kernel

theorem representable_toJson (hc : c.WellFormed) : (sortKeys c.toJson).Representable := by
  have hstr : ∀ s : Text, (Json.str s).Representable := fun _ => ⟨rfl, rfl⟩
  have hservices : (Json.arr (c.mcpServices.map .str)).Representable := by
    refine representable_arr fun w hw => ?_
    obtain ⟨s, -, rfl⟩ := List.mem_map.mp hw
    exact hstr s
  have hall : ∀ f ∈ c.fields, f.2.Representable := by
    simp only [McpProjectionClaims.fields, List.forall_mem_cons]
    exact ⟨representable_integer _, hstr _, hservices, hstr _,
      representable_catalogVersion hc.catalogVersion, hstr _, representable_integer _,
      representable_integer _, representable_integer _, representable_integer _, hstr _, by simp⟩
  refine representable_sortKeys (nodup_fields c) (fun f hf => ?_) fun f hf => ?_
  · exact indexKey_claimNames f.1 (fst_fields c ▸ List.mem_map_of_mem hf)
  · have hmem : (f.1, sortKeys f.2) ∈ c.fields := by
      rw [← sortFields_fields hc, sortFields_eq_map]
      exact List.mem_map_of_mem hf
    exact hall _ hmem

section Envelope

variable {nonce signature : Text} {projection : Json}

def envelopeNames : List Text := [js "projection", js "nonce", js "signature"]

theorem fst_envelopeFields (projection : Json) (nonce signature : Text) :
    (envelopeFields projection nonce signature).map Prod.fst = envelopeNames := rfl

theorem nodup_envelopeFields (projection : Json) (nonce signature : Text) :
    ((envelopeFields projection nonce signature).map Prod.fst).Nodup := by
  rw [fst_envelopeFields]
  decide +kernel

theorem keyList_envelopeFields (projection : Json) (nonce signature : Text) :
    keyList (envelopeFields projection nonce signature) = js "nonce,projection,signature" := by
  show join [44] (envelopeNames.insertionSort fun k l => keyLE k l) = _
  decide +kernel

theorem sortFields_envelopeFields (projection : Json) (nonce signature : Text) :
    sortFields (envelopeFields projection nonce signature) =
      envelopeFields (sortKeys projection) nonce signature := rfl

theorem representable_envelopeJson (hc : c.WellFormed) (nonce signature : Text) :
    (sortKeys (envelopeJson c nonce signature)).Representable := by
  have hindex : ∀ k ∈ envelopeNames, indexKey k = none := by decide +kernel
  refine representable_sortKeys (nodup_envelopeFields _ nonce signature) (fun f hf => ?_) ?_
  · exact hindex f.1 (fst_envelopeFields _ nonce signature ▸ List.mem_map_of_mem hf)
  · simp only [envelopeFields, List.forall_mem_cons]
    exact ⟨representable_toJson hc, ⟨rfl, rfl⟩, ⟨rfl, rfl⟩, by simp⟩

theorem canonicalize_envelopeJson (hc : c.WellFormed) (nonce signature : Text) :
    canonicalizeProjectionJson (envelopeJson c nonce signature) =
      .ok (stableJson (envelopeJson c nonce signature)) := by
  have hsafe : safeNumbers (envelopeJson c nonce signature) = true := by
    simp only [envelopeJson, envelopeFields, safeNumbers.eq_def (.obj _), safeFields]
    rw [safeNumbers_toJson hc]
    rfl
  exact canonicalize_ok_iff.mpr ⟨hsafe, rfl⟩

/-- The fields of a value as its canonical text has them. -/
def sortedFields (fields : List (Text × Json)) : List (Text × Json) :=
  (sortFields fields).insertionSort fun f g => keyLE f.1 g.1

theorem sortedFields_perm (fields : List (Text × Json)) :
    (sortedFields fields).Perm (sortFields fields) := List.perm_insertionSort _ _

/-- The text of a well-formed envelope is read as that envelope. -/
theorem parse_stableJson_envelopeJson (h : WellFormedEnvelope c nonce signature)
    (hsize : (utf8Encode (stableJson (envelopeJson c nonce signature))).length ≤ 64 * 1024) :
    parseStrictProjection crypto (.text (stableJson (envelopeJson c nonce signature))) =
      .ok ⟨c, sortKeys c.toJson, nonce, signature⟩ := by
  have hne : stableJson (envelopeJson c nonce signature) ≠ [] := by
    rw [envelopeJson, stableJson]
    exact List.cons_ne_nil _ _
  have hparse : Json.parse (stableJson (envelopeJson c nonce signature)) =
      some (sortKeys (envelopeJson c nonce signature)) :=
    parse_stableJson (representable_envelopeJson h.claims nonce signature)
  have henvelope : (sortedFields (envelopeFields c.toJson nonce signature)).Perm
      (envelopeFields (sortKeys c.toJson) nonce signature) :=
    sortedFields_perm (envelopeFields c.toJson nonce signature)
  have hnodup := ((henvelope.map Prod.fst).nodup_iff).mpr
    (nodup_envelopeFields (sortKeys c.toJson) nonce signature)
  have hall : ∀ f ∈ envelopeFields (sortKeys c.toJson) nonce signature,
      f ∈ sortedFields (envelopeFields c.toJson nonce signature) :=
    fun f hf => henvelope.mem_iff.mpr hf
  simp only [envelopeFields, List.forall_mem_cons] at hall
  obtain ⟨hprojection, hnonce, hsignature, -⟩ := hall
  have hclaims : (sortedFields c.fields).Perm c.fields := by
    have hperm := sortedFields_perm c.fields
    rwa [sortFields_fields h.claims] at hperm
  have hcanonical : canonicalizeProjectionJson (sortKeys (envelopeJson c nonce signature)) =
      .ok (stableJson (envelopeJson c nonce signature)) := by
    rw [canonicalize_sortKeys, canonicalize_envelopeJson h.claims]
  have hsorted : sortKeys (envelopeJson c nonce signature) =
      .obj (sortedFields (envelopeFields c.toJson nonce signature)) := rfl
  simp only [parseStrictProjection, RawEnvelope.decoded, Except.bind_ok_iff, require_ok, parseJson,
    hparse]
  refine ⟨(), by simp [hne, hsize], _, rfl, _, hcanonical, (), decide_eq_true rfl,
    sortedFields (envelopeFields c.toJson nonce signature), by rw [hsorted]; rfl, (),
    decide_eq_true ?_, sortedFields c.fields, ?_, (), decide_eq_true ?_, c,
    parseClaims_of_perm h.claims hclaims, nonce, ?_, signature, ?_, rfl⟩
  · rw [keyList_perm henvelope, keyList_envelopeFields]
  · rw [prop_of_mem hnodup hprojection]
    rfl
  · rw [keyList_perm hclaims, keyList_fields]
  · rw [prop_of_mem hnodup hnonce]
    exact textField_str h.nonce _
  · rw [prop_of_mem hnodup hsignature]
    exact textField_str h.signature _

/-- What is read has the text that it was read from, and no other. -/
theorem canonical_of_parse {raw : RawEnvelope} {e : McpProjectionEnvelope}
    (h : parseStrictProjection crypto raw = .ok e) :
    WellFormedEnvelope e.projection e.nonce e.signature ∧
      canonicalizeProjectionJson (envelopeJson e.projection e.nonce e.signature) =
        .ok raw.decoded ∧
      sortKeys e.projectionJson = sortKeys e.projection.toJson := by
  simp only [parseStrictProjection, Except.bind_ok_iff, require_ok] at h
  obtain ⟨-, -, parsed, -, canonical, hcanonical, -, htext, envelope, henvelope, -, hkeys,
    projection, hprojection, -, hprojectionKeys, claims, hclaims, nonce, hnonce, signature,
    hsignature, h⟩ := h
  cases h
  obtain ⟨o, ho, hfields⟩ := plainObject_ok henvelope
  cases ho
  obtain ⟨o, hpropO, hfieldsO⟩ := plainObject_ok hprojection
  have hobj : ∀ {o : Json} {l : List (Text × Json)}, fieldsOf o = some l → o = .obj l := by
    intro o l hl
    cases o <;> first | cases hl; rfl | cases hl
  obtain ⟨hc, hin⟩ := parseClaims_ok hclaims
  have hclaimsPerm : projection.Perm claims.fields := by
    refine perm_of_keyList (List.cons_ne_nil _ _) (nodup_fields claims) hin ?_
    rw [keyList_fields, of_decide_eq_true hprojectionKeys]
  have henvelopePerm : envelope.Perm (envelopeFields (.obj projection) nonce signature) := by
    refine perm_of_keyList (List.cons_ne_nil _ _) (nodup_envelopeFields _ nonce signature) ?_ ?_
    · simp only [envelopeFields, List.forall_mem_cons]
      exact ⟨mem_of_prop (hobj hfieldsO ▸ hpropO), mem_of_prop (textField_ok hnonce),
        mem_of_prop (textField_ok hsignature), by simp⟩
    · rw [keyList_envelopeFields, of_decide_eq_true hkeys]
  have hinner : sortKeys (.obj projection) = sortKeys claims.toJson :=
    sortKeys_perm hclaimsPerm (((hclaimsPerm.map Prod.fst).nodup_iff).mpr (nodup_fields claims))
  -- The value that was parsed sorts to the one that the envelope sorts to.
  have hsorted : sortKeys parsed = sortKeys (envelopeJson claims nonce signature) := by
    have hnodup := ((henvelopePerm.map Prod.fst).nodup_iff).mpr
      (nodup_envelopeFields (.obj projection) nonce signature)
    rw [hobj hfields, sortKeys_perm henvelopePerm hnodup, envelopeJson, sortKeys, sortKeys,
      sortFields_envelopeFields, sortFields_envelopeFields, hinner]
  refine ⟨⟨hc, textField_check hnonce, textField_check hsignature⟩, ?_, hinner⟩
  rw [← canonicalize_sortKeys, ← hsorted, canonicalize_sortKeys, hcanonical,
    of_decide_eq_true htext]

end Envelope

/-! ## What is signed -/

theorem wellFormed_stableJson (v : Json) : WellFormed (stableJson v) := by
  rw [stableJson_eq_print]
  exact wellFormed_print _

theorem utf8Encode_injective {s t : Text} (hs : WellFormed s) (ht : WellFormed t)
    (h : utf8Encode s = utf8Encode t) : s = t := by
  rw [← show toWellFormed s = s from hs, ← utf8Decode_encode, h, utf8Decode_encode]
  exact ht

theorem stableJson_toJson_injective {c' : McpProjectionClaims} (hc : c.WellFormed)
    (hc' : c'.WellFormed) (h : stableJson c.toJson = stableJson c'.toJson) : c = c' := by
  rw [stableJson_eq_iff, (representable_toJson hc).finite, (representable_toJson hc').finite] at h
  have hsame : sortedFields c.fields = sortedFields c'.fields := Json.obj.inj h
  have hperm := sortedFields_perm c.fields
  have hperm' := sortedFields_perm c'.fields
  rw [sortFields_fields hc] at hperm
  rw [sortFields_fields hc'] at hperm'
  have hread := parseClaims_of_perm hc hperm
  rw [hsame, parseClaims_of_perm hc' hperm'] at hread
  exact (Except.ok.inj hread).symm

theorem projectionSigningPreimage_eq {nonce : Bytes} (hnonce : nonce.length = 32)
    (hc : c.WellFormed) :
    projectionSigningPreimage nonce c.toJson =
      .ok (utf8Encode protocolTag ++ [0] ++ nonce ++ [0] ++ utf8Encode (stableJson c.toJson)) := by
  have hcanonical : canonicalizeProjectionJson c.toJson = .ok (stableJson c.toJson) :=
    canonicalize_ok_iff.mpr ⟨safeNumbers_toJson hc, rfl⟩
  rw [projectionSigningPreimage, decide_eq_true hnonce, hcanonical]
  rfl

theorem projectionSigningPreimage_injective {nonce nonce' : Bytes} {c' : McpProjectionClaims}
    (hnonce : nonce.length = 32) (hnonce' : nonce'.length = 32) (hc : c.WellFormed)
    (hc' : c'.WellFormed)
    (h : projectionSigningPreimage nonce c.toJson = projectionSigningPreimage nonce' c'.toJson) :
    nonce = nonce' ∧ c = c' := by
  rw [projectionSigningPreimage_eq hnonce hc, projectionSigningPreimage_eq hnonce' hc'] at h
  have hbytes := Except.ok.inj h
  simp only [List.append_assoc, List.append_cancel_left_eq] at hbytes
  obtain ⟨rfl, hrest⟩ := List.append_inj hbytes (hnonce.trans hnonce'.symm)
  have htext := List.append_cancel_left hrest
  exact ⟨rfl, stableJson_toJson_injective hc hc'
    (utf8Encode_injective (wellFormed_stableJson _) (wellFormed_stableJson _) htext)⟩

/-! ## The encoding -/

/-- Envelopes and texts determine each other, and what is signed determines the
nonce and the claims. -/
structure StrictEncoding (crypto : Crypto) : Prop where
  roundTrip : ∀ c nonce signature, WellFormedEnvelope c nonce signature →
    ∃ text, canonicalizeProjectionJson (envelopeJson c nonce signature) = .ok text ∧
      ((utf8Encode text).length ≤ 64 * 1024 →
        ∃ e, parseStrictProjection crypto (.text text) = .ok e ∧ e.projection = c ∧
          e.nonce = nonce ∧ e.signature = signature)
  canonical : ∀ raw e, parseStrictProjection crypto raw = .ok e →
    WellFormedEnvelope e.projection e.nonce e.signature ∧
      canonicalizeProjectionJson (envelopeJson e.projection e.nonce e.signature) = .ok raw.decoded
  unique : ∀ text text' e e', parseStrictProjection crypto (.text text) = .ok e →
    parseStrictProjection crypto (.text text') = .ok e' → e.projection = e'.projection →
      e.nonce = e'.nonce → e.signature = e'.signature → text = text'
  /-- The claims are signed as they were parsed. -/
  signed : ∀ raw e (nonce : Bytes), parseStrictProjection crypto raw = .ok e →
    projectionSigningPreimage nonce e.projectionJson =
      projectionSigningPreimage nonce e.projection.toJson
  preimage : ∀ raw raw' e e' (nonce nonce' : Bytes), parseStrictProjection crypto raw = .ok e →
    parseStrictProjection crypto raw' = .ok e' → nonce.length = 32 → nonce'.length = 32 →
      projectionSigningPreimage nonce e.projection.toJson =
        projectionSigningPreimage nonce' e'.projection.toJson →
          nonce = nonce' ∧ e.projection = e'.projection

theorem parseStrictProjection_strict (crypto : Crypto) : StrictEncoding crypto where
  roundTrip := by
    intro c nonce signature h
    exact ⟨_, canonicalize_envelopeJson h.claims nonce signature, fun hsize =>
      ⟨_, parse_stableJson_envelopeJson h hsize, rfl, rfl, rfl⟩⟩
  canonical := fun _ _ h => ⟨(canonical_of_parse h).1, (canonical_of_parse h).2.1⟩
  unique := by
    intro text text' e e' h h' hprojection hnonce hsignature
    have hcanonical := (canonical_of_parse h).2.1
    rw [hprojection, hnonce, hsignature, (canonical_of_parse h').2.1] at hcanonical
    exact (Except.ok.inj hcanonical).symm
  signed := by
    intro raw e nonce h
    rw [projectionSigningPreimage, projectionSigningPreimage, ← canonicalize_sortKeys,
      (canonical_of_parse h).2.2, canonicalize_sortKeys]
  preimage := fun _ _ _ _ _ _ h h' hnonce hnonce' hsame =>
    projectionSigningPreimage_injective hnonce hnonce' (canonical_of_parse h).1.claims
      (canonical_of_parse h').1.claims hsame

end Shizuha.McpMultiplexer
