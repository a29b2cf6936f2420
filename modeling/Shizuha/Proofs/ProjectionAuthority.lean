import Shizuha.McpMultiplexer.ProjectionAuthority
import Shizuha.Effect

/-!
# The authority fails closed

An answer of `isAllowed` is traced back to a response. `Witnessed` runs the
authority beside a record of what came in since the last `start`, of every
generation that was stored, and of the one that `start` loaded; `Sound` says
what ties the snapshot to the record. A snapshot is only there in a lifecycle
whose high-water mark was loaded, and every path that could carry one over into
another lifecycle, or past a generation it is below, clears it first.
-/

namespace Shizuha.McpMultiplexer

open Js Machine

variable {crypto : Crypto} {options : ProjectionOptions} {hw : HighWater}

/-! ## What verification checks -/

theorem require_ok {condition : Bool} {message : String} {u : Unit} :
    require condition message = .ok u ↔ condition = true := by
  rw [require]
  split_ifs with h
  · simp [h]
  · simp [h, reject]

/-- A current key of the keyring, under its id. -/
def CurrentKey (pinnedKeyringJson kid : Text) (publicKey : Bytes) : Prop :=
  ∃ parsed keyring items item fields encoded,
    Json.parse pinnedKeyringJson = some parsed ∧ fieldsOf parsed = some keyring ∧
      prop keyring "keys" = some (.arr items) ∧ item ∈ items ∧ fieldsOf item = some fields ∧
      prop fields "kid" = some (.str kid) ∧ prop fields "current" = some (.bool true) ∧
      prop fields "public_key" = some (.str encoded) ∧ publicKey = base64urlDecode encoded

theorem textField_ok {v : Option Json} {check : Text → Bool} {message : String} {s : Text}
    (h : textField v check message = .ok s) : v = some (.str s) := by
  rw [textField.eq_def] at h
  split at h
  · split_ifs at h with hcheck
    · cases h
      rfl
    · cases h
  · cases h

theorem plainObject_ok {v : Option Json} {field : String} {fields : List (Text × Json)}
    (h : plainObject v field = .ok fields) : ∃ o, v = some o ∧ fieldsOf o = some fields := by
  rw [plainObject] at h
  split at h
  · next fields' hfields =>
      cases h
      exact Option.bind_eq_some_iff.mp hfields
  · cases h

theorem parseKey_ok {v : Json} {taken : List Text} (key : Text × Bytes)
    (h : parseKey v taken = .ok (some key)) :
    ∃ fields encoded, fieldsOf v = some fields ∧ prop fields "kid" = some (.str key.1) ∧
      prop fields "current" = some (.bool true) ∧
      prop fields "public_key" = some (.str encoded) ∧ key.2 = base64urlDecode encoded := by
  simp only [parseKey, Except.bind_ok_iff] at h
  obtain ⟨fields, hfields, u, -, kid', hkid, h⟩ := h
  obtain ⟨o, ho, hfields⟩ := plainObject_ok hfields
  cases ho
  split at h
  · next hcurrent =>
      simp only [Except.bind_ok_iff] at h
      obtain ⟨encoded, hencoded, u, -, u', -, h⟩ := h
      cases h
      exact ⟨fields, encoded, hfields, textField_ok hkid, hcurrent, textField_ok hencoded, rfl⟩
  · cases h
  · cases h

theorem parseKeys_ok {items : List Json} {taken keys : List (Text × Bytes)}
    (h : parseKeys taken items = .ok keys) {key : Text × Bytes} (hkey : key ∈ keys) :
    key ∈ taken ∨ ∃ item ∈ items, ∃ others, parseKey item others = .ok (some key) := by
  induction items generalizing taken with
  | nil =>
      cases h
      exact .inl hkey
  | cons v rest ih =>
      simp only [parseKeys, Except.bind_ok_iff] at h
      obtain ⟨read, hread, h⟩ := h
      cases read with
      | none =>
          rcases ih h with htaken | ⟨item, hitem, others, hparse⟩
          · exact .inl htaken
          · exact .inr ⟨item, List.mem_cons_of_mem _ hitem, others, hparse⟩
      | some added =>
          rcases ih h with htaken | ⟨item, hitem, others, hparse⟩
          · rcases List.mem_append.mp htaken with htaken | hadded
            · exact .inl htaken
            · rw [List.mem_singleton.mp hadded]
              exact .inr ⟨v, List.mem_cons_self, _, hread⟩
          · exact .inr ⟨item, List.mem_cons_of_mem _ hitem, others, hparse⟩

/-- A key that is looked up in the keyring is a current one. -/
theorem lookupKey_current {pinnedKeyringJson kid : Text} {keys : List (Text × Bytes)}
    {publicKey : Bytes} (hkeys : parsePinnedMcpProjectionKeyring pinnedKeyringJson = .ok keys)
    (h : lookupKey keys kid = .ok publicKey) : CurrentKey pinnedKeyringJson kid publicKey := by
  rw [lookupKey] at h
  split at h
  · next key hfind =>
      cases h
      have hkid : key.1 = kid := by simpa using List.find?_some hfind
      have hmem := List.mem_of_find?_eq_some hfind
      rw [parsePinnedMcpProjectionKeyring] at hkeys
      split at hkeys
      · cases hkeys
      · next parsed hparsed =>
          simp only [Except.bind_ok_iff] at hkeys
          obtain ⟨keyring, hkeyring, hkeys⟩ := hkeys
          obtain ⟨o, ho, hkeyring⟩ := plainObject_ok hkeyring
          cases ho
          split at hkeys
          · next items hitems =>
              simp only [Except.bind_ok_iff] at hkeys
              obtain ⟨u, -, read, hread, u', -, hkeys⟩ := hkeys
              cases hkeys
              rcases parseKeys_ok hread hmem with hnil | ⟨item, hitem, others, hparse⟩
              · cases hnil
              · obtain ⟨fields, encoded, hfields, hname, hcurrent, hencoded, hkey⟩ :=
                  parseKey_ok key hparse
                exact ⟨parsed, keyring, items, item, fields, encoded, hparsed, hkeyring, hitems,
                  hitem, hfields, hkid ▸ hname, hcurrent, hencoded, hkey⟩
          · cases hkeys
  · cases h

/-- The text of an envelope that parses is the canonical text of its value. -/
theorem parseStrictProjection_canonical {raw : RawEnvelope} {envelope : McpProjectionEnvelope}
    (h : parseStrictProjection crypto raw = .ok envelope) :
    ∃ v, Json.parse raw.decoded = some v ∧ canonicalizeProjectionJson v = .ok raw.decoded := by
  simp only [parseStrictProjection, Except.bind_ok_iff, require_ok] at h
  obtain ⟨-, -, parsed, hparsed, canonical, hcanonical, -, heq, -⟩ := h
  rw [parseJson] at hparsed
  split at hparsed
  · next v hv =>
      cases hparsed
      rw [of_decide_eq_true heq] at hcanonical
      exact ⟨parsed, hv, hcanonical⟩
  · cases hparsed

/-- A response, with the nonce its fetch was made with and the clocks as they
were read for it. -/
structure ProjectionResponse where
  lifecycle : ℕ
  nonce : Bytes
  raw : RawEnvelope
  wallNowMs : ℚ
  monoNowMs : ℚ

/-- What makes a response an authorization. -/
structure Authorizes (crypto : Crypto) (options : ProjectionOptions) (r : ProjectionResponse)
    (envelope : McpProjectionEnvelope) : Prop where
  parses : parseStrictProjection crypto r.raw = .ok envelope
  canonical : ∃ v, Json.parse r.raw.decoded = some v ∧
    canonicalizeProjectionJson v = .ok r.raw.decoded
  nonce : base64urlDecode envelope.nonce = r.nonce
  signed : ∃ publicKey preimage,
    CurrentKey options.pinnedKeyringJson envelope.projection.kid publicKey ∧
      projectionSigningPreimage r.nonce envelope.projectionJson = .ok preimage ∧
      crypto.verify publicKey preimage (base64urlDecode envelope.signature) = true
  audience : envelope.projection.agentAudience = options.agentAudience

def ProjectionResponse.verifies (r : ProjectionResponse) (crypto : Crypto)
    (options : ProjectionOptions) : Except Text VerifiedMcpProjection :=
  verifyMcpProjectionEnvelope crypto r.raw r.nonce options.agentAudience
    options.pinnedKeyringJson options.sSlowMs r.wallNowMs r.monoNowMs

/-- The envelope behind a verified projection, and what is read off it. -/
theorem verifies_ok {r : ProjectionResponse} {verified : VerifiedMcpProjection}
    (h : r.verifies crypto options = .ok verified) :
    ∃ envelope, Authorizes crypto options r envelope ∧ verified.claims = envelope.projection ∧
      verified.allowedServices = envelope.projection.mcpServices ∧
      verified.monoDeadlineMs = r.monoNowMs + remainingMs envelope.projection r.wallNowMs
        (options.sSlowMs.getD defaultSSlowMs) := by
  simp only [ProjectionResponse.verifies, verifyMcpProjectionEnvelope, Except.bind_ok_iff,
    require_ok] at h
  obtain ⟨envelope, hparse, -, hnonce, keys, hkeys, publicKey, hkey, preimage, hpreimage, -,
    hverify, -, haudience, -, -, -, -, -, -, -, -, -, -, h⟩ := h
  have hnonce := of_decide_eq_true hnonce
  rw [hnonce] at hpreimage
  cases h
  exact ⟨envelope, ⟨hparse, parseStrictProjection_canonical hparse, hnonce,
    ⟨publicKey, preimage, lookupKey_current hkeys hkey, hpreimage, hverify⟩,
    of_decide_eq_true haudience⟩, rfl, rfl, rfl⟩

/-! ## The record of a run -/

/-- The authority, and what came in: the responses since the last `start` with
no `stop` after it, the generations whose store returned, and the one the last
`start` loaded. -/
structure Witnessed (hw : HighWater) where
  authority : ProjectionAuthority hw
  responses : List ProjectionResponse
  stored : List ℤ
  loaded : Option ℤ

@[simp] def HighWaterCall.storedGeneration : HighWaterCall → Option ℤ
  | .stored generation => some generation
  | .loaded _ => none

@[simp] def HighWaterCall.loadedGeneration : HighWaterCall → Option ℤ
  | .loaded generation => some generation
  | .stored _ => none

/-- The responses after an event. -/
def Witnessed.heard (w : Witnessed hw) : ProjectionEvent hw → List ProjectionResponse
  | .start _ _ | .stop => []
  | .response (.ok raw) wallNowMs _ =>
      match w.authority.refreshInFlight with
      | some work =>
          if work.settled then w.responses
          else
            w.responses ++
              [⟨work.lifecycle, work.nonce, raw, wallNowMs, w.authority.mono⟩]
      | none => w.responses
  | _ => w.responses

/-- The loaded generation an event leaves behind before its own calls. -/
def Witnessed.kept (w : Witnessed hw) : ProjectionEvent hw → Option ℤ
  | .start _ _ => none
  | _ => w.loaded

def Witnessed.after (w : Witnessed hw) (event : ProjectionEvent hw)
    (next : ProjectionAuthority hw × List HighWaterCall) : Witnessed hw where
  authority := next.1
  responses := w.heard event
  stored := w.stored ++ next.2.filterMap HighWaterCall.storedGeneration
  loaded := (next.2.findSome? HighWaterCall.loadedGeneration).or (w.kept event)

def Witnessed.step (crypto : Crypto) (options : ProjectionOptions) (w : Witnessed hw)
    (event : ProjectionEvent hw) : Witnessed hw :=
  w.after event (w.authority.advance crypto options event)

def Witnessed.init (medium : hw.Medium) (mono : ℚ) : Witnessed hw :=
  ⟨.init medium mono, [], [], none⟩

/-- A service that is allowed is allowed by a response: one of the present
lifecycle, to a fetch with its nonce, that authorizes it, is not below any
generation on record, and has time left on the monotonic clock. -/
def AllowedByResponse (crypto : Crypto) (options : ProjectionOptions) (w : Witnessed hw)
    (event : ProjectionEvent hw) : Prop :=
  ∀ service, event = .isAllowed service → w.authority.isAllowed service = true →
    ∃ r ∈ w.responses, r.lifecycle = w.authority.lifecycle ∧ ∃ envelope,
      Authorizes crypto options r envelope ∧ service ∈ envelope.projection.mcpServices ∧
      (∀ g ∈ w.stored, g ≤ envelope.projection.generation) ∧
      (∀ g ∈ w.loaded, g ≤ envelope.projection.generation) ∧
      w.authority.mono < r.monoNowMs + remainingMs envelope.projection r.wallNowMs
        (options.sSlowMs.getD defaultSSlowMs)

/-! ## What ties the snapshot to the record -/

structure Sound (crypto : Crypto) (options : ProjectionOptions) (w : Witnessed hw) : Prop where
  verified : ∀ v, w.authority.snapshotValue.verified = some v →
    w.authority.highWaterLoaded = true ∧ v.claims.generation = w.authority.highestGeneration ∧
      ∃ r ∈ w.responses, r.lifecycle = w.authority.lifecycle ∧ r.verifies crypto options = .ok v
  known : w.authority.highWaterLoaded = true →
    (∀ g ∈ w.stored, g ≤ w.authority.highestGeneration) ∧
      ∀ g ∈ w.loaded, g ≤ w.authority.highestGeneration
  marked : ∀ g ∈ w.stored, g ≤ hw.mark w.authority.medium
  working : ∀ work, w.authority.refreshInFlight = some work → work.lifecycle ≤ w.authority.lifecycle ∧
    (work.settled = false → work.lifecycle = w.authority.lifecycle →
      w.authority.stopped = false → w.authority.highWaterLoaded = true)
  waiting : (w.authority.starting.map Prod.fst).Nodup ∧ ∀ e ∈ w.authority.starting,
    e.1 ≤ w.authority.lifecycle ∧
      (e.1 = w.authority.lifecycle → w.authority.highWaterLoaded = false)

variable {w : Witnessed hw} {a : ProjectionAuthority hw} {responses : List ProjectionResponse}
  {stored : List ℤ} {loaded : Option ℤ}

theorem sound_init (medium : hw.Medium) (mono : ℚ) :
    Sound crypto options (Witnessed.init medium mono) where
  verified := fun _ h => by cases h
  known := fun h => by cases h
  marked := fun _ h => by cases h
  working := fun _ h => by cases h
  waiting := ⟨List.nodup_nil, fun _ h => by cases h⟩

theorem isAllowed_true {service : Text} (h : a.isAllowed service = true) :
    ∃ v, a.snapshotValue.verified = some v ∧ service ∈ v.allowedServices ∧
      a.mono < v.monoDeadlineMs := by
  cases hv : a.snapshotValue.verified with
  | none => simp [ProjectionAuthority.isAllowed, ProjectionAuthority.snapshot, hv] at h
  | some v =>
      by_cases hdeadline : v.monoDeadlineMs ≤ a.mono
      · simp [ProjectionAuthority.isAllowed, ProjectionAuthority.snapshot, hv, hdeadline,
          ProjectionAuthority.clear] at h
      · simp [ProjectionAuthority.isAllowed, ProjectionAuthority.snapshot, hv, hdeadline] at h
        exact ⟨v, rfl, h.2, lt_of_not_ge hdeadline⟩

/-- An event without a call of the high-water functions. -/
theorem after_quiet (event : ProjectionEvent hw) :
    w.after event (a, []) = ⟨a, w.heard event, w.stored, w.kept event⟩ := by
  rw [Witnessed.after]
  simp

/-- The answer, read back from the snapshot. -/
theorem Sound.allowed (h : Sound crypto options w) (event : ProjectionEvent hw) :
    AllowedByResponse crypto options w event := by
  intro service _ hallowed
  obtain ⟨v, hv, hservice, htime⟩ := isAllowed_true hallowed
  obtain ⟨hloaded, hgeneration, r, hr, hlifecycle, hverifies⟩ := h.verified v hv
  obtain ⟨envelope, hauthorizes, hclaims, hservices, hmono⟩ := verifies_ok hverifies
  rw [hclaims] at hgeneration
  refine ⟨r, hr, hlifecycle, envelope, hauthorizes, hservices ▸ hservice, ?_, ?_, hmono ▸ htime⟩
  · rw [hgeneration]
    exact (h.known hloaded).1
  · rw [hgeneration]
    exact (h.known hloaded).2

/-! ## The operations keep it -/

theorem Sound.clear (h : Sound crypto options ⟨a, responses, stored, loaded⟩)
    (state : ProjectionAuthorityState) (reason : Text) :
    Sound crypto options ⟨a.clear state reason, responses, stored, loaded⟩ where
  verified := fun _ hv => by cases hv
  known := h.known
  marked := h.marked
  working := h.working
  waiting := h.waiting

theorem Sound.snapshot (h : Sound crypto options ⟨a, responses, stored, loaded⟩) :
    Sound crypto options ⟨a.snapshot, responses, stored, loaded⟩ := by
  rw [ProjectionAuthority.snapshot]
  split
  · split_ifs
    · exact h.clear _ _
    · exact h
  · exact h

theorem Sound.timer (h : Sound crypto options ⟨a, responses, stored, loaded⟩)
    (timer : Option ℚ) :
    Sound crypto options ⟨{ a with refreshTimer := timer }, responses, stored, loaded⟩ :=
  ⟨h.verified, h.known, h.marked, h.working, h.waiting⟩

theorem Sound.doRefresh (h : Sound crypto options ⟨a, responses, stored, loaded⟩)
    (nonce : Bytes) : Sound crypto options ⟨a.doRefresh nonce, responses, stored, loaded⟩ := by
  rw [ProjectionAuthority.doRefresh]
  split_ifs with hidle
  · refine ⟨h.verified, h.known, h.marked, fun work hwork => ?_, h.waiting⟩
    cases hwork
    exact ⟨le_refl _, fun hsettled => by cases hsettled⟩
  · simp only [Bool.or_eq_true, Bool.not_eq_true', not_or, Bool.not_eq_true,
      Bool.not_eq_false] at hidle
    refine ⟨h.verified, h.known, h.marked, fun work hwork => ?_, h.waiting⟩
    cases hwork
    exact ⟨le_refl _, fun _ _ _ => hidle.2⟩

theorem Sound.refresh (h : Sound crypto options ⟨a, responses, stored, loaded⟩) (nonce : Bytes) :
    Sound crypto options ⟨a.refresh nonce, responses, stored, loaded⟩ := by
  rw [ProjectionAuthority.refresh]
  split
  · exact h
  · exact h.doRefresh nonce

/-- A high-water mark that is loaded vouches for every generation stored, and
there is no snapshot yet for it to pass. -/
theorem Sound.load {fault : hw.Fault} {generation : ℤ}
    (h : Sound crypto options ⟨a, responses, stored, loaded⟩)
    (hload : hw.load a.medium fault = .ok generation) (hidle : a.highWaterLoaded = false)
    (hstarting : ∀ e ∈ a.starting, e.1 ≠ a.lifecycle) :
    Sound crypto options ⟨{ a with highestGeneration := generation, highWaterLoaded := true },
      responses, stored, some generation⟩ where
  verified := fun v hv => by
    have hloaded : a.highWaterLoaded = true := (h.verified v hv).1
    rw [hidle] at hloaded
    cases hloaded
  known := fun _ =>
    ⟨fun g hg => (h.marked g hg).trans (hw.mark_le_load _ _ _ hload), fun g hg => by
      cases hg
      exact le_refl _⟩
  marked := h.marked
  working := fun work hwork => ⟨(h.working work hwork).1, fun _ _ _ => rfl⟩
  waiting := ⟨h.waiting.1, fun e he =>
    ⟨(h.waiting.2 e he).1, fun heq => absurd heq (hstarting e he)⟩⟩

/-- The rest of a `start`: either it finds itself overtaken, or its load fails,
or the mark is loaded. -/
theorem Sound.launch (event : ProjectionEvent hw) {lifecycle : ℕ} {fault : hw.Fault}
    {nonce : Bytes} (h : Sound crypto options ⟨a, w.heard event, w.stored, w.kept event⟩)
    (hidle : lifecycle = a.lifecycle → a.highWaterLoaded = false)
    (hstarting : ∀ e ∈ a.starting, e.1 ≠ lifecycle) :
    Sound crypto options (w.after event (a.launch lifecycle fault nonce)) := by
  rw [ProjectionAuthority.launch]
  split_ifs with hovertaken
  · rw [after_quiet]
    exact h
  · simp only [Bool.or_eq_true, bne_iff_ne, ne_eq, not_or, not_not] at hovertaken
    split
    · rw [after_quiet]
      exact h.clear _ _
    · next generation hload =>
        have hloaded := h.load hload (hidle hovertaken.2)
          (fun e he => hovertaken.2 ▸ hstarting e he)
        simpa [Witnessed.after, List.filterMap_cons] using hloaded.refresh nonce

theorem Sound.rearm (h : Sound crypto options ⟨a, responses, stored, loaded⟩) (delay : ℚ) :
    Sound crypto options ⟨a.rearm delay, responses, stored, loaded⟩ := by
  rw [ProjectionAuthority.rearm]
  split_ifs
  · exact h.timer _
  · exact h

theorem Sound.refused (h : Sound crypto options ⟨a, responses, stored, loaded⟩)
    (message : Text) :
    Sound crypto options ⟨a.refused options message, responses, stored, loaded⟩ :=
  (h.clear _ _).rearm _

/-- A snapshot of the mark's own generation, with its response on record. What
snapshot was there before does not matter. -/
theorem Sound.accept {v : VerifiedMcpProjection}
    (h : Sound crypto options ⟨a.clear .fenced [], responses, stored, loaded⟩)
    (hloaded : a.highWaterLoaded = true)
    (hgeneration : v.claims.generation = a.highestGeneration)
    (hresponse : ∃ r ∈ responses, r.lifecycle = a.lifecycle ∧
      r.verifies crypto options = .ok v) :
    Sound crypto options ⟨a.accept options v, responses, stored, loaded⟩ := by
  refine Sound.rearm (a := { a with snapshotValue := ⟨.verified, js "ok", some v⟩ })
    ⟨fun v' hv' => ?_, h.known, h.marked, h.working, h.waiting⟩ _
  cases hv'
  exact ⟨hloaded, hgeneration, hresponse⟩

/-- A store takes the mark to its generation, or fails and leaves the mark no
lower than any generation on record. -/
theorem Sound.settle {v : VerifiedMcpProjection} {fault : hw.Fault} {event : ProjectionEvent hw}
    (h : Sound crypto options ⟨a, w.heard event, w.stored, w.kept event⟩)
    (hloaded : a.highWaterLoaded = true)
    (hresponse : ∃ r ∈ w.heard event, r.lifecycle = a.lifecycle ∧
      r.verifies crypto options = .ok v) :
    Sound crypto options (w.after event (a.settle options v fault)) := by
  obtain ⟨hstored, hkept⟩ := h.known hloaded
  rw [ProjectionAuthority.settle]
  split_ifs with hback hforth
  · rw [after_quiet]
    exact h.refused _
  · have habove : ∀ g ∈ w.stored, g ≤ v.claims.generation := fun g hg =>
      (hstored g hg).trans hforth.le
    have hmark : ∀ g ∈ w.stored, g ≤ hw.mark (hw.store a.medium v.claims.generation fault).1 :=
      fun g hg => (le_min (h.marked g hg) (habove g hg)).trans (hw.mark_store _ _ _)
    cases hresult : (hw.store a.medium v.claims.generation fault).2 with
    | error message =>
        simp only [hresult]
        have hfailed : Sound crypto options
            ⟨{ a with medium := (hw.store a.medium v.claims.generation fault).1 },
              w.heard event, w.stored, w.kept event⟩ :=
          ⟨h.verified, h.known, hmark, h.working, h.waiting⟩
        rw [after_quiet]
        exact hfailed.refused message
    | ok u =>
        simp only [hresult]
        have hwritten : Sound crypto options
            ⟨ProjectionAuthority.clear { a with
                medium := (hw.store a.medium v.claims.generation fault).1
                highestGeneration := v.claims.generation } .fenced [],
              w.heard event, w.stored ++ [v.claims.generation], w.kept event⟩ := by
          refine ⟨fun _ hv => (nomatch hv), fun _ => ⟨fun g hg => ?_, fun g hg => ?_⟩,
            fun g hg => ?_, h.working, h.waiting⟩
          · rcases List.mem_append.mp hg with hg | hg
            · exact habove g hg
            · exact (List.mem_singleton.mp hg).le
          · exact (hkept g hg).trans hforth.le
          · rcases List.mem_append.mp hg with hg | hg
            · exact hmark g hg
            · rw [List.mem_singleton.mp hg]
              exact hw.mark_stored _ _ _ hresult
        simpa [Witnessed.after, List.filterMap_cons] using
          hwritten.accept hloaded rfl hresponse
  · have hsame : v.claims.generation = a.highestGeneration :=
      le_antisymm (not_lt.mp hforth) (not_lt.mp hback)
    rw [after_quiet]
    exact (h.clear .fenced []).accept hloaded hsame hresponse

/-- A response to the refresh in flight. One of an earlier lifecycle is
dropped; the others find the mark loaded. -/
theorem Sound.respond {work : RefreshWork} {result : Except Text RawEnvelope} {wallNowMs : ℚ}
    {fault : hw.Fault} (h : Sound crypto options ⟨a, responses, stored, loaded⟩)
    (hw' : w = ⟨a, responses, stored, loaded⟩) (hwork : a.refreshInFlight = some work)
    (hpending : work.settled = false) :
    Sound crypto options (w.after (.response result wallNowMs fault)
      (ProjectionAuthority.respond { a with refreshInFlight := some { work with settled := true } }
        crypto options work result wallNowMs fault)) := by
  subst hw'
  obtain ⟨hlifecycle, hworking⟩ := h.working work hwork
  have hsub : ∀ r ∈ responses, r ∈ Witnessed.heard ⟨a, responses, stored, loaded⟩
      (.response result wallNowMs fault) := by
    intro r hr
    cases result with
    | error message => exact hr
    | ok raw =>
        rw [Witnessed.heard]
        simp only [hwork, hpending, Bool.false_eq_true, if_false]
        exact List.mem_append_left _ hr
  have hsettled : Sound crypto options
      ⟨{ a with refreshInFlight := some { work with settled := true } },
        Witnessed.heard ⟨a, responses, stored, loaded⟩ (.response result wallNowMs fault),
        stored, loaded⟩ := by
    refine ⟨fun v hv => ?_, h.known, h.marked, fun work' hwork' => ?_, h.waiting⟩
    · obtain ⟨hloaded, hgeneration, r, hr, hrest⟩ := h.verified v hv
      exact ⟨hloaded, hgeneration, r, hsub r hr, hrest⟩
    · cases hwork'
      exact ⟨hlifecycle, fun hsettled => by cases hsettled⟩
  unfold ProjectionAuthority.respond
  split_ifs with hdropped
  · rw [after_quiet]
    exact hsettled
  · simp only [Bool.or_eq_true, bne_iff_ne, ne_eq, not_or, not_not, Bool.not_eq_true] at hdropped
    have hloaded : a.highWaterLoaded = true := hworking hpending hdropped.2 hdropped.1
    split
    · next message =>
        rw [after_quiet]
        exact hsettled.refused message
    · next raw =>
        split
        · next message hverify =>
            rw [after_quiet]
            exact hsettled.refused message
        · next v hverify =>
            refine hsettled.settle hloaded
              ⟨⟨work.lifecycle, work.nonce, raw, wallNowMs, a.mono⟩, ?_, hdropped.2, hverify⟩
            simp [Witnessed.heard, hwork, hpending]

theorem Sound.start {fault : hw.Fault} {nonce : Bytes} (h : Sound crypto options w) :
    Sound crypto options (w.after (.start fault nonce) (w.authority.start fault nonce)) := by
  have hstarted : Sound crypto options
      ⟨ProjectionAuthority.clear { w.authority with
          lifecycle := w.authority.lifecycle + 1, stopped := false, highWaterLoaded := false
          refreshTimer := none } .unverified (js "starting"),
        [], w.stored, none⟩ := by
    refine ⟨fun _ hv => (nomatch hv), fun hloaded => (nomatch hloaded), h.marked,
      fun work hwork => ?_, h.waiting.1, fun e he => ?_⟩
    · have hle := (h.working work hwork).1
      exact ⟨hle.trans (Nat.le_succ _), fun _ heq => absurd heq (by
        show work.lifecycle ≠ w.authority.lifecycle + 1
        omega)⟩
    · have hle := (h.waiting.2 e he).1
      exact ⟨hle.trans (Nat.le_succ _), fun _ => rfl⟩
  rw [ProjectionAuthority.start]
  split
  · refine hstarted.launch _ (fun _ => rfl) fun e he heq => ?_
    have hle := (h.waiting.2 e he).1
    have heq : e.1 = w.authority.lifecycle + 1 := heq
    omega
  · next work hwork =>
      rw [after_quiet]
      refine ⟨hstarted.verified, hstarted.known, hstarted.marked, hstarted.working, ?_,
        fun e he => ?_⟩
      · show ((w.authority.starting ++ [_]).map Prod.fst).Nodup
        rw [List.map_append, List.nodup_append]
        refine ⟨h.waiting.1, List.nodup_singleton _, fun l hl l' hl' => ?_⟩
        obtain ⟨e, he, rfl⟩ := List.mem_map.mp hl
        have hle := (h.waiting.2 e he).1
        have hl' : l' = w.authority.lifecycle + 1 := List.mem_singleton.mp hl'
        omega
      · rcases List.mem_append.mp he with he | he
        · exact hstarted.waiting.2 e he
        · rw [List.mem_singleton.mp he]
          exact ⟨le_refl _, fun _ => rfl⟩

theorem Sound.stop (h : Sound crypto options w) :
    Sound crypto options (w.after .stop (w.authority.stop, [])) := by
  rw [after_quiet]
  refine ⟨fun _ hv => (nomatch hv), fun hloaded => (nomatch hloaded), h.marked,
    fun work hwork => ?_, h.waiting.1, fun e he => ?_⟩
  · have hle := (h.working work hwork).1
    exact ⟨hle.trans (Nat.le_succ _), fun _ _ hstopped => (nomatch hstopped)⟩
  · have hle := (h.waiting.2 e he).1
    exact ⟨hle.trans (Nat.le_succ _), fun _ => rfl⟩

/-- A `start` that goes on after its wait: the other waiting ones are of other
lifecycles. -/
theorem Sound.startResumes {lifecycle number : ℕ} {fault : hw.Fault} {nonce : Bytes}
    (h : Sound crypto options w) (hmem : (lifecycle, number) ∈ w.authority.starting) :
    Sound crypto options (w.after (.startResumes lifecycle number fault nonce)
      (ProjectionAuthority.launch
        { w.authority with starting := w.authority.starting.erase (lifecycle, number) }
        lifecycle fault nonce)) := by
  have hsublist := List.erase_sublist (a := (lifecycle, number)) (l := w.authority.starting)
  have herased : Sound crypto options
      ⟨{ w.authority with starting := w.authority.starting.erase (lifecycle, number) },
        w.responses, w.stored, w.loaded⟩ :=
    ⟨h.verified, h.known, h.marked, h.working, h.waiting.1.sublist (hsublist.map _),
      fun e he => h.waiting.2 e (hsublist.subset he)⟩
  refine Sound.launch (.startResumes lifecycle number fault nonce) herased
    (fun heq => (h.waiting.2 _ hmem).2 heq) fun e he heq => ?_
  -- another entry of this lifecycle would be this entry, which is gone
  have hsame : e = (lifecycle, number) :=
    List.inj_on_of_nodup_map h.waiting.1 (hsublist.subset he) hmem heq
  rw [hsame] at he
  exact (List.Nodup.of_map _ h.waiting.1).not_mem_erase he

theorem Sound.step (h : Sound crypto options w) (event : ProjectionEvent hw) :
    Sound crypto options (w.step crypto options event) := by
  have hquiet (a : ProjectionAuthority hw) {event : ProjectionEvent hw}
      (hsound : Sound crypto options ⟨a, w.heard event, w.stored, w.kept event⟩) :
      Sound crypto options (w.after event (a, [])) := by
    rw [after_quiet]
    exact hsound
  rw [Witnessed.step]
  cases event with
  | start fault nonce => exact h.start
  | startResumes lifecycle number fault nonce =>
      rw [ProjectionAuthority.advance]
      split_ifs with hmem
      · exact h.startResumes hmem.1
      · exact hquiet _ h
  | stop => exact h.stop
  | refresh nonce => exact hquiet _ (h.refresh nonce)
  | timerFires nonce =>
      rw [ProjectionAuthority.advance]
      split_ifs
      · exact hquiet _ ((h.timer none).refresh nonce)
      · exact hquiet _ h
  | response result wallNowMs fault =>
      have hsame (hheard : w.heard (.response result wallNowMs fault) = w.responses) :
          Sound crypto options (w.after (.response result wallNowMs fault) (w.authority, [])) := by
        refine hquiet _ ?_
        rw [hheard]
        exact h
      rw [ProjectionAuthority.advance]
      split
      · next work hwork =>
          split_ifs with hsettled
          · refine hsame ?_
            cases result <;> simp [Witnessed.heard, hwork, hsettled]
          · exact h.respond rfl hwork (eq_false_of_ne_true hsettled)
      · next hnone =>
          refine hsame ?_
          cases result <;> simp [Witnessed.heard, hnone]
  | refreshSeen =>
      rw [ProjectionAuthority.advance]
      split
      · split_ifs
        · exact hquiet _ ⟨h.verified, h.known, h.marked, fun _ hwork => (nomatch hwork), h.waiting⟩
        · exact hquiet _ h
      · exact hquiet _ h
  | snapshot => exact hquiet _ h.snapshot
  | isAllowed service => exact hquiet _ h.snapshot
  | tick elapsed => exact hquiet _ ⟨h.verified, h.known, h.marked, h.working, h.waiting⟩

/-- Nothing is allowed but by a response that authorizes it, in every run. -/
theorem projection_fails_closed (crypto : Crypto) (options : ProjectionOptions) (hw : HighWater)
    (medium : hw.Medium) (mono : ℚ) (events : List (ProjectionEvent hw)) :
    Along (Witnessed.step crypto options) (AllowedByResponse crypto options)
      (.init medium mono) events := by
  have hstep (w : Witnessed hw) (event : ProjectionEvent hw) (h : Sound crypto options w)
      (_ : True) :
      AllowedByResponse crypto options w event ∧ Sound crypto options (w.step crypto options event) :=
    ⟨h.allowed event, h.step event⟩
  exact along_of_step hstep (sound_init medium mono) (along_true (fun _ _ => trivial) _ _)

end Shizuha.McpMultiplexer
