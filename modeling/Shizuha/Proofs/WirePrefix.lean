import Shizuha.Proofs.MessageRoundTrip
import Shizuha.Proofs.StoreCases

/-!
# The wire prefix covers what is stored

A saved wire prefix stands for the first messages of its session. `WireTrace`
runs the store next to a record of what those messages were when the prefix
was saved; `WirePrefixValid` says they still are. Appending keeps it, a
rewrite through `replaceMessages` drops the prefix, a deletion drops it by
cascade. What is left is the commit of a recovery successor: it rewrites the
messages and keeps the prefix, so the prefix stays valid exactly when the rows
it covers are written back as they were.
-/

namespace Shizuha.State

open Js Agent

/-- The store, and the rows every session had when its wire prefix was last
saved. -/
structure WireTrace where
  store : Store
  saved : Text → List MessageRow

def wireStep (w : WireTrace) (op : StoreOp) : WireTrace where
  store := storeStep w.store op
  saved :=
    match op with
    | .saveWirePrefix sessionId _ _ =>
        match w.store.apply op with
        | .ok _ => Function.update w.saved (boundText sessionId) (w.store.projection sessionId)
        | .error _ => w.saved
    | _ => w.saved

def wireStart (clock : ℕ → Double) : WireTrace := ⟨Store.fresh clock, fun _ => []⟩

/-- A stored prefix of `n` messages stands for the first `n` messages of its
session, and these are the ones it was saved for. -/
def WirePrefixValid (w : WireTrace) : Prop :=
  ∀ sessionId n payload, w.store.loadWirePrefix sessionId = some (n, payload) →
    (w.saved (boundText sessionId)).length = n ∧
      (w.store.projection sessionId).take n = w.saved (boundText sessionId)

/-- Prefixes are saved for all messages there are. -/
def SavesAll (w : WireTrace) (op : StoreOp) : Prop :=
  ∀ sessionId n payload, op = .saveWirePrefix sessionId n payload →
    n = (w.store.projection sessionId).length

/-- A commit that goes through writes back the rows a stored prefix covers. -/
def CommitKeepsPrefix (w : WireTrace) (op : StoreOp) : Prop :=
  ∀ sessionId episodeId messages outcome,
    op = .commitExpensiveTurnSuccessor sessionId episodeId messages outcome →
      Authoritative w.store sessionId episodeId →
        ∀ n payload, w.store.loadWirePrefix sessionId = some (n, payload) →
          (commitRows w.store sessionId messages).take n = (w.store.projection sessionId).take n

/-! ## Sessions whose prefix and messages move together -/

/-- The foreign key of a stored prefix. -/
def PrefixOwned (s : Store) : Prop :=
  ∀ k, (s.wirePrefix.get k).isSome → (s.sessions.get k).isSome

variable {s s' : Store} {sessionId other : Text} {rows : List MessageRow}

theorem Rewritten.projection (h : Rewritten s s' (boundText sessionId) rows)
    (hrows : ∀ r ∈ rows, r.sessionId = boundText sessionId) :
    s'.projection sessionId = rows := by
  have hnone : (s.messages.rows.filter fun r => !decide (r.sessionId = boundText sessionId)).filter
      (fun r => r.sessionId = boundText sessionId) = [] := by
    rw [List.filter_filter]
    exact List.filter_eq_nil_iff.mpr fun r _ => by simp
  rw [Store.projection, h.messages.rows_eq, Sequence.rows_delete, List.filter_append, hnone,
    List.nil_append]
  exact List.filter_eq_self.mpr fun r hr => decide_eq_true (hrows r hr)

theorem Rewritten.projection_other (h : Rewritten s s' (boundText sessionId) rows)
    (hrows : ∀ r ∈ rows, r.sessionId = boundText sessionId)
    (hother : boundText other ≠ boundText sessionId) :
    s'.projection other = s.projection other := by
  have hnone : rows.filter (fun r => r.sessionId = boundText other) = [] :=
    List.filter_eq_nil_iff.mpr fun r hr => by simp [hrows r hr, Ne.symm hother]
  rw [Store.projection, Store.projection, h.messages.rows_eq, Sequence.rows_delete,
    List.filter_append, hnone, List.append_nil, List.filter_filter]
  refine List.filter_congr fun r _ => ?_
  by_cases hr : r.sessionId = boundText other
  · simp [hr, hother]
  · simp [hr]

theorem commitRows_sessionId (s : Store) (sessionId : Text) (messages : List (Agent.Message Json)) :
    ∀ r ∈ commitRows s sessionId messages, r.sessionId = boundText sessionId := by
  intro r hr
  obtain ⟨m, -, rfl⟩ := List.mem_map.mp hr
  rfl

theorem Extended.take_projection (h : Extended s s' rows)
    (hrows : ∀ r ∈ rows, r.sessionId = boundText sessionId) {n : ℕ} {saved : List MessageRow}
    (hlength : saved.length = n) (htake : (s.projection other).take n = saved) :
    (s'.projection other).take n = saved := by
  by_cases hother : boundText other = boundText sessionId
  · have hle : n ≤ (s.projection other).length := by
      rw [← hlength, ← htake]
      exact List.length_take_le' _ _
    rw [h.projection (by rwa [hother]), List.take_append_of_le_length hle, htake]
  · rw [h.projection_other fun r hr => by rw [hrows r hr]; exact Ne.symm hother, htake]

theorem projection_deleteSession (s : Store) (id : Text)
    (hother : boundText other ≠ boundText id) :
    (s.deleteSession id).2.projection other = s.projection other := by
  rw [Store.projection, Store.projection, Store.deleteSession]
  show List.filter _ (Sequence.rows (Sequence.delete _ _)) = _
  rw [Sequence.rows_delete, List.filter_filter]
  refine List.filter_congr fun r _ => ?_
  by_cases hr : r.sessionId = boundText other
  · simp [hr, hother]
  · simp [hr]

theorem loadWirePrefix_congr (h : s'.wirePrefix.get (boundText sessionId) =
    s.wirePrefix.get (boundText sessionId)) :
    s'.loadWirePrefix sessionId = s.loadWirePrefix sessionId := by
  rw [Store.loadWirePrefix, Store.loadWirePrefix, h]

theorem loadWirePrefix_eq (h : s'.wirePrefix = s.wirePrefix) :
    s'.loadWirePrefix sessionId = s.loadWirePrefix sessionId :=
  loadWirePrefix_congr (by rw [h])

/-! ## One step -/

theorem prefixOwned_effect {op : StoreOp} (h : Effect s op s') (hs : PrefixOwned s) :
    PrefixOwned s' := by
  intro k hk
  cases h with
  | extended sessionId _ _ _ h => exact h.sessions k (hs k (by rwa [h.wirePrefix] at hk))
  | @replaced _ sessionId _ _ _ h hwire =>
      refine h.sessions k (hs k ?_)
      rw [hwire] at hk
      by_cases hdel : k = boundText sessionId
      · rw [hdel, Table.get_delete_self (by simp)] at hk
        cases hk
      · rwa [Table.get_delete_ne (fun r hr => by rw [hr]; exact decide_eq_false hdel)] at hk
  | committed _ h hwire => exact h.sessions k (hs k (by rwa [hwire] at hk))
  | @saved s' sessionId payload n hsession h _ _ _ hothers =>
      by_cases hkey : k = boundText sessionId
      · rw [hkey]
        exact h _ hsession
      · exact h k (hs k (by rwa [hothers k hkey] at hk))
  | deleted id =>
      by_cases hdel : k = boundText id
      · rw [Store.deleteSession, hdel] at hk
        simp only [] at hk
        rw [Table.get_delete_self (by simp)] at hk
        cases hk
      · have hne (r : Text) (hr : r = k) : decide (r = boundText id) = false := by
          rw [hr]
          exact decide_eq_false hdel
        rw [Store.deleteSession] at hk ⊢
        simp only [] at hk ⊢
        rw [Table.get_delete_ne fun r hr => hne _ hr] at hk ⊢
        exact hs k hk

theorem prefixOwned_step (w : WireTrace) (op : StoreOp) (h : PrefixOwned w.store) :
    PrefixOwned (wireStep w op).store := by
  show PrefixOwned (storeStep w.store op)
  rw [storeStep]
  cases happly : w.store.apply op with
  | error e => exact h
  | ok s' => exact prefixOwned_effect (apply_cases happly) h

variable {w : WireTrace} {op : StoreOp}

theorem wireStep_error {e : StoreError} (h : w.store.apply op = .error e) : wireStep w op = w := by
  cases op <;> simp only [wireStep, storeStep, h]

theorem wireStep_ok (h : w.store.apply op = .ok s')
    (hop : ∀ id n payload, op ≠ .saveWirePrefix id n payload) :
    wireStep w op = ⟨s', w.saved⟩ := by
  cases op with
  | saveWirePrefix id n payload => exact absurd rfl (hop id n payload)
  | _ => simp only [wireStep, storeStep, h]

/-- The projection of a session goes by the key alone. -/
theorem projection_congr (h : boundText sessionId = boundText other) :
    s.projection sessionId = s.projection other := by
  rw [Store.projection, Store.projection, h]

/-- The rewrite of one session's messages, with the others' prefixes and messages
untouched: what is left to check is that session. -/
theorem valid_of_rewritten {saved : Text → List MessageRow}
    (h : WirePrefixValid ⟨s, saved⟩) (hrewritten : Rewritten s s' (boundText sessionId) rows)
    (hrows : ∀ r ∈ rows, r.sessionId = boundText sessionId)
    (hwire : ∀ k, k ≠ boundText sessionId → s'.wirePrefix.get k = s.wirePrefix.get k) :
    WirePrefixValid ⟨s', saved⟩ ↔
      ∀ n payload, s'.loadWirePrefix sessionId = some (n, payload) →
        (saved (boundText sessionId)).length = n ∧ rows.take n = saved (boundText sessionId) := by
  constructor
  · intro hvalid n payload hload
    have := hvalid sessionId n payload hload
    rwa [hrewritten.projection hrows] at this
  · intro hown other n payload hload
    by_cases hother : boundText other = boundText sessionId
    · rw [projection_congr hother, hrewritten.projection hrows, hother]
      refine hown n payload ?_
      rwa [Store.loadWirePrefix, ← hother]
    · rw [loadWirePrefix_congr (hwire _ hother)] at hload
      rw [hrewritten.projection_other hrows hother]
      exact h other n payload hload

theorem wirePrefixValid_step (howned : PrefixOwned w.store) (hsaves : SavesAll w op)
    (h : WirePrefixValid w) : WirePrefixValid (wireStep w op) ↔ CommitKeepsPrefix w op := by
  cases happly : w.store.apply op with
  | error e =>
      rw [wireStep_error happly]
      refine iff_of_true h ?_
      rintro sessionId episodeId messages outcome rfl hhead n payload hload
      have hstored : (w.store.wirePrefix.get (boundText sessionId)).isSome := by
        rw [Store.loadWirePrefix] at hload
        obtain ⟨row, hrow, -⟩ := Option.map_eq_some_iff.mp hload
        exact Option.isSome_iff_exists.mpr ⟨row, hrow⟩
      obtain ⟨s', hok⟩ := commitExpensiveTurnSuccessor_isOk messages outcome hhead
        (howned _ hstored)
      exact absurd (happly.symm.trans hok) (by simp)
  | ok s' =>
      have heffect := apply_cases happly
      cases heffect with
      | extended sessionId hop hcommit hrows hextended =>
          rw [wireStep_ok happly hop]
          refine iff_of_true (fun other n payload hload => ?_)
            fun id episodeId messages outcome hop => absurd hop (hcommit _ _ _ _)
          rw [loadWirePrefix_eq hextended.wirePrefix] at hload
          obtain ⟨hlength, htake⟩ := h other n payload hload
          exact ⟨hlength, hextended.take_projection hrows hlength htake⟩
      | @replaced _ sessionId messages rows hrows hrewritten hwire =>
          rw [wireStep_ok happly (by simp), valid_of_rewritten (s := w.store) h hrewritten
            (RowOf.forall_sessionId hrows)]
          · refine iff_of_true (fun n payload hload => ?_) (by rintro _ _ _ _ ⟨⟩)
            rw [Store.loadWirePrefix, hwire, Table.get_delete_self (by simp)] at hload
            cases hload
          · intro k hk
            rw [hwire, Table.get_delete_ne]
            rintro r rfl
            exact decide_eq_false hk
      | @committed _ sessionId episodeId outcome messages hhead hrewritten hwire =>
          rw [wireStep_ok happly (by simp), valid_of_rewritten (s := w.store) h hrewritten
            (commitRows_sessionId _ _ _) (fun k _ => by rw [hwire]), loadWirePrefix_eq hwire]
          constructor
          · rintro hrows _ _ _ _ ⟨⟩ - n payload hload
            rw [(hrows n payload hload).2, (h sessionId n payload hload).2]
          · intro hkeeps n payload hload
            obtain ⟨hlength, htake⟩ := h sessionId n payload hload
            exact ⟨hlength, (hkeeps _ _ _ _ rfl hhead n payload hload).trans htake⟩
      | @saved _ sessionId payload n hsession hsessions hmessages htranscript hsaved hothers =>
          refine iff_of_true (fun other m text hload => ?_) (by rintro _ _ _ _ ⟨⟩)
          have hstep : wireStep w (.saveWirePrefix sessionId n payload) =
              ⟨s', Function.update w.saved (boundText sessionId) (w.store.projection sessionId)⟩ := by
            simp only [wireStep, storeStep, happly]
          have hprojection : s'.projection other = w.store.projection other := by
            rw [Store.projection, Store.projection, hmessages]
          rw [hstep] at hload ⊢
          simp only [] at hload ⊢
          rw [hprojection]
          by_cases hother : boundText other = boundText sessionId
          · rw [Store.loadWirePrefix, hother, ← Store.loadWirePrefix, hsaved] at hload
            cases hload
            rw [hother, Function.update_self, projection_congr hother,
              hsaves sessionId n payload rfl]
            exact ⟨rfl, List.take_length⟩
          · rw [Function.update_of_ne hother]
            rw [loadWirePrefix_congr (hothers _ hother)] at hload
            exact h other m text hload
      | deleted id =>
          rw [wireStep_ok happly (by simp)]
          refine iff_of_true (fun other n payload hload => ?_) (by rintro _ _ _ _ ⟨⟩)
          have hwire : (w.store.deleteSession id).2.wirePrefix =
              w.store.wirePrefix.delete fun r => r.sessionId = boundText id := rfl
          by_cases hother : boundText other = boundText id
          · rw [Store.loadWirePrefix, hwire, hother, Table.get_delete_self (by simp)] at hload
            cases hload
          · rw [Store.loadWirePrefix, hwire, Table.get_delete_ne, ← Store.loadWirePrefix] at hload
            · rw [projection_deleteSession w.store id hother]
              exact h other n payload hload
            · rintro r hr
              rw [hr]
              exact decide_eq_false hother

/-! ## Every run -/

theorem wirePrefix_valid_iff (clock : ℕ → Double) (ops : List StoreOp)
    (hops : Machine.Along wireStep SavesAll (wireStart clock) ops) :
    Machine.Throughout wireStep WirePrefixValid (wireStart clock) ops ↔
      Machine.Along wireStep CommitKeepsPrefix (wireStart clock) ops := by
  refine Machine.throughout_iff_along_of (J := fun w => PrefixOwned w.store) prefixOwned_step
    (fun w op howned hsaves h => wirePrefixValid_step howned hsaves h) ?_ ?_ hops
  · rintro k ⟨⟩
  · rintro sessionId n payload ⟨⟩

/-! ## A prefix that is kept, and one that is left behind -/

def noCounters : ExpensiveTurnRecoveryCounters := ⟨0, 0, 0, 0, 0⟩

/-- A session with one message and a prefix saved for it. -/
def savedOps : List StoreOp :=
  [.createSession (js "s") (js "m") (js "/"), .appendMessage (js "s") (userText (js "Hi")),
    .saveWirePrefix (js "s") 1 (js "payload")]

theorem savesAll_savedOps :
    Machine.Along wireStep SavesAll (wireStart fun _ => epoch) savedOps := by
  refine ⟨?_, ?_, ?_, trivial⟩
  · rintro _ _ _ ⟨⟩
  · rintro _ _ _ ⟨⟩
  · rintro _ _ _ ⟨⟩
    rfl

theorem wirePrefix_valid_saved :
    Machine.Throughout wireStep WirePrefixValid (wireStart fun _ => epoch) savedOps := by
  refine (wirePrefix_valid_iff (fun _ => epoch) savedOps savesAll_savedOps).mpr
    ⟨?_, ?_, ?_, trivial⟩ <;> rintro _ _ _ _ ⟨⟩

/-- A recovery that replaces the message the prefix was saved for. -/
def recoveryOps : List StoreOp :=
  [.beginExpensiveTurnRecovery (js "s") (js "e") 1 0 [] noCounters,
    .commitExpensiveTurnSuccessor (js "s") (js "e") [userText (js "Bye")] (js "compacted")]

theorem wirePrefix_stale :
    Machine.Along wireStep SavesAll (wireStart fun _ => epoch) (savedOps ++ recoveryOps) ∧
      ¬ Machine.Throughout wireStep WirePrefixValid (wireStart fun _ => epoch)
        (savedOps ++ recoveryOps) := by
  constructor
  · refine (Machine.along_append _ _ _).mpr ⟨savesAll_savedOps, ?_, ?_, trivial⟩ <;>
      rintro _ _ _ ⟨⟩
  · intro h
    have hload : (Machine.run wireStep (wireStart fun _ => epoch)
        (savedOps ++ recoveryOps)).store.loadWirePrefix (js "s") = some (1, js "payload") := by
      rfl
    obtain ⟨-, htake⟩ := h.last (js "s") 1 (js "payload") hload
    have hcontent : [js "Bye"] = [js "Hi"] := congrArg (List.map MessageRow.content) htake
    exact absurd hcontent (by decide)

end Shizuha.State
