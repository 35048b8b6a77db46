import IbexHarness.Idempotency.Lemmas.Ledger
import IbexHarness.Idempotency.Lemmas.Redis

/-! A key of the durable ledger is answered once. -/

namespace IbexHarness.Idempotency

open Lib World Option

/-! ## The durable ledger -/

/-- What the ledger promises in a state `w` about every state `w'` after it. -/
structure ExactlyOnce (w w' : World) : Prop where
  /-- at most one token handed out for a key can still change its row -/
  owner : ∀ c ∈ ownedTokens w.log, ∀ c' ∈ ownedTokens w.log, c.slot = c'.slot →
    w.owns c = true → w.owns c' = true → c = c'
  /-- a stored response stays -/
  kept : ∀ c status response, (c, status, response) ∈ stored w.log →
    ∃ r, w'.table.find c.slot = some r ∧ r.state = .finalized status response ∧ r.requestHash = c.requestHash
  /-- a claim after it does not insert a row … -/
  insert_waits : ∀ c status response, (c, status, response) ∈ stored w.log →
    ∀ call newId now w'', call.prepare.slot = c.slot → w'.insert call newId now = some w'' →
      w'' = { w' with waiting := ⟨call.prepare, now⟩ :: w'.waiting }
  /-- … and with the same hash it is answered with the stored response -/
  replays : ∀ c status response, (c, status, response) ∈ stored w.log →
    ∀ (i : Nat) wt, w'.waiting[i]? = some wt → wt.call.slot = c.slot → wt.call.requestHash = c.requestHash →
      ∃ tok, w'.resolve i = some ({ w' with waiting := w'.waiting.eraseIdx i }.record
        (.answered wt.call (.replay tok status response)))
  /-- a claim with another hash than the row is answered with a conflict -/
  conflicts : ∀ act w'' call out r, w.step act = some w'' → w''.log = .answered call out :: w.log →
    w.table.find call.slot = some r → r.requestHash ≠ call.requestHash → out = .conflict (tokenOf call r)
  /-- a token with a newer one for its key, and one that has lost the row, settles nothing any more -/
  superseded : ∀ c ∈ ownedTokens w.log,
    (w.owns c = false ∨ ∃ c', c'.slot = c.slot ∧ [c', c].Sublist (ownedTokens w.log)) →
      ∀ side, (∀ status response w'', w'.finalize side c status response ≠ .ok w'') ∧
        ∀ w'', w'.release side c ≠ .ok w''

/-- Claims of one key have at most one owner, and once one has stored its response, all are answered with it. -/
theorem ledger_exactly_once {w w' : World} (h : machine.Reachable w) (hl : machine.Later w w') :
    ExactlyOnce w w' where
  owner _ hc _ hc' hslot ho ho' := owner_unique h hc hc' hslot ho ho'
  kept _ _ _ hs := find_of_stored (h.later hl) (stored_later hl hs)
  insert_waits _ _ _ hs call newId now w'' hslot hins := by
    obtain ⟨r, hr, -, -⟩ := find_of_stored (h.later hl) (stored_later hl hs)
    exact insert_of_find (hslot ▸ hr) hins
  replays _ _ _ hs i wt hi hslot hhash := by
    obtain ⟨r, hr, hst, hrh⟩ := find_of_stored (h.later hl) (stored_later hl hs)
    exact ⟨_, resolve_replay hi (hslot ▸ hr) hst (hrh.trans hhash.symm)⟩
  conflicts _ _ _ _ _ hs hlog hr hne := answer_conflict (step_effect hs) hlog hr hne
  superseded c hc hlost side := by
    have ho : w.owns c = false := by
      rcases hlost with ho | ⟨c', hslot, hsub⟩
      · exact ho
      · exact not_owns_of_newer h hslot hsub
    have ho' := not_owns_later h hc ho hl
    refine ⟨fun status response w'' hf => ?_, fun w'' hr => ?_⟩
    · simp [owns_of_finalize hf] at ho'
    · simp [owns_of_release hr] at ho'

section Example

def sampleCall : ClaimCall := ⟨.go, ⟨10, 20⟩, ['k'], List.replicate 64 'a', 10⟩

def sampleToken (version : Nat) : ClaimToken := ⟨1, ⟨10, 20⟩, ['k'], List.replicate 64 'a', version⟩

/-- A claim, its lease runs out, another claim takes the row over and stores a response. -/
def sampleStored : World :=
  (machine.run ⟨0, Table.empty, [], []⟩
    [.insert sampleCall 1 0, .tick 20, .insert sampleCall 2 20, .resolve 0,
      .finalize .python (sampleToken 2) 200 (some [7])]).get (by decide)

def sampleWaiting : World := (machine.run sampleStored [.insert sampleCall 3 20]).get (by decide)

theorem ledger_exactly_once_sample : ownedTokens sampleStored.log = [sampleToken 2, sampleToken 1] ∧
      (∃ tok, sampleWaiting.resolve 0 = some ({ sampleWaiting with waiting := [] }.record
        (.answered sampleCall (.replay tok 200 [7])))) ∧
      ∀ w', sampleWaiting.release .go (sampleToken 1) ≠ .ok w' := by
  have hreach : machine.Reachable sampleStored := ⟨_, ⟨rfl, rfl, rfl⟩, _, (some_get _).symm⟩
  have hlater : machine.Later sampleStored sampleWaiting := ⟨_, (some_get _).symm⟩
  have honce := ledger_exactly_once hreach hlater
  have hold : sampleStored.owns (sampleToken 1) = false := by decide
  exact ⟨by decide, honce.replays (sampleToken 2) 200 [7] (by decide) 0 ⟨sampleCall, 20⟩ rfl (by decide) (by decide),
    (honce.superseded (sampleToken 1) (by decide) (.inl hold) .go).2⟩

end Example

/-! ## The Redis store -/

namespace Redis

open World

/-- Along every run in which no commit or release finds its key pending under its fingerprint after its
own claim has expired: a commit or release takes effect only on the claim granted to its own request, and
no two requests have an unexpired claim on one key. -/
theorem redis_claim_ownership {s : RedisStore} {w : World} (h : ((machine s).restrict (timely s)).Reachable w) :
    (∀ r r' k rev, .settled r k rev ∈ w.log → .granted r' k rev ∈ w.log → r = r') ∧
      ∀ r r' g g', (w.procs r).grant = some g → (w.procs r').grant = some g' → g.key = g'.key →
        w.unexpired s g = true → w.unexpired s g' = true → r = r' := by
  have hinv := ownerInv h
  refine ⟨fun r r' k rev hs hg => ?_, fun r r' g g' hg hg' hkey hu hu' => hinv.exclusive hg hg' hkey hu hu'⟩
  exact hinv.granted_unique r r' k rev (hinv.own r k rev hs) hg

section Example

def sampleOwner : PendingOwner := ⟨⟨10, ['k']⟩, ['f']⟩

def sampleStore : RedisStore := newRedisStore ⟨100, 10⟩

def sampleStart : World := ⟨0, KeyStore.empty, fun _ => .idle, []⟩

def sampleClaim (r : Nat) : List Action := [.claim r sampleOwner, .setNX r true]

def sampleRelease (r : Nat) : List Action := [.abandon r, .watch r, .casGet r, .exec r]

def sampleInTime : World :=
  (((machine sampleStore).restrict (timely sampleStore)).run sampleStart
    (sampleClaim 1 ++ [.tick 9] ++ sampleRelease 1 ++ sampleClaim 2)).get (by decide)

theorem redis_claim_ownership_sample :
    sampleInTime.log = [.granted 2 ⟨10, ['k']⟩ 3, .settled 1 ⟨10, ['k']⟩ 1, .granted 1 ⟨10, ['k']⟩ 1] ∧
      ∀ r', .granted r' ⟨10, ['k']⟩ 1 ∈ sampleInTime.log → 1 = r' := by
  have hreach : ((machine sampleStore).restrict (timely sampleStore)).Reachable sampleInTime :=
    ⟨sampleStart, ⟨rfl, rfl, rfl⟩, _, (some_get _).symm⟩
  exact ⟨by decide, fun r' hr => (redis_claim_ownership hreach).1 1 r' ⟨10, ['k']⟩ 1 (by decide) hr⟩

/-- The claim of request 1 expires, request 2 is granted the key, request 1 releases, and request 3 is
granted the key as well. -/
def sampleLate : World :=
  ((machine sampleStore).run sampleStart
    (sampleClaim 1 ++ [.tick 10] ++ sampleClaim 2 ++ sampleRelease 1 ++ sampleClaim 3)).get (by decide)

/-- The late release has removed the claim of request 2, and two requests have an unexpired claim. -/
theorem redis_claim_stolen : (machine sampleStore).Reachable sampleLate ∧
      .settled 1 ⟨10, ['k']⟩ 2 ∈ sampleLate.log ∧ .granted 2 ⟨10, ['k']⟩ 2 ∈ sampleLate.log ∧
      (∃ g g', (sampleLate.procs 2).grant = some g ∧ (sampleLate.procs 3).grant = some g' ∧ g.key = g'.key ∧
        sampleLate.unexpired sampleStore g = true ∧ sampleLate.unexpired sampleStore g' = true) := by
  refine ⟨⟨sampleStart, ⟨rfl, rfl, rfl⟩, _, (some_get _).symm⟩, by decide, by decide, ?_⟩
  exact ⟨⟨sampleOwner, 2, 10⟩, ⟨sampleOwner, 4, 10⟩, rfl, rfl, rfl, by decide, by decide⟩

end Example

end Redis

end IbexHarness.Idempotency
