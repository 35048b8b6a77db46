import IbexHarness.Budget.Lemmas.Effects

/-! One inversion lemma for the machine: every action has one of these effects, with the guards it was
taken under. -/

namespace IbexHarness.Budget

open Lib Option

inductive Effect (a : CentArith) (w : World) : World → Prop where
  | tick (d : Nat) : Effect a w { w with clock := w.clock + d }
  /-- bookkeeping of calls in flight only -/
  | queued (repeats : List (Reservation × Settlement)) (sweeps : List Sweep) :
      Effect a w { w with repeats := repeats, sweeps := sweeps }
  | locked {org : Uuid} (tx : ClaimTx org) (hfree : w.claims org = none) (hnow : tx.now ≤ w.clock)
      (hph : tx.phase = .locked) : Effect a w (w.setClaim org (some tx))
  | period {org : Uuid} (tx : ClaimTx org) (p : Period) (htx : w.claims org = some tx)
      (hp : activePeriod w.db.periods org tx.now = some p) : Effect a w (w.setPhase tx (.period p))
  | loaded {org : Uuid} (tx : ClaimTx org) (p : Period) (htx : w.claims org = some tx)
      (hph : tx.phase = .period p) :
      Effect a w (w.setPhase tx (.loaded p (reservationOf w.db.reservations tx.call.principal tx.call.key)))
  | summed {org : Uuid} (tx : ClaimTx org) (p : Period) (row : Option Row) (h : Int)
      (htx : w.claims org = some tx) (hph : tx.phase = .loaded p row)
      (hreuse : ∀ r, row = some r → w.reusable tx r = true) (hh : w.holds a tx p row = some h) :
      Effect a w (w.setPhase tx (.summed p row h))
  /-- a claim ends without writing -/
  | ended (org : Uuid) : Effect a w (w.endClaim org)
  | wrote {org : Uuid} (tx : ClaimTx org) (p : Period) (row : Option Row) (h : Int)
      (tok : Option Reservation) (t' : Table Row) (htx : w.claims org = some tx)
      (hph : tx.phase = .summed p row h)
      (hw : ClaimWrite w.db.reservations tx.call.principal tx.call.key p.id tx.call.estimate
        (tx.call.admitted a p h) row tok t') :
      Effect a w (((w.setReservations t').endClaim org).record
        (tok.map fun r => Event.owned r p.spentCentsCached).toList)
  | settled (c : Reservation) (s : Settlement) (r : Row) (e : Edit Row) (hs : Settles c s e)
      (hr : r ∈ w.db.reservations.rows) (hc : e.cond r = true) (hlock : w.rowLocked r = false) :
      Effect a w ((w.setReservations (w.db.reservations.update e)).record
        [.settled c s r (r.live w.clock)])
  | replayed (c : Reservation) (s : Settlement) (row : Row) (repeats : List (Reservation × Settlement))
      (h : Replays w.db.reservations c s row) :
      Effect a w ({ w with repeats := repeats }.record [.replayed c s])
  | swept (e : Edit Row) (sweeps : List Sweep) (he : Closes e) (hset : ∀ r, e.set r = r.close .expired)
      (hfree : ∀ r ∈ w.db.reservations.rows, e.cond r = true → w.rowLocked r = false) :
      Effect a w { w.setReservations (w.db.reservations.update e) with sweeps := sweeps }
  | rollupRead (pid o : Uuid) :
      Effect a w { w with rollups := ⟨pid, o, finalizedCents pid w.log⟩ :: w.rollups }
  | rollupWrite (i : Nat) (ru : Rollup) (hi : w.rollups[i]? = some ru) :
      Effect a w { w with db := { w.db with periods := w.db.periods.update (World.spentEdit ru) },
                          rollups := w.rollups.eraseIdx i }

inductive SettleEffect (w : World) (c : Reservation) : World → Prop where
  /-- no row changed and no success reported -/
  | nothing (repeats : List (Reservation × Settlement)) : SettleEffect w c { w with repeats := repeats }
  | settled (s : Settlement) (r : Row) (e : Edit Row) (hs : Settles c s e)
      (hr : r ∈ w.db.reservations.rows) (hc : e.cond r = true) (hlock : w.rowLocked r = false) :
      SettleEffect w c ((w.setReservations (w.db.reservations.update e)).record
        [.settled c s r (r.live w.clock)])
  | replayed (s : Settlement) (row : Row) (repeats : List (Reservation × Settlement))
      (h : Replays w.db.reservations c s row) :
      SettleEffect w c ({ w with repeats := repeats }.record [.replayed c s])

theorem SettleEffect.effect {a : CentArith} {w w' : World} {c : Reservation} (h : SettleEffect w c w') :
    Effect a w w' := by
  cases h with
  | nothing repeats => exact .queued repeats w.sweeps
  | settled s r e hs hr hc hlock => exact .settled c s r e hs hr hc hlock
  | replayed s row repeats h => exact .replayed c s row repeats h

namespace World

variable {a : CentArith} {w w' : World}

theorem lock_effect {call : Call} {now : Int} (h : w.lock call now = some w') : Effect a w w' := by
  simp only [lock] at h
  split at h
  · split at h
    · cases h
    · rename_i hfree
      split at h
      · cases h
        exact .locked _ hfree ‹_› rfl
      · cases h
  · cases h

section Claim

variable {org : Uuid} {tx : ClaimTx org}

section

variable (htx : w.claims org = some tx)
include htx

theorem loadPeriod_effect (h : w.loadPeriod tx = some w') : Effect a w w' := by
  unfold loadPeriod at h
  split at h
  · split at h
    · cases h
      exact .ended org
    · rename_i p hp
      cases h
      split
      · exact .period tx p htx hp
      · exact .ended org
  · cases h

theorem loadRow_effect (h : w.loadRow tx = some w') : Effect a w w' := by
  unfold loadRow at h
  split at h
  · rename_i p hph
    cases h
    exact .loaded tx p htx hph
  · cases h

theorem sumHolds_effect (h : w.sumHolds a tx = some w') : Effect a w w' := by
  unfold sumHolds at h
  split at h
  · rename_i p row hph
    split at h
    · rename_i hreuse
      split at h
      · rename_i hd hh
        cases h
        refine .summed tx p row hd htx hph ?_ hh
        rintro r rfl
        simpa using hreuse
      · cases h
        exact .ended org
    · cases h
      exact .ended org
  · cases h

theorem write_effect {newId : Uuid} (h : w.write a tx newId = some w') : Effect a w w' := by
  unfold write at h
  split at h
  · rename_i p row hd hph
    split at h
    · cases h
    · split at h
      · cases h
        exact .ended org
      · rename_i tok t' hadm
        cases h
        exact .wrote tx p row hd tok t' htx hph (writeRow_write hadm)
  · cases h

end

end Claim

variable {c : Reservation} {i : Nat}

theorem free_of_cond {e : Edit Row} (h : w.free e = true) {r : Row} (hr : r ∈ w.db.reservations.rows)
    (hc : e.cond r = true) : w.rowLocked r = false := by
  simp only [free, List.all_eq_true, Bool.or_eq_true, Bool.not_eq_true'] at h
  rcases h r hr with h | h
  · exact absurd hc (by simp [h])
  · exact h

theorem settleRow_effect {s : Settlement} {e : Edit Row} (hs : Settles c s e)
    (hfree : w.free e = true) (h : w.settleRow c s e = some w') : SettleEffect w c w' := by
  unfold settleRow at h
  split at h
  · rename_i r hfilter
    cases h
    obtain ⟨hr, hc⟩ := List.mem_filter.mp (hfilter ▸ List.mem_singleton_self r)
    exact .settled s r e hs hr hc (free_of_cond hfree hr hc)
  · cases h

theorem settleGo_effect {s : Settlement} (h : w.settleGo c s = some w') : SettleEffect w c w' := by
  unfold settleGo at h
  split at h
  · rename_i hg
    simp only [Bool.and_eq_true] at hg
    split at h
    · rename_i w'' hw
      cases h
      exact settleRow_effect settles_settleEdit hg.2 hw
    · cases h
      exact .nothing _
  · cases h

theorem settleLook_effect (hc : (w.repeats[i]?).map Prod.fst = some c)
    (h : w.settleLook i = some w') : SettleEffect w c w' := by
  unfold settleLook at h
  split at h
  · cases h
  · rename_i c' s hi
    obtain rfl : c' = c := by simpa [hi] using hc
    dsimp only at h
    split at h
    · rename_i hrep
      cases h
      obtain ⟨row, hrow⟩ := Go.settleRepeat_ok hrep
      exact .replayed s row _ hrow
    · cases h
      exact .nothing _

theorem settlePython_effect {s : Row → Settlement} {res : Except Py.LedgerError (Table Row)}
    (hres : ∀ row t', Py.loadClaimRow w.db.reservations c = some row → res = .ok t' →
      PySettled w.db.reservations c (s row) row t')
    (h : w.settlePython c s res = some w') : SettleEffect w c w' := by
  unfold settlePython at h
  split at h
  · cases h
    exact .nothing w.repeats
  · rename_i row hrow
    split at h
    · cases h
    · rename_i hlock
      split at h
      · cases h
        exact .nothing w.repeats
      · rename_i t'
        cases h
        cases hres row t' hrow rfl with
        | changed e he hc =>
          rw [if_pos (he.claimed row hc)]
          exact .settled _ row e he (find?_isRow hrow).1 hc (by simpa using hlock)
        | found hrep =>
          have hcl : row.isClaimed = false := by
            unfold Row.isClaimed
            split
            · rename_i lease hst
              exact absurd (hrep.state ▸ hst) (Settlement.state_not_claimed _ lease)
            · rfl
          rw [if_neg (by simp [hcl])]
          exact .replayed _ row w.repeats hrep

theorem finalizePython_effect {i o : Int} (h : w.finalizePython c i o = some w') : SettleEffect w c w' := by
  refine settlePython_effect (fun row t' hrow hres => ?_) h
  cases hf : Py.finalize w.db.reservations c i o with
  | error e => simp [hf, Except.map] at hres
  | ok mt =>
    obtain ⟨m, t''⟩ := mt
    simp only [hf, Except.map, Except.ok.injEq] at hres
    exact hres ▸ Py.finalize_settled hrow hf

theorem step_settle (act : Action) (hc : act.token? w = some c)
    (h : w.step a act = some w') : SettleEffect w c w' := by
  cases act with
  | settleGo c' s =>
    obtain rfl : c' = c := by simpa [Action.token?] using hc
    exact settleGo_effect h
  | settleLook i => exact settleLook_effect hc h
  | finalizePython c' i o =>
    obtain rfl : c' = c := by simpa [Action.token?] using hc
    exact finalizePython_effect h
  | releasePython c' =>
    obtain rfl : c' = c := by simpa [Action.token?] using hc
    exact settlePython_effect (fun _ _ hrow hres => Py.release_settled hrow hres) h
  | _ => cases hc

theorem sweepWrite_effect (h : w.sweepWrite i = some w') : Effect a w w' := by
  unfold sweepWrite at h
  split at h
  · cases h
  · dsimp only at h
    split at h
    · rename_i hfree
      cases h
      exact .swept _ _ closes_expireStaleEdit (fun _ => rfl) fun r hr hc => free_of_cond hfree hr hc
    · cases h

theorem sweepRead_effect {now grace limit : Int} (h : w.sweepRead now grace limit = some w') : Effect a w w' := by
  unfold sweepRead at h
  split at h
  · cases h
  · split at h
    · cases h
      exact .queued w.repeats _
    · cases h

theorem rollupRead_effect {pid : Uuid} {now : Int} (h : w.rollupRead pid now = some w') : Effect a w w' := by
  unfold rollupRead at h
  split at h
  · cases h
  · split at h
    · cases h
      exact .rollupRead _ _
    · cases h

theorem rollupWrite_effect (h : w.rollupWrite i = some w') : Effect a w w' := by
  unfold rollupWrite at h
  split at h
  · cases h
  · rename_i ru hi
    cases h
    exact .rollupWrite i ru hi

theorem step_effect {act : Action} (h : w.step a act = some w') : Effect a w w' := by
  cases act with
  | tick d =>
    cases h
    exact .tick d
  | lock call now => exact lock_effect h
  | loadPeriod org =>
    obtain ⟨tx, htx, h⟩ := bind_eq_some_iff.mp h
    exact loadPeriod_effect htx h
  | loadRow org =>
    obtain ⟨tx, htx, h⟩ := bind_eq_some_iff.mp h
    exact loadRow_effect htx h
  | sumHolds org =>
    obtain ⟨tx, htx, h⟩ := bind_eq_some_iff.mp h
    exact sumHolds_effect htx h
  | write org newId =>
    obtain ⟨tx, htx, h⟩ := bind_eq_some_iff.mp h
    exact write_effect htx h
  | abort org =>
    obtain ⟨tx, -, rfl⟩ := map_eq_some_iff.mp h
    exact .ended org
  | settleGo c s => exact (step_settle (.settleGo c s) rfl h).effect
  | settleLook i =>
    cases hi : (w.repeats[i]?).map Prod.fst with
    | none =>
      simp only [map_eq_none_iff] at hi
      simp [step, settleLook, hi] at h
    | some c => exact (step_settle (.settleLook i) hi h).effect
  | finalizePython c i o => exact (step_settle (.finalizePython c i o) rfl h).effect
  | releasePython c => exact (step_settle (.releasePython c) rfl h).effect
  | sweepRead now grace limit => exact sweepRead_effect h
  | sweepWrite i => exact sweepWrite_effect h
  | rollupRead pid now => exact rollupRead_effect h
  | rollupWrite i => exact rollupWrite_effect h

end World

end IbexHarness.Budget
