import IbexHarness.Lib.Fence
import IbexHarness.Outbox.Relay

/-! What each action can do, and what a step leaves of a row. -/

namespace IbexHarness.Outbox

section

open Lib List Option

def DeliveryStatus.isTerminal : DeliveryStatus → Bool
  | .delivered | .poison => true
  | _ => false

structure Marks (row : Row) (phase : Phase) (e : Edit Row) : Prop where
  cond : e.cond = Row.claimedAs row.id row.attempts
  attempts : ∀ r, (e.set r).attempts = r.attempts
  publication : ∀ r, (e.set r).publication = r.publication
  status : ∀ r, ((e.set r).deliveryStatus = .delivered ∧ phase = .ack) ∨ (e.set r).deliveryStatus = .failed ∨
    (e.set r).deliveryStatus = .poison

theorem Relay.markEdit_marks {relay : Relay} {row : Row} {jitter : Option Nat} {now : Int} {phase : Phase}
    {e : Edit Row} (h : relay.markEdit row jitter now phase = some e) : Marks row phase e := by
  cases phase with
  | deliver => cases h
  | ack =>
    cases h
    exact ⟨rfl, fun _ => rfl, fun _ => rfl, fun _ => .inl ⟨rfl, rfl⟩⟩
  | nack err =>
    cases h
    refine ⟨rfl, fun _ => rfl, fun _ => rfl, fun _ => .inr ?_⟩
    show (relay.failureStatus row err).status = .failed ∨ (relay.failureStatus row err).status = .poison
    cases relay.failureStatus row err with
    | failed => exact .inl rfl
    | poison => exact .inr rfl

theorem Row.claimedAs_iff {id : Uuid} {attempts : Nat} {r : Row} :
    r.claimedAs id attempts = true ↔ r.id = id ∧ r.deliveryStatus = .inFlight ∧ r.attempts = attempts := by
  simp [claimedAs, and_assoc]

theorem claimedIds_waiting {t : Table Row} {limit : Nat} {locked : List Uuid} {now : Int} {r : Row}
    (hr : r ∈ t.rows) (h : r.id ∈ claimedIds t limit locked now) :
    r.deliveryStatus = .pending ∨ r.deliveryStatus = .failed := by
  obtain ⟨r', hr', hid⟩ := mem_map.mp h
  have hmem := (mem_insertionSort claimOrder).mp (mem_of_mem_take hr')
  obtain ⟨hr', hc⟩ := mem_filter.mp hmem
  obtain rfl := Table.eq_of_pk hr' hr hid
  simp only [claimable, Bool.and_eq_true, Bool.or_eq_true, beq_iff_eq] at hc
  exact hc.1.1

inductive Effect (w : World) : World → Prop where
  | tick (n : Nat) : Effect w { w with clock := w.clock + n }
  | enqueued (id : Uuid) (p : Publication) (t : Table Row)
      (hins : w.table.insert? (enqueuedRow id p w.clock) = some t) : Effect w { w with table := t }
  | claimed (i : Nat) (ids : List Uuid) (now : Int)
      (hids : ∀ r ∈ w.table.rows, r.id ∈ ids → r.deliveryStatus = .pending ∨ r.deliveryStatus = .failed) :
      Effect w ({ w with
        table := w.table.update (claimEdit ids now)
        log := (w.table.returning (claimEdit ids now)).map (claimedEvent i) ++ w.log }.setProc i
          (Proc.next (w.table.returning (claimEdit ids now))))
  | accepted (i : Nat) (row : Row) (rest : List Row) (hproc : w.procs i = .busy row rest .deliver) :
      Effect w ({ w with log := .accepted i row.id row.attempts :: w.log }.setProc i (.busy row rest .ack))
  | rejected (i : Nat) (row : Row) (rest : List Row) (err : DeliveryError)
      (hproc : w.procs i = .busy row rest .deliver) : Effect w (w.setProc i (.busy row rest (.nack err)))
  | marked (i : Nat) (row : Row) (rest : List Row) (phase : Phase) (e : Edit Row) (r : Row)
      (hproc : w.procs i = .busy row rest phase) (he : Marks row phase e) (hr : r ∈ w.table.rows)
      (hc : e.cond r = true) :
      Effect w ({ w with table := w.table.update e, log := closedEvent i (e.set r) ++ w.log }.setProc i
        (Proc.next rest))
  | recovered (age now : Int) : Effect w { w with table := w.table.update (recoverEdit age now) }
  | stopped (i : Nat) : Effect w (w.setProc i .idle)
  | nothing : Effect w w

namespace World

variable {d : Deployment} {w w' : World} {relay : Relay} {i : Nat} {jitter : Option Nat} {now : Int}

theorem enqueue_effect {id : Uuid} {p : Publication} (h : w.enqueue id p = some w') : Effect w w' := by
  simp only [enqueue] at h
  split at h
  · cases h
  · obtain ⟨t, ht, rfl⟩ := map_eq_some_iff.mp h
    exact .enqueued id p t ht

theorem claim_effect {locked : List Uuid} (h : w.claim relay i locked now = some w') : Effect w w' := by
  simp only [claim] at h
  split at h
  · rename_i rows t hclaim
    cases h
    simp only [claimPending] at hclaim
    split at hclaim
    · cases hclaim
    · split at hclaim
      · cases hclaim
        exact .claimed i _ now fun r hr hid => claimedIds_waiting hr hid
      · cases hclaim
  · cases h
    exact .nothing

theorem deliver_effect {res : Except DeliveryError Unit} (h : w.deliver d i res = some w') : Effect w w' := by
  simp only [deliver] at h
  split at h
  · rename_i row rest hproc
    split at h
    · cases h
      exact .accepted i row rest hproc
    · cases h
      rename_i hne
      cases hphase : (d.relay i).deliverOne d.codec row res with
      | ack => exact absurd hphase hne
      | nack err => exact .rejected i row rest err hproc
      | deliver =>
        simp only [Relay.deliverOne] at hphase
        split at hphase
        · cases hphase
        · split at hphase
          · split at hphase <;> cases hphase
          · cases hphase
  · cases h

theorem mark_effect (h : w.mark relay i jitter now = some w') :
    ∃ row rest phase, w.procs i = .busy row rest phase ∧ (w' = w.setProc i .idle ∨
      ∃ e r, Marks row phase e ∧ r ∈ w.table.rows ∧ e.cond r = true ∧
        w' = { w with table := w.table.update e, log := closedEvent i (e.set r) ++ w.log }.setProc i
          (Proc.next rest)) := by
  simp only [mark] at h
  split at h
  · cases h
  · rename_i row rest phase hproc
    refine ⟨row, rest, phase, hproc, ?_⟩
    obtain ⟨e, he, rfl⟩ := map_eq_some_iff.mp h
    split
    · rename_i r hret
      obtain ⟨r₀, hr₀, hc, rfl⟩ := Table.exists_of_returning_cons hret
      exact .inr ⟨e, r₀, Relay.markEdit_marks he, hr₀, hc, rfl⟩
    · exact .inl rfl

theorem step_effect {act : Action} (h : w.step d act = some w') : Effect w w' := by
  cases act with
  | tick n =>
    cases h
    exact .tick n
  | enqueue id p => exact enqueue_effect h
  | claim i locked now =>
    simp only [step] at h
    split at h
    · split at h
      · exact claim_effect h
      · cases h
    · cases h
  | deliver i res => exact deliver_effect h
  | mark i jitter now =>
    simp only [step] at h
    split at h
    · obtain ⟨row, rest, phase, hproc, rfl | ⟨e, r, he, hr, hc, rfl⟩⟩ := mark_effect h
      · exact .stopped i
      · exact .marked i row rest phase e r hproc he hr hc
    · cases h
  | recover age now =>
    simp only [step] at h
    split at h
    · obtain ⟨t, ht, rfl⟩ := map_eq_some_iff.mp h
      simp only [recoverInFlight] at ht
      split at ht
      · cases ht
      · cases ht
        exact .recovered age now
    · cases h
  | stop i =>
    cases h
    exact .stopped i

end World

structure Row.Follows (r r' : Row) : Prop where
  id : r'.id = r.id
  publication : r'.publication = r.publication
  attempts : r.attempts ≤ r'.attempts
  terminal : r.deliveryStatus.isTerminal = true → r' = r

theorem Row.Follows.refl (r : Row) : r.Follows r := ⟨rfl, rfl, Nat.le_refl _, fun _ => rfl⟩

theorem Row.Follows.trans {r r' r'' : Row} (h : r.Follows r') (h' : r'.Follows r'') : r.Follows r'' := by
  refine ⟨h'.id.trans h.id, h'.publication.trans h.publication, h.attempts.trans h'.attempts, fun ht => ?_⟩
  obtain rfl := h.terminal ht
  exact h'.terminal ht

theorem Row.follows_apply {e : Edit Row} {r : Row} (hp : (e.set r).publication = r.publication)
    (ha : r.attempts ≤ (e.set r).attempts) (ht : e.cond r = true → r.deliveryStatus.isTerminal = false) :
    r.Follows (e.apply r) := by
  cases hc : e.cond r with
  | false =>
    rw [Edit.apply_neg hc]
    exact .refl r
  | true =>
    rw [Edit.apply_pos hc]
    exact ⟨e.pk_set r, hp, ha, fun hterm => absurd hterm (by simp [ht hc])⟩

theorem Effect.follows {w w' : World} (h : Effect w w') {r : Row} (hr : r ∈ w.table.rows) :
    ∃ r' ∈ w'.table.rows, r.Follows r' := by
  cases h with
  | enqueued id p t hins => exact ⟨r, by simp [(Table.insert?_eq_some hins).2.2, hr], .refl r⟩
  | claimed i ids now hids =>
    refine ⟨(claimEdit ids now).apply r, mem_map_of_mem hr, Row.follows_apply rfl (Nat.le_succ _) fun hc => ?_⟩
    rcases hids r hr (of_decide_eq_true hc) with hst | hst <;> simp [hst, DeliveryStatus.isTerminal]
  | marked i row rest phase e r₀ hproc he hr₀ hc =>
    refine ⟨e.apply r, mem_map_of_mem hr, Row.follows_apply (he.publication r) (he.attempts r).ge fun hc => ?_⟩
    rw [he.cond, Row.claimedAs_iff] at hc
    simp [hc.2.1, DeliveryStatus.isTerminal]
  | recovered age now =>
    refine ⟨(recoverEdit age now).apply r, mem_map_of_mem hr, Row.follows_apply rfl (Nat.le_refl _) fun hc => ?_⟩
    simp only [recoverEdit, Bool.and_eq_true, beq_iff_eq] at hc
    simp [hc.1, DeliveryStatus.isTerminal]
  | _ => exact ⟨r, hr, .refl r⟩

theorem World.follows_later {d : Deployment} {w w' : World} (hl : (machine d).Later w w') {r : Row}
    (hr : r ∈ w.table.rows) : ∃ r' ∈ w'.table.rows, r.Follows r' := by
  refine hl.stable (P := fun w => ∃ r' ∈ w.table.rows, r.Follows r') ?_ ⟨r, hr, .refl r⟩
  rintro w act w' ⟨r', hr', hf⟩ hs
  obtain ⟨r'', hr'', hf'⟩ := (step_effect hs).follows hr'
  exact ⟨r'', hr'', hf.trans hf'⟩

end

/-! Seen from one row, the outbox is a cell guarded by its attempts. -/

section

open Lib List DeliveryStatus

def DeliveryStatus.status : DeliveryStatus → Fence.Status DeliveryStatus
  | .pending | .failed => .free
  | .inFlight => .held
  | .delivered => .closed .delivered
  | .poison => .closed .poison

def Row.cell (r : Row) : Fence.Cell Uuid DeliveryStatus := ⟨r.id, r.attempts, r.deliveryStatus.status⟩

/-- The claims made, newest first: the relay, the row and the attempts it set. -/
def claims : List Event → List (Nat × Uuid × Nat)
  | [] => []
  | .claimed i id n :: log => (i, id, n) :: claims log
  | _ :: log => claims log

def closings : List Event → List ((Uuid × Nat) × DeliveryStatus)
  | [] => []
  | .closed _ id n s :: log => ((id, n), s) :: closings log
  | _ :: log => closings log

def fenceOf (k : Uuid) (t : Table Row) (log : List Event) : Fence.State Uuid DeliveryStatus where
  cell := (t.get k).map Row.cell
  used := (t.get k).toList.map Row.id
  issued := ((claims log).filter fun c => c.2.1 = k).map Prod.snd
  settled := (closings log).filter fun c => c.1.1 = k

/-- Closing leaves the attempts alone, and a closed row is not claimed again. -/
abbrev rowFence : Machine (Fence.State Uuid DeliveryStatus) (Fence.Act Uuid DeliveryStatus) := Fence.machine 0 false

variable {log : List Event} {i j n : Nat} {id : Uuid} {r row : Row} {rest : List Row} {phase : Phase}

theorem mem_claims : (i, id, n) ∈ claims log ↔ .claimed i id n ∈ log := by
  induction log with
  | nil => simp [claims]
  | cons ev log ih => cases ev <;> simp [claims, ih]

theorem mem_closings {s : DeliveryStatus} : ((id, n), s) ∈ closings log ↔ ∃ i, .closed i id n s ∈ log := by
  induction log with
  | nil => simp [closings]
  | cons ev log ih => cases ev <;> simp [closings, ih, exists_or, and_assoc]

theorem claims_batch (i : Nat) (rows : List Row) (log : List Event) :
    claims (rows.map (claimedEvent i) ++ log) = rows.map (fun r => (i, r.id, r.attempts)) ++ claims log := by
  induction rows with
  | nil => rfl
  | cons r rows ih => simp [claimedEvent, claims, ih]

theorem closings_batch (i : Nat) (rows : List Row) (log : List Event) :
    closings (rows.map (claimedEvent i) ++ log) = closings log := by
  induction rows with
  | nil => rfl
  | cons r rows ih => simp [claimedEvent, closings, ih]

theorem claims_closedEvent (i : Nat) (r : Row) (log : List Event) : claims (closedEvent i r ++ log) = claims log := by
  unfold closedEvent
  split <;> rfl

theorem closings_closedEvent (i : Nat) (r : Row) (log : List Event) : closings (closedEvent i r ++ log) =
      (if r.deliveryStatus.isTerminal then [((r.id, r.attempts), r.deliveryStatus)] else []) ++ closings log := by
  unfold closedEvent
  split <;> simp_all [closings, isTerminal]

theorem mem_closedEvent {s : DeliveryStatus}
    (h : .closed j id n s ∈ closedEvent i r) : j = i ∧ id = r.id ∧ n = r.attempts ∧ s = r.deliveryStatus := by
  unfold closedEvent at h
  split at h <;> simp_all

variable {t t' : Table Row} {e : Edit Row} {k : Uuid} {log' : List Event}

theorem fenceOf_update_neg (h : ∀ r, t.get k = some r → e.cond r = false) :
    fenceOf k (t.update e) log = fenceOf k t log := by
  simp only [fenceOf, Table.get_update_neg h]

theorem fenceOf_update_pos (hr : t.get k = some r) (hc : e.cond r = true) :
    fenceOf k (t.update e) log = { fenceOf k t log with cell := some (e.set r).cell } := by
  have hid : (e.set r).id = r.id := e.pk_set r
  simp [fenceOf, Table.get_update_pos hr hc, hr, hid]

theorem later_enqueued {p : Publication} {now : Int} (hins : t.insert? (enqueuedRow id p now) = some t') :
    rowFence.Later (fenceOf k t log) (fenceOf k t' log) := by
  have hget : t'.get k = if id = k then some (enqueuedRow id p now) else t.get k := Table.get_insert hins
  by_cases hk : id = k
  · subst hk
    have hnone : t.get id = none := (Table.insert?_eq_some hins).1
    rw [if_pos rfl] at hget
    have hcreate : rowFence.Later (fenceOf id t log) _ :=
      Fence.later_create (i := id) (by simp [fenceOf, hnone]) (by simp [fenceOf, hnone])
    simpa [fenceOf, hnone, hget, Row.cell, enqueuedRow, status] using hcreate
  · rw [if_neg hk] at hget
    simpa [fenceOf, hget] using Machine.Later.refl _

theorem fenceOf_held (hr : t.get k = some r) (h : r.deliveryStatus = .inFlight) :
    Fence.Holds (fenceOf k t log) (r.id, r.attempts) := by
  simp [Fence.Holds, fenceOf, hr, Row.cell, h, status]

theorem fenceOf_closed (i : Nat) : fenceOf k t (closedEvent i r ++ log) =
      if r.id = k ∧ r.deliveryStatus.isTerminal = true then
        { fenceOf k t log with settled := ((r.id, r.attempts), r.deliveryStatus) :: (fenceOf k t log).settled }
      else fenceOf k t log := by
  by_cases hk : r.id = k <;> by_cases ht : r.deliveryStatus.isTerminal = true <;>
    simp [fenceOf, claims_closedEvent, closings_closedEvent, hk, ht]

theorem fenceOf_batch (i : Nat) : fenceOf k t' ((t.returning e).map (claimedEvent i) ++ log) = { fenceOf k t' log with
      issued := (((t.get k).filter e.cond).map fun r => ((e.set r).id, (e.set r).attempts)).toList ++
        (fenceOf k t' log).issued } := by
  have hnew : (((t.returning e).map fun r => (i, r.id, r.attempts)).filter fun c => c.2.1 = k).map Prod.snd =
      (((t.get k).filter e.cond).map fun r => ((e.set r).id, (e.set r).attempts)).toList := by
    have hret : (t.returning e).filter (fun r => r.id = k) = (((t.get k).filter e.cond).map e.set).toList :=
      Table.filter_returning
    rw [filter_map, map_map]
    simp only [Function.comp_def, hret]
    cases (t.get k).filter e.cond <;> rfl
  simp [fenceOf, claims_batch, closings_batch, hnew]

theorem later_claimed {ids : List Uuid} {now : Int}
    (hids : ∀ r ∈ t.rows, r.id ∈ ids → r.deliveryStatus = .pending ∨ r.deliveryStatus = .failed) :
    rowFence.Later (fenceOf k t log)
      (fenceOf k (t.update (claimEdit ids now)) ((t.returning (claimEdit ids now)).map (claimedEvent i) ++ log)) := by
  rw [fenceOf_batch]
  cases hget : (t.get k).filter (claimEdit ids now).cond with
  | none =>
    rw [fenceOf_update_neg fun r hr => by simpa [hr, Option.filter] using hget]
    exact .refl _
  | some r =>
    obtain ⟨hget, hc⟩ := Option.filter_eq_some_iff.mp hget
    obtain ⟨hr, -⟩ := Table.get_eq_some.mp hget
    have hfree : r.deliveryStatus.status = .free := by
      rcases hids r hr (of_decide_eq_true hc) with hst | hst <;> rw [hst] <;> rfl
    have hcell : (fenceOf k t log).cell = some ⟨r.id, r.attempts, .free⟩ := by
      simp [fenceOf, hget, Row.cell, hfree]
    rw [fenceOf_update_pos hget hc]
    exact Fence.later_grant hcell nofun

theorem later_recovered {age now : Int} :
    rowFence.Later (fenceOf k t log) (fenceOf k (t.update (recoverEdit age now)) log) := by
  cases hget : (t.get k).filter (recoverEdit age now).cond with
  | none =>
    rw [fenceOf_update_neg fun r hr => by simpa [hr, Option.filter] using hget]
    exact .refl _
  | some r =>
    obtain ⟨hget, hc⟩ := Option.filter_eq_some_iff.mp hget
    rw [fenceOf_update_pos hget hc]
    simp only [recoverEdit, Bool.and_eq_true, beq_iff_eq] at hc
    have hheld : Fence.Holds (fenceOf k t log) (r.id, r.attempts) := fenceOf_held hget hc.1
    exact Fence.later_revoke hheld

theorem later_marked (he : Marks row phase e) (hr : r ∈ t.rows) (hc : e.cond r = true) :
    rowFence.Later (fenceOf k t log) (fenceOf k (t.update e) (closedEvent i (e.set r) ++ log)) := by
  have hid : (e.set r).id = r.id := e.pk_set r
  obtain ⟨hrow, hst, -⟩ := Row.claimedAs_iff.mp (he.cond ▸ hc)
  rw [fenceOf_closed, hid, he.attempts]
  by_cases hk : r.id = k
  · subst hk
    have hget : t.get r.id = some r := Table.get_eq_some.mpr ⟨hr, rfl⟩
    have hheld : Fence.Holds (fenceOf r.id t log) (r.id, r.attempts) := fenceOf_held hget hst
    rw [fenceOf_update_pos hget hc, Row.cell, hid, he.attempts]
    rcases he.status r with ⟨hs, -⟩ | hs | hs
    · rw [hs, if_pos ⟨rfl, rfl⟩]
      exact Fence.later_settle hheld delivered
    · rw [hs, if_neg (by simp [isTerminal])]
      exact Fence.later_revoke hheld
    · rw [hs, if_pos ⟨rfl, rfl⟩]
      exact Fence.later_settle hheld poison
  · have hsame : ∀ r', e.cond r' = true → r'.id = r.id :=
      fun r' hc' => (Row.claimedAs_iff.mp (he.cond ▸ hc')).1.trans hrow.symm
    rw [fenceOf_update_neg (Table.cond_of_get_ne hsame hk), if_neg fun h => hk h.1]
    exact .refl _

namespace World

variable {d : Deployment} {w w' : World}

theorem simulates_fence (d : Deployment) (k : Uuid) :
    Machine.Simulates (machine d) rowFence (fun _ => True) fun w => fenceOf k w.table w.log where
  init w hw := by
    obtain ⟨ht, -, hl⟩ := hw
    simp [rowFence, Fence.machine, fenceOf, ht, hl, claims, closings]
  inv_init _ _ := trivial
  inv_step _ _ _ _ _ := trivial
  step w act w' _ hs := by
    cases step_effect hs with
    | enqueued id p t hins => exact later_enqueued hins
    | claimed i ids now hids => exact later_claimed hids
    | marked i row rest phase e r hproc he hr hc => exact later_marked he hr hc
    | recovered age now => exact later_recovered
    | _ => exact .refl _

theorem fenceOf_inv (h : (machine d).Reachable w) (k : Uuid) : Fence.Inv 0 (fenceOf k w.table w.log) :=
  Fence.inv ((simulates_fence d k).reachable h)

theorem claimed_unique (h : (machine d).Reachable w)
    (hi : .claimed i id n ∈ w.log) (hj : .claimed j id n ∈ w.log) : i = j := by
  have heq := inj_on_of_nodup_map (fenceOf_inv h id).issued_nodup
    (mem_filter.mpr ⟨mem_claims.mpr hi, by simp⟩) (mem_filter.mpr ⟨mem_claims.mpr hj, by simp⟩) rfl
  exact congrArg Prod.fst heq

theorem marked_row (hmark : w' = w.setProc i .idle ∨ ∃ e r, Marks row phase e ∧ r ∈ w.table.rows ∧ e.cond r = true ∧
      w' = { w with table := w.table.update e, log := closedEvent i (e.set r) ++ w.log }.setProc i (Proc.next rest))
    (hr : r ∈ w.table.rows) (hne : w'.table.get r.id ≠ some r) :
    r.id = row.id ∧ r.deliveryStatus = .inFlight ∧ r.attempts = row.attempts := by
  rcases hmark with rfl | ⟨e, r₀, he, -, -, rfl⟩
  · exact absurd (Table.get_eq_some.mpr ⟨hr, rfl⟩) hne
  · have hc : e.cond r = true := Table.cond_of_changed hr hne
    exact Row.claimedAs_iff.mp (he.cond ▸ hc)

/-! ## What a relay knows -/

structure RelayInv (w : World) : Prop where
  /-- the rows in a relay's hands were claimed by it -/
  claimed : ∀ i row rest phase, w.procs i = .busy row rest phase → ∀ r ∈ row :: rest,
    .claimed i r.id r.attempts ∈ w.log
  accepted : ∀ i row rest, w.procs i = .busy row rest .ack → .accepted i row.id row.attempts ∈ w.log
  delivered : ∀ i id n, .closed i id n .delivered ∈ w.log → .claimed i id n ∈ w.log ∧ .accepted i id n ∈ w.log

theorem RelayInv.setProc (h : RelayInv w) {p : Proc} (hlog : ∀ ev ∈ w.log, ev ∈ log)
    (hrows : ∀ row rest phase, p = .busy row rest phase → ∀ r ∈ row :: rest, .claimed i r.id r.attempts ∈ log)
    (hack : ∀ row rest, p = .busy row rest .ack → .accepted i row.id row.attempts ∈ log)
    (hnew : ∀ j id n, .closed j id n .delivered ∈ log → .closed j id n .delivered ∈ w.log ∨
      .claimed j id n ∈ log ∧ .accepted j id n ∈ log) :
    RelayInv ({ w with table := t, log := log }.setProc i p) := by
  refine ⟨?_, ?_, ?_⟩
  · intro j row rest phase hproc
    by_cases hj : j = i
    · subst hj
      exact hrows row rest phase (by simpa [World.setProc] using hproc)
    · have hproc' : w.procs j = .busy row rest phase := by simpa [World.setProc, hj] using hproc
      exact fun r hr => hlog _ (h.claimed j row rest phase hproc' r hr)
  · intro j row rest hproc
    by_cases hj : j = i
    · subst hj
      exact hack row rest (by simpa [World.setProc] using hproc)
    · have hproc' : w.procs j = .busy row rest .ack := by simpa [World.setProc, hj] using hproc
      exact hlog _ (h.accepted j row rest hproc')
  · intro j id n hclosed
    rcases hnew j id n hclosed with hold | hboth
    · obtain ⟨hcl, hacc⟩ := h.delivered j id n hold
      exact ⟨hlog _ hcl, hlog _ hacc⟩
    · exact hboth

theorem next_eq_busy {rows : List Row}
    (h : Proc.next rows = .busy row rest phase) : rows = row :: rest ∧ phase = .deliver := by
  cases rows with
  | nil => cases h
  | cons r rows =>
    cases h
    exact ⟨rfl, rfl⟩

theorem RelayInv.step (h : RelayInv w) (hs : Effect w w') : RelayInv w' := by
  cases hs with
  | tick | enqueued | recovered => exact { h with }
  | nothing => exact h
  | stopped i =>
    exact h.setProc (fun _ hev => hev) (fun _ _ _ hp => nomatch hp) (fun _ _ hp => nomatch hp)
      (fun _ _ _ hc => .inl hc)
  | claimed i ids now hids =>
    refine h.setProc (fun ev hev => mem_append_right _ hev) ?_ ?_ ?_
    · intro row rest phase hp r hr
      rw [← (next_eq_busy hp).1] at hr
      exact mem_append_left _ (mem_map.mpr ⟨r, hr, rfl⟩)
    · intro row rest hp
      exact absurd (next_eq_busy hp).2 (by simp)
    · intro j id n hc
      rcases mem_append.mp hc with hc | hc
      · obtain ⟨r, -, hr⟩ := mem_map.mp hc
        cases hr
      · exact .inl hc
  | accepted i row rest hproc =>
    refine h.setProc (fun ev hev => mem_cons_of_mem _ hev) ?_ ?_ ?_
    · rintro row' rest' phase hp r hr
      cases hp
      exact mem_cons_of_mem _ (h.claimed i _ _ _ hproc r hr)
    · rintro row' rest' hp
      cases hp
      exact mem_cons_self
    · intro j id n hc
      exact .inl (by simpa using hc)
  | rejected i row rest err hproc =>
    refine h.setProc (fun _ hev => hev) ?_ ?_ (fun _ _ _ hc => .inl hc)
    · rintro row' rest' phase hp r hr
      cases hp
      exact h.claimed i _ _ _ hproc r hr
    · intro row' rest' hp
      cases (Proc.busy.inj hp).2.2
  | marked i row rest phase e r hproc he hr hc =>
    refine h.setProc (fun ev hev => mem_append_right _ hev) ?_ ?_ ?_
    · intro row' rest' phase' hp r' hr'
      rw [← (next_eq_busy hp).1] at hr'
      exact mem_append_right _ (h.claimed i row rest phase hproc r' (mem_cons_of_mem _ hr'))
    · intro row' rest' hp
      exact absurd (next_eq_busy hp).2 (by simp)
    · intro j id n hclosed
      rcases mem_append.mp hclosed with hclosed | hclosed
      · -- the row was accepted under the claim it is marked for
        obtain ⟨rfl, rfl, rfl, hst⟩ := mem_closedEvent hclosed
        obtain ⟨hid, -, hatt⟩ := Row.claimedAs_iff.mp (he.cond ▸ hc)
        have hid' : (e.set r).id = row.id := (e.pk_set r).trans hid
        have hack : phase = .ack := by
          rcases he.status r with ⟨-, hp⟩ | hs | hs
          · exact hp
          · rw [hs] at hst
            cases hst
          · rw [hs] at hst
            cases hst
        subst hack
        rw [hid', he.attempts, hatt]
        exact .inr ⟨mem_append_right _ (h.claimed j row rest .ack hproc row mem_cons_self),
          mem_append_right _ (h.accepted j row rest hproc)⟩
      · exact .inl hclosed

theorem relayInv (h : (machine d).Reachable w) : RelayInv w := by
  refine h.invariant (P := RelayInv) ?_ fun _ _ _ hi hs => hi.step (step_effect hs)
  rintro w ⟨-, hp, hl⟩
  constructor <;> simp [hp, hl]

theorem accepted_of_delivered (h : (machine d).Reachable w) (hr : r ∈ w.table.rows)
    (hst : r.deliveryStatus = .delivered) :
    ∃ i, .claimed i r.id r.attempts ∈ w.log ∧ .accepted i r.id r.attempts ∈ w.log := by
  have hget : w.table.get r.id = some r := Table.get_eq_some.mpr ⟨hr, rfl⟩
  obtain ⟨n, hn, hmem⟩ := (fenceOf_inv h r.id).closed_settled r.id r.attempts .delivered
    (by simp [fenceOf, hget, Row.cell, hst, status])
  obtain rfl : r.attempts = n := hn
  obtain ⟨i, hi⟩ := mem_closings.mp (mem_of_mem_filter hmem)
  exact ⟨i, (relayInv h).delivered i r.id r.attempts hi⟩

end World

end

/-! Rows are never lost, and a relay marks a row only under the claim it was handed the row with. -/

open Lib World

/-- From every reachable state on: no row is lost, its attempts only grow and a delivered or poison row
stays as it is; a call that marks a row changes it only while it is in flight under the claim of the relay
that makes the call; and a delivered row was accepted by the deliverer under its own claim. -/
theorem outbox_delivery {d : Deployment} {w w' : World} (h : (machine d).Reachable w) (hl : (machine d).Later w w') :
    (∀ r ∈ w.table.rows, ∃ r' ∈ w'.table.rows, r'.id = r.id ∧ r'.publication = r.publication ∧
      r.attempts ≤ r'.attempts ∧
      (r.deliveryStatus = .delivered ∨ r.deliveryStatus = .poison → r' = r) ∧
      (r'.deliveryStatus ≠ .delivered → r'.deliveryStatus ≠ .poison →
        r'.deliveryStatus = .inFlight ∨ r'.deliveryStatus = .pending ∨ r'.deliveryStatus = .failed)) ∧
    (∀ i jitter now w'', w.step d (.mark i jitter now) = some w'' → ∃ row rest phase,
      w.procs i = .busy row rest phase ∧ ∀ r ∈ w.table.rows, w''.table.get r.id ≠ some r →
        r.id = row.id ∧ r.deliveryStatus = .inFlight ∧ r.attempts = row.attempts ∧
          ∀ j, .claimed j r.id r.attempts ∈ w.log ↔ j = i) ∧
    (∀ r ∈ w.table.rows, r.deliveryStatus = .delivered →
      ∃ i, .claimed i r.id r.attempts ∈ w.log ∧ .accepted i r.id r.attempts ∈ w.log) := by
  refine ⟨fun r hr => ?_, fun i jitter now w'' hs => ?_, fun r hr hst => accepted_of_delivered h hr hst⟩
  · obtain ⟨r', hr', hf⟩ := follows_later hl hr
    refine ⟨r', hr', hf.id, hf.publication, hf.attempts, fun hterm => hf.terminal ?_, ?_⟩
    · rcases hterm with hst | hst <;> rw [hst] <;> rfl
    · cases r'.deliveryStatus <;> simp
  · simp only [step] at hs
    split at hs
    · obtain ⟨row, rest, phase, hproc, hmark⟩ := mark_effect hs
      refine ⟨row, rest, phase, hproc, fun r hr hne => ?_⟩
      obtain ⟨hid, hst, hatt⟩ := marked_row hmark hr hne
      have hclaim := (relayInv h).claimed i row rest phase hproc row List.mem_cons_self
      rw [← hid, ← hatt] at hclaim
      exact ⟨hid, hst, hatt, fun j => ⟨fun hj => claimed_unique h hj hclaim, fun hj => hj ▸ hclaim⟩⟩
    · cases hs

section Example

def samplePublication : Publication :=
  ⟨10, 20, ['a'], 1, ['v'], ['t'], [1], List.replicate 64 'a', .postgresJsonbText⟩

def sampleDeployment : Deployment where
  codec := ⟨fun _ => some ("metadata".toList, some ⟨['s'], ['i'], 1⟩), fun _ => List.replicate 64 'a', fun e =>
    .error []⟩
  relay _ := ⟨32, 8, true, by decide, by decide⟩

/-- A relay claims a row and is slow; the row is recovered, claimed and delivered by another one. -/
def sampleDelivered : World :=
  ((machine sampleDeployment).run ⟨0, Table.empty, fun _ => .idle, []⟩
    [.enqueue 7 samplePublication, .claim 1 [] 0, .tick 60, .recover 30 60, .claim 2 [] 60, .deliver 2 (.ok ()),
      .mark 2 none 60, .deliver 1 (.ok ())]).get (by decide)

theorem outbox_delivery_sample :
    (sampleDelivered.table.rows.map fun r => (r.deliveryStatus, r.attempts)) = [(.delivered, 2)] ∧
      (∀ r ∈ sampleDelivered.table.rows, r.deliveryStatus = .delivered →
        ∃ i, .claimed i r.id r.attempts ∈ sampleDelivered.log ∧ .accepted i r.id r.attempts ∈ sampleDelivered.log) ∧
      (sampleDelivered.step sampleDeployment (.mark 1 none 60)).isSome = true ∧
      ∀ w', sampleDelivered.step sampleDeployment (.mark 1 none 60) = some w' → ∃ row rest phase,
        sampleDelivered.procs 1 = .busy row rest phase ∧ ∀ r ∈ sampleDelivered.table.rows,
          w'.table.get r.id ≠ some r → r.deliveryStatus = .inFlight := by
  have hreach : (machine sampleDeployment).Reachable sampleDelivered :=
    ⟨_, ⟨rfl, rfl, rfl⟩, _, (Option.some_get _).symm⟩
  obtain ⟨-, hmark, haccepted⟩ := outbox_delivery hreach (.refl _)
  refine ⟨by decide, haccepted, by decide, fun w' hs => ?_⟩
  obtain ⟨row, rest, phase, hproc, hrows⟩ := hmark 1 none 60 w' hs
  exact ⟨row, rest, phase, hproc, fun r hr hne => (hrows r hr hne).2.1⟩

end Example

end IbexHarness.Outbox
