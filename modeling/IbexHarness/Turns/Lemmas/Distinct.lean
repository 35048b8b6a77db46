import IbexHarness.Turns.Lemmas.Numbering
import IbexHarness.Turns.Requests

/-! The counter of the cache is above every index taken, but for a request that is about to set it. -/

namespace IbexHarness.Turns.Requests

open Lib List Requests.World

variable {π : Type} {w w' : World π} {q q' : Request π} {r k : Nat}

/-- The turn has been appended to the buffer, or the request has failed. -/
def Stage.flushed : Stage π → Bool
  | .lookup | .create | .reserve | .provider _ | .flush _ _ _ _ => false
  | _ => true

def Request.Ok (q : Request π) : Prop :=
  match q.stage with
  | .lookup | .create => q.turnIndex = none
  | .reserve | .provider _ | .flush _ _ _ _ => q.turnIndex ≠ none
  | _ => True

structure Inv (w : World π) : Prop where
  ok : ∀ q ∈ w.requests, q.Ok
  cache : ∀ c, w.store.cache = some c → 0 < c ∧ ∀ q ∈ w.requests, World.reserving q = false →
    ∀ k, q.turnIndex = some k → k < c
  reserve : ∀ (i : Nat) (q : Request π), w.requests[i]? = some q → World.reserving q = true →
    ∀ k, q.turnIndex = some k → ∀ (j : Nat) (q' : Request π), j ≠ i → w.requests[j]? = some q' →
      ∀ k', q'.turnIndex = some k' → k' < k
  distinct : ∀ (i j : Nat) (q q' : Request π), i ≠ j → w.requests[i]? = some q → w.requests[j]? = some q' →
    ∀ k, q.turnIndex = some k → q'.turnIndex ≠ some k
  nodup : (w.buffered.map Extraction.Turn.turnIndex).Nodup
  buffered : ∀ t ∈ w.buffered, ∃ (i : Nat) (q : Request π), w.requests[i]? = some q ∧ q.stage.flushed = true ∧
    q.turnIndex = some (t.turnIndex / 2)

theorem inv_init : Inv (⟨.init, [], []⟩ : World π) := by
  refine ⟨by simp, by simp [Turns.World.init], by simp, by simp, nodup_nil, by simp⟩

theorem mem_taken : k ∈ w.taken ↔ ∃ q ∈ w.requests, q.turnIndex = some k := List.mem_filterMap

theorem Inv.move (h : Inv w) (q' : Request π) {s : Turns.World π} (hq : w.requests[r]? = some q) (hok : q'.Ok)
    (hindex : q'.turnIndex = q.turnIndex ∨ q'.turnIndex = none ∧ q.stage.flushed = false)
    (hflushed : q.stage.flushed = true → q'.stage.flushed = true) (hreserve : World.reserving q' = false)
    (hcache : ∀ c, s.cache = some c →
      w.store.cache = some c ∧ World.reserving q = false ∨ 0 < c ∧ ∀ k ∈ w.taken, k < c) :
    Inv ({ w with store := s }.setRequest r q') := by
  have hget := Parties.getElem?_set hq q'
  have hmem := mem_of_getElem? hq
  -- the request has no index that it had not before
  have hold : ∀ k, q'.turnIndex = some k → q.turnIndex = some k := by
    intro k hk
    rcases hindex with heq | ⟨hnone, -⟩
    · exact heq ▸ hk
    · exact absurd (hnone.symm.trans hk) nofun
  refine ⟨fun p hp => ?_, fun c hc => ?_, fun i p hp hres k hk j p' hj hp' k' hk' => ?_,
    fun i j p p' hij hp hp' k hk => ?_, h.nodup, fun t ht => ?_⟩
  · rcases mem_or_eq_of_mem_set hp with hp | rfl
    · exact h.ok p hp
    · exact hok
  · rcases hcache c hc with ⟨hc, hres⟩ | ⟨hpos, htaken⟩
    · obtain ⟨hpos, hbelow⟩ := h.cache c hc
      refine ⟨hpos, fun p hp hpres k hk => ?_⟩
      rcases mem_or_eq_of_mem_set hp with hp | rfl
      · exact hbelow p hp hpres k hk
      · exact hbelow q hmem hres k (hold k hk)
    · refine ⟨hpos, fun p hp _ k hk => ?_⟩
      rcases mem_or_eq_of_mem_set hp with hp | rfl
      · exact htaken k (mem_taken.mpr ⟨p, hp, hk⟩)
      · exact htaken k (mem_taken.mpr ⟨q, hmem, hold k hk⟩)
  · simp only [setRequest, hget] at hp hp'
    split_ifs at hp with hi
    · cases hp
      exact absurd (hreserve.symm.trans hres) (by decide)
    · split_ifs at hp' with hjr
      · cases hp'
        subst hjr
        exact h.reserve i p hp hres k hk j q hj hq k' (hold k' hk')
      · exact h.reserve i p hp hres k hk j p' hj hp' k' hk'
  · simp only [setRequest, hget] at hp hp'
    intro hk'
    split_ifs at hp with hi <;> split_ifs at hp' with hj
    · exact hij (hi.trans hj.symm)
    · cases hp
      exact h.distinct r j q p' (Ne.symm hj) hq hp' k (hold k hk) hk'
    · cases hp'
      exact h.distinct i r p q hi hp hq k hk (hold k hk')
    · exact h.distinct i j p p' hij hp hp' k hk hk'
  · obtain ⟨i, p, hp, hfl, hk⟩ := h.buffered t ht
    by_cases hi : i = r
    · subst hi
      obtain rfl : q = p := Option.some.inj (hq.symm.trans hp)
      refine ⟨i, q', (hget i).trans (if_pos rfl), hflushed hfl, ?_⟩
      rcases hindex with heq | ⟨-, hno⟩
      · exact heq.trans hk
      · exact absurd (hno.symm.trans hfl) (by decide)
    · exact ⟨i, p, (hget i).trans ((if_neg hi).trans hp), hfl, hk⟩

theorem Inv.read (h : Inv w) {stage : Stage π} {s : Turns.World π} (hq : w.requests[r]? = some q)
    (hflushed : q.stage.flushed = false) (hnone : w.requests.any World.reserving = false)
    (htaken : ∀ k' ∈ w.taken, k' < k) (hcache : s.cache = w.store.cache) (hok : Request.Ok ⟨some k, stage⟩)
    (hset : World.reserving (⟨some k, stage⟩ : Request π) = true ∨ k = 0) :
    Inv ({ w with store := s }.setRequest r ⟨some k, stage⟩) := by
  have hget := Parties.getElem?_set hq ⟨some k, stage⟩
  have hbelow : ∀ (j : Nat) (p : Request π), w.requests[j]? = some p → ∀ k', p.turnIndex = some k' → k' < k :=
    fun j p hp k' hk' => htaken k' (mem_taken.mpr ⟨p, mem_of_getElem? hp, hk'⟩)
  have hfree : ∀ p ∈ w.requests, reserving p = false := by simpa using hnone
  refine ⟨fun p hp => ?_, fun c hc => ?_, fun i p hp hres k₁ hk₁ j p' hj hp' k₂ hk₂ => ?_,
    fun i j p p' hij hp hp' k₁ hk₁ hk₂ => ?_, h.nodup, fun t ht => ?_⟩
  · rcases mem_or_eq_of_mem_set hp with hp | rfl
    · exact h.ok p hp
    · exact hok
  · obtain ⟨hpos, hlt⟩ := h.cache c (hcache ▸ hc)
    refine ⟨hpos, fun p hp hres k' hk' => ?_⟩
    rcases mem_or_eq_of_mem_set hp with hp | rfl
    · exact hlt p hp hres k' hk'
    · rcases hset with hset | rfl
      · exact absurd (hres.symm.trans hset) (by decide)
      · cases hk'
        exact hpos
  · simp only [setRequest, hget] at hp hp'
    split_ifs at hp with hi
    · cases hp
      cases hk₁
      rw [if_neg (hi ▸ hj)] at hp'
      exact hbelow j p' hp' k₂ hk₂
    · exact absurd ((hfree p (mem_of_getElem? hp)).symm.trans hres) (by decide)
  · simp only [setRequest, hget] at hp hp'
    split_ifs at hp with hi <;> split_ifs at hp' with hj
    · exact hij (hi.trans hj.symm)
    · cases hp
      cases hk₁
      exact absurd (hbelow j p' hp' k hk₂) (Nat.lt_irrefl k)
    · cases hp'
      cases hk₂
      exact absurd (hbelow i p hp k hk₁) (Nat.lt_irrefl k)
    · exact h.distinct i j p p' hij hp hp' k₁ hk₁ hk₂
  · obtain ⟨i, p, hp, hfl, hk⟩ := h.buffered t ht
    refine ⟨i, p, (hget i).trans ((if_neg ?_).trans hp), hfl, hk⟩
    rintro rfl
    obtain rfl : q = p := Option.some.inj (hq.symm.trans hp)
    exact absurd (hflushed.symm.trans hfl) (by decide)

theorem div_two_of_mem_turnsFromChat {lastUser completion : Text} {t : Extraction.Turn}
    (ht : t ∈ Extraction.turnsFromChat k lastUser completion) : t.turnIndex / 2 = k := by
  rcases mem_append.mp ht with ht | ht
  · split_ifs at ht
    · obtain rfl := mem_singleton.mp ht
      exact Nat.mul_div_cancel k (by decide)
    · cases ht
  · split_ifs at ht
    · obtain rfl := mem_singleton.mp ht
      show (k * 2 + 1) / 2 = k
      omega
    · cases ht

theorem nodup_turnsFromChat (k : Nat) (lastUser completion : Text) :
    ((Extraction.turnsFromChat k lastUser completion).map Extraction.Turn.turnIndex).Nodup := by
  unfold Extraction.turnsFromChat
  split_ifs <;> simp

theorem Inv.flush (h : Inv w) {stage : Stage π} (hq : w.requests[r]? = some q) (hk : q.turnIndex = some k)
    (hflushed : q.stage.flushed = false) (hreserve : World.reserving q = false) (hstage : stage.flushed = true)
    (lastUser completion : Text) :
    Inv ({ w with buffered := w.buffered ++ Extraction.turnsFromChat k lastUser completion }.setRequest r
      { q with stage }) := by
  have hreserve' : reserving { q with stage } = false := by cases stage <;> first | rfl | cases hstage
  have hok : Request.Ok { q with stage } := by cases stage <;> trivial
  have hmoved := h.move { q with stage } (s := w.store) hq hok (.inl rfl) (fun _ => hstage) hreserve'
    fun c hc => .inl ⟨hc, hreserve⟩
  refine { hmoved with nodup := ?_, buffered := fun t ht => ?_ }
  · simp only [setRequest, map_append]
    refine h.nodup.append (nodup_turnsFromChat k lastUser completion) fun n hold hnew => ?_
    obtain ⟨t, ht, rfl⟩ := mem_map.mp hold
    obtain ⟨t', ht', heq⟩ := mem_map.mp hnew
    obtain ⟨i, p, hp, hfl, hpk⟩ := h.buffered t ht
    rw [← heq, div_two_of_mem_turnsFromChat ht'] at hpk
    refine h.distinct i r p q ?_ hp hq k hpk hk
    rintro rfl
    obtain rfl : q = p := Option.some.inj (hq.symm.trans hp)
    exact absurd (hflushed.symm.trans hfl) (by decide)
  · rcases mem_append.mp ht with ht | ht
    · exact hmoved.buffered t ht
    · refine ⟨r, { q with stage }, (Parties.getElem?_set hq _ r).trans (if_pos rfl), hstage, ?_⟩
      rw [div_two_of_mem_turnsFromChat ht]
      exact hk

theorem Inv.begin (h : Inv w) : Inv { w with requests := w.requests ++ [⟨none, .lookup⟩] } := by
  have hget : ∀ {j : Nat} {p : Request π} {k : Nat}, (w.requests ++ [⟨none, .lookup⟩])[j]? = some p →
      p.turnIndex = some k → w.requests[j]? = some p := by
    intro j p k hp hk
    rw [List.getElem?_append] at hp
    split_ifs at hp
    · exact hp
    · rw [mem_singleton.mp (mem_of_getElem? hp)] at hk
      cases hk
  refine ⟨fun p hp => ?_, fun c hc => ⟨(h.cache c hc).1, fun p hp hres k hk => ?_⟩,
    fun i p hp hres k hk j p' hj hp' k' hk' => ?_, fun i j p p' hij hp hp' k hk hk' => ?_, h.nodup, fun t ht => ?_⟩
  · rcases mem_append.mp hp with hp | hp
    · exact h.ok p hp
    · rw [mem_singleton.mp hp]
      rfl
  · rcases mem_append.mp hp with hp | hp
    · exact (h.cache c hc).2 p hp hres k hk
    · rw [mem_singleton.mp hp] at hk
      cases hk
  · exact h.reserve i p (hget hp hk) hres k hk j p' hj (hget hp' hk') k' hk'
  · exact h.distinct i j p p' hij (hget hp hk) (hget hp' hk') k hk hk'
  · obtain ⟨i, p, hp, hfl, hk⟩ := h.buffered t ht
    exact ⟨i, p, (List.getElem?_append_left (List.getElem?_eq_some_iff.mp hp).1).trans hp, hfl, hk⟩

theorem Inv.loseCache (h : Inv w) : Inv { w with store := { w.store with cache := none } } :=
  { h with cache := nofun }

theorem cache_appendCheckpoint {s s' : Turns.World π} {p : CheckpointParams π} {turnIndex id : Nat}
    (h : s.appendCheckpoint p turnIndex = .ok (s', id)) : s'.cache = s.cache := by
  unfold Turns.World.appendCheckpoint at h
  split_ifs at h
  split at h
  · cases h
  · split at h
    · cases h
    · split_ifs at h
      cases h
      rfl

theorem Inv.advance (h : Inv w) (ho : w.orderly (.advance r) = true) (hs : w.advance r = some w') : Inv w' := by
  unfold World.advance at hs
  cases hq : w.requests[r]? with
  | none => simp [hq] at hs
  | some q =>
    simp only [hq] at hs
    have hok := h.ok q (mem_of_getElem? hq)
    obtain ⟨turnIndex, stage⟩ := q
    simp only [orderly, hq, Option.map_some] at ho
    have hkeep : ∀ c, w.store.cache = some c → reserving (⟨turnIndex, stage⟩ : Request π) = false →
        w.store.cache = some c ∧ reserving (⟨turnIndex, stage⟩ : Request π) = false ∨
          0 < c ∧ ∀ k ∈ w.taken, k < c := fun c hc hres => .inl ⟨hc, hres⟩
    obtain ⟨s, hcreate, hcount⟩ := getOrCreate_eq w.store
    cases stage with
    | lookup =>
      have hnone : w.requests.any reserving = false := by simpa using ho
      have hfree : ∀ p ∈ w.requests, reserving p = false := by simpa using hnone
      cases hc : w.store.cache with
      | some count =>
        simp only [hc] at hs
        cases hs
        refine h.read hq rfl hnone (fun k hk => ?_) rfl (Option.some_ne_none _) (.inl rfl)
        obtain ⟨p, hp, hpk⟩ := mem_taken.mp hk
        exact (h.cache count hc).2 p hp (hfree p hp) k hpk
      | none =>
        simp only [hc] at hs
        cases hs
        exact h.move ⟨none, .create⟩ hq rfl (.inl hok.symm) nofun rfl fun c hc' => hkeep c hc' rfl
    | create =>
      simp only [Bool.and_eq_true, all_eq_true, decide_eq_true_eq] at ho
      simp only [hcreate] at hs
      cases hs
      refine h.read hq rfl (by simpa using ho.1) (fun k hk => ?_) rfl (Option.some_ne_none _) (.inl rfl)
      exact hcount ▸ ho.2 k hk
    | reserve =>
      cases hs
      obtain ⟨k, rfl⟩ := Option.ne_none_iff_exists'.mp hok
      refine h.move ⟨some k, .provider true⟩ hq hok (.inl rfl) nofun rfl fun c hc => .inr ?_
      obtain rfl : k + 1 = c := Option.some.inj hc
      refine ⟨Nat.succ_pos k, fun k' hk' => ?_⟩
      obtain ⟨p, hp, hpk⟩ := mem_taken.mp hk'
      obtain ⟨j, hj⟩ := mem_iff_getElem?.mp hp
      by_cases hjr : j = r
      · subst hjr
        obtain rfl : ⟨some k, .reserve⟩ = p := Option.some.inj (hq.symm.trans hj)
        cases hpk
        exact Nat.lt_succ_self k
      · exact Nat.lt_succ_of_lt (h.reserve r _ hq rfl k rfl j p hjr hj k' hpk)
    | provider | done => cases hs
    | flush durable lastUser completion p =>
      cases hs
      obtain ⟨k, rfl⟩ := Option.ne_none_iff_exists'.mp hok
      refine h.flush hq rfl rfl rfl ?_ lastUser completion
      cases durable <;> rfl
    | checkpoint p =>
      simp only at hs
      split at hs <;> cases hs
      case h_1 happend =>
        exact h.move _ hq trivial (.inl rfl) (fun _ => rfl) rfl fun c hc =>
          hkeep c (cache_appendCheckpoint happend ▸ hc) rfl
      all_goals exact h.move _ hq trivial (.inl rfl) (fun _ => rfl) rfl fun c hc => hkeep c hc rfl
    | invalidate p =>
      cases hs
      exact h.move _ hq trivial (.inl rfl) (fun _ => rfl) rfl nofun
    | retryCreate p =>
      simp only [hcreate] at hs
      cases hs
      exact h.move _ hq trivial (.inl rfl) (fun _ => rfl) rfl fun c hc => hkeep c hc rfl
    | retryAppend p turnIndex =>
      simp only at hs
      split at hs
      · rename_i happend
        cases hs
        exact h.move _ hq trivial (.inl rfl) (fun _ => rfl) rfl fun c hc =>
          hkeep c (cache_appendCheckpoint happend ▸ hc) rfl
      · cases hs
        exact h.move _ hq trivial (.inl rfl) (fun _ => rfl) rfl fun c hc => hkeep c hc rfl
    | set turnIndex =>
      simp only [all_eq_true, decide_eq_true_eq] at ho
      cases hs
      refine h.move _ hq trivial (.inl rfl) (fun _ => rfl) rfl fun c hc => .inr ?_
      obtain rfl : turnIndex + 1 = c := Option.some.inj hc
      exact ⟨Nat.succ_pos _, fun k hk => Nat.lt_succ_of_le (ho k hk)⟩

theorem Inv.drop (h : Inv w) {durable : Bool} {turnIndex : Option Nat}
    (hq : w.requests[r]? = some ⟨turnIndex, .provider durable⟩) : Inv (w.setRequest r ⟨none, .done⟩) :=
  h.move ⟨none, .done⟩ hq trivial (.inr ⟨rfl, rfl⟩) nofun rfl fun _ hc => .inl ⟨hc, rfl⟩

theorem Inv.complete (h : Inv w) {lastUser completion : Text} {p : CheckpointParams π}
    (hs : w.complete r lastUser completion p = some w') : Inv w' := by
  unfold World.complete at hs
  split at hs
  case h_1 turnIndex durable hq =>
    split_ifs at hs
    · cases hs
      have hok := h.ok _ (mem_of_getElem? hq)
      exact h.move ⟨turnIndex, .flush durable lastUser completion p⟩ hq hok (.inl rfl) nofun rfl fun _ hc =>
        .inl ⟨hc, rfl⟩
    · cases hs
      exact h.drop hq
  case h_2 => cases hs

theorem Inv.storeFails (h : Inv w) (ho : w.orderly (.storeFails r) = true) (hs : w.storeFails r = some w') :
    Inv w' := by
  unfold World.storeFails at hs
  split at hs
  case h_1 turnIndex hq =>
    cases hs
    have htaken : w.taken = [] := by simpa [orderly, hq] using ho
    refine h.read (s := w.store) hq rfl ?_ (by simp [htaken]) rfl (Option.some_ne_none _) (.inr rfl)
    -- a request that is about to set the counter has an index
    refine any_eq_false.mpr fun p hp hres => ?_
    have hok := h.ok p hp
    obtain ⟨index, stage⟩ := p
    cases stage with
    | reserve =>
      obtain ⟨k, rfl⟩ := Option.ne_none_iff_exists'.mp hok
      have hk : k ∈ w.taken := mem_taken.mpr ⟨_, hp, rfl⟩
      rw [htaken] at hk
      cases hk
    | _ => cases hres
  case h_2 turnIndex _ hq | h_3 turnIndex _ hq | h_4 turnIndex _ _ hq =>
    cases hs
    exact h.move ⟨turnIndex, .done⟩ hq trivial (.inl rfl) (fun _ => rfl) rfl fun _ hc => .inl ⟨hc, rfl⟩
  case h_5 => cases hs

theorem Inv.step (h : Inv w) {a : Action π} (ho : w.orderly a = true) (hs : w.step a = some w') : Inv w' := by
  cases a with
  | «begin» =>
    cases hs
    exact h.begin
  | advance r => exact h.advance ho hs
  | complete r lastUser completion p => exact h.complete hs
  | providerFails r =>
    simp only [World.step] at hs
    split at hs
    case h_1 turnIndex durable hq =>
      cases hs
      exact h.drop hq
    case h_2 => cases hs
  | storeFails r => exact h.storeFails ho hs
  | loseCache =>
    cases hs
    exact h.loseCache

theorem inv_of_orderly (hr : ((machine π).restrict World.orderly).Reachable w) : Inv w := by
  refine hr.invariant ?_ fun v a v' hi hs => ?_
  · rintro v rfl
    exact inv_init
  · obtain ⟨ho, hs⟩ := Machine.restrict_step_eq_some.mp hs
    exact hi.step ho hs

end IbexHarness.Turns.Requests
