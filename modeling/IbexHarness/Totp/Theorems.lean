import IbexHarness.Totp.Gate

/-! A gate counts attempts, not checks. -/

namespace IbexHarness.Totp

open Lib Option World Function

variable {σ : Type} {calls : Nat → Rpc} {gate : AttemptGate σ} {w w' : World σ} {c : Nat} {a : Action}

theorem World.move_eq_some {source target : Phase} {g : σ} : w.move c source target g = some w' ↔
      w.phase c = source ∧ w' = { w with gate := g, phase := update w.phase c target } := by
  unfold move
  split <;> simp_all [eq_comm]

theorem now_le_of_step (h : w.step calls gate a = some w') : w.now ≤ w'.now := by
  cases a with
  | wait d =>
    cases h
    exact Nat.le_add_right _ _
  | _ =>
    obtain ⟨-, rfl⟩ := move_eq_some.1 h
    exact le_rfl

theorem now_le_of_run {empty : σ} {as : List Action} (h : (machine calls gate empty).run w as = some w') :
    w.now ≤ w'.now := by
  have hlater : (machine calls gate empty).Later w w' := ⟨as, h⟩
  exact hlater.stable (P := fun v => w.now ≤ v.now) (fun _ _ _ hle hs => hle.trans (now_le_of_step hs)) le_rfl

/-! ## Open calls -/

def Phase.isOpen : Phase → Bool
  | .allowed | .loaded | .releasing => true
  | _ => false

/-- `opened` are the calls of the window that hold a reservation and have checked no code. -/
structure Opened (w₀ w : World σ) (opened : Finset Nat) : Prop where
  idle : ∀ c, w.phase c = .idle → w₀.phase c = .idle
  unconfirmed : ∀ c, w₀.phase c = .idle → w.phase c ≠ .confirming
  mem_iff : ∀ c, c ∈ opened ↔ w₀.phase c = .idle ∧ (w.phase c).isOpen = true

namespace Opened

variable {w₀ : World σ} {opened : Finset Nat} {target : Phase} {g : σ}

theorem start (w₀ : World σ) : Opened w₀ w₀ ∅ where
  idle _ h := h
  unconfirmed c h := by simp [h]
  mem_iff c := by
    simp only [Finset.notMem_empty, false_iff]
    rintro ⟨h, ho⟩
    simp [h, Phase.isOpen] at ho

section

variable (ho : Opened w₀ w opened)
include ho

theorem of_move {opened' : Finset Nat} (htarget : target ≠ .idle)
    (hconf : w₀.phase c = .idle → target ≠ .confirming) (hrest : ∀ c', c' ≠ c → (c' ∈ opened' ↔ c' ∈ opened))
    (hc : c ∈ opened' ↔ w₀.phase c = .idle ∧ target.isOpen = true) :
    Opened w₀ { w with gate := g, phase := update w.phase c target } opened' where
  idle c' hc' := by
    by_cases h : c' = c
    · subst h
      simp [htarget] at hc'
    · exact ho.idle c' (by simpa [h] using hc')
  unconfirmed c' hf := by
    by_cases h : c' = c
    · subst h
      simpa using hconf hf
    · simpa [h] using ho.unconfirmed c' hf
  mem_iff c' := by
    by_cases h : c' = c
    · subst h
      simpa using hc
    · simpa [h, hrest c' h] using ho.mem_iff c'

theorem enter (hsource : w.phase c = .idle) :
    c ∉ opened ∧ Opened w₀ { w with gate := g, phase := update w.phase c .allowed } (insert c opened) := by
  refine ⟨fun h => ?_, ho.of_move (by simp) (by simp) (fun c' h => by simp [h]) ?_⟩
  · simpa [hsource, Phase.isOpen] using ((ho.mem_iff c).1 h).2
  · simpa [Phase.isOpen] using ho.idle c hsource

theorem leave (hf : w₀.phase c = .idle) (hsource : (w.phase c).isOpen = true)
    (htarget : target = .failing ∨ target = .done) :
    c ∈ opened ∧ Opened w₀ { w with gate := g, phase := update w.phase c target } (opened.erase c) := by
  refine ⟨(ho.mem_iff c).2 ⟨hf, hsource⟩, ho.of_move ?_ ?_ (fun c' h => by simp [h]) ?_⟩
  all_goals rcases htarget with rfl | rfl <;> simp [Phase.isOpen]

theorem stay (htarget : target ≠ .idle) (hconf : w₀.phase c = .idle → target ≠ .confirming)
    (hsame : w₀.phase c = .idle → (w.phase c).isOpen = target.isOpen) :
    Opened w₀ { w with gate := g, phase := update w.phase c target } opened := by
  refine ho.of_move htarget hconf (fun _ _ => Iff.rfl) ?_
  rw [ho.mem_iff c]
  exact and_congr_right fun hf => by rw [hsame hf]

end

end Opened

/-! ## The counter -/

namespace RedisTOTPAttempts

variable {r : RedisTOTPAttempts} {now t₀ m : Nat} {s : RedisStore} {d : Delivery}

def Positive (s : RedisStore) : Prop := ∀ c, s.fail = some c → 0 < c.value

/-- In a window from `t₀` on, `m` reservations are covered: the counter is at least `m` or the user is locked out,
to the end of the window. -/
def Covers (r : RedisTOTPAttempts) (t₀ m : Nat) (s : RedisStore) : Prop :=
  m ≤ r.maxFails ∧ (m = 0 ∨ (∃ t, s.lock = some t ∧ t₀ + r.ttl ≤ t) ∨
      ∃ c, s.fail = some c ∧ (m : Int) ≤ c.value ∧ t₀ + r.ttl ≤ c.expires)

theorem Covers.mono {m' : Nat} (h : r.Covers t₀ m s) (hm : m' ≤ m) : r.Covers t₀ m' s := by
  obtain ⟨hmax, h⟩ := h
  refine ⟨hm.trans hmax, ?_⟩
  rcases h with rfl | h | ⟨c, hc, hv, he⟩
  · exact .inl (by omega)
  · exact .inr (.inl h)
  · exact .inr (.inr ⟨c, hc, by omega, he⟩)

def attempts (now : Nat) (s : RedisStore) : Int := ((counter now s).map Counter.value).getD 0

theorem counter_eq_some {c : Counter} : counter now s = some c ↔ s.fail = some c ∧ now < c.expires := by
  simp [counter]

theorem attempts_nonneg (h : Positive s) (now : Nat) : 0 ≤ attempts now s := by
  unfold attempts
  cases hc : counter now s with
  | none => simp
  | some c =>
    have := h c (counter_eq_some.1 hc).1
    simp only [map_some, getD_some]
    omega

theorem reserve_cases (r : RedisTOTPAttempts) (now : Nat) (s : RedisStore) :
    (locked now s = true ∧ r.reserve now s = (-1, s)) ∨ r.reserve now s = (-1, ⟨none, some (now + r.ttl)⟩) ∨
      (locked now s = false ∧ attempts now s + 1 ≤ (r.maxFails : Int) ∧
        r.reserve now s = (attempts now s + 1, ⟨some ⟨attempts now s + 1, now + r.ttl⟩, s.lock⟩)) := by
  unfold reserve
  split
  · exact .inl ⟨‹_›, rfl⟩
  · next hlock =>
      by_cases hmax : (r.maxFails : Int) < attempts now s + 1
      · exact .inr (.inl (if_pos hmax))
      · exact .inr (.inr ⟨by simpa using hlock, by omega, if_neg hmax⟩)

theorem Positive.reserve (h : Positive s) : Positive (r.reserve now s).2 := by
  have hn := attempts_nonneg h now
  rcases r.reserve_cases now s with ⟨-, heq⟩ | heq | ⟨-, -, heq⟩ <;> rw [heq]
  · exact h
  · simp [Positive]
  · rintro c hc
    cases hc
    exact Int.lt_add_one_of_le hn

theorem Positive.unreserve : Positive (unreserve now s) := fun c hc => by
  simpa using (Option.filter_eq_some_iff.1 hc).2

theorem Covers.reserve_admitted (h : r.Covers t₀ m s) (hs : Positive s) (hnow : t₀ ≤ now) (hend : now < t₀ + r.ttl)
    (hok : 0 ≤ (r.reserve now s).1) : r.Covers t₀ (m + 1) (r.reserve now s).2 := by
  have hn := attempts_nonneg hs now
  rcases r.reserve_cases now s with ⟨-, heq⟩ | heq | ⟨hlock, hmax, heq⟩ <;> rw [heq] at hok ⊢
  · simp at hok
  · simp at hok
  · have hm : (m : Int) ≤ attempts now s := by
      rcases h.2 with rfl | ⟨t, ht, hte⟩ | ⟨c, hc, hv, hce⟩
      · exact hn
      · simp [locked, ht, live] at hlock
        omega
      · have hlive : counter now s = some c := counter_eq_some.2 ⟨hc, by omega⟩
        simpa [attempts, hlive] using hv
    exact ⟨by omega, .inr (.inr ⟨_, rfl, by simpa using hm, by simpa using hnow⟩)⟩

theorem Covers.reserve (h : r.Covers t₀ m s) (hs : Positive s) (hnow : t₀ ≤ now) (hend : now < t₀ + r.ttl) :
    r.Covers t₀ m (r.reserve now s).2 := by
  rcases r.reserve_cases now s with ⟨-, heq⟩ | heq | ⟨-, -, heq⟩
  · rwa [heq]
  · rw [heq]
    exact ⟨h.1, .inr (.inl ⟨_, rfl, Nat.add_le_add_right hnow _⟩)⟩
  · refine (h.reserve_admitted hs hnow hend ?_).mono (Nat.le_succ m)
    have := attempts_nonneg hs now
    rw [heq]
    show 0 ≤ attempts now s + 1
    omega

theorem Covers.unreserve (h : r.Covers t₀ (m + 1) s) (hend : now < t₀ + r.ttl) : r.Covers t₀ m (unreserve now s) := by
  obtain ⟨hmax, hcov⟩ := h
  refine ⟨by omega, ?_⟩
  rcases hcov with h0 | ⟨t, ht, hte⟩ | ⟨c, hc, hv, hce⟩
  · omega
  · exact .inr (.inl ⟨t, ht, hte⟩)
  · by_cases hm : m = 0
    · exact .inl hm
    · have hlive : counter now s = some c := counter_eq_some.2 ⟨hc, by omega⟩
      have hpos : 1 < c.value := by omega
      refine .inr (.inr ⟨{ c with value := c.value - 1 }, ?_, ?_, hce⟩)
      · simp [RedisTOTPAttempts.unreserve, hlive, hpos, Option.filter]
      · show (m : Int) ≤ c.value - 1
        omega

/-! ## Steps -/

theorem Positive.step {w w' : World RedisStore} (h : Positive w.gate)
    (hs : w.step calls r.gate a = some w') : Positive w'.gate := by
  cases a with
  | wait d =>
    cases hs
    exact h
  | allow c d =>
    obtain ⟨-, rfl⟩ := move_eq_some.1 hs
    cases d with
    | unreached => exact h
    | _ => exact h.reserve
  | release c d =>
    obtain ⟨-, rfl⟩ := move_eq_some.1 hs
    simp only [gate]
    split
    · exact h
    · exact .unreserve
  | reset c d =>
    obtain ⟨-, rfl⟩ := move_eq_some.1 hs
    simp only [gate]
    split
    · exact h
    · simp [Positive]
  | _ =>
    obtain ⟨-, rfl⟩ := move_eq_some.1 hs
    exact h

/-- What holds in a window after the actions `as`: the open calls and the wrong codes are covered. -/
structure Window (r : RedisTOTPAttempts) (w₀ : World RedisStore) (as : List Action) (w : World RedisStore) : Prop where
  now_le : w₀.now ≤ w.now
  positive : Positive w.gate
  covers : w.now < w₀.now + r.ttl →
    ∃ opened, Opened w₀ w opened ∧ r.Covers w₀.now (opened.card + wrongChecks as) w.gate

variable {w₀ w w' : World RedisStore} {as : List Action} {a : Action}

theorem Window.start (h : Positive w₀.gate) : Window r w₀ [] w₀ where
  now_le := le_rfl
  positive := h
  covers _ := ⟨∅, .start w₀, by simp [Covers, wrongChecks]⟩

theorem Window.step (h : Window r w₀ as w) (hsuccess : a.isSuccess = false) (hown : a.Own w₀)
    (hs : w.step calls r.gate a = some w') : Window r w₀ (as ++ [a]) w' := by
  refine ⟨h.now_le.trans (now_le_of_step hs), h.positive.step hs, fun hend => ?_⟩
  have hend₀ : w.now < w₀.now + r.ttl := (now_le_of_step hs).trans_lt hend
  obtain ⟨opened, ho, hcov⟩ := h.covers hend₀
  rw [show wrongChecks (as ++ [a]) = wrongChecks as + if a.isWrong then 1 else 0 by
    simp [wrongChecks, List.countP_append, List.countP_singleton]]
  cases a with
  | wait d =>
    cases hs
    exact ⟨opened, ⟨ho.idle, ho.unconfirmed, ho.mem_iff⟩, hcov⟩
  | allow c d =>
    obtain ⟨hsource, rfl⟩ := move_eq_some.1 hs
    cases hok : (r.gate.allow d w.now w.gate).1 with
    | true =>
      obtain ⟨hnew, hopened⟩ := ho.enter (g := (r.gate.allow d w.now w.gate).2) hsource
      refine ⟨insert c opened, hopened, ?_⟩
      rw [Finset.card_insert_of_notMem hnew, Nat.add_right_comm]
      cases d with
      | answered => exact hcov.reserve_admitted h.positive h.now_le hend₀ (by simpa [gate] using hok)
      | lost | unreached => simp [gate] at hok
    | false =>
      refine ⟨opened, ho.stay (by simp) (by simp) fun _ => by simp [hsource, Phase.isOpen], ?_⟩
      cases d with
      | unreached => exact hcov
      | _ => exact hcov.reserve h.positive h.now_le hend₀
  | load c ok =>
    obtain ⟨hsource, rfl⟩ := move_eq_some.1 hs
    refine ⟨opened, ho.stay ?_ ?_ ?_, hcov⟩
    all_goals cases ok <;> simp [hsource, Phase.isOpen]
  | check c right =>
    obtain ⟨hsource, rfl⟩ := move_eq_some.1 hs
    obtain rfl : right = false := hsuccess
    obtain ⟨hmem, hopened⟩ := ho.leave (g := w.gate) hown (by simp [hsource, Phase.isOpen]) (.inl rfl)
    refine ⟨opened.erase c, hopened, ?_⟩
    have hcard := Finset.card_erase_add_one hmem
    exact (show opened.card + wrongChecks as = (opened.erase c).card + (wrongChecks as + 1) by omega) ▸ hcov
  | confirm c ok =>
    obtain ⟨hsource, rfl⟩ := move_eq_some.1 hs
    refine ⟨opened, ho.stay ?_ ?_ fun hf => absurd hsource (ho.unconfirmed c hf), hcov⟩
    all_goals cases ok <;> simp
  | fail c d =>
    obtain ⟨hsource, rfl⟩ := move_eq_some.1 hs
    exact ⟨opened, ho.stay (by simp) (by simp) fun _ => by simp [hsource, Phase.isOpen], hcov⟩
  | release c d =>
    obtain ⟨hsource, rfl⟩ := move_eq_some.1 hs
    obtain ⟨hmem, hopened⟩ := ho.leave (g := r.gate.release d w.now w.gate) hown (by simp [hsource, Phase.isOpen])
      (.inr rfl)
    have hcard := Finset.card_erase_add_one hmem
    have hcov' : r.Covers w₀.now ((opened.erase c).card + wrongChecks as + 1) w.gate :=
      (show opened.card + wrongChecks as = (opened.erase c).card + wrongChecks as + 1 by omega) ▸ hcov
    refine ⟨opened.erase c, hopened, ?_⟩
    show r.Covers w₀.now ((opened.erase c).card + wrongChecks as) (if d = .unreached then w.gate else _)
    split
    · exact hcov'.mono (Nat.le_succ _)
    · exact hcov'.unreserve hend₀
  | reset c d => simp [Action.isSuccess] at hsuccess

theorem Window.of_run (h : Window r w₀ as w) {bs : List Action} (hsuccess : ∀ a ∈ bs, a.isSuccess = false)
    (hown : ∀ a ∈ bs, a.Own w₀) (hrun : (r.machine calls).run w bs = some w') : Window r w₀ (as ++ bs) w' := by
  induction bs generalizing as w with
  | nil =>
    cases hrun
    simpa using h
  | cons a bs ih =>
    obtain ⟨v, hv, hrun'⟩ := Machine.run_cons_eq_some.1 hrun
    have hstep := h.step (hsuccess a (by simp)) (hown a (by simp)) hv
    simpa using ih hstep (fun b hb => hsuccess b (by simp [hb])) (fun b hb => hown b (by simp [hb])) hrun'

theorem positive_of_reachable (h : (r.machine calls).Reachable w) : Positive w.gate := by
  refine h.invariant (P := fun w => Positive w.gate) ?_ fun s a s' hp hs => hp.step hs
  rintro s ⟨hgate, -⟩ c hc
  simp [hgate] at hc

end RedisTOTPAttempts

/-! ## One call after the other -/

namespace MemoryTOTPAttempts

variable {m : MemoryTOTPAttempts} {w w' : World AttemptEntry} {as : List Action} {a : Action} {t₀ k now : Nat}
  {e : AttemptEntry} {target : Phase}

theorem allow_cases (m : MemoryTOTPAttempts) (d : Delivery) (now : Nat) (e : AttemptEntry) :
    (e.lockedUntil = none ∧ m.gate.allow d now e = (true, e)) ∨ ∃ t, e.lockedUntil = some t ∧
      (m.gate.allow d now e = (false, e) ∨ t ≤ now ∧ m.gate.allow d now e = (true, ⟨0, none⟩)) := by
  simp only [gate]
  cases h : e.lockedUntil with
  | none => exact .inl ⟨rfl, by simp [allow, h]⟩
  | some t =>
    refine .inr ⟨t, rfl, ?_⟩
    by_cases hlt : now < t
    · exact .inl (by simp [allow, h, hlt])
    · exact .inr ⟨by omega, by simp [allow, h, hlt]⟩

/-- At most one call is between `Allow` and `Fail`, and none while the user is locked out. -/
structure Lone (m : MemoryTOTPAttempts) (w : World AttemptEntry) : Prop where
  one : ∀ c c', (w.phase c).uncounted = true → (w.phase c').uncounted = true → c = c'
  free : ∀ t, w.gate.lockedUntil = some t → ∀ c, (w.phase c).uncounted = false
  failures_lt : w.gate.failures < m.maxFails

namespace Lone

variable (h : Lone m w)
include h

theorem of_move (he : e.failures < m.maxFails)
    (hone : target.uncounted = true → ∀ c', c' ≠ c → (w.phase c').uncounted = false)
    (hfree : ∀ t, e.lockedUntil = some t → target.uncounted = false ∧ ∀ c', c' ≠ c → (w.phase c').uncounted = false) :
    Lone m { w with gate := e, phase := update w.phase c target } := by
  refine ⟨fun c₁ c₂ h₁ h₂ => ?_, fun t ht c' => ?_, he⟩
  · by_cases e₁ : c₁ = c <;> by_cases e₂ : c₂ = c
    · exact e₁.trans e₂.symm
    · subst e₁
      simp [e₂, hone (by simpa using h₁) c₂ e₂] at h₂
    · subst e₂
      simp [e₁, hone (by simpa using h₂) c₁ e₁] at h₁
    · exact h.one c₁ c₂ (by simpa [e₁] using h₁) (by simpa [e₂] using h₂)
  · by_cases hc : c' = c
    · simpa [hc] using (hfree t ht).1
    · simpa [hc] using (hfree t ht).2 c' hc

theorem others (hc : (w.phase c).uncounted = true) (c' : Nat) (hne : c' ≠ c) : (w.phase c').uncounted = false :=
  Bool.eq_false_iff.mpr fun h' => hne (h.one c' c h' hc)

theorem lockedUntil_eq (hc : (w.phase c).uncounted = true) : w.gate.lockedUntil = none := by
  cases hlock : w.gate.lockedUntil with
  | none => rfl
  | some t => simp [h.free t hlock c] at hc

theorem stay (ht : target.uncounted = true → (w.phase c).uncounted = true) :
    Lone m { w with phase := update w.phase c target } := by
  refine h.of_move h.failures_lt (fun hu => h.others (ht hu)) fun t hlock => ⟨?_, fun c' _ => h.free t hlock c'⟩
  exact Bool.eq_false_iff.mpr fun hu => by simp [h.lockedUntil_eq (ht hu)] at hlock

theorem step (hserial : ∀ c d, a = .allow c d → ∀ c', (w.phase c').uncounted = false)
    (hs : w.step calls m.gate a = some w') : Lone m w' := by
  cases a with
  | wait d =>
    cases hs
    exact ⟨h.one, h.free, h.failures_lt⟩
  | allow c d =>
    obtain ⟨-, rfl⟩ := move_eq_some.1 hs
    have hnone := hserial c d rfl
    rcases allow_cases m d w.now w.gate with ⟨hlock, heq⟩ | ⟨t, -, heq | ⟨-, heq⟩⟩ <;> rw [heq]
    · exact h.of_move h.failures_lt (fun _ c' _ => hnone c') (by simp [hlock])
    · exact h.stay nofun
    · exact h.of_move (Nat.zero_lt_of_lt h.failures_lt) (fun _ c' _ => hnone c') nofun
  | load c ok =>
    obtain ⟨hsource, rfl⟩ := move_eq_some.1 hs
    exact h.stay fun _ => by simp [hsource, Phase.uncounted]
  | check c right =>
    obtain ⟨hsource, rfl⟩ := move_eq_some.1 hs
    exact h.stay fun _ => by simp [hsource, Phase.uncounted]
  | confirm c ok =>
    obtain ⟨-, rfl⟩ := move_eq_some.1 hs
    exact h.stay fun hu => by cases ok <;> simp [Phase.uncounted] at hu
  | fail c d =>
    obtain ⟨hsource, rfl⟩ := move_eq_some.1 hs
    have hothers := h.others (c := c) (by simp [hsource, Phase.uncounted])
    refine h.of_move ?_ nofun fun _ _ => ⟨rfl, hothers⟩
    simp only [gate]
    split
    · exact Nat.zero_lt_of_lt h.failures_lt
    · exact not_le.1 ‹_›
  | release c d =>
    obtain ⟨-, rfl⟩ := move_eq_some.1 hs
    exact h.stay nofun
  | reset c d =>
    obtain ⟨-, rfl⟩ := move_eq_some.1 hs
    exact h.of_move (Nat.zero_lt_of_lt h.failures_lt) nofun nofun

end Lone

/-- The `k` wrong codes of a window from `t₀` on are counted, but for one whose call is about to, or the user is
locked out to the end of the window. -/
def Counts (m : MemoryTOTPAttempts) (t₀ k : Nat) (w : World AttemptEntry) : Prop :=
  match w.gate.lockedUntil with
  | none => k ≤ w.gate.failures ∨ k ≤ w.gate.failures + 1 ∧ ∃ c, w.phase c = .failing
  | some t => k ≤ m.maxFails ∧ (t < t₀ + m.lockTTL → k = 0)

namespace Counts

variable (h : Counts m t₀ k w)
include h

theorem stay (hsource : w.phase c ≠ .failing) :
    Counts m t₀ k { w with phase := update w.phase c target } := by
  simp only [Counts] at h ⊢
  split at h
  · refine h.imp_right fun ⟨hle, c', hc'⟩ => ⟨hle, c', ?_⟩
    have hne : c' ≠ c := fun heq => hsource (heq ▸ hc')
    simpa [hne] using hc'
  · exact h

/-- Nothing waits to be counted. -/
theorem le_failures (hlock : w.gate.lockedUntil = none) (hnone : ∀ c, w.phase c ≠ .failing) : k ≤ w.gate.failures := by
  simp only [Counts, hlock] at h
  exact h.resolve_right fun ⟨_, c, hc⟩ => hnone c hc

theorem le_maxFails (hlone : Lone m w) : k ≤ m.maxFails := by
  have := hlone.failures_lt
  unfold Counts at h
  split at h <;> omega

theorem step (hlone : Lone m w) (hserial : ∀ c d, a = .allow c d → ∀ c', (w.phase c').uncounted = false)
    (hsuccess : a.isSuccess = false) (ht₀ : t₀ ≤ w.now) (hend : w.now < t₀ + m.lockTTL)
    (hs : w.step calls m.gate a = some w') : Counts m t₀ (k + if a.isWrong then 1 else 0) w' := by
  cases a with
  | wait d =>
    cases hs
    exact h
  | allow c d =>
    obtain ⟨hsource, rfl⟩ := move_eq_some.1 hs
    have hidle : w.phase c ≠ .failing := by simp [hsource]
    rcases allow_cases m d w.now w.gate with ⟨-, heq⟩ | ⟨t, hlock, heq | ⟨hle, heq⟩⟩ <;> rw [heq]
    · exact h.stay hidle
    · exact h.stay hidle
    · simp only [Counts, hlock] at h
      exact .inl (h.2 (by omega)).le
  | load c ok =>
    obtain ⟨hsource, rfl⟩ := move_eq_some.1 hs
    exact h.stay (by simp [hsource])
  | check c right =>
    obtain ⟨hsource, rfl⟩ := move_eq_some.1 hs
    obtain rfl : right = false := hsuccess
    have hu : (w.phase c).uncounted = true := by simp [hsource, Phase.uncounted]
    have hlock := hlone.lockedUntil_eq hu
    have hle : k ≤ w.gate.failures := h.le_failures hlock fun c' hc' => by
      by_cases hne : c' = c
      · simp [hne, hsource] at hc'
      · simpa [hc', Phase.uncounted] using hlone.others hu c' hne
    simp only [Counts, hlock]
    exact .inr ⟨Nat.succ_le_succ hle, c, by simp [Rpc.afterCheck]⟩
  | confirm c ok =>
    obtain ⟨hsource, rfl⟩ := move_eq_some.1 hs
    exact h.stay (by simp [hsource])
  | fail c d =>
    obtain ⟨hsource, rfl⟩ := move_eq_some.1 hs
    have hlock := hlone.lockedUntil_eq (c := c) (by simp [hsource, Phase.uncounted])
    have hlt := hlone.failures_lt
    simp only [Counts, hlock] at h
    have hk : k ≤ w.gate.failures + 1 := h.elim Nat.le_succ_of_le And.left
    show Counts m t₀ k _
    by_cases hmax : m.maxFails ≤ w.gate.failures + 1
    · simp only [Counts, gate, if_pos hmax]
      exact ⟨by omega, by omega⟩
    · simp only [Counts, gate, if_neg hmax, hlock]
      exact .inl hk
  | release c d =>
    obtain ⟨hsource, rfl⟩ := move_eq_some.1 hs
    exact h.stay (by simp [hsource])
  | reset c d => simp [Action.isSuccess] at hsuccess

end Counts

theorem of_serial_run (t₀ k : Nat) (hrun : (m.machine calls).run w as = some w') (hserial : Serial calls m.gate w as)
    (h : Lone m w) : Lone m w' ∧ ((∀ a ∈ as, a.isSuccess = false) → Counts m t₀ k w → t₀ ≤ w.now →
      w'.now < t₀ + m.lockTTL → Counts m t₀ (k + wrongChecks as) w') := by
  induction as generalizing w k with
  | nil =>
    cases hrun
    exact ⟨h, fun _ hk _ _ => hk⟩
  | cons a as ih =>
    obtain ⟨v, hv, hrun'⟩ := Machine.run_cons_eq_some.1 hrun
    have hle := now_le_of_step hv
    obtain ⟨hlone, hcounts⟩ := ih (k + if a.isWrong then 1 else 0) hrun' (hserial.2 v hv) (h.step hserial.1 hv)
    refine ⟨hlone, fun hsuccess hk ht₀ hend => ?_⟩
    have hle' := now_le_of_run hrun'
    have hk' := hk.step h hserial.1 (hsuccess a (by simp)) ht₀ (by omega) hv
    have := hcounts (fun b hb => hsuccess b (by simp [hb])) hk' (ht₀.trans hle) hend
    simpa [wrongChecks, List.countP_cons, Nat.add_comm, Nat.add_left_comm] using this

theorem Lone.of_init {w₀ : World AttemptEntry} (hpos : 0 < m.maxFails) (h : (m.machine calls).init w₀) :
    Lone m w₀ := by
  obtain ⟨hgate, hidle⟩ := h
  refine ⟨fun c c' hc => ?_, fun t ht => ?_, by simpa [hgate] using hpos⟩
  · simp [hidle, Phase.uncounted] at hc
  · simp [hgate] at ht

theorem Counts.start (m : MemoryTOTPAttempts) (w : World AttemptEntry) : Counts m w.now 0 w := by
  unfold Counts
  split
  · exact .inl (Nat.zero_le _)
  · exact ⟨Nat.zero_le _, fun _ => rfl⟩

end MemoryTOTPAttempts

/-! ## Refused calls -/

theorem refused_step (hc : w.phase c = .refused) (hs : w.step calls gate a = some w') :
    w'.phase c = .refused ∧ ∀ right, a ≠ .check c right := by
  have hmove : ∀ {c' : Nat} {source target : Phase} {g : σ}, source ≠ .refused →
      w.move c' source target g = some w' → c' ≠ c ∧ w'.phase c = .refused := by
    intro c' source target g hsource hm
    obtain ⟨hsrc, rfl⟩ := move_eq_some.1 hm
    have hne : c' ≠ c := by
      rintro rfl
      exact hsource (hsrc.symm.trans hc)
    exact ⟨hne, by simpa [hne.symm] using hc⟩
  cases a with
  | wait d =>
    cases hs
    exact ⟨hc, by simp⟩
  | check c' right =>
    obtain ⟨hne, hphase⟩ := hmove (by simp) hs
    exact ⟨hphase, by simp [hne]⟩
  | _ => exact ⟨(hmove (by simp) hs).2, by simp⟩

theorem refused_checks_nothing {empty : σ} {as : List Action}
    (hc : w.phase c = .refused) (hrun : (machine calls gate empty).run w as = some w') (right : Bool) :
    .check c right ∉ as := by
  induction as generalizing w with
  | nil => simp
  | cons a as ih =>
    obtain ⟨w₁, hs, hrun'⟩ := Machine.run_cons_eq_some.1 hrun
    obtain ⟨hc', ha⟩ := refused_step hc hs
    simpa [(ha right).symm] using ih hc' hrun'

/-- At most `maxFails` wrong codes are checked in a window shorter than the lock and without a success: with the Redis
gate if every check and release in it is of a call admitted in it, with the one in memory if no `Allow` so far fell
between that of another call and its `Fail`. With any gate, a call that was refused checks no code. -/
theorem wrong_checks_le (calls : Nat → Rpc) :
    (∀ (r : RedisTOTPAttempts) (w w' : World RedisStore) (as : List Action), (r.machine calls).Reachable w →
      (r.machine calls).run w as = some w' → w'.now < w.now + r.ttl → (∀ a ∈ as, a.isSuccess = false) →
      (∀ a ∈ as, a.Own w) → wrongChecks as ≤ r.maxFails) ∧
    (∀ (m : MemoryTOTPAttempts) (w₀ w w' : World AttemptEntry) (past as : List Action), 0 < m.maxFails →
      (m.machine calls).init w₀ → (m.machine calls).run w₀ past = some w → (m.machine calls).run w as = some w' →
      w'.now < w.now + m.lockTTL → (∀ a ∈ as, a.isSuccess = false) →
      Serial calls m.gate w₀ past → Serial calls m.gate w as → wrongChecks as ≤ m.maxFails) ∧
    ∀ (σ : Type) (gate : AttemptGate σ) (empty : σ) (w w' : World σ) (c : Nat) (d : Delivery) (as : List Action),
      (machine calls gate empty).run w (.allow c d :: as) = some w' →
      (gate.allow d w.now w.gate).1 = false → ∀ right, .check c right ∉ as := by
  refine ⟨?_, ?_, ?_⟩
  · intro r w w' as hreach hrun hend hsuccess hown
    have hstart := RedisTOTPAttempts.Window.start (r := r) (RedisTOTPAttempts.positive_of_reachable hreach)
    obtain ⟨opened, -, hcov⟩ := (hstart.of_run hsuccess hown hrun).covers hend
    exact (Nat.le_add_left _ _).trans hcov.1
  · intro m w₀ w w' past as hpos hinit hpast hrun hend hsuccess hserial₀ hserial
    obtain ⟨hlone, -⟩ := MemoryTOTPAttempts.of_serial_run 0 0 hpast hserial₀ (.of_init hpos hinit)
    obtain ⟨hlone', hcounts⟩ := MemoryTOTPAttempts.of_serial_run w.now 0 hrun hserial hlone
    simpa using (hcounts hsuccess (.start m w) le_rfl hend).le_maxFails hlone'
  · intro σ gate empty w w' c d as hrun hrefused right
    obtain ⟨w₁, hs, hrun'⟩ := Machine.run_cons_eq_some.1 hrun
    obtain ⟨-, rfl⟩ := move_eq_some.1 hs
    exact refused_checks_nothing (by simp [hrefused]) hrun' right

/-! ## Windows that hold one more -/

def sampleCalls : Nat → Rpc := fun _ => .createStepUp

def sampleMemory : MemoryTOTPAttempts := ⟨totpMaxFailures, totpLockTTL⟩

def sampleRedis : RedisTOTPAttempts := newRedisTOTPAttempts 5 totpLockTTL

def emptyMemory : World AttemptEntry := ⟨0, ⟨0, none⟩, fun _ => .idle⟩

def emptyRedis : World RedisStore := ⟨0, ⟨none, none⟩, fun _ => .idle⟩

def wrongCall (c : Nat) : List Action :=
  [.allow c .answered, .load c true, .check c false, .fail c .answered]

/-- Five calls with wrong codes one after the other, and a sixth that is refused. -/
def serialWindow : List Action := (List.range 5).flatMap wrongCall ++ [.allow 5 .answered]

/-- Six calls pass `Allow` before the first of them checks its code. -/
def memoryWindow : List Action :=
  (List.range 6).flatMap (fun c => [.allow c .answered, .load c true]) ++ (List.range 6).map (.check · false)

/-- A call has a reservation, and another one succeeds, which clears it. -/
def redisBefore : List Action :=
  [.allow 0 .answered, .allow 1 .answered, .load 1 true, .check 1 true, .reset 1 .answered]

/-- The call from before the window fails to load its secret and releases a reservation of the window. -/
def redisWindow : List Action :=
  (List.range' 2 5).flatMap wrongCall ++ [.load 0 false, .release 0 .answered] ++ wrongCall 7

theorem wrong_checks_le_serial : wrongChecks serialWindow = 5 ∧ wrongChecks serialWindow ≤ sampleRedis.maxFails ∧
    wrongChecks (wrongCall 0) = 1 ∧ wrongChecks (wrongCall 0) ≤ sampleMemory.maxFails := by
  refine ⟨by decide +kernel, ?_, rfl, ?_⟩
  · have hrun : ((sampleRedis.machine sampleCalls).run emptyRedis serialWindow).map now = some 0 := by decide +kernel
    obtain ⟨w', hw', hnow⟩ := map_eq_some_iff.1 hrun
    refine (wrong_checks_le sampleCalls).1 sampleRedis emptyRedis w' serialWindow (.of_init ⟨rfl, fun _ => rfl⟩) hw'
      ?_ (by decide +kernel) fun a _ => ?_
    · rw [hnow]
      decide +kernel
    · cases a <;> simp [Action.Own, emptyRedis]
  · have hrun : ((sampleMemory.machine sampleCalls).run emptyMemory (wrongCall 0)).map now = some 0 := by decide +kernel
    obtain ⟨w', hw', hnow⟩ := map_eq_some_iff.1 hrun
    refine (wrong_checks_le sampleCalls).2.1 sampleMemory emptyMemory emptyMemory w' [] (wrongCall 0) (by decide)
      ⟨rfl, fun _ => rfl⟩ rfl hw' ?_ (by decide) trivial ?_
    · rw [hnow]
      decide +kernel
    · exact ⟨fun _ _ _ _ => rfl, fun _ _ => ⟨nofun, fun _ _ => ⟨nofun, fun _ _ => ⟨nofun, fun _ _ => trivial⟩⟩⟩⟩

/-- Windows without a success in which six wrong codes are checked. -/
theorem wrong_checks_exceed : (∃ w', (sampleMemory.machine sampleCalls).run emptyMemory memoryWindow = some w' ∧
      w'.now < emptyMemory.now + sampleMemory.lockTTL ∧ (∀ a ∈ memoryWindow, a.isSuccess = false) ∧
      sampleMemory.maxFails < wrongChecks memoryWindow) ∧
    ∃ w w', (sampleRedis.machine sampleCalls).run emptyRedis redisBefore = some w ∧
      (sampleRedis.machine sampleCalls).run w redisWindow = some w' ∧ w'.now < w.now + sampleRedis.lockTTL ∧
      (∀ a ∈ redisWindow, a.isSuccess = false) ∧ sampleRedis.maxFails < wrongChecks redisWindow := by
  constructor
  · have hrun : ((sampleMemory.machine sampleCalls).run emptyMemory memoryWindow).map now = some 0 := by
      decide +kernel
    obtain ⟨w', hw', hnow⟩ := map_eq_some_iff.1 hrun
    exact ⟨w', hw', by rw [hnow]; decide +kernel, by decide +kernel, by decide +kernel⟩
  · have hrun : (((sampleRedis.machine sampleCalls).run emptyRedis redisBefore).bind fun w =>
        ((sampleRedis.machine sampleCalls).run w redisWindow).map fun w' => (w.now, w'.now)) = some (0, 0) := by
      decide +kernel
    obtain ⟨w, hw, hrun'⟩ := bind_eq_some_iff.1 hrun
    obtain ⟨w', hw', hnow⟩ := map_eq_some_iff.1 hrun'
    have hlt : w'.now < w.now + sampleRedis.lockTTL := by
      rw [(Prod.mk.inj hnow).1, (Prod.mk.inj hnow).2]
      decide +kernel
    exact ⟨w, w', hw, hw', hlt, by decide +kernel, by decide +kernel⟩

end IbexHarness.Totp
