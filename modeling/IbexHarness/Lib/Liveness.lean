import IbexHarness.Lib.Machine
import Mathlib.Tactic.ByContra

/-! A trace is an endless run in which nothing may happen for a while. -/

namespace IbexHarness.Lib.Machine

universe u v

variable {σ : Type u} {α : Type v} {M : Machine σ α}

structure Trace (M : Machine σ α) where
  state : Nat → σ
  act : Nat → Option α
  init : M.init (state 0)
  idle : ∀ n, act n = none → state (n + 1) = state n
  step : ∀ n a, act n = some a → M.step (state n) a = some (state (n + 1))

namespace Trace

variable {n : Nat} (t : M.Trace)

theorem later_succ (n : Nat) : M.Later (t.state n) (t.state (n + 1)) := by
  cases hact : t.act n with
  | none => exact t.idle n hact ▸ .refl _
  | some a => exact .single (t.step n a hact)

theorem later {m : Nat} (h : n ≤ m) : M.Later (t.state n) (t.state m) := by
  induction h with
  | refl => exact .refl _
  | step _ ih => exact ih.trans (t.later_succ _)

theorem reachable (n : Nat) : M.Reachable (t.state n) := ⟨_, t.init, t.later (Nat.zero_le n)⟩

theorem always_from {P : σ → Prop} (hp : P (t.state n))
    (hstep : ∀ m a, n ≤ m → P (t.state m) → t.act m = some a → P (t.state (m + 1))) {m : Nat} (hm : n ≤ m) :
    P (t.state m) := by
  induction hm with
  | refl => exact hp
  | @step m hm ih =>
    cases hact : t.act m with
    | none => exact t.idle m hact ▸ ih
    | some a => exact hstep m a hm ih hact

/-- The party with the actions `A` moves if `E` holds from some time on. -/
def FairWhile (E : σ → Prop) (A : α → Prop) : Prop :=
  ∀ n, (∀ m, n ≤ m → E (t.state m)) → ∃ m, n ≤ m ∧ ∃ a, A a ∧ t.act m = some a

def Fair (A : α → Prop) : Prop := t.FairWhile (fun s => ∃ a, A a ∧ M.step s a ≠ none) A

variable {t} {ι : Type*} {E : ι → σ → Prop} {A : ι → α → Prop} {P Q : σ → Prop} {H : ι → σ → Prop}

theorem eventually_from (rank : σ → Nat) (hfair : ∀ i, t.FairWhile (E i) (A i))
    (hhelp : ∀ m, n ≤ m → P (t.state m) → ∃ i, H i (t.state m))
    (henabled : ∀ m i, n ≤ m → P (t.state m) → H i (t.state m) → E i (t.state m))
    (hstep : ∀ m a i, n ≤ m → P (t.state m) → H i (t.state m) → t.act m = some a →
      Q (t.state (m + 1)) ∨ P (t.state (m + 1)) ∧ (rank (t.state (m + 1)) < rank (t.state m) ∨
        rank (t.state (m + 1)) = rank (t.state m) ∧ H i (t.state (m + 1)) ∧ ¬A i a))
    (hp : P (t.state n)) : ∃ m, n ≤ m ∧ Q (t.state m) := by
  -- induction on the rank; as long as it stays, so does the helpful party
  induction hr : rank (t.state n) using Nat.strongRecOn generalizing n with
  | ind r ih =>
    subst hr
    by_contra hnever
    have hnever : ∀ m, n ≤ m → ¬Q (t.state m) := fun m hm hq => hnever ⟨m, hm, hq⟩
    obtain ⟨i, hi⟩ := hhelp n (Nat.le_refl n) hp
    have hlower : ∀ m, n ≤ m → P (t.state m) → ¬rank (t.state m) < rank (t.state n) := by
      intro m hm hpm hlt
      obtain ⟨k, hk, hq⟩ := ih _ hlt (fun k hk => hhelp k (Nat.le_trans hm hk))
        (fun k j hk => henabled k j (Nat.le_trans hm hk)) (fun k a j hk => hstep k a j (Nat.le_trans hm hk)) hpm rfl
      exact hnever k (Nat.le_trans hm hk) hq
    have hone : ∀ m, n ≤ m → P (t.state m) → H i (t.state m) → rank (t.state m) = rank (t.state n) →
        P (t.state (m + 1)) ∧ H i (t.state (m + 1)) ∧ rank (t.state (m + 1)) = rank (t.state n) ∧
          ∀ a, t.act m = some a → ¬A i a := by
      intro m hm hpm him hrm
      cases hact : t.act m with
      | none =>
        rw [t.idle m hact]
        exact ⟨hpm, him, hrm, nofun⟩
      | some a =>
        rcases hstep m a i hm hpm him hact with hq | ⟨hp', hlt | ⟨heq, hi', hna⟩⟩
        · exact absurd hq (hnever _ (Nat.le_succ_of_le hm))
        · exact absurd (hrm ▸ hlt) (hlower _ (Nat.le_succ_of_le hm) hp')
        · refine ⟨hp', hi', heq.trans hrm, fun b hb => ?_⟩
          cases hb
          exact hna
    have hall : ∀ m, n ≤ m → P (t.state m) ∧ H i (t.state m) ∧ rank (t.state m) = rank (t.state n) := by
      intro m hm
      induction hm with
      | refl => exact ⟨hp, hi, rfl⟩
      | step hm ih =>
        obtain ⟨hpm, him, hrm⟩ := ih
        obtain ⟨hp', hi', hr', -⟩ := hone _ hm hpm him hrm
        exact ⟨hp', hi', hr'⟩
    obtain ⟨m, hm, a, ha, hact⟩ := hfair i n fun m hm => henabled m i hm (hall m hm).1 (hall m hm).2.1
    obtain ⟨hpm, him, hrm⟩ := hall m hm
    exact (hone m hm hpm him hrm).2.2.2 a hact ha

theorem eventually (rank : σ → Nat) (hfair : ∀ i, t.FairWhile (E i) (A i))
    (hhelp : ∀ s, M.Reachable s → P s → ∃ i, H i s)
    (henabled : ∀ s i, M.Reachable s → P s → H i s → E i s)
    (hstep : ∀ s a s' i, M.Reachable s → P s → H i s → M.step s a = some s' →
      Q s' ∨ P s' ∧ (rank s' < rank s ∨ rank s' = rank s ∧ H i s' ∧ ¬A i a))
    (hp : P (t.state n)) : ∃ m, n ≤ m ∧ Q (t.state m) :=
  eventually_from rank hfair (fun m _ => hhelp _ (t.reachable m)) (fun m i _ => henabled _ i (t.reachable m))
    (fun m a i _ hpm him hact => hstep _ a _ i (t.reachable m) hpm him (t.step m a hact)) hp

theorem ensures {E : σ → Prop} {A : α → Prop} (hfair : t.FairWhile E A)
    (henabled : ∀ m, n ≤ m → P (t.state m) → E (t.state m))
    (hstep : ∀ m a, n ≤ m → P (t.state m) → t.act m = some a → Q (t.state (m + 1)) ∨ P (t.state (m + 1)) ∧ ¬A a)
    (hp : P (t.state n)) : ∃ m, n ≤ m ∧ Q (t.state m) := by
  refine eventually_from (P := P) (H := fun _ : Unit => fun _ => True) (fun _ => 0) (fun _ => hfair)
    (fun _ _ _ => ⟨(), trivial⟩) (fun m _ hm hpm _ => henabled m hm hpm) (fun m a _ hm hpm _ hact => ?_) hp
  rcases hstep m a hm hpm hact with hq | ⟨hp', hna⟩
  · exact .inl hq
  · exact .inr ⟨hp', .inr ⟨rfl, trivial, hna⟩⟩

theorem leaves (rank : σ → Nat) {b : α} (hfair : t.Fair (· = b))
    (henabled : ∀ m, P (t.state m) → M.step (t.state m) b ≠ none)
    (hstep : ∀ m a, P (t.state m) → P (t.state (m + 1)) → t.act m = some a →
      rank (t.state (m + 1)) < rank (t.state m) ∨ rank (t.state (m + 1)) = rank (t.state m) ∧ a ≠ b) (n : Nat) :
    ∃ m, n ≤ m ∧ ¬P (t.state m) := by
  by_cases hp : P (t.state n)
  · refine eventually_from (P := P) (Q := fun s => ¬P s) (H := fun _ : Unit => fun _ => True) rank
      (fun _ => hfair) (fun _ _ _ => ⟨(), trivial⟩) (fun m _ _ hpm _ => ⟨b, rfl, henabled m hpm⟩)
      (fun m a _ _ hpm _ hact => ?_) hp
    by_cases hp' : P (t.state (m + 1))
    · refine .inr ⟨hp', ?_⟩
      rcases hstep m a hpm hp' hact with hlt | ⟨heq, hne⟩
      · exact .inl hlt
      · exact .inr ⟨heq, trivial, hne⟩
    · exact .inl hp'
  · exact ⟨n, Nat.le_refl n, hp⟩

end Trace

/-! ## Runs that end -/

def Trace.ofRun {s₀ s : σ} {as : List α} (hinit : M.init s₀) (h : M.run s₀ as = some s) : M.Trace where
  state n := (M.run s₀ (as.take n)).getD s
  act n := as[n]?
  init := by simpa using hinit
  idle n hn := by
    have hlen : as.length ≤ n := List.getElem?_eq_none_iff.mp hn
    rw [List.take_of_length_le hlen, List.take_of_length_le (Nat.le_succ_of_le hlen)]
  step n a ha := by
    have htake : as.take (n + 1) = as.take n ++ [a] := by rw [List.take_add_one, ha]; rfl
    have hsplit : as = as.take (n + 1) ++ as.drop (n + 1) := (List.take_append_drop _ _).symm
    rw [hsplit, run_append] at h
    obtain ⟨u, hu, -⟩ := h
    have hu' := hu
    rw [htake, run_append] at hu'
    obtain ⟨v, hv, hva⟩ := hu'
    obtain ⟨v', hstep, hnil⟩ := run_cons_eq_some.mp hva
    simp only [run_nil, Option.some.injEq] at hnil
    rw [hu, hv, Option.getD_some, Option.getD_some, hstep, hnil]

variable {s₀ s : σ} {as : List α}

section

variable (hinit : M.init s₀) (h : M.run s₀ as = some s)
include hinit h

theorem Trace.ofRun_state {n : Nat} (hn : as.length ≤ n) : (Trace.ofRun hinit h).state n = s := by
  simp [ofRun, List.take_of_length_le hn, h]

theorem Trace.ofRun_act {n : Nat} {a : α} (hact : (Trace.ofRun hinit h).act n = some a) : n < as.length ∧ a ∈ as :=
  ⟨(List.getElem?_eq_some_iff.mp hact).1, List.mem_of_getElem? hact⟩

theorem Trace.ofRun_forall {P : σ → Prop}
    (hp : ∀ n, n < as.length + 1 → P ((Trace.ofRun hinit h).state n)) (n : Nat) : P
    ((Trace.ofRun hinit h).state n) := by
  by_cases hn : as.length ≤ n
  · rw [ofRun_state hinit h hn, ← ofRun_state hinit h (Nat.le_refl as.length)]
    exact hp as.length (Nat.lt_succ_self _)
  · exact hp n (by omega)

theorem Trace.ofRun_fairWhile {E : σ → Prop} {A : α → Prop} (hend : ¬E s) : (Trace.ofRun hinit h).FairWhile E A := by
  intro n hn
  have hlast := hn (max n as.length) (Nat.le_max_left _ _)
  rw [ofRun_state hinit h (Nat.le_max_right _ _)] at hlast
  exact absurd hlast hend

theorem Trace.ofRun_fair {A : α → Prop} (hend : ∀ a, A a → M.step s a = none) : (Trace.ofRun hinit h).Fair A :=
  ofRun_fairWhile hinit h fun ⟨a, ha, hs⟩ => hs (hend a ha)

end

end IbexHarness.Lib.Machine
