import Mathlib.Data.List.Basic
import Mathlib.Data.List.Flatten

/-! A code writes a value as a list of symbols. -/

namespace IbexHarness.Lib.Code

open List

universe u v w

variable {α : Type u} {β : Type v} {σ : Type w}

def Readable (f : α → List σ) (stop : List σ → Prop) : Prop :=
  ∀ a b s t, stop s → stop t → f a ++ s = f b ++ t → a = b ∧ s = t

abbrev Delimited (f : α → List σ) : Prop := Readable f fun _ => True

def StartsWith (d : σ) (s : List σ) : Prop := s.head? = some d

@[simp] theorem startsWith_cons (d e : σ) (s : List σ) : StartsWith d (e :: s) ↔ e = d := by
  simp [StartsWith]

namespace Readable

variable {f : α → List σ} {g : β → List σ} {stop stop' : List σ → Prop}

theorem injective (h : Readable f stop) (hnil : stop []) : Function.Injective f := by
  intro a b hab
  exact (h a b [] [] hnil hnil (by rw [hab])).1

theorem comp (h : Readable f stop) {p : β → α} (hp : Function.Injective p) : Readable (fun b => f (p b)) stop := by
  intro a b s t hs ht hab
  obtain ⟨hp', rfl⟩ := h (p a) (p b) s t hs ht hab
  exact ⟨hp hp', rfl⟩

theorem append (hf : Readable f stop) (hg : Readable g stop') (hstop : ∀ b s, stop' s → stop (g b ++ s)) :
    Readable (fun p : α × β => f p.1 ++ g p.2) stop' := by
  rintro ⟨a, b⟩ ⟨a', b'⟩ s t hs ht hab
  simp only [append_assoc] at hab
  obtain ⟨rfl, hrest⟩ := hf a a' _ _ (hstop b s hs) (hstop b' t ht) hab
  obtain ⟨rfl, rfl⟩ := hg b b' s t hs ht hrest
  exact ⟨rfl, rfl⟩

theorem between (hf : Readable f stop) (open' close : List σ) (hstop : ∀ s, stop' s → stop (close ++ s)) :
    Readable (fun a => open' ++ f a ++ close) stop' := by
  intro a b s t hs ht hab
  simp only [append_assoc, append_cancel_left_eq] at hab
  obtain ⟨rfl, hrest⟩ := hf a b _ _ (hstop s hs) (hstop t ht) hab
  exact ⟨rfl, append_cancel_left hrest⟩

theorem flatMap (hf : Delimited f) (hstop : ∀ a s, ¬ stop (f a ++ s)) :
    Readable (fun l : List α => l.flatMap f) stop := by
  intro l
  induction l with
  | nil =>
    intro l' s t hs ht h
    cases l' with
    | nil => exact ⟨rfl, h⟩
    | cons b l' =>
      simp only [flatMap_nil, nil_append, flatMap_cons, append_assoc] at h
      exact absurd (h ▸ hs) (hstop b _)
  | cons a l ih =>
    intro l' s t hs ht h
    cases l' with
    | nil =>
      simp only [flatMap_nil, nil_append, flatMap_cons, append_assoc] at h
      exact absurd (h ▸ ht) (hstop a _)
    | cons b l' =>
      simp only [flatMap_cons, append_assoc] at h
      obtain ⟨rfl, hrest⟩ := hf a b _ _ trivial trivial h
      obtain ⟨rfl, rfl⟩ := ih l' s t hs ht hrest
      exact ⟨rfl, rfl⟩

end Readable

theorem intercalate_cons (sep a : List σ) (l : List (List σ)) :
    sep.intercalate (a :: l) = a ++ l.flatMap (sep ++ ·) := by
  induction l generalizing a with
  | nil => simp [List.intercalate]
  | cons b l ih =>
    rw [intercalate_cons_cons, ih b, flatMap_cons]
    simp only [append_assoc]

theorem intercalate_injective {f : α → List σ} (hf : Delimited f) {sep : List σ} (hsep : sep ≠ [])
    (hne : ∀ a, f a ≠ []) : Function.Injective fun l : List α => sep.intercalate (l.map f) := by
  have htail : Readable (fun l : List α => l.flatMap fun a => sep ++ f a) (· = []) := by
    refine Readable.flatMap (fun a b s t _ _ h => ?_) fun a s => by simp [hsep]
    rw [append_assoc, append_assoc] at h
    exact hf a b s t trivial trivial (append_cancel_left h)
  have hcons : Readable (fun p : α × List α => f p.1 ++ p.2.flatMap fun a => sep ++ f a) (· = []) :=
    Readable.append hf htail fun _ _ _ => trivial
  intro l l' h
  cases l with
  | nil =>
    cases l' with
    | nil => rfl
    | cons b l' =>
      have hb : [] = f b ++ _ := h.trans (intercalate_cons sep (f b) (l'.map f))
      exact absurd (append_eq_nil_iff.mp hb.symm).1 (hne b)
  | cons a l =>
    cases l' with
    | nil =>
      have ha : [] = f a ++ _ := h.symm.trans (intercalate_cons sep (f a) (l.map f))
      exact absurd (append_eq_nil_iff.mp ha.symm).1 (hne a)
    | cons b l' =>
      simp only [map_cons, intercalate_cons, flatMap_map] at h
      have hpair : (a, l) = (b, l') := hcons.injective rfl h
      exact congrArg (fun p : α × List α => p.1 :: p.2) hpair

end IbexHarness.Lib.Code
