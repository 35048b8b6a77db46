import Mathlib.Data.Int.Order.Basic

/-! A counter that keeps the increments of refused calls runs ahead only once the limit is reached. -/

namespace IbexHarness.Lib

structure Tracks (limit : Int) (admitted : Nat) (count : Int) : Prop where
  le : (admitted : Int) ≤ limit
  eq : count = admitted ∨ (admitted : Int) = limit ∧ limit ≤ count

namespace Tracks

variable {limit count : Int} {admitted : Nat}

theorem zero (h : 0 ≤ limit) : Tracks limit 0 0 := ⟨by simpa using h, .inl rfl⟩

section

variable (h : Tracks limit admitted count)
include h

theorem succ_le_iff : count + 1 ≤ limit ↔ (admitted : Int) < limit := by
  obtain ⟨hle, heq | ⟨hfull, hover⟩⟩ := h <;> omega

theorem accept (hle : count + 1 ≤ limit) : Tracks limit (admitted + 1) (count + 1) := by
  obtain ⟨-, heq | ⟨hfull, hover⟩⟩ := h
  · exact ⟨by push_cast; omega, .inl (by push_cast; omega)⟩
  · omega

theorem refuse (hlt : limit < count + 1) : Tracks limit admitted (count + 1) := by
  obtain ⟨hle, heq | ⟨hfull, hover⟩⟩ := h
  · exact ⟨hle, .inr ⟨by omega, by omega⟩⟩
  · exact ⟨hle, .inr ⟨hfull, by omega⟩⟩

end

theorem call (own allowed here : Bool) (h : Tracks limit admitted count)
    (hallowed : own = true → allowed = true → count + 1 ≤ limit)
    (hhere : own = true → here = true → limit < count + 1) :
    Tracks limit (admitted + if own && allowed then 1 else 0) (count + if own && (allowed || here) then 1 else 0) := by
  cases own with
  | false => simpa using h
  | true =>
    cases allowed with
    | true => simpa using h.accept (hallowed rfl rfl)
    | false =>
      cases here with
      | true => simpa using h.refuse (hhere rfl rfl)
      | false => simpa using h

end Tracks

end IbexHarness.Lib
