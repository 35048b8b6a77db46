import IbexHarness.Lib.Code
import IbexHarness.Lib.Text
import Mathlib.Data.List.Lex
import Mathlib.Order.Nat

/-! A number is kept as the text it is written with, an object as the list of its members. -/

namespace IbexHarness.Lib

open List

inductive Json where
  | null
  | bool (b : Bool)
  | num (lit : Text)
  | str (s : Text)
  | arr (elems : List Json)
  | obj (fields : List (Text × Json))

namespace Json

@[induction_eliminator]
theorem induct {P : Json → Prop} (null : P .null) (bool : ∀ b, P (.bool b)) (num : ∀ lit, P (.num lit))
    (str : ∀ s, P (.str s)) (arr : ∀ vs, (∀ v ∈ vs, P v) → P (.arr vs)) (obj : ∀ fs, (∀ f ∈ fs, P f.2) → P (.obj fs))
    (v : Json) : P v :=
  @Json.rec P (fun vs => ∀ v ∈ vs, P v) (fun fs => ∀ f ∈ fs, P f.2) (fun f => P f.2) null bool num str arr obj
    nofun (fun _ _ hv hvs => forall_mem_cons.mpr ⟨hv, hvs⟩) nofun (fun _ _ hf hfs => forall_mem_cons.mpr ⟨hf, hfs⟩)
    (fun _ _ hv => hv) v

def escape (c : Char) : Text :=
  if c = '\x22' then ['\\', '\x22']
  else if c = '\\' then ['\\', '\\']
  else if c = '\x08' then ['\\', 'b']
  else if c = '\x0c' then ['\\', 'f']
  else if c = '\n' then ['\\', 'n']
  else if c = '\r' then ['\\', 'r']
  else if c = '\t' then ['\\', 't']
  else if c.toNat < 0x20 then
    ['\\', 'u', '0', '0', Nat.digitChar (c.toNat / 16), Nat.digitChar (c.toNat % 16)]
  else [c]

def quote (s : Text) : Text := ['\x22'] ++ s.flatMap escape ++ ['\x22']

mutual

def render : Json → Text
  | .null => ['n', 'u', 'l', 'l']
  | .bool true => ['t', 'r', 'u', 'e']
  | .bool false => ['f', 'a', 'l', 's', 'e']
  | .num lit => lit
  | .str s => quote s
  | .arr elems => ['['] ++ [',', ' '].intercalate (renderElems elems) ++ [']']
  | .obj fields => ['{'] ++ [',', ' '].intercalate (renderFields fields) ++ ['}']

def renderElems : List Json → List Text
  | [] => []
  | v :: vs => render v :: renderElems vs

def renderFields : List (Text × Json) → List Text
  | [] => []
  | (k, v) :: fs => (quote k ++ [':', ' '] ++ render v) :: renderFields fs

end

/-! ## Reading a string -/

def hexValue (c : Char) : Option Nat :=
  if c.isDigit then some (c.toNat - '0'.toNat)
  else if 'a' ≤ c ∧ c ≤ 'f' then some (c.toNat - 'a'.toNat + 10)
  else if 'A' ≤ c ∧ c ≤ 'F' then some (c.toNat - 'A'.toNat + 10)
  else none

def hex4 (a b c d : Char) : Option Nat := do
  let a ← hexValue a
  let b ← hexValue b
  let c ← hexValue c
  let d ← hexValue d
  some (((a * 16 + b) * 16 + c) * 16 + d)

def replacementChar : Char := '�'

/-- A code unit, and the one after it if the two are a surrogate pair. -/
def readUnit (r : Nat) (s : Text) : Char × Text :=
  if 0xD800 ≤ r ∧ r < 0xE000 then
    match s with
    | '\\' :: 'u' :: a :: b :: c :: d :: s' =>
      match hex4 a b c d with
      | some r' =>
        if r < 0xDC00 ∧ 0xDC00 ≤ r' ∧ r' < 0xE000 then
          (Char.ofNat ((r - 0xD800) * 0x400 + (r' - 0xDC00) + 0x10000), s')
        else (replacementChar, s)
      | none => (replacementChar, s)
    | _ => (replacementChar, s)
  else (Char.ofNat r, s)

def unescape (c : Char) : Option Char :=
  if c = '\x22' ∨ c = '\\' ∨ c = '/' then some c
  else if c = 'b' then some '\x08'
  else if c = 'f' then some '\x0c'
  else if c = 'n' then some '\n'
  else if c = 'r' then some '\r'
  else if c = 't' then some '\t'
  else none

def readEscape : Text → Option (Char × Text)
  | 'u' :: a :: b :: c :: d :: s => (hex4 a b c d).map fun r => readUnit r s
  | e :: s => (unescape e).map (·, s)
  | [] => none

def readChar : Text → Option (Option Char × Text)
  | [] => none
  | c :: s =>
    if c = '\x22' then some (none, s)
    else if c = '\\' then (readEscape s).map fun p => (some p.1, p.2)
    else if c.toNat < 0x20 then none
    else some (some c, s)

def readChars : Nat → Text → Option (Text × Text)
  | 0, _ => none
  | fuel + 1, s =>
    match readChar s with
    | none => none
    | some (none, s') => some ([], s')
    | some (some c, s') => (readChars fuel s').map fun p => (c :: p.1, p.2)

def parseString (s : Text) : Option (Text × Text) := readChars s.length s

theorem hex4_control : ∀ n < 32, hex4 '0' '0' (Nat.digitChar (n / 16)) (Nat.digitChar (n % 16)) = some n := by
  decide

theorem readChar_escape (c : Char) (s : Text) : readChar (escape c ++ s) = some (some c, s) := by
  unfold escape
  split_ifs with h₁ h₂ h₃ h₄ h₅ h₆ h₇ h₈
  · rw [h₁]; rfl
  · rw [h₂]; rfl
  · rw [h₃]; rfl
  · rw [h₄]; rfl
  · rw [h₅]; rfl
  · rw [h₆]; rfl
  · rw [h₇]; rfl
  · have hunit : ¬ (0xD800 ≤ c.toNat ∧ c.toNat < 0xE000) := by omega
    simp [readChar, readEscape, hex4_control c.toNat h₈, readUnit, hunit]
  · simp [readChar, h₁, h₂, h₈]

section Codes

variable {enc : Char → Text}

section

variable (henc : ∀ c s, readChar (enc c ++ s) = some (some c, s))
include henc

theorem readChars_flatMap (t s : Text) (fuel : Nat)
    (h : t.length < fuel) : readChars fuel (t.flatMap enc ++ '\x22' :: s) = some (t, s) := by
  induction t generalizing fuel with
  | nil =>
    obtain ⟨fuel, rfl⟩ := Nat.exists_eq_succ_of_ne_zero (Nat.ne_zero_of_lt h)
    simp [readChars, readChar]
  | cons c t ih =>
    obtain ⟨fuel, rfl⟩ := Nat.exists_eq_succ_of_ne_zero (Nat.ne_zero_of_lt h)
    rw [flatMap_cons, append_assoc, readChars, henc]
    simp only [ih fuel (by simpa using h), Option.map_some]

theorem length_le_flatMap (t : Text) : t.length ≤ (t.flatMap enc).length := by
  induction t with
  | nil => exact Nat.le_refl _
  | cons c t ih =>
    have hc : enc c ≠ [] := by
      intro hnil
      have hread := henc c []
      rw [hnil] at hread
      cases hread
    have hpos := length_pos_iff.mpr hc
    rw [flatMap_cons, length_append, length_cons]
    omega

theorem parseString_flatMap (t s : Text) : parseString (t.flatMap enc ++ '\x22' :: s) = some (t, s) := by
  refine readChars_flatMap henc t s _ ?_
  have h := length_le_flatMap henc t
  rw [length_append, length_cons]
  omega

end

end Codes

theorem parseString_quote (t s : Text) : parseString (t.flatMap escape ++ '\x22' :: s) = some (t, s) :=
  parseString_flatMap readChar_escape t s

theorem quote_delimited : Code.Delimited quote := by
  intro a b s t _ _ h
  simp only [quote, cons_append, nil_append, append_assoc, List.cons.injEq, true_and] at h
  have hread := parseString_quote a s
  rw [h, parseString_quote, Option.some.injEq, Prod.mk.injEq] at hread
  exact ⟨hread.1.symm, hread.2.symm⟩

/-! ## Reading a value back -/

def isNumberChar (c : Char) : Bool :=
  c.isDigit || c == '-' || c == '+' || c == '.' || c == 'e' || c == 'E'

def Ends (s : Text) : Prop := ∀ c ∈ s.head?, isNumberChar c = false

def IsPlain (lit : Text) : Prop := lit ≠ [] ∧ ∀ c ∈ lit, isNumberChar c = true

mutual

def Numbers (P : Text → Prop) : Json → Prop
  | .num lit => P lit
  | .arr elems => NumbersElems P elems
  | .obj fields => NumbersFields P fields
  | .null | .bool _ | .str _ => True

def NumbersElems (P : Text → Prop) : List Json → Prop
  | [] => True
  | v :: vs => Numbers P v ∧ NumbersElems P vs

def NumbersFields (P : Text → Prop) : List (Text × Json) → Prop
  | [] => True
  | (_, v) :: fs => Numbers P v ∧ NumbersFields P fs

end

theorem numbersElems_iff {P : Text → Prop} {vs : List Json} : NumbersElems P vs ↔ ∀ v ∈ vs, Numbers P v := by
  induction vs with
  | nil => simp [NumbersElems]
  | cons v vs ih => rw [NumbersElems, ih, forall_mem_cons]

theorem numbersFields_iff {P : Text → Prop} {fs : List (Text × Json)} :
    NumbersFields P fs ↔ ∀ f ∈ fs, Numbers P f.2 := by
  induction fs with
  | nil => simp [NumbersFields]
  | cons f fs ih => rw [NumbersFields, ih, forall_mem_cons]

theorem number_inj {lit lit' s t : Text} (h : IsPlain lit) (h' : IsPlain lit') (hs : Ends s) (ht : Ends t)
    (heq : lit ++ s = lit' ++ t) : lit = lit' ∧ s = t := by
  have hlit : lit = lit' := by
    rw [← Text.takeWhile_append_stop h.2 hs, heq, Text.takeWhile_append_stop h'.2 ht]
  subst hlit
  exact ⟨rfl, append_cancel_left heq⟩

/-- The character that tells what kind of value follows, one for all numbers. -/
def lead (c : Char) : Char := if isNumberChar c then '0' else c

def kind : Json → Char
  | .null => 'n'
  | .bool true => 't'
  | .bool false => 'f'
  | .num _ => '0'
  | .str _ => '\x22'
  | .arr _ => '['
  | .obj _ => '{'

theorem render_eq_cons {v : Json} (h : Numbers IsPlain v) : ∃ c s, render v = c :: s ∧ lead c = kind v := by
  cases v with
  | null | str | arr | obj => exact ⟨_, _, rfl, rfl⟩
  | bool b => cases b <;> exact ⟨_, _, rfl, rfl⟩
  | num lit =>
    obtain ⟨hne, hall⟩ := h
    obtain ⟨c, lit, rfl⟩ := exists_cons_of_ne_nil hne
    exact ⟨c, lit, rfl, by simp [lead, kind, hall c mem_cons_self]⟩

theorem kind_eq {v w : Json} (hv : Numbers IsPlain v) (hw : Numbers IsPlain w) {s t : Text}
    (h : render v ++ s = render w ++ t) : kind v = kind w := by
  obtain ⟨c, x, hc, hkind⟩ := render_eq_cons hv
  obtain ⟨d, y, hd, hkind'⟩ := render_eq_cons hw
  rw [hc, hd, cons_append, cons_append, List.cons.injEq] at h
  rw [← hkind, ← hkind', h.1]

theorem render_ne {v : Json} (hv : Numbers IsPlain v) {s t : Text} {d : Char} (hd : d = ']' ∨ d = '}') :
    render v ++ s ≠ d :: t := by
  obtain ⟨c, x, hc, hkind⟩ := render_eq_cons hv
  rw [hc, cons_append]
  intro h
  obtain rfl := (List.cons.inj h).1
  rcases hd with rfl | rfl <;> cases v <;> simp_all [lead, isNumberChar, kind]
  all_goals split at hkind <;> simp at hkind

theorem of_kind_eq {v w : Json} (h : kind v = kind w) :
    match v with
    | .null => w = .null
    | .bool b => w = .bool b
    | .num _ => ∃ lit, w = .num lit
    | .str _ => ∃ t, w = .str t
    | .arr _ => ∃ vs, w = .arr vs
    | .obj _ => ∃ fs, w = .obj fs := by
  rcases v with _ | ⟨_ | _⟩ | _ | _ | _ | _ <;> rcases w with _ | ⟨_ | _⟩ | _ | _ | _ | _ <;>
    first
    | rfl
    | exact ⟨_, rfl⟩
    | simp [kind] at h

theorem ends_cons {c : Char} {s : Text} (h : isNumberChar c = false) : Ends (c :: s) := by
  simpa [Ends] using h

/-- What follows the first part of an array or object: the other parts behind their separators. -/
def rest (parts : List Text) : Text := parts.flatMap ([',', ' '] ++ ·)

@[simp] theorem rest_cons (part : Text) (parts : List Text) :
    rest (part :: parts) = ',' :: ' ' :: (part ++ rest parts) := by
  simp [rest]

theorem intercalate_cons (part : Text) (parts : List Text) :
    [',', ' '].intercalate (part :: parts) = part ++ rest parts :=
  Code.intercalate_cons _ _ _

theorem ends_rest (parts : List Text) {d : Char} (hd : isNumberChar d = false) (s : Text) :
    Ends (rest parts ++ d :: s) := by
  cases parts with
  | nil => exact ends_cons hd
  | cons part parts =>
    rw [rest_cons]
    exact ends_cons rfl

theorem render_arr_append (vs : List Json) (s : Text) :
    render (.arr vs) ++ s = '[' :: ([',', ' '].intercalate (renderElems vs) ++ ']' :: s) := by
  simp [render]

theorem render_obj_append (fs : List (Text × Json)) (s : Text) :
    render (.obj fs) ++ s = '{' :: ([',', ' '].intercalate (renderFields fs) ++ '}' :: s) := by
  simp [render]

theorem renderElems_eq_map (vs : List Json) : renderElems vs = vs.map render := by
  induction vs with
  | nil => rfl
  | cons v vs ih => rw [renderElems, ih, map_cons]

def renderField (f : Text × Json) : Text := quote f.1 ++ [':', ' '] ++ render f.2

theorem renderFields_eq_map (fs : List (Text × Json)) : renderFields fs = fs.map renderField := by
  induction fs with
  | nil => rfl
  | cons f fs ih => rw [renderFields, ih, map_cons, renderField]

section Parts

variable {α : Type} {f : α → Text} {close : Char}

/-- The two parts can be told from what is written of them. -/
def Told (f : α → Text) (a b : α) : Prop := ∀ s t, Ends s → Ends t → f a ++ s = f b ++ t → a = b ∧ s = t

theorem rest_inj (hclose : isNumberChar close = false) (hcomma : ',' ≠ close) : (l l' : List α) →
    (∀ a ∈ l, ∀ b ∈ l', Told f a b) → {s t : Text} →
    rest (l.map f) ++ close :: s = rest (l'.map f) ++ close :: t → l = l' ∧ s = t
  | [], [], _, s, t, h => ⟨rfl, (List.cons.inj h).2⟩
  | [], b :: l', _, s, t, h => absurd (List.cons.inj h).1.symm (by simpa using hcomma)
  | a :: l, [], _, s, t, h => absurd (List.cons.inj h).1 (by simpa using hcomma)
  | a :: l, b :: l', hf, s, t, h => by
    simp only [map_cons, rest_cons, cons_append, append_assoc, List.cons.injEq, true_and] at h
    obtain ⟨rfl, hrest⟩ := hf a mem_cons_self b mem_cons_self _ _ (ends_rest _ hclose _) (ends_rest _ hclose _) h
    obtain ⟨rfl, rfl⟩ := rest_inj hclose hcomma l l'
      (fun a ha b hb => hf a (mem_cons_of_mem _ ha) b (mem_cons_of_mem _ hb)) hrest
    exact ⟨rfl, rfl⟩

theorem parts_inj (hclose : isNumberChar close = false) (hcomma : ',' ≠ close) {l l' : List α}
    (hne : ∀ a ∈ l ++ l', ∀ s t, f a ++ s ≠ close :: t) (hf : ∀ a ∈ l, ∀ b ∈ l', Told f a b) {s t : Text}
    (h : [',', ' '].intercalate (l.map f) ++ close :: s = [',', ' '].intercalate (l'.map f) ++ close :: t) :
    l = l' ∧ s = t := by
  cases l with
  | nil =>
    cases l' with
    | nil => exact ⟨rfl, (List.cons.inj h).2⟩
    | cons b l' =>
      rw [map_cons, intercalate_cons, append_assoc] at h
      exact absurd h.symm (hne b (by simp) _ _)
  | cons a l =>
    cases l' with
    | nil =>
      rw [map_cons, intercalate_cons, append_assoc] at h
      exact absurd h (hne a (by simp) _ _)
    | cons b l' =>
      rw [map_cons, map_cons, intercalate_cons, intercalate_cons] at h
      exact rest_inj hclose hcomma (a :: l) (b :: l') hf (by simpa using h)

end Parts

theorem told_renderField {f g : Text × Json} (h : Told render f.2 g.2) : Told renderField f g := by
  intro s t hs ht heq
  simp only [renderField, append_assoc] at heq
  obtain ⟨hkey, hmember⟩ := quote_delimited f.1 g.1 _ _ trivial trivial heq
  obtain ⟨hvalue, hst⟩ := h s t hs ht (append_cancel_left hmember)
  exact ⟨Prod.ext hkey hvalue, hst⟩

theorem told_render (v : Json) : ∀ w, Numbers IsPlain v → Numbers IsPlain w → Told render v w := by
  induction v with
  | null =>
    intro w hv hw s t _ _ h
    obtain rfl : w = .null := of_kind_eq (kind_eq hv hw h)
    exact ⟨rfl, append_cancel_left h⟩
  | bool b =>
    intro w hv hw s t _ _ h
    obtain rfl : w = .bool b := of_kind_eq (kind_eq hv hw h)
    exact ⟨rfl, append_cancel_left h⟩
  | num lit =>
    intro w hv hw s t hs ht h
    obtain ⟨lit', rfl⟩ := of_kind_eq (kind_eq hv hw h)
    obtain ⟨rfl, rfl⟩ := number_inj hv hw hs ht h
    exact ⟨rfl, rfl⟩
  | str a =>
    intro w hv hw s t _ _ h
    obtain ⟨b, rfl⟩ := of_kind_eq (kind_eq hv hw h)
    obtain ⟨rfl, rfl⟩ := quote_delimited a b s t trivial trivial h
    exact ⟨rfl, rfl⟩
  | arr vs ih =>
    intro w hv hw s t _ _ h
    obtain ⟨ws, rfl⟩ := of_kind_eq (kind_eq hv hw h)
    rw [render_arr_append, render_arr_append, renderElems_eq_map, renderElems_eq_map] at h
    rw [Numbers, numbersElems_iff] at hv hw
    have hne : ∀ v ∈ vs ++ ws, ∀ s t, render v ++ s ≠ ']' :: t :=
      fun v hm s t => render_ne ((mem_append.mp hm).elim (hv v) (hw v)) (.inl rfl)
    obtain ⟨rfl, rfl⟩ := parts_inj rfl (by decide) hne (fun a ha b hb => ih a ha b (hv a ha) (hw b hb))
      (List.cons.inj h).2
    exact ⟨rfl, rfl⟩
  | obj fs ih =>
    intro w hv hw s t _ _ h
    obtain ⟨gs, rfl⟩ := of_kind_eq (kind_eq hv hw h)
    rw [render_obj_append, render_obj_append, renderFields_eq_map, renderFields_eq_map] at h
    rw [Numbers, numbersFields_iff] at hv hw
    obtain ⟨rfl, rfl⟩ := parts_inj rfl (by decide) (fun f _ s t => by simp [renderField, quote])
      (fun f hf g hg => told_renderField (ih f hf g.2 (hv f hf) (hw g hg))) (List.cons.inj h).2
    exact ⟨rfl, rfl⟩

theorem render_injective {v w : Json} (hv : Numbers IsPlain v) (hw : Numbers IsPlain w)
    (h : render v = render w) : v = w := by
  have hnil : Ends [] := fun _ hc => nomatch hc
  exact (told_render v w hv hw [] [] hnil hnil (by rw [h])).1

end Json

end IbexHarness.Lib
