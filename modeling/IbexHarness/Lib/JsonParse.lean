import IbexHarness.Lib.Digits
import IbexHarness.Lib.Json

/-! A parser for one value at the front of a text, to a given depth of nesting. -/

namespace IbexHarness.Lib.Json

open List Option

def isSpace (c : Char) : Bool := c == ' ' || c == '\t' || c == '\n' || c == '\r'

def skipSpace (s : Text) : Text := s.dropWhile isSpace

def scanInt : Text → Option (Text × Text)
  | [] => none
  | c :: s =>
    if c = '0' then some (['0'], s)
    else if c.isDigit then some (c :: s.takeWhile Char.isDigit, s.dropWhile Char.isDigit)
    else none

def scanDigits (s : Text) : Option (Text × Text) :=
  if (s.takeWhile Char.isDigit).isEmpty then none
  else some (s.takeWhile Char.isDigit, s.dropWhile Char.isDigit)

def scanFrac : Text → Option (Text × Text)
  | '.' :: s => (scanDigits s).map fun p => ('.' :: p.1, p.2)
  | s => some ([], s)

def scanExp : Text → Option (Text × Text)
  | [] => some ([], [])
  | c :: s =>
    if c = 'e' ∨ c = 'E' then
      match s with
      | '+' :: s => (scanDigits s).map fun p => (c :: '+' :: p.1, p.2)
      | '-' :: s => (scanDigits s).map fun p => (c :: '-' :: p.1, p.2)
      | s => (scanDigits s).map fun p => (c :: p.1, p.2)
    else some ([], c :: s)

def scanUnsigned (s : Text) : Option (Text × Text) := do
  let (int, s) ← scanInt s
  let (frac, s) ← scanFrac s
  let (exp, s) ← scanExp s
  some (int ++ frac ++ exp, s)

def scanNumber : Text → Option (Text × Text)
  | '-' :: s => (scanUnsigned s).map fun p => ('-' :: p.1, p.2)
  | s => scanUnsigned s

section Items

variable {α : Type}

def items (p : Text → Option (α × Text)) (close : Char) : Nat → Text → Option (List α × Text)
  | 0, _ => none
  | fuel + 1, s =>
    match p s with
    | none => none
    | some (a, s) =>
      match skipSpace s with
      | [] => none
      | c :: s =>
        if c = close then some ([a], s)
        else if c = ',' then (items p close fuel s).map fun q => (a :: q.1, q.2)
        else none

def parseItems (p : Text → Option (α × Text)) (close : Char) (s : Text) : Option (List α × Text) :=
  match skipSpace s with
  | [] => none
  | c :: s' => if c = close then some ([], s') else items p close s.length s

end Items

def parseField (p : Text → Option (Json × Text)) (s : Text) : Option ((Text × Json) × Text) :=
  match skipSpace s with
  | '\x22' :: s =>
    match parseString s with
    | none => none
    | some (k, s) =>
      match skipSpace s with
      | ':' :: s => (p s).map fun q => ((k, q.1), q.2)
      | _ => none
  | _ => none

/-- The members of an object as a map: a later member replaces an earlier one. -/
def lastOfEach : List (Text × Json) → List (Text × Json)
  | [] => []
  | f :: fs => if f.1 ∈ fs.map Prod.fst then lastOfEach fs else f :: lastOfEach fs

def parseWith (inner : Option (Text → Option (Json × Text))) (s : Text) : Option (Json × Text) :=
  match skipSpace s with
  | 'n' :: 'u' :: 'l' :: 'l' :: s => some (.null, s)
  | 't' :: 'r' :: 'u' :: 'e' :: s => some (.bool true, s)
  | 'f' :: 'a' :: 'l' :: 's' :: 'e' :: s => some (.bool false, s)
  | '\x22' :: s => (parseString s).map fun p => (.str p.1, p.2)
  | '[' :: s => inner.bind fun p => (parseItems p ']' s).map fun q => (.arr q.1, q.2)
  | '{' :: s => inner.bind fun p => (parseItems (parseField p) '}' s).map fun q => (.obj (lastOfEach q.1), q.2)
  | s => (scanNumber s).map fun p => (.num p.1, p.2)

def parseValue : Nat → Text → Option (Json × Text)
  | 0 => parseWith none
  | depth + 1 => parseWith (some (parseValue depth))

/-! ## What is read is well formed -/

variable {s lit r : Text}

theorem isNumberChar_of_isDigit {c : Char} (h : c.isDigit = true) : isNumberChar c = true := by
  simp [isNumberChar, h]

theorem isNumberChar_takeWhile (s : Text) : ∀ c ∈ s.takeWhile Char.isDigit, isNumberChar c = true :=
  fun _ hc => isNumberChar_of_isDigit (mem_takeWhile_imp hc)

theorem scanInt_plain (h : scanInt s = some (lit, r)) : IsPlain lit := by
  cases s with
  | nil => simp [scanInt] at h
  | cons c s =>
    simp only [scanInt] at h
    split_ifs at h with hzero hdigit
    · cases h
      exact ⟨by simp, forall_mem_singleton.mpr rfl⟩
    · cases h
      refine ⟨by simp, fun d hd => ?_⟩
      rcases mem_cons.mp hd with rfl | hd
      · exact isNumberChar_of_isDigit hdigit
      · exact isNumberChar_takeWhile s d hd

theorem scanDigits_plain (h : scanDigits s = some (lit, r)) : ∀ c ∈ lit, isNumberChar c = true := by
  unfold scanDigits at h
  split_ifs at h
  cases h
  exact isNumberChar_takeWhile s

theorem scanFrac_plain (h : scanFrac s = some (lit, r)) : ∀ c ∈ lit, isNumberChar c = true := by
  unfold scanFrac at h
  split at h
  · obtain ⟨⟨digits, rest⟩, hdigits, heq⟩ := map_eq_some_iff.mp h
    cases heq
    exact forall_mem_cons.mpr ⟨rfl, scanDigits_plain hdigits⟩
  · cases h
    exact fun _ hc => nomatch hc

theorem scanExp_plain (h : scanExp s = some (lit, r)) : ∀ c ∈ lit, isNumberChar c = true := by
  cases s with
  | nil =>
    cases h
    exact fun _ hc => nomatch hc
  | cons c s =>
    simp only [scanExp] at h
    split_ifs at h with hc
    · have hmark : isNumberChar c = true := by rcases hc with rfl | rfl <;> rfl
      split at h
      all_goals
        obtain ⟨⟨digits, rest⟩, hdigits, heq⟩ := map_eq_some_iff.mp h
        cases heq
        have hplain := scanDigits_plain hdigits
        simp_all [isNumberChar]
    · cases h
      exact fun _ hc => nomatch hc

theorem scanUnsigned_plain (h : scanUnsigned s = some (lit, r)) : IsPlain lit := by
  simp only [scanUnsigned, bind_eq_bind, bind_eq_some_iff] at h
  obtain ⟨⟨int, s₁⟩, hint, ⟨frac, s₂⟩, hfrac, ⟨exp, s₃⟩, hexp, heq⟩ := h
  cases heq
  obtain ⟨hne, hall⟩ := scanInt_plain hint
  refine ⟨by simp [hne], fun c hc => ?_⟩
  rcases mem_append.mp hc with hc | hc
  · exact (mem_append.mp hc).elim (hall c) (scanFrac_plain hfrac c)
  · exact scanExp_plain hexp c hc

theorem scanNumber_plain (h : scanNumber s = some (lit, r)) : IsPlain lit := by
  unfold scanNumber at h
  split at h
  · obtain ⟨⟨digits, rest⟩, hdigits, heq⟩ := map_eq_some_iff.mp h
    cases heq
    exact ⟨by simp, forall_mem_cons.mpr ⟨rfl, (scanUnsigned_plain hdigits).2⟩⟩
  · exact scanUnsigned_plain h

section Items

variable {α : Type} {p : Text → Option (α × Text)} {P : α → Prop} {close : Char}

theorem items_forall (hp : ∀ s a r, p s = some (a, r) → P a) (fuel : Nat) {l : List α}
    (h : items p close fuel s = some (l, r)) : ∀ a ∈ l, P a := by
  induction fuel generalizing s l r with
  | zero => simp [items] at h
  | succ fuel ih =>
    rw [items] at h
    split at h
    · simp at h
    · rename_i a s₁ ha
      have hhead := hp _ _ _ ha
      split at h
      · simp at h
      · split_ifs at h
        · cases h
          simpa using hhead
        · obtain ⟨⟨l', r'⟩, hl, heq⟩ := map_eq_some_iff.mp h
          cases heq
          exact forall_mem_cons.mpr ⟨hhead, ih hl⟩

theorem parseItems_forall (hp : ∀ s a r, p s = some (a, r) → P a) {l : List α}
    (h : parseItems p close s = some (l, r)) : ∀ a ∈ l, P a := by
  unfold parseItems at h
  split at h
  · simp at h
  · split_ifs at h
    · cases h
      exact fun _ ha => nomatch ha
    · exact items_forall hp _ h

end Items

theorem parseField_forall {p : Text → Option (Json × Text)} {P : Json → Prop}
    (hp : ∀ s v r, p s = some (v, r) → P v) (s : Text) (f : Text × Json) (r : Text)
    (h : parseField p s = some (f, r)) : P f.2 := by
  unfold parseField at h
  split at h
  · split at h
    · simp at h
    · split at h
      · obtain ⟨⟨v, r'⟩, hv, heq⟩ := map_eq_some_iff.mp h
        cases heq
        exact hp _ _ _ hv
      · simp at h
  · simp at h

theorem mem_of_mem_lastOfEach {fs : List (Text × Json)} {f : Text × Json} (h : f ∈ lastOfEach fs) : f ∈ fs := by
  induction fs with
  | nil => exact h
  | cons g fs ih =>
    rw [lastOfEach] at h
    split_ifs at h
    · exact mem_cons_of_mem _ (ih h)
    · rcases mem_cons.mp h with rfl | h
      · exact mem_cons_self
      · exact mem_cons_of_mem _ (ih h)

theorem parseWith_plain {inner : Option (Text → Option (Json × Text))}
    (hinner : ∀ p ∈ inner, ∀ s v r, p s = some (v, r) → Numbers IsPlain v) {v : Json}
    (h : parseWith inner s = some (v, r)) : Numbers IsPlain v := by
  unfold parseWith at h
  split at h
  · cases h
    trivial
  · cases h
    trivial
  · cases h
    trivial
  · obtain ⟨p, -, heq⟩ := map_eq_some_iff.mp h
    cases heq
    trivial
  · obtain ⟨p, hp, hq⟩ := bind_eq_some_iff.mp h
    obtain ⟨q, hitems, heq⟩ := map_eq_some_iff.mp hq
    cases heq
    exact numbersElems_iff.mpr (parseItems_forall (hinner p hp) hitems)
  · obtain ⟨p, hp, hq⟩ := bind_eq_some_iff.mp h
    obtain ⟨q, hitems, heq⟩ := map_eq_some_iff.mp hq
    cases heq
    refine numbersFields_iff.mpr fun f hf => ?_
    exact parseItems_forall (parseField_forall (hinner p hp)) hitems f (mem_of_mem_lastOfEach hf)
  · obtain ⟨p, hp, heq⟩ := map_eq_some_iff.mp h
    cases heq
    exact scanNumber_plain hp

theorem parseValue_plain {d : Nat} {v : Json} (h : parseValue d s = some (v, r)) : Numbers IsPlain v := by
  induction d generalizing s v r with
  | zero => exact parseWith_plain (fun p hp => absurd hp (by simp)) h
  | succ d ih =>
    refine parseWith_plain ?_ h
    rintro p hp s v r hs
    obtain rfl := mem_some.mp hp
    exact ih hs

theorem parseValue_brackets (d : Nat) (s : Text) : parseValue d (List.replicate (d + 1) '[' ++ s) = none := by
  induction d with
  | zero => rfl
  | succ d ih =>
    have hskip (t : Text) : skipSpace ('[' :: t) = '[' :: t := by simp [skipSpace, isSpace]
    rw [replicate_succ, cons_append] at ih ⊢
    rw [parseValue, parseWith, hskip]
    simp only [bind_some, replicate_succ, cons_append] at ih ⊢
    simp only [parseItems, hskip, length_cons, items, ih]
    rfl

/-! ## Reading back what was written -/

mutual

def depth : Json → Nat
  | .arr elems => depthElems elems + 1
  | .obj fields => depthFields fields + 1
  | .null | .bool _ | .num _ | .str _ => 0

def depthElems : List Json → Nat
  | [] => 0
  | v :: vs => max (depth v) (depthElems vs)

def depthFields : List (Text × Json) → Nat
  | [] => 0
  | (_, v) :: fs => max (depth v) (depthFields fs)

end

mutual

def DistinctKeys : Json → Prop
  | .arr elems => DistinctKeysElems elems
  | .obj fields => (fields.map Prod.fst).Nodup ∧ DistinctKeysFields fields
  | .null | .bool _ | .num _ | .str _ => True

def DistinctKeysElems : List Json → Prop
  | [] => True
  | v :: vs => DistinctKeys v ∧ DistinctKeysElems vs

def DistinctKeysFields : List (Text × Json) → Prop
  | [] => True
  | (_, v) :: fs => DistinctKeys v ∧ DistinctKeysFields fs

end

structure Scans (lit : Text) : Prop where
  plain : IsPlain lit
  scan : ∀ s, Ends s → scanNumber (lit ++ s) = some (lit, s)

def NoDigit (s : Text) : Prop := ∀ c ∈ s.head?, c.isDigit = false

variable {s : Text} {c : Char}

theorem noDigit_of_ends (h : Ends s) : NoDigit s := by
  intro c hc
  have hnumber := h c hc
  simp only [isNumberChar, Bool.or_eq_false_iff] at hnumber
  exact hnumber.1.1.1.1.1

theorem takeWhile_digits {ds : Text} (hds : ∀ c ∈ ds, c.isDigit = true) (hs : NoDigit s) :
    (ds ++ s).takeWhile Char.isDigit = ds := Text.takeWhile_append_stop hds hs

theorem dropWhile_digits {ds : Text} (hds : ∀ c ∈ ds, c.isDigit = true) (hs : NoDigit s) :
    (ds ++ s).dropWhile Char.isDigit = s := Text.dropWhile_append_stop hds hs

theorem isDigit_of_mem_toDigits {n : Nat} (h : c ∈ Nat.toDigits 10 n) : c.isDigit = true :=
  Nat.isDigit_of_mem_toDigits (by decide) (by decide) h

theorem scanInt_toDigits (n : Nat) (hs : NoDigit s) :
    scanInt (Nat.toDigits 10 n ++ s) = some (Nat.toDigits 10 n, s) := by
  by_cases hn : n = 0
  · rw [hn]
    rfl
  · obtain ⟨c, t, ht, hzero, hdigit⟩ := Digits.toDigits_head hn
    have htail : ∀ d ∈ t, d.isDigit = true := fun d hd =>
      isDigit_of_mem_toDigits (ht ▸ mem_cons_of_mem c hd : d ∈ Nat.toDigits 10 n)
    rw [ht, cons_append, scanInt, if_neg hzero, if_pos hdigit, takeWhile_digits htail hs, dropWhile_digits htail hs]

theorem scanExp_of_ends (hs : Ends s) : scanExp s = some ([], s) := by
  cases s with
  | nil => rfl
  | cons c s =>
    have hc := hs c rfl
    have hmark : ¬ (c = 'e' ∨ c = 'E') := by
      rintro (rfl | rfl) <;> simp [isNumberChar] at hc
    simp [scanExp, hmark]

theorem scanFrac_of_ends (hs : Ends s) : scanFrac s = some ([], s) := by
  unfold scanFrac
  split
  · exact absurd (hs '.' rfl) (by decide)
  · rfl

theorem scanUnsigned_append {whole frac : Text} (h : scanInt (whole ++ (frac ++ s)) = some (whole, frac ++ s))
    (hfrac : scanFrac (frac ++ s) = some (frac, s)) (hs : Ends s) :
    scanUnsigned (whole ++ frac ++ s) = some (whole ++ frac, s) := by
  simp [scanUnsigned, h, hfrac, scanExp_of_ends hs]

theorem toDigits_ne_minus {n : Nat} {t : Text} : Nat.toDigits 10 n ++ s ≠ '-' :: t := by
  intro h
  obtain ⟨c, u, hu⟩ := exists_cons_of_ne_nil (Nat.toDigits_ne_nil (n := n) (b := 10))
  rw [hu, cons_append] at h
  obtain rfl := (List.cons.inj h).1
  have hdigit : ('-' : Char).isDigit = true :=
    isDigit_of_mem_toDigits (hu ▸ mem_cons_self : '-' ∈ Nat.toDigits 10 n)
  exact absurd hdigit (by decide)

theorem scans_toDigits (n : Nat) : Scans (Nat.toDigits 10 n) := by
  have hscan : ∀ s, Ends s → scanNumber (Nat.toDigits 10 n ++ s) = some (Nat.toDigits 10 n, s) := by
    intro s hs
    have hunsigned : scanUnsigned (Nat.toDigits 10 n ++ [] ++ s) = some (Nat.toDigits 10 n ++ [], s) :=
      scanUnsigned_append (scanInt_toDigits n (noDigit_of_ends hs)) (scanFrac_of_ends hs) hs
    rw [append_nil] at hunsigned
    unfold scanNumber
    split
    · rename_i t ht
      exact absurd ht toDigits_ne_minus
    · exact hunsigned
  exact ⟨scanNumber_plain (r := []) (by simpa using hscan [] fun _ hc => nomatch hc), hscan⟩

theorem skipSpace_cons (h : isSpace c = false) : skipSpace (c :: s) = c :: s := by
  simp [skipSpace, h]

@[simp] theorem skipSpace_blank (s : Text) : skipSpace (' ' :: s) = skipSpace s := by
  simp [skipSpace, isSpace]

theorem isSpace_of_lead {v : Json} (h : lead c = kind v) : isSpace c = false := by
  by_contra hc
  simp only [isSpace, Bool.or_eq_true, beq_iff_eq, Bool.not_eq_false] at hc
  rcases v with _ | ⟨_ | _⟩ | _ | _ | _ | _ <;> rcases hc with ((rfl | rfl) | rfl) | rfl <;>
    simp [lead, isNumberChar, kind] at h

section Items

variable {α : Type} {p : Text → Option (α × Text)} {f : α → Text} {close : Char}

def restWith (b : Text) (parts : List Text) : Text := parts.flatMap ((',' :: b) ++ ·)

@[simp] theorem restWith_cons (b part : Text) (parts : List Text) :
    restWith b (part :: parts) = ',' :: (b ++ (part ++ restWith b parts)) := by
  simp [restWith]

theorem ends_restWith (b : Text) (parts : List Text) {d : Char} (hd : isNumberChar d = false) (s : Text) :
    Ends (restWith b parts ++ d :: s) := by
  cases parts with
  | nil => exact ends_cons hd
  | cons part parts =>
    rw [restWith_cons]
    exact ends_cons rfl

variable {b : Text}

theorem items_blank (hblank : ∀ s, p (b ++ s) = p s) (fuel : Nat) (s : Text) :
    items p close fuel (b ++ s) = items p close fuel s := by
  cases fuel with
  | zero => rfl
  | succ fuel => rw [items, items, hblank]

theorem items_rest (hclose : isNumberChar close = false) (hspace : isSpace close = false)
    (hcomma : ',' ≠ close) (hblank : ∀ s, p (b ++ s) = p s) (a : α) (l : List α)
    (hp : ∀ x ∈ a :: l, ∀ s, Ends s → p (f x ++ s) = some (x, s)) (s : Text) (fuel : Nat)
    (hfuel : l.length < fuel) :
    items p close fuel (f a ++ (restWith b (l.map f) ++ close :: s)) = some (a :: l, s) := by
  induction l generalizing a fuel with
  | nil =>
    obtain ⟨fuel, rfl⟩ := Nat.exists_eq_succ_of_ne_zero (Nat.ne_zero_of_lt hfuel)
    rw [items, hp a mem_cons_self _ (ends_restWith _ _ hclose _)]
    simp [restWith, skipSpace_cons hspace]
  | cons x l ih =>
    obtain ⟨fuel, rfl⟩ := Nat.exists_eq_succ_of_ne_zero (Nat.ne_zero_of_lt hfuel)
    rw [items, hp a mem_cons_self _ (ends_restWith _ _ hclose _)]
    have hrest := ih x (fun d hd => hp d (mem_cons_of_mem _ hd)) fuel (Nat.lt_of_succ_lt_succ hfuel)
    have hc : isSpace ',' = false := rfl
    simp only [map_cons, restWith_cons, cons_append, append_assoc, skipSpace_cons hc, hcomma,
      if_false, if_true, items_blank hblank, hrest, map_some]

theorem length_le_restWith (parts : List Text) : parts.length ≤ (restWith b parts).length := by
  induction parts with
  | nil => exact Nat.le_refl _
  | cons part parts ih =>
    simp only [restWith_cons, length_cons, length_append]
    omega

theorem parseItems_intercalate (hclose : isNumberChar close = false) (hspace : isSpace close = false)
    (hcomma : ',' ≠ close) (hblank : ∀ s, p (b ++ s) = p s) (l : List α)
    (hp : ∀ a ∈ l, ∀ s, Ends s → p (f a ++ s) = some (a, s))
    (hhead : ∀ a ∈ l, ∀ s, ∃ c t, skipSpace (f a ++ s) = c :: t ∧ c ≠ close) (s : Text) :
    parseItems p close ((',' :: b).intercalate (l.map f) ++ close :: s) = some (l, s) := by
  cases l with
  | nil => simp [parseItems, skipSpace_cons hspace]
  | cons a l =>
    rw [map_cons, Code.intercalate_cons, append_assoc]
    obtain ⟨c, t, hskip, hc⟩ := hhead a mem_cons_self (restWith b (l.map f) ++ close :: s)
    rw [restWith] at hskip
    simp only [parseItems, hskip, hc, if_false]
    refine items_rest hclose hspace hcomma hblank a l hp s _ ?_
    have hlength := length_le_restWith (b := b) (l.map f)
    rw [length_map, restWith] at hlength
    simp only [length_append, length_cons]
    omega

end Items

variable {p : Text → Option (Json × Text)} {s : Text} {fs : List (Text × Json)}

theorem lastOfEach_of_nodup (h : (fs.map Prod.fst).Nodup) : lastOfEach fs = fs := by
  induction fs with
  | nil => rfl
  | cons f fs ih =>
    rw [map_cons, nodup_cons] at h
    rw [lastOfEach, if_neg h.1, ih h.2]

theorem parseWith_num {inner : Option (Text → Option (Json × Text))} (h : Scans lit)
    (hs : Ends s) : parseWith inner (lit ++ s) = some (.num lit, s) := by
  have hscan := h.scan s hs
  obtain ⟨c, lit, rfl⟩ := exists_cons_of_ne_nil h.plain.1
  have hc := h.plain.2 c mem_cons_self
  rw [cons_append] at hscan ⊢
  rw [parseWith, skipSpace_cons (isSpace_of_lead (v := .num []) (if_pos hc))]
  split <;> simp_all [isNumberChar]

def member (f : Json → Text) (enc : Char → Text) (b : Text) (m : Text × Json) : Text :=
  ['\x22'] ++ m.1.flatMap enc ++ ['\x22'] ++ (':' :: b) ++ f m.2

/-- A writer of values: its escapes can be read, and `b` is the blank it leaves behind a comma or a colon. -/
structure Writes (f : Json → Text) (enc : Char → Text) (b : Text) : Prop where
  escape : ∀ c s, readChar (enc c ++ s) = some (some c, s)
  blank : ∀ s, skipSpace (b ++ s) = skipSpace s
  null : f .null = render .null
  bool : ∀ v, f (.bool v) = render (.bool v)
  num : ∀ lit, f (.num lit) = lit
  str : ∀ t, f (.str t) = ['\x22'] ++ t.flatMap enc ++ ['\x22']
  arr : ∀ vs, f (.arr vs) = ['['] ++ (',' :: b).intercalate (vs.map f) ++ [']']
  obj : ∀ fs, f (.obj fs) = ['{'] ++ (',' :: b).intercalate (fs.map (member f enc b)) ++ ['}']

namespace Writes

variable {f : Json → Text} {enc : Char → Text} {b : Text} (hw : Writes f enc b)
include hw

theorem eq_cons {v : Json} (h : Numbers IsPlain v) : ∃ c s, f v = c :: s ∧ lead c = kind v := by
  cases v with
  | null => exact ⟨_, _, hw.null, rfl⟩
  | bool b => cases b <;> exact ⟨_, _, hw.bool _, rfl⟩
  | num lit =>
    rw [hw.num]
    exact render_eq_cons (v := .num lit) h
  | str t => exact ⟨_, _, hw.str t, rfl⟩
  | arr vs => exact ⟨_, _, hw.arr vs, rfl⟩
  | obj fs => exact ⟨_, _, hw.obj fs, rfl⟩

section

variable (hblank : ∀ s, p (b ++ s) = p s)
include hblank

theorem parseWith_arr {vs : List Json} (hplain : ∀ v ∈ vs, Numbers IsPlain v)
    (hp : ∀ v ∈ vs, ∀ s, Ends s → p (f v ++ s) = some (v, s)) (s : Text) :
    parseWith (some p) (f (.arr vs) ++ s) = some (.arr vs, s) := by
  have hhead : ∀ v ∈ vs, ∀ s, ∃ c t, skipSpace (f v ++ s) = c :: t ∧ c ≠ ']' := by
    intro v hv s
    obtain ⟨c, t, hc, hlead⟩ := hw.eq_cons (hplain v hv)
    refine ⟨c, t ++ s, by rw [hc, cons_append, skipSpace_cons (isSpace_of_lead hlead)], ?_⟩
    rintro rfl
    rcases v with _ | ⟨_ | _⟩ | _ | _ | _ | _ <;> simp [lead, isNumberChar, kind] at hlead
  have hitems := parseItems_intercalate rfl rfl (by decide) hblank vs hp hhead s
  simp [hw.arr, parseWith, skipSpace_cons (c := '[') rfl, hitems]

theorem parseField_member {m : Text × Json} (h : p (f m.2 ++ s) = some (m.2, s)) :
    parseField p (member f enc b m ++ s) = some (m, s) := by
  have hq : isSpace '\x22' = false := rfl
  have hc : isSpace ':' = false := rfl
  simp only [parseField, member, cons_append, nil_append, append_assoc, skipSpace_cons hq,
    parseString_flatMap hw.escape, skipSpace_cons hc, hblank, h, map_some]

theorem parseWith_obj (hkeys : (fs.map Prod.fst).Nodup)
    (hp : ∀ m ∈ fs, ∀ s, Ends s → p (f m.2 ++ s) = some (m.2, s)) (s : Text) :
    parseWith (some p) (f (.obj fs) ++ s) = some (.obj fs, s) := by
  have hhead : ∀ m ∈ fs, ∀ s, ∃ c t, skipSpace (member f enc b m ++ s) = c :: t ∧ c ≠ '}' := by
    intro m _ s
    exact ⟨'\x22', _, skipSpace_cons rfl, by decide⟩
  have hfield : ∀ s, parseField p (b ++ s) = parseField p s := by
    intro s
    rw [parseField, parseField, hw.blank]
  have hitems := parseItems_intercalate rfl rfl (by decide) hfield fs
    (fun m hm s hs => hw.parseField_member hblank (hp m hm s hs)) hhead s
  simp [hw.obj, parseWith, skipSpace_cons (c := '{') rfl, hitems, lastOfEach_of_nodup hkeys]

end

theorem parseValue_blank (d : Nat) (s : Text) : parseValue d (b ++ s) = parseValue d s := by
  cases d <;> rw [parseValue, parseWith, parseWith, hw.blank]

end Writes

theorem Numbers.imp {P Q : Text → Prop} (h : ∀ lit, P lit → Q lit) (v : Json) (hv : Numbers P v) : Numbers Q v := by
  induction v with
  | null | bool | str => trivial
  | num lit => exact h lit hv
  | arr vs ih => exact numbersElems_iff.mpr fun v hm => ih v hm (numbersElems_iff.mp hv v hm)
  | obj fs ih => exact numbersFields_iff.mpr fun f hm => ih f hm (numbersFields_iff.mp hv f hm)

section

variable {f : Json → Text} {enc : Char → Text} {b : Text}

mutual

theorem Writes.reads (hw : Writes f enc b) : (v : Json) → Numbers Scans v → DistinctKeys v → (d : Nat) → depth v ≤ d →
    (s : Text) → Ends s → parseValue d (f v ++ s) = some (v, s)
  | .null, _, _, d, _, s, _ => by
    rw [hw.null]
    cases d <;> rfl
  | .bool v, _, _, d, _, s, _ => by
    rw [hw.bool]
    cases d <;> cases v <;> rfl
  | .num lit, hn, _, d, _, s, hs => by
    rw [hw.num]
    cases d <;> exact parseWith_num hn hs
  | .str t, _, _, d, _, s, _ => by
    have hq : isSpace '\x22' = false := rfl
    cases d <;> simp [parseValue, parseWith, hw.str, skipSpace_cons hq, parseString_flatMap hw.escape]
  | .arr vs, hn, hk, d + 1, hd, s, _ =>
    hw.parseWith_arr (hw.parseValue_blank d)
      (fun _ hv => Numbers.imp (fun _ h => h.plain) _ (numbersElems_iff.mp hn _ hv))
      (hw.reads_elems vs hn hk d (Nat.le_of_succ_le_succ hd)) s
  | .obj fs, hn, hk, d + 1, hd, s, _ =>
    hw.parseWith_obj (hw.parseValue_blank d) hk.1 (hw.reads_fields fs hn hk.2 d (Nat.le_of_succ_le_succ hd)) s

theorem Writes.reads_elems (hw : Writes f enc b) : (vs : List Json) → NumbersElems Scans vs → DistinctKeysElems vs →
    (d : Nat) → depthElems vs ≤ d → ∀ v ∈ vs, ∀ s, Ends s → parseValue d (f v ++ s) = some (v, s)
  | v :: vs, hn, hk, d, hd, u, hu, s, hs => by
    rw [depthElems, Nat.max_le] at hd
    cases hu with
    | head => exact hw.reads v hn.1 hk.1 d hd.1 s hs
    | tail _ hu => exact hw.reads_elems vs hn.2 hk.2 d hd.2 u hu s hs

theorem Writes.reads_fields (hw : Writes f enc b) : (fs : List (Text × Json)) → NumbersFields Scans fs →
    DistinctKeysFields fs → (d : Nat) → depthFields fs ≤ d →
    ∀ m ∈ fs, ∀ s, Ends s → parseValue d (f m.2 ++ s) = some (m.2, s)
  | (k, v) :: fs, hn, hk, d, hd, m, hm, s, hs => by
    rw [depthFields, Nat.max_le] at hd
    cases hm with
    | head => exact hw.reads v hn.1 hk.1 d hd.1 s hs
    | tail _ hm => exact hw.reads_fields fs hn.2 hk.2 d hd.2 m hm s hs

end

end

theorem render_writes : Writes render escape [' '] where
  escape := readChar_escape
  blank := skipSpace_blank
  null := rfl
  bool _ := rfl
  num _ := rfl
  str _ := rfl
  arr vs := by rw [render, renderElems_eq_map]
  obj fs := by
    rw [render, renderFields_eq_map]
    rfl

end IbexHarness.Lib.Json
