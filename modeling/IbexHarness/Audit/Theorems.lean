import IbexHarness.Audit.Lemmas.Stored
import IbexHarness.Audit.Lemmas.Writer
import IbexHarness.Lib.JsonNumber
import IbexHarness.Lib.Machine

/-! What `formatJSONBNumber` makes of a literal with an exponent, as a literal again. -/

namespace IbexHarness.Audit

section

open Lib Json List Literal

variable {n : Literal} {t : Text}

/-! ## The parts of a literal -/

theorem isExponentMark_eq (c : Char) : isExponentMark c = isMark c := rfl

def significandText (n : Literal) : Text := n.sign ++ (n.int ++ n.point)

theorem text_eq (n : Literal) : n.text = significandText n ++ n.expText := by
  simp [text, unsigned, significandText]

theorem not_isMark_significandText (n : Literal) : ∀ c ∈ significandText n, isExponentMark c = false := by
  intro c hc
  rcases mem_append.mp hc with hc | hc
  · unfold sign at hc
    split at hc
    · obtain rfl := mem_singleton.mp hc
      rfl
    · cases hc
  · exact n.not_isMark_significand c hc

theorem splitSignificand_text (n : Literal) :
    splitSignificand (significandText n) = .ok ⟨n.sign, n.int ++ n.frac, n.frac.length⟩ := by
  obtain ⟨c, s, hs, hc, -⟩ := n.int_cons
  have hplus : c ≠ '+' := ne_of_isDigit hc rfl
  have hminus : c ≠ '-' := ne_of_isDigit hc rfl
  have hdigits : (n.int ++ n.frac).all Char.isDigit = true :=
    all_eq_true.mpr (n.int_allDigits.append n.frac_allDigits)
  have hparts : (if (significandText n).head? == some '-' then ['-'] else []) = n.sign ∧
      (if (significandText n).head? == some '+' || (significandText n).head? == some '-' then
        (significandText n).drop 1 else significandText n) = n.int ++ n.point := by
    unfold significandText sign
    cases n.negative with
    | true => exact ⟨rfl, rfl⟩
    | false => simp [hs, hplus, hminus]
  simp only [splitSignificand, hparts.1, hparts.2, n.takeWhile_significand, n.dropWhile_significand, n.drop_point,
    hdigits]
  rw [if_neg (by simp [n.int_ne]), if_neg (by simp [n.int_ne])]

theorem atoi_text {e : Exponent} {x : Int} (h : atoi e.text = some x) : x = e.value := by
  obtain ⟨c, s, hs⟩ := exists_cons_of_ne_nil e.digits_ne
  have hc : c.isDigit = true := e.allDigits c (by simp [hs])
  have hplus : c ≠ '+' := ne_of_isDigit hc rfl
  have hminus : c ≠ '-' := ne_of_isDigit hc rfl
  simp only [atoi] at h
  split_ifs at h
  all_goals
    rcases e.sign_cases with hsign | hsign | hsign <;>
      simp_all [Exponent.text, Exponent.value, exponentValue]

/-! ## Placing the point -/

def intPart (digits : Text) (i : Nat) : Text :=
  let int := (digits.take i).dropWhile (· == '0')
  if int.isEmpty then ['0'] else int

theorem intPart_spec {digits : Text} (hdigits : AllDigits digits) (i : Nat) :
    intPart digits i ≠ [] ∧ AllDigits (intPart digits i) ∧
      (intPart digits i = ['0'] ∨ (intPart digits i).head? ≠ some '0') ∧
      Nat.ofDigitChars 10 (intPart digits i ++ digits.drop i) 0 = Nat.ofDigitChars 10 digits 0 := by
  have hvalue := ofDigitChars_dropZeros (digits.take i) (digits.drop i)
  rw [take_append_drop] at hvalue
  have hall : AllDigits ((digits.take i).dropWhile (· == '0')) := fun c hc =>
    hdigits c (mem_of_mem_take ((dropWhile_suffix _).subset hc))
  have hhead := List.head?_dropWhile_not (· == '0') (digits.take i)
  unfold intPart
  cases hint : (digits.take i).dropWhile (· == '0') with
  | nil =>
    rw [hint] at hvalue
    refine ⟨by simp, forall_mem_singleton.mpr rfl, .inl rfl, ?_⟩
    simpa [Nat.ofDigitChars_cons] using hvalue
  | cons c int =>
    rw [hint] at hvalue hall hhead
    refine ⟨by simp, hall, .inr ?_, hvalue⟩
    simpa using hhead

def padTo (scale : Nat) (digits : Text) : Text :=
  if digits.length ≤ scale then List.replicate (scale + 1 - digits.length) '0' ++ digits else digits

theorem padTo_spec {digits : Text} (hdigits : AllDigits digits) (scale : Nat) :
    AllDigits (padTo scale digits) ∧ scale < (padTo scale digits).length ∧
      Nat.ofDigitChars 10 (padTo scale digits) 0 = Nat.ofDigitChars 10 digits 0 := by
  unfold padTo
  split
  · rename_i hle
    refine ⟨(allDigits_replicate _).append hdigits, ?_, ofDigitChars_padZeros _ _⟩
    rw [length_append, length_replicate]
    omega
  · rename_i hle
    exact ⟨hdigits, Nat.lt_of_not_le hle, rfl⟩

theorem placeDecimal_eq (digits : Text) {scale : Nat} (hscale : 0 < scale) : placeDecimal digits scale =
      intPart (padTo scale digits) ((padTo scale digits).length - scale) ++
        '.' :: (padTo scale digits).drop ((padTo scale digits).length - scale) := by
  rw [placeDecimal, if_neg (Nat.ne_of_gt hscale)]
  rfl

/-! ## The result as a literal -/

theorem checkExpandedNumberLen_bind {base pad : Int} {s : Text}
    (h : (do checkExpandedNumberLen base pad; .ok s : Except Fault Text) = .ok t) : s = t := by
  obtain ⟨-, h⟩ := Except.seq_eq_ok.mp h
  exact Except.ok.inj h

/-- A power that is not negative is written as zeros behind the digits. -/
def shifted (n : Literal) (power : Nat) : Literal where
  negative := n.negative
  int := n.int ++ n.frac ++ List.replicate power '0'
  frac := []
  exp := none
  int_ne := by simp [n.int_ne]
  int_allDigits := (n.int_allDigits.append n.frac_allDigits).append (allDigits_replicate power)
  frac_allDigits := List.forall_mem_nil _

def pointed (n : Literal) (scale : Nat) : Literal :=
  let digits := padTo scale (n.int ++ n.frac)
  have hdigits : AllDigits digits := (padTo_spec (n.int_allDigits.append n.frac_allDigits) scale).1
  { negative := n.negative
    int := intPart digits (digits.length - scale)
    frac := digits.drop (digits.length - scale)
    exp := none
    int_ne := (intPart_spec hdigits _).1
    int_allDigits := (intPart_spec hdigits _).2.1
    frac_allDigits := fun c hc => hdigits c (List.mem_of_mem_drop hc) }

theorem length_frac_pointed (n : Literal) (scale : Nat) : (pointed n scale).frac.length = scale := by
  have hlen := (padTo_spec (n.int_allDigits.append n.frac_allDigits) scale).2.1
  simp only [pointed, length_drop]
  omega

theorem text_shifted (n : Literal) (power : Nat) :
    (shifted n power).text = n.sign ++ (n.int ++ n.frac) ++ List.replicate power '0' := by
  simp [text, unsigned, sign, point, expText, shifted]

theorem text_pointed (n : Literal) {scale : Nat} (hscale : 0 < scale) :
    (pointed n scale).text = n.sign ++ placeDecimal (n.int ++ n.frac) scale := by
  have hne : (pointed n scale).frac ≠ [] := by
    intro h
    have hlen := length_frac_pointed n scale
    rw [h] at hlen
    exact Nat.ne_of_lt hscale hlen
  have hsign : (pointed n scale).sign = n.sign := rfl
  have hexp : (pointed n scale).expText = [] := rfl
  rw [placeDecimal_eq _ hscale, text, unsigned, point, if_neg hne, hsign, hexp, append_nil]
  rfl

theorem expandScientificDecimal_text {x : Int} (h : expandScientificDecimal (significandText n) x = .ok t) :
    (∃ power : Nat, x - n.frac.length = power ∧ t = (shifted n power).text) ∨
      ∃ scale : Nat, 0 < scale ∧ x - n.frac.length = -(scale : Int) ∧ t = (pointed n scale).text := by
  simp only [expandScientificDecimal, splitSignificand_text, bind, Except.bind] at h
  split at h
  · rename_i hpower
    have ht := checkExpandedNumberLen_bind h
    obtain ⟨power, hp⟩ := Int.eq_ofNat_of_zero_le hpower
    rw [hp, Int.toNat_natCast] at ht
    exact .inl ⟨power, hp, by rw [← ht, text_shifted]⟩
  · rename_i hpower
    have ht := checkExpandedNumberLen_bind h
    obtain ⟨scale, hs⟩ := Int.eq_ofNat_of_zero_le (by omega : 0 ≤ -(x - n.frac.length))
    have hscale : 0 < scale := by omega
    rw [hs, Int.toNat_natCast] at ht
    exact .inr ⟨scale, hscale, by omega, by rw [← ht, text_pointed n hscale]⟩

theorem formatJSONBNumber_text (h : formatJSONBNumber n.text = .ok t) : (n.exp = none ∧ t = n.text) ∨
      (∃ power : Nat, n.expValue - n.frac.length = power ∧ t = (shifted n power).text) ∨
      ∃ scale : Nat, 0 < scale ∧ n.expValue - n.frac.length = -(scale : Int) ∧ t = (pointed n scale).text := by
  cases hexp : n.exp with
  | none =>
    have htext : n.text = significandText n := by simp [text_eq, expText, hexp]
    rw [htext, formatJSONBNumber_of_no_exponent (not_isMark_significandText n), ← htext] at h
    exact .inl ⟨rfl, (Except.ok.inj h).symm⟩
  | some e =>
    refine .inr ?_
    have htext : n.text = significandText n ++ e.mark :: e.text := by simp [text_eq, expText, hexp]
    have hkept : ∀ c ∈ significandText n, (!isExponentMark c) = true := fun c hc => by
      simp [not_isMark_significandText n c hc]
    have hstop : ∀ c ∈ (e.mark :: e.text).head?, (!isExponentMark c) = false := by
      simpa [isExponentMark_eq] using e.mark_isMark
    have hvalue : n.expValue = e.value := by simp [expValue, hexp]
    simp only [formatJSONBNumber, htext, Text.takeWhile_append_stop hkept hstop,
      Text.dropWhile_append_stop hkept hstop] at h
    split_ifs at h
    split at h
    · cases h
    · rename_i x hx
      rw [hvalue, ← atoi_text hx]
      exact expandScientificDecimal_text h

/-! ## Its value and its form -/

theorem numberValue_text (n : Literal) :
    numberValue n.text = (if n.negative then -1 else 1) * (Nat.ofDigitChars 10 (n.int ++ n.frac) 0 : ℚ) *
      10 ^ (n.expValue - n.frac.length) := by
  rw [numberValue, n.numeral_text]
  rfl

theorem numberValue_shifted {power : Nat} (h : n.expValue - n.frac.length = power) :
    numberValue (shifted n power).text = numberValue n.text := by
  have hdigits : Nat.ofDigitChars 10 ((shifted n power).int ++ (shifted n power).frac) 0 =
      10 ^ power * Nat.ofDigitChars 10 (n.int ++ n.frac) 0 := by
    simp only [shifted, append_nil]
    rw [Nat.ofDigitChars_append, Nat.ofDigitChars_replicate_zero]
  have hexp : (shifted n power).expValue - ((shifted n power).frac.length : Int) = 0 := rfl
  have hsign : (shifted n power).negative = n.negative := rfl
  rw [numberValue_text, numberValue_text, hdigits, hexp, hsign, h, zpow_zero, zpow_natCast]
  push_cast
  ring

theorem numberValue_pointed {scale : Nat} (h : n.expValue - n.frac.length = -(scale : Int)) :
    numberValue (pointed n scale).text = numberValue n.text := by
  have hdigits : Nat.ofDigitChars 10 ((pointed n scale).int ++ (pointed n scale).frac) 0 =
      Nat.ofDigitChars 10 (n.int ++ n.frac) 0 := by
    obtain ⟨hall, -, hvalue⟩ := padTo_spec (n.int_allDigits.append n.frac_allDigits) scale
    rw [← hvalue]
    exact (intPart_spec hall _).2.2.2
  have hexp : (pointed n scale).expValue = 0 := rfl
  have hsign : (pointed n scale).negative = n.negative := rfl
  rw [numberValue_text, numberValue_text, hdigits, length_frac_pointed, hexp, hsign, h, Int.zero_sub]

theorem noLeadingZero_pointed (n : Literal) (scale : Nat) : (pointed n scale).NoLeadingZero :=
  (intPart_spec (padTo_spec (n.int_allDigits.append n.frac_allDigits) scale).1 _).2.2.1

theorem noLeadingZero_shifted (hn : n.NoLeadingZero) (power : Nat) :
    (shifted n power).NoLeadingZero ↔ n.int = ['0'] → n.frac = [] ∧ power = 0 := by
  obtain ⟨c, s, hs, -, -⟩ := n.int_cons
  have hhead : (shifted n power).int.head? = some c := by simp [shifted, hs]
  simp only [Literal.NoLeadingZero, hhead]
  by_cases hzero : n.int = ['0']
  · obtain rfl : c = '0' := by simpa using (List.cons.inj (hs.symm.trans hzero)).1
    simp [hzero, shifted]
  · have hc : c ≠ '0' := by
      rcases hn with hn | hn
      · exact absurd hn hzero
      · simpa [hs] using hn
    simp [hzero, hc]

theorem no_exponent_of_literal (hexp : n.exp = none) : ∀ c ∈ n.text, isMark c = false := by
  have htext : n.text = significandText n := by simp [text_eq, expText, hexp]
  rw [htext]
  exact not_isMark_significandText n

end

/-! The rows of an organization that a transaction sees form a chain at every moment. -/

section

open Lib List World

variable {sha256Hex : Text → Text} {hashtext : Text → Int}

/-! ## Chains of rows -/

inductive RowChain (sha256Hex : Text → Text) : List Row → Prop
  | nil : RowChain sha256Hex []
  | concat {rows : List Row} {r : Row} (h : RowChain sha256Hex rows) (hseq : r.seq = rows.length + 1)
      (hprev : r.prevHash = (rows.getLast?.map Row.rowHash).getD genesisPrevHash)
      (hhash : r.rowHash = sha256Hex r.canonical) : RowChain sha256Hex (rows ++ [r])

variable {rows : List Row}

theorem RowChain.map_seq (h : RowChain sha256Hex rows) : rows.map Row.seq = List.range' 1 rows.length := by
  induction h with
  | nil => rfl
  | concat h hseq _ _ ih =>
    rw [map_append, ih, length_append, length_singleton, List.range'_concat, map_singleton,
      hseq, Nat.one_mul, Nat.add_comm]

theorem RowChain.pairwise_seq (h : RowChain sha256Hex rows) : rows.Pairwise fun a b => a.seq < b.seq := by
  have hrange : (List.range' 1 rows.length).Pairwise (· < ·) := pairwise_lt_range'
  rw [← h.map_seq] at hrange
  exact pairwise_map.mp hrange

theorem latest_concat {r : Row} (h : ∀ a ∈ rows, a.seq < r.seq) : latest (rows ++ [r]) = some r := by
  induction rows with
  | nil => rfl
  | cons a rows ih =>
    have ha : ¬ r.seq < a.seq := Nat.not_lt.mpr (h a mem_cons_self).le
    rw [cons_append, latest, ih fun b hb => h b (mem_cons_of_mem a hb)]
    simp [ha]

section

variable (h : RowChain sha256Hex rows)
include h

theorem RowChain.latest_eq : latest rows = rows.getLast? := by
  obtain rfl | ⟨rows, r, rfl⟩ := rows.eq_nil_or_concat'
  · rfl
  · have hlt := pairwise_append.mp h.pairwise_seq
    rw [latest_concat fun a ha => hlt.2.2 a ha r (by simp), List.getLast?_concat]

theorem RowChain.append_row (c : Call) : RowChain sha256Hex (rows ++ [c.row sha256Hex (latest rows)]) := by
  refine h.concat ?_ ?_ (rowHash_row sha256Hex c _)
  all_goals
    rw [h.latest_eq]
    cases h with
    | nil => rfl
    | concat h hseq _ _ => simp [Call.row, hseq]

theorem verifyFrom_rows (hdepth : ∀ r ∈ rows, r.payload.value.depth ≤ maxNestingDepth) :
    verifyFrom sha256Hex 0 [] (rows.map scanEntry) = .ok () := by
  induction h with
  | nil => rfl
  | @concat rows r _ hseq hprev hhash ih =>
    rw [map_append, map_singleton, verifyFrom_concat]
    refine ⟨ih fun a ha => hdepth a (by simp [ha]), ?_, ?_, ?_⟩
    · simp [scanEntry, hseq]
    · obtain rfl | ⟨rows, a, rfl⟩ := rows.eq_nil_or_concat'
      · exact hprev
      · simpa [lastHash, scanEntry] using hprev
    · rw [rowHash, canonicalString_scanEntry (hdepth r (by simp))]
      exact congrArg Except.ok hhash.symm

end

section World

variable {w : World} {t u : Nat}

theorem rowsOf_finish_self : (w.finish t).rowsOf t = [] := by
  simp [rowsOf, finish, filter_filter]

theorem rowsOf_finish_of_ne (h : u ≠ t) : (w.finish t).rowsOf u = w.rowsOf u := by
  have hkeep : ∀ p ∈ w.pending, (decide (p.1 = u) && !decide (p.1 = t)) = decide (p.1 = u) := by
    rintro ⟨v, r⟩ -
    by_cases hv : v = u <;> simp [hv, h]
  simp only [rowsOf, finish, ne_eq, decide_not, filter_filter]
  rw [filter_congr hkeep]

theorem rowsOf_addRow_self {r : Row} : (w.addRow t r).rowsOf t = w.rowsOf t ++ [r] := by
  simp [rowsOf, addRow]

theorem rowsOf_addRow_of_ne {r : Row} (h : u ≠ t) : (w.addRow t r).rowsOf u = w.rowsOf u := by
  simp [rowsOf, addRow, h.symm]

theorem visible_addRow_self {r : Row} {org : UuidBytes} :
    (w.addRow t r).visible t org = w.visible t org ++ if r.orgId = org then [r] else [] := by
  rw [visible, rowsOf_addRow_self, ← append_assoc, filter_append]
  by_cases h : r.orgId = org <;> simp [visible, addRow, h]

end World

def lockKey (hashtext : Text → Int) (org : UuidBytes) : Int := hashtext (uuidString org)

/-- What a running call has done so far: it holds the lock, and it has seen the last row. -/
def PhaseOk (hashtext : Text → Int) (w : World) (t : Nat) : Phase → Prop
  | .idle | .locking _ => True
  | .selecting c => w.locks (lockKey hashtext c.org) = some t
  | .inserting c last => w.locks (lockKey hashtext c.org) = some t ∧ last = latest (w.visible t c.org)

structure Inv (sha256Hex : Text → Text) (hashtext : Text → Int) (w : World) : Prop where
  committed : ∀ org, RowChain sha256Hex (w.committed.filter fun r => r.orgId = org)
  visible : ∀ t org, RowChain sha256Hex (w.visible t org)
  held : ∀ t, ∀ r ∈ w.rowsOf t, w.locks (lockKey hashtext r.orgId) = some t
  phase : ∀ t, PhaseOk hashtext w t (w.phase t)

section World

variable {w : World} {t u : Nat}

theorem Inv.filter_rowsOf_eq_nil (h : Inv sha256Hex hashtext w) (hut : u ≠ t) {org : UuidBytes}
    (hlock : w.locks (lockKey hashtext org) = some u) : (w.rowsOf t).filter (fun r => r.orgId = org) = [] := by
  refine filter_eq_nil_iff.mpr fun r hr horg => hut ?_
  have hheld := h.held t r hr
  rw [of_decide_eq_true horg, hlock] at hheld
  exact Option.some.inj hheld

theorem PhaseOk.congr {w' : World} {p : Phase} (h : PhaseOk hashtext w t p)
    (hlocks : ∀ k, w.locks k = some t → w'.locks k = some t)
    (hvisible : ∀ org, w.locks (lockKey hashtext org) = some t → w'.visible t org = w.visible t org) :
    PhaseOk hashtext w' t p := by
  cases p with
  | idle | locking => trivial
  | selecting c => exact hlocks _ h
  | inserting c last => exact ⟨hlocks _ h.1, by rw [hvisible _ h.1]; exact h.2⟩

section

variable (h : Inv sha256Hex hashtext w)
include h

theorem Inv.setPhase {p : Phase} (hp : PhaseOk hashtext w t p) : Inv sha256Hex hashtext (w.setPhase t p) where
  __ := h
  phase u := by
    have hphase : PhaseOk hashtext w u ((w.setPhase t p).phase u) := by
      by_cases hu : u = t
      · subst hu
        simpa [setPhase] using hp
      · simpa [World.setPhase, hu] using h.phase u
    exact hphase.congr (fun _ => id) fun _ _ => rfl

theorem Inv.finish (t : Nat) : Inv sha256Hex hashtext (w.finish t) := by
  have hlocks {u : Nat} (hu : u ≠ t) {k : Int} (hk : w.locks k = some u) : (w.finish t).locks k = some u := by
    simp [World.finish, hk, hu]
  have hvisible {u : Nat} (hu : u ≠ t) (org : UuidBytes) : (w.finish t).visible u org = w.visible u org := by
    rw [World.visible, rowsOf_finish_of_ne hu]
    rfl
  refine ⟨h.committed, fun u org => ?_, fun u r hr => ?_, fun u => ?_⟩
  · by_cases hu : u = t
    · rw [hu, World.visible, rowsOf_finish_self, append_nil]
      exact h.committed org
    · exact hvisible hu org ▸ h.visible u org
  · by_cases hu : u = t
    · rw [hu, rowsOf_finish_self] at hr
      exact absurd hr not_mem_nil
    · rw [rowsOf_finish_of_ne hu] at hr
      exact hlocks hu (h.held u r hr)
  · by_cases hu : u = t
    · simp [World.finish, hu, PhaseOk]
    · have hphase : (w.finish t).phase u = w.phase u := by simp [World.finish, hu]
      rw [hphase]
      exact (h.phase u).congr (fun _ => hlocks hu) fun org _ => hvisible hu org

theorem Inv.setLock {key : Int}
    (hfree : w.locks key = none ∨ w.locks key = some t) : Inv sha256Hex hashtext (w.setLock key t) := by
  have hlocks {u : Nat} {k : Int} (hk : w.locks k = some u) : (w.setLock key t).locks k = some u := by
    by_cases hkey : k = key
    · subst hkey
      simpa [World.setLock, hk, eq_comm] using hfree
    · simpa [World.setLock, hkey] using hk
  exact { h with
    held := fun u r hr => hlocks (h.held u r hr)
    phase := fun u => (h.phase u).congr (fun _ => hlocks) fun _ _ => rfl }

theorem Inv.insert {c : Call} (hlock : w.locks (lockKey hashtext c.org) = some t) :
    Inv sha256Hex hashtext ((w.addRow t (c.row sha256Hex (latest (w.visible t c.org)))).setPhase t .idle) := by
  have hself (org : UuidBytes) :
      RowChain sha256Hex ((w.addRow t (c.row sha256Hex (latest (w.visible t c.org)))).visible t org) := by
    rw [visible_addRow_self]
    split_ifs with horg
    · obtain rfl : c.org = org := horg
      exact (h.visible t c.org).append_row c
    · rw [append_nil]
      exact h.visible t org
  have hother {u : Nat} (hu : u ≠ t) (org : UuidBytes) (r : Row) :
      (w.addRow t r).visible u org = w.visible u org := by
    rw [World.visible, rowsOf_addRow_of_ne hu]
    rfl
  refine ⟨h.committed, fun u org => ?_, fun u r hr => ?_, fun u => ?_⟩
  · by_cases hu : u = t
    · exact hu ▸ hself org
    · exact (hother hu org _).symm ▸ h.visible u org
  · by_cases hu : u = t
    · subst hu
      rcases mem_append.mp (rowsOf_addRow_self ▸ hr : r ∈ w.rowsOf u ++ [_]) with hr | hr
      · exact h.held u r hr
      · rw [mem_singleton.mp hr]
        exact hlock
    · exact h.held u r (rowsOf_addRow_of_ne hu ▸ hr : r ∈ w.rowsOf u)
  · by_cases hu : u = t
    · simp [World.setPhase, hu, PhaseOk]
    · have hphase : ((w.addRow t (c.row sha256Hex (latest (w.visible t c.org)))).setPhase t .idle).phase u =
          w.phase u := by simp [World.setPhase, World.addRow, hu]
      rw [hphase]
      exact (h.phase u).congr (fun _ => id) fun org _ => hother hu org _

theorem Inv.commit : Inv sha256Hex hashtext ((w.publish t).finish t) := by
  have hlocks {u : Nat} (hu : u ≠ t) {k : Int} (hk : w.locks k = some u) :
      ((w.publish t).finish t).locks k = some u := by
    simp [World.finish, World.publish, hk, hu]
  have hvisible {u : Nat} (hu : u ≠ t) (org : UuidBytes) : ((w.publish t).finish t).visible u org =
      w.visible t org ++ (w.rowsOf u).filter fun r => r.orgId = org := by
    rw [World.visible, rowsOf_finish_of_ne hu, filter_append]
    rfl
  -- the holder of the lock sees no row of the transaction that commits
  have hsame {u : Nat} (hu : u ≠ t) {org : UuidBytes} (hlock : w.locks (lockKey hashtext org) = some u) :
      ((w.publish t).finish t).visible u org = w.visible u org := by
    rw [hvisible hu, World.visible, World.visible, filter_append, filter_append,
      h.filter_rowsOf_eq_nil hu hlock, append_nil]
  refine ⟨fun org => h.visible t org, fun u org => ?_, fun u r hr => ?_, fun u => ?_⟩
  · by_cases hu : u = t
    · rw [hu, World.visible, rowsOf_finish_self, append_nil]
      exact h.visible t org
    · by_cases hnil : (w.rowsOf u).filter (fun r => r.orgId = org) = []
      · rw [hvisible hu, hnil, append_nil]
        exact h.visible t org
      · obtain ⟨r, hr⟩ := exists_mem_of_ne_nil _ hnil
        obtain ⟨hmem, horg⟩ := mem_filter.mp hr
        rw [hsame hu (of_decide_eq_true horg ▸ h.held u r hmem)]
        exact h.visible u org
  · by_cases hu : u = t
    · rw [hu, rowsOf_finish_self] at hr
      exact absurd hr not_mem_nil
    · rw [rowsOf_finish_of_ne hu] at hr
      exact hlocks hu (h.held u r hr)
  · by_cases hu : u = t
    · simp [World.finish, hu, PhaseOk]
    · have hphase : ((w.publish t).finish t).phase u = w.phase u := by simp [World.finish, World.publish, hu]
      rw [hphase]
      exact (h.phase u).congr (fun _ => hlocks hu) fun org => hsame hu

theorem Inv.step {a : Action} {w' : World}
    (hstep : step sha256Hex hashtext w a = some w') : Inv sha256Hex hashtext w' := by
  cases a with
  | call t currentOrgId args now =>
    simp only [Audit.step] at hstep
    split at hstep
    · split at hstep
      · exact Option.some.inj hstep ▸ h.finish t
      · exact Option.some.inj hstep ▸ h.setPhase trivial
    · simp at hstep
  | lock t =>
    simp only [Audit.step] at hstep
    split at hstep
    · split_ifs at hstep with hfree
      refine Option.some.inj hstep ▸ (h.setLock hfree).setPhase ?_
      simp [PhaseOk, World.setLock, lockKey]
    · simp at hstep
  | select t =>
    simp only [Audit.step] at hstep
    split at hstep
    · rename_i c hphase
      have hlock := h.phase t
      rw [hphase] at hlock
      exact Option.some.inj hstep ▸ h.setPhase ⟨hlock, rfl⟩
    · simp at hstep
  | insert t =>
    simp only [Audit.step] at hstep
    split at hstep
    · rename_i c last hphase
      have hlock := h.phase t
      rw [hphase] at hlock
      obtain ⟨hlock, rfl⟩ := hlock
      split_ifs at hstep
      · exact Option.some.inj hstep ▸ h.finish t
      · exact Option.some.inj hstep ▸ h.insert hlock
    · simp at hstep
  | commit t =>
    simp only [Audit.step] at hstep
    split at hstep
    · exact Option.some.inj hstep ▸ h.commit
    · simp at hstep
  | rollback t => exact Option.some.inj hstep ▸ h.finish t

end

end World

theorem inv_reachable {w : World} (h : (machine sha256Hex hashtext).Reachable w) : Inv sha256Hex hashtext w := by
  refine h.invariant ?_ fun _ _ _ hw => hw.step
  rintro w rfl
  exact ⟨fun _ => .nil, fun _ _ => .nil, fun _ _ hr => absurd hr not_mem_nil, fun _ => trivial⟩

end

open Lib List

/-- Tamper evidence: two verified chains of one length and with one last row hash hold the same rows. -/
theorem verified_chain_committed (sha256Hex : Text → Text) (es es' : List Entry)
    (hlength : es.length = es'.length) (hverified : verifyChain sha256Hex es = .ok ())
    (hverified' : verifyChain sha256Hex es' = .ok ())
    (hlast : es.getLast?.map Entry.rowHash = es'.getLast?.map Entry.rowHash)
    (hinj : ∀ e ∈ es, ∀ e' ∈ es', ∀ s s', canonicalString e = .ok s → canonicalString e' = .ok s' →
      sha256Hex s = sha256Hex s' → s = s') :
    List.Forall₂ SameRow es es' := by
  -- from the last row backwards: equal hashes give equal rows, and those hold the hashes before them
  induction es using List.reverseRecOn generalizing es' with
  | nil =>
    obtain rfl := length_eq_zero_iff.mp hlength.symm
    exact .nil
  | append_singleton es e ih =>
    obtain rfl | ⟨es', e', rfl⟩ := es'.eq_nil_or_concat'
    · simp at hlength
    · obtain ⟨hes, hlink⟩ := verifyFrom_concat.mp hverified
      obtain ⟨hes', hlink'⟩ := verifyFrom_concat.mp hverified'
      obtain ⟨s, hs, hhash⟩ := exists_canonicalString hlink
      obtain ⟨s', hs', hhash'⟩ := exists_canonicalString hlink'
      have hlen : es.length = es'.length := by simpa using hlength
      have hrow : e.rowHash = e'.rowHash := by simpa using hlast
      obtain rfl := hinj e (by simp) e' (by simp) s s' hs hs' (by rw [hhash, hhash', hrow])
      have hsame := sameRow_of_canonicalString_eq hs hs'
      have hprev : es.getLast?.map Entry.rowHash = es'.getLast?.map Entry.rowHash :=
        getLast_rowHash_eq hlen hlink hlink' hsame.prevHash
      exact rel_append (ih es' hlen hes hes' hprev fun d hd d' hd' =>
        hinj d (by simp [hd]) d' (by simp [hd'])) (.cons hsame .nil)

/-- A row that links to `prev` and is hashed by the identity. -/
def sampleRow (seq : Int) (prev : Text) (fields : List Text) (payload : Text) : Entry :=
  let e : Entry :=
    { orgId := 0x11111111111111111111111111111111
      seq := seq
      prevHash := prev
      actorUserId := none
      action := "export".toList
      purpose := []
      policyResult := []
      objectType := []
      objectId := []
      fields := fields
      approvalRef := []
      beforeHash := []
      afterHash := []
      correlationId := []
      requestId := []
      payload := payload
      createdAt := 1767225600000000000
      rowHash := [] }
  { e with rowHash := (canonicalString e).toOption.getD [] }

def sampleChain (fields : List Text) (payload : Text) : List Entry :=
  let first := sampleRow 1 genesisPrevHash fields payload
  [first, sampleRow 2 first.rowHash [] []]

theorem verified_chain_committed_sample :
    List.Forall₂ SameRow (sampleChain ["b".toList, "a".toList] "\x7b\"k\":1.5e1\x7d".toList)
      (sampleChain ["a".toList, "b".toList] "\x7b \"k\" : 15 \x7d".toList) :=
  verified_chain_committed id _ _ (by simp [sampleChain]) (by decide +kernel) (by decide +kernel) (by decide +kernel)
    fun _ _ _ _ _ _ _ _ h => h

/-- The chain the database writes: the committed rows of an organization are numbered without gaps, and the
verifier accepts them unless a payload is nested deeper than its decoder reads. -/
theorem committed_chain_verifies (sha256Hex : Text → Text) (hashtext : Text → Int) {w : World}
    (hw : (machine sha256Hex hashtext).Reachable w) (org : UuidBytes) :
    (loadEntries w org).map Entry.seq = (List.range' 1 (loadEntries w org).length).map Int.ofNat ∧
      ((∀ r ∈ w.committed, r.orgId = org → r.payload.value.depth ≤ maxNestingDepth) →
        verifyChain sha256Hex (loadEntries w org) = .ok ()) := by
  have hchain := (inv_reachable hw).committed org
  have hload : loadEntries w org = (w.committed.filter fun r => r.orgId = org).map scanEntry := by
    rw [loadEntries, (hchain.pairwise_seq.imp Nat.le_of_lt).insertionSort_eq]
  refine ⟨?_, fun hdepth => ?_⟩
  · rw [hload, length_map, ← hchain.map_seq, map_map, map_map]
    rfl
  · rw [hload]
    refine verifyFrom_rows hchain fun r hr => ?_
    obtain ⟨hmem, horg⟩ := mem_filter.mp hr
    exact hdepth r hmem (of_decide_eq_true horg)

def sampleArguments (payload : Option Jsonb) : Arguments where
  orgId := some 1
  actorUserId := none
  action := some "export".toList
  purpose := none
  policyResult := none
  objectType := none
  objectId := none
  fields := some ["b".toList, "a".toList]
  approvalRef := none
  beforeHash := none
  afterHash := none
  correlationId := none
  requestId := none
  payload := payload

def sampleActions : List Action :=
  let call (t : Nat) : Action := .call t (some 1) (sampleArguments none) (1767225600000000 + t)
  [call 0, .lock 0, call 1, .select 0, .insert 0, .commit 0, .lock 1, .select 1, .insert 1, .rollback 1,
    call 2, .lock 2, .select 2, .insert 2, .commit 2]

def sampleWorld : World :=
  ((machine id fun _ => 0).run ⟨[], [], fun _ => none, fun _ => .idle⟩ sampleActions).get (by decide +kernel)

theorem committed_chain_verifies_sample :
    (loadEntries sampleWorld 1).map Entry.seq = [1, 2] ∧ verifyChain id (loadEntries sampleWorld 1) = .ok () :=
  ⟨by decide +kernel, (committed_chain_verifies id (fun _ => 0) ⟨_, rfl, sampleActions, (Option.some_get _).symm⟩ 1).2
    (by decide +kernel)⟩

def nested : Nat → Json
  | 0 => .null
  | n + 1 => .arr [nested n]

theorem render_nested (n : Nat) : ∃ s, (nested n).render = List.replicate n '[' ++ s := by
  induction n with
  | zero => exact ⟨_, rfl⟩
  | succ n ih =>
    obtain ⟨s, hs⟩ := ih
    exact ⟨s ++ [']'], by simp [nested, Json.render, Json.renderElems, hs, replicate_succ, List.intercalate]⟩

def nestedPayload (n : Nat) : Jsonb where
  value := nested n
  numbers := by
    induction n with
    | zero => trivial
    | succ n ih => exact ⟨ih, trivial⟩
  members := by
    induction n with
    | zero => trivial
    | succ n ih => exact ⟨ih, trivial⟩

theorem payloadJson_nested {n : Nat} (h : n = maxNestingDepth + 1) :
    payloadJson (nestedPayload n).text = .error .payload := by
  obtain ⟨s, hs⟩ := render_nested n
  have htext : (nestedPayload n).text = List.replicate n '[' ++ s := hs
  have hdecode : decodeJSONNumber (nestedPayload n).text = none := by
    rw [htext, decodeJSONNumber, h, Json.parseValue_brackets]
    rfl
  have hne : (nestedPayload n).text.isEmpty = false := by
    rw [htext, h, replicate_succ]
    rfl
  rw [payloadJson, payloadValue, hne, hdecode]
  rfl

theorem verifyChain_of_fault {sha256Hex : Text → Text} {e : Entry} {f : Fault} (hseq : e.seq = 1)
    (hprev : e.prevHash = genesisPrevHash) (h : canonicalString e = .error f) :
    verifyChain sha256Hex [e] = .error ⟨0, 1, .fault f⟩ := by
  have hcheck : checkSeq 0 e = .ok () := by simp [checkSeq, hseq]
  have hcheck' : checkPrevHash 0 e [] = .ok () := by simp [checkPrevHash, hprev]
  have hcheck'' : checkRowHash sha256Hex 0 e = .error ⟨0, 1, .fault f⟩ := by
    simp [checkRowHash, rowHash, h, hseq, Except.map]
  simp only [verifyChain, verifyFrom, hcheck, hcheck', hcheck'']
  rfl

/-- A committed append whose payload cannot be read breaks the chain. -/
theorem exists_rejected_append {payload : Jsonb} (h : payloadJson payload.text = .error .payload) :
    ∃ w, (machine (fun _ => []) fun _ => 0).Reachable w ∧
      verifyChain (fun _ => []) (loadEntries w 1) = .error ⟨0, 1, .fault .payload⟩ := by
  let row := Call.row (fun _ => []) ⟨1, "export".toList, sampleArguments payload, 0⟩ none
  have happend : ∃ w, (machine (fun _ => []) fun _ => 0).Reachable w ∧ loadEntries w 1 = [scanEntry row] :=
    ⟨_, ⟨_, rfl, [.call 0 (some 1) (sampleArguments payload) 0, .lock 0, .select 0, .insert 0, .commit 0], rfl⟩, rfl⟩
  obtain ⟨w, hw, hload⟩ := happend
  have hentry : payloadJson (scanEntry row).payload = .error .payload := h
  refine ⟨w, hw, ?_⟩
  rw [hload]
  refine verifyChain_of_fault rfl rfl ?_
  rw [canonicalString_eq, hentry]
  rfl

/-- A payload nested one level deeper than the decoder reads is stored but does not verify. -/
theorem deep_payload_rejected : ∃ w, (machine (fun _ => []) fun _ => 0).Reachable w ∧
    verifyChain (fun _ => []) (loadEntries w 1) = .error ⟨0, 1, .fault .payload⟩ :=
  exists_rejected_append (payloadJson_nested rfl)

/-! ## Numbers -/

/-- The digits keep no superfluous zero in front when the exponent is expanded. -/
def StaysInForm (n : Json.Numeral) : Prop :=
  n.int = ['0'] → n.exp < n.frac.length ∨ n.frac = [] ∧ n.exp = 0

instance (n : Json.Numeral) : Decidable (StaysInForm n) := inferInstanceAs (Decidable (_ → _))

/-- A formatted number has no exponent, keeps the value and is formatted as itself; it is a number of the grammar unless
zeros are left in front of the expanded digits. -/
theorem formatJSONBNumber_preserves {s t : Text} (hs : Json.IsNumber s) (h : formatJSONBNumber s = .ok t) :
    (∀ c ∈ t, Json.isMark c = false) ∧ Json.numberValue t = Json.numberValue s ∧ formatJSONBNumber t = .ok t ∧
      (Json.IsNumber t ↔ StaysInForm (Json.numeral s)) := by
  obtain ⟨n, rfl⟩ := hs.exists_literal
  have hlead := n.isNumber_text.mp hs
  rw [n.numeral_text]
  have hmain : ∀ m : Json.Literal, m.exp = none → Json.numberValue m.text = Json.numberValue n.text →
      (m.NoLeadingZero ↔ StaysInForm ⟨n.negative, n.int, n.frac, n.expValue⟩) → t = m.text →
        (∀ c ∈ t, Json.isMark c = false) ∧ Json.numberValue t = Json.numberValue n.text ∧
          formatJSONBNumber t = .ok t ∧ (Json.IsNumber t ↔ StaysInForm ⟨n.negative, n.int, n.frac, n.expValue⟩) := by
    rintro m hexp hvalue hform rfl
    have hmarks := no_exponent_of_literal hexp
    exact ⟨hmarks, hvalue, formatJSONBNumber_of_no_exponent hmarks, m.isNumber_text.trans hform⟩
  rcases formatJSONBNumber_text h with ⟨hexp, ht⟩ | ⟨power, hpower, ht⟩ | ⟨scale, hscale, hpower, ht⟩
  · refine hmain n hexp rfl (iff_of_true hlead fun _ => ?_) ht
    have hvalue : n.expValue = 0 := by simp [Json.Literal.expValue, hexp]
    rcases eq_nil_or_concat' n.frac with hfrac | ⟨l, c, hfrac⟩
    · exact .inr ⟨hfrac, hvalue⟩
    · exact .inl (by simp [hvalue, hfrac])
  · refine hmain (shifted n power) rfl (numberValue_shifted hpower) ?_ ht
    rw [noLeadingZero_shifted hlead, StaysInForm]
    refine imp_congr_right fun _ => ?_
    constructor
    · rintro ⟨hfrac, hzero⟩
      exact .inr ⟨hfrac, by simpa [hfrac, hzero] using hpower⟩
    · rintro (hlt | ⟨hfrac, hexp⟩)
      · simp only at hlt
        omega
      · simp only at hexp hfrac
        exact ⟨hfrac, by simp only [hfrac, hexp, length_nil] at hpower; omega⟩
  · refine hmain (pointed n scale) rfl (numberValue_pointed hpower) ?_ ht
    refine iff_of_true (noLeadingZero_pointed n scale) fun _ => .inl ?_
    simp only
    omega

theorem formatJSONBNumber_preserves_sample :
    formatJSONBNumber "-1.230e-5".toList = .ok "-0.00001230".toList ∧ Json.IsNumber "-0.00001230".toList := by
  have hformat : formatJSONBNumber "-1.230e-5".toList = .ok "-0.00001230".toList := by decide
  exact ⟨hformat, (formatJSONBNumber_preserves (by decide) hformat).2.2.2.mpr (by decide)⟩

/-- Zeros in front are left where PostgreSQL has none: `0.5e1` becomes `05`, and `0e5` six zeros. -/
theorem formatJSONBNumber_leadingZero :
    Json.IsNumber "0.5e1".toList ∧ formatJSONBNumber "0.5e1".toList = .ok "05".toList ∧ ¬ Json.IsNumber "05".toList ∧
      Json.IsNumber "0e5".toList ∧ formatJSONBNumber "0e5".toList = .ok "000000".toList ∧
      ¬ Json.IsNumber "000000".toList := by
  decide

end IbexHarness.Audit
