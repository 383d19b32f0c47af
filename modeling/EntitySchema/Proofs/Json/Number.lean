import EntitySchema.Json.Reader
import EntitySchema.Json.Writer
import EntitySchema.Proofs.Number.Rounding
import EntitySchema.Proofs.Text.Numeral

/-!
# Proofs/Json/Number — numbers read back

    digits . digits e±digits ──readWhole, readFraction, readExponent──▸ ofDecimal

A numeral is read part by part, each part up to the first character that cannot belong to it; what
follows a value in compact JSON never does (`Delimits`).  So a whole number reads back as it is, and
a finite double as the value of its shortest digits, which is the double itself
(`readNumber_writeNumber`).
-/

namespace EntitySchema.Json

open Text

/-- Whether the text is at its end, or goes on with what closes or separates values. -/
def Delimits (rest : List Char) : Prop := ∀ c ∈ rest.head?, c = ',' ∨ c = ']' ∨ c = '\x7d'

theorem delimits_nil : Delimits [] := fun _ h => by cases h

theorem delimits_comma (cs : List Char) : Delimits (',' :: cs) := fun c h => by
  cases h
  exact .inl rfl

theorem delimits_bracket (cs : List Char) : Delimits (']' :: cs) := fun c h => by
  cases h
  exact .inr (.inl rfl)

theorem delimits_brace (cs : List Char) : Delimits ('\x7d' :: cs) := fun c h => by
  cases h
  exact .inr (.inr rfl)

/-! ## The parts of a numeral -/

theorem not_startsWithDigit_of_delimits {rest : List Char} (h : Delimits rest) :
    ¬ StartsWithDigit rest := by
  rintro ⟨c, hc, hd⟩
  rcases h c hc with rfl | rfl | rfl <;> exact absurd hd (by decide)

theorem not_startsWithDigit_cons (c : Char) (cs : List Char) (h : asciiDigit? c = none) :
    ¬ StartsWithDigit (c :: cs) := by
  rintro ⟨c', hc, hd⟩
  cases hc
  rw [h] at hd
  cases hd

theorem readFraction_of_delimits {rest : List Char} (h : Delimits rest) :
    readFraction rest = ([], rest) := by
  cases rest with
  | nil => rfl
  | cons c cs => rcases h c rfl with rfl | rfl | rfl <;> rfl

theorem readExponent_of_delimits {rest : List Char} (h : Delimits rest) :
    readExponent rest = (none, rest) := by
  cases rest with
  | nil => rfl
  | cons c cs => rcases h c rfl with rfl | rfl | rfl <;> rfl

/-- The digits before the point; a zero in front of others would be read alone. -/
theorem readWhole_map_append (ds : List ℕ) {rest : List Char} (hd : ∀ d ∈ ds, d < 10)
    (hne : ds ≠ []) (hhead : ds.head? ≠ some 0) (hr : ¬ StartsWithDigit rest) :
    readWhole (ds.map digitChar ++ rest) = some (ds, rest) := by
  cases ds with
  | nil => exact absurd rfl hne
  | cons d ds =>
    have hd0 : digitChar d ≠ '0' :=
      digitChar_ne_zero (hd d (by simp)) fun h0 => hhead (by rw [h0]; rfl)
    have hread := readDigits_map_append hr hd
    rw [List.map_cons, List.cons_append] at hread ⊢
    rw [readWhole.eq_def]
    split
    next heq => exact absurd (List.cons.inj heq).1 hd0
    next => rw [hread]

@[simp] theorem readWhole_zero (cs : List Char) : readWhole ('0' :: cs) = some ([0], cs) := rfl

theorem readFraction_map_append (ds : List ℕ) {rest : List Char} (hd : ∀ d ∈ ds, d < 10)
    (hne : ds ≠ []) (hr : ¬ StartsWithDigit rest) :
    readFraction ('.' :: (ds.map digitChar ++ rest)) = (ds, rest) := by
  cases ds with
  | nil => exact absurd rfl hne
  | cons d ds => rw [readFraction, readDigits_map_append hr hd]

/-- An exponent is written with its sign. -/
theorem readExponent_map_append {ds : List ℕ} {rest : List Char} (negative : Bool)
    (hd : ∀ d ∈ ds, d < 10) (hne : ds ≠ []) (hr : ¬ StartsWithDigit rest) :
    readExponent ('e' :: (if negative then '-' else '+') :: (ds.map digitChar ++ rest))
      = (some (if negative then -(numeral ds : ℤ) else numeral ds), rest) := by
  cases ds with
  | nil => exact absurd rfl hne
  | cons d ds =>
    rw [readExponent, if_pos (.inl rfl)]
    cases negative <;> simp only [readSign, Bool.false_eq_true, if_false, if_true,
      readDigits_map_append hr hd]

/-- The parts of a number put together. -/
theorem readUnsigned_eq {cs cs₁ cs₂ cs₃ : List Char} {whole fraction : List ℕ}
    {exponent : Option ℤ} (negative : Bool) (hw : readWhole cs = some (whole, cs₁))
    (hf : readFraction cs₁ = (fraction, cs₂)) (he : readExponent cs₂ = (exponent, cs₃)) :
    readUnsigned negative cs =
      if fraction = [] ∧ exponent = none then
        if digitLimit < whole.length then .error (.tooLong whole.length)
        else .ok (.int (if negative then -(numeral whole : ℤ) else numeral whole), cs₃)
      else
        .ok (.float (.ofDecimal negative (numeral (whole ++ fraction))
          (exponent.getD 0 - fraction.length)), cs₃) := by
  simp only [readUnsigned, hw, required, bind, Except.bind, hf, he]
  rfl

/-! ## Whole numbers -/

theorem readUnsigned_ofNat (negative : Bool) {n : ℕ} (hn : (ofNat n).length ≤ digitLimit)
    {rest : List Char} (hr : Delimits rest) :
    readUnsigned negative (ofNat n ++ rest)
      = .ok (.int (if negative then -(n : ℤ) else n), rest) := by
  have hw : ∃ ds, readWhole (ofNat n ++ rest) = some (ds, rest) ∧ numeral ds = n ∧
      ds.length = (ofNat n).length := by
    rcases Nat.eq_zero_or_pos n with rfl | hpos
    · exact ⟨[0], rfl, rfl, rfl⟩
    · obtain ⟨ds, hds, hlt, hval, hne, hhead⟩ := exists_ofNat_eq n
      rw [hds]
      exact ⟨ds, readWhole_map_append _ hlt hne (hhead hpos.ne')
        (not_startsWithDigit_of_delimits hr), hval, (List.length_map _).symm⟩
  obtain ⟨ds, hw, hval, hlength⟩ := hw
  rw [readUnsigned_eq negative hw (readFraction_of_delimits hr) (readExponent_of_delimits hr),
    if_pos ⟨rfl, rfl⟩, if_neg (by omega), hval]

/-! ## Doubles

One lemma for each layout of a numeral: below one, with the point inside the digits, with the point
behind them, and with an exponent. -/

section Layout

variable {ds : List ℕ} {rest : List Char} (negative : Bool) (hlt : ∀ d ∈ ds, d < 10)
  (hne : ds ≠ []) (hr : Delimits rest)

include hlt hne hr

theorem readUnsigned_below_one (k : ℕ) :
    readUnsigned negative ('0' :: '.' :: (List.replicate k '0' ++ ds.map digitChar) ++ rest)
      = .ok (.float (.ofDecimal negative (numeral ds) (-(k + ds.length : ℕ))), rest) := by
  have hzeros : List.replicate k '0' = (List.replicate k 0).map digitChar := by
    rw [List.map_replicate]
    rfl
  have hlt' : ∀ d ∈ List.replicate k 0 ++ ds, d < 10 := fun d hd => by
    rcases List.mem_append.mp hd with hd | hd
    · rw [List.eq_of_mem_replicate hd]
      decide
    · exact hlt d hd
  have hne' : List.replicate k 0 ++ ds ≠ [] := by simp [hne]
  have hf := readFraction_map_append _ hlt' hne' (not_startsWithDigit_of_delimits hr)
  rw [List.map_append, ← hzeros] at hf
  have hval : numeral ([0] ++ (List.replicate k 0 ++ ds)) = numeral ds :=
    numeral_zeros_append (k + 1) ds
  rw [List.cons_append, List.cons_append,
    readUnsigned_eq negative (readWhole_zero _) hf (readExponent_of_delimits hr),
    if_neg (fun h => hne' h.1), hval, List.length_append, List.length_replicate]
  simp

theorem readUnsigned_point (hhead : ds.head? ≠ some 0) {p : ℕ} (hp : 0 < p) (hlen : p < ds.length) :
    readUnsigned negative ((ds.map digitChar).take p ++ '.' :: (ds.map digitChar).drop p ++ rest)
      = .ok (.float (.ofDecimal negative (numeral ds) (p - ds.length)), rest) := by
  have hw := readWhole_map_append (ds.take p) (fun d hd => hlt d (List.mem_of_mem_take hd))
    (by simp [hne, hp.ne']) (by rwa [List.head?_take, if_neg hp.ne'])
    (not_startsWithDigit_cons '.' ((ds.drop p).map digitChar ++ rest) rfl)
  have hdrop : ds.drop p ≠ [] := by simpa using hlen
  have hf := readFraction_map_append _ (fun d hd => hlt d (List.mem_of_mem_drop hd)) hdrop
    (not_startsWithDigit_of_delimits hr)
  rw [← List.map_take, ← List.map_drop, List.append_assoc, List.cons_append,
    readUnsigned_eq negative hw hf (readExponent_of_delimits hr), if_neg (fun h => hdrop h.1),
    List.take_append_drop, List.length_drop, Option.getD_none]
  have he : (0 : ℤ) - (ds.length - p : ℕ) = p - ds.length := by omega
  rw [he]

theorem readUnsigned_integral (hhead : ds.head? ≠ some 0) (k : ℕ) :
    readUnsigned negative (ds.map digitChar ++ List.replicate k '0' ++ ['.', '0'] ++ rest)
      = .ok (.float (.ofDecimal negative (numeral ds) k), rest) := by
  have hzeros : List.replicate k '0' = (List.replicate k 0).map digitChar := by
    rw [List.map_replicate]
    rfl
  have hlt' : ∀ d ∈ ds ++ List.replicate k 0, d < 10 := fun d hd => by
    rcases List.mem_append.mp hd with hd | hd
    · exact hlt d hd
    · rw [List.eq_of_mem_replicate hd]
      decide
  have hw := readWhole_map_append _ hlt' (by simp [hne])
    (by rwa [List.head?_append_of_ne_nil _ hne])
    (not_startsWithDigit_cons '.' ('0' :: rest) rfl)
  have hf := readFraction_map_append [0] (by simp) (by simp)
    (not_startsWithDigit_of_delimits hr)
  have hval : numeral (ds ++ List.replicate k 0 ++ [0]) = numeral ds * 10 ^ (k + 1) := by
    rw [List.append_assoc, ← List.replicate_succ', numeral_append_zeros]
  have hmove := Magnitude.ofDecimal_mul_pow (numeral ds) (k + 1) k
  have he : (0 : ℤ) - (1 : ℕ) = k - (k + 1 : ℕ) := by omega
  rw [hzeros, ← List.map_append, List.append_assoc,
    show ['.', '0'] ++ rest = '.' :: '0' :: rest from rfl,
    readUnsigned_eq negative hw hf (readExponent_of_delimits hr), if_neg (by simp), hval,
    Binary64.ofDecimal, Binary64.ofDecimal, ← hmove, Option.getD_none, List.length_singleton, he]

theorem readUnsigned_scientific (hhead : ds.head? ≠ some 0) (below : Bool) {es : List ℕ}
    (hes : ∀ d ∈ es, d < 10) (hes' : es ≠ []) :
    readUnsigned negative ((ds.map digitChar).take 1
        ++ (if ds.length ≤ 1 then [] else '.' :: (ds.map digitChar).drop 1)
        ++ 'e' :: (if below then '-' else '+') :: es.map digitChar ++ rest)
      = .ok (.float (.ofDecimal negative (numeral ds)
          ((if below then -(numeral es : ℤ) else numeral es) - (ds.length - 1 : ℕ))), rest) := by
  have he := readExponent_map_append below hes hes' (not_startsWithDigit_of_delimits hr)
  have hexp : ∀ cs, ¬ StartsWithDigit ('e' :: cs) := fun cs => not_startsWithDigit_cons 'e' cs rfl
  match ds, hlt, hne, hhead with
  | [d], hlt, hne, hhead =>
    have hw := readWhole_map_append _ hlt hne hhead
      (hexp ((if below then '-' else '+') :: (es.map digitChar ++ rest)))
    have htext : (List.map digitChar [d]).take 1
        ++ (if [d].length ≤ 1 then [] else '.' :: (List.map digitChar [d]).drop 1)
        ++ 'e' :: (if below then '-' else '+') :: es.map digitChar ++ rest
        = [d].map digitChar
          ++ 'e' :: (if below then '-' else '+') :: (es.map digitChar ++ rest) := by simp
    rw [htext, readUnsigned_eq negative hw rfl he, if_neg (by simp)]
    simp
  | d :: d' :: ds, hlt, hne, hhead =>
    have hw := readWhole_map_append [d] (fun x hx => hlt x (by simp_all)) (by simp) hhead
      (not_startsWithDigit_cons '.' ((d' :: ds).map digitChar
        ++ 'e' :: (if below then '-' else '+') :: (es.map digitChar ++ rest)) rfl)
    have hf := readFraction_map_append (d' :: ds) (fun x hx => hlt x (.tail d hx)) (by simp)
      (hexp ((if below then '-' else '+') :: (es.map digitChar ++ rest)))
    have htext : (List.map digitChar (d :: d' :: ds)).take 1
        ++ (if (d :: d' :: ds).length ≤ 1 then []
          else '.' :: (List.map digitChar (d :: d' :: ds)).drop 1)
        ++ 'e' :: (if below then '-' else '+') :: es.map digitChar ++ rest
        = [d].map digitChar ++ '.' :: ((d' :: ds).map digitChar
          ++ 'e' :: (if below then '-' else '+') :: (es.map digitChar ++ rest)) := by simp
    rw [htext, readUnsigned_eq negative hw hf he, if_neg (by simp)]
    simp

end Layout

/-- An exponent of one digit gets a zero in front. -/
theorem exists_padded_eq (n : ℕ) :
    ∃ es, (if (ofNat n).length < 2 then '0' :: ofNat n else ofNat n) = es.map digitChar ∧
      (∀ d ∈ es, d < 10) ∧ es ≠ [] ∧ numeral es = n := by
  obtain ⟨es, hes, hlt, hval, hne, -⟩ := exists_ofNat_eq n
  split
  · refine ⟨0 :: es, by rw [hes]; rfl, ?_, by simp, ?_⟩
    · intro d hd
      rcases List.mem_cons.mp hd with rfl | hd
      · decide
      · exact hlt d hd
    · exact (numeral_zeros_append 1 es).trans hval
  · exact ⟨es, hes, hlt, hne, hval⟩

/-- **The numeral of a decimal is read as the decimal.** -/
theorem readUnsigned_decimal (negative : Bool) {d : Decimal} (hpos : d.digits ≠ 0)
    {rest : List Char} (hr : Delimits rest) :
    readUnsigned negative (d.text ++ rest)
      = .ok (.float (.ofDecimal negative d.digits d.exponent), rest) := by
  obtain ⟨ds, hds, hlt, hval, hne, hhead⟩ := exists_ofNat_eq d.digits
  have hhead := hhead hpos
  have hlen : 0 < ds.length := List.length_pos_iff.mpr hne
  rw [Decimal.text, hds, ← hval]
  simp only [List.length_map]
  split
  · split_ifs with hle hlt'
    · rw [readUnsigned_below_one negative hlt hne hr]
      congr 4
      omega
    · have hp : ((d.exponent + ds.length).toNat : ℤ) = d.exponent + ds.length := by omega
      rw [readUnsigned_point negative hlt hne hr hhead (by omega) (by omega), hp]
      congr 4
      omega
    · have hk : ((d.exponent + ds.length).toNat - ds.length : ℕ) = d.exponent := by omega
      rw [readUnsigned_integral negative hlt hne hr hhead, hk]
  · obtain ⟨es, hes, hes', hes'', hval'⟩ := exists_padded_eq (d.exponent + ds.length - 1).natAbs
    rw [hes]
    have h := readUnsigned_scientific negative hlt hne hr hhead
      (decide (d.exponent + ds.length - 1 < 0)) hes' hes''
    simp only [decide_eq_true_eq] at h
    rw [h, hval']
    congr 4
    split <;> omega

theorem readUnsigned_magnitude (negative : Bool) (m : Magnitude) {rest : List Char}
    (hr : Delimits rest) :
    readUnsigned negative (m.text ++ rest) = .ok (.float (.signed negative m), rest) := by
  rw [Magnitude.text]
  split_ifs with h0
  · have hzero : m = .zero := Magnitude.ext h0
    have hf := readFraction_map_append [0] (by simp) (by simp)
      (not_startsWithDigit_of_delimits hr)
    rw [show ['0', '.', '0'] ++ rest = '0' :: '.' :: ([0].map digitChar ++ rest) from rfl,
      readUnsigned_eq negative (readWhole_zero _) hf (readExponent_of_delimits hr),
      if_neg (by simp), show numeral ([0] ++ [0]) = 0 from rfl, Binary64.ofDecimal,
      Magnitude.ofDecimal_zero, hzero]
  · have hpos : m.shortest.digits ≠ 0 := fun hd => by
      have h := m.ofDecimal_shortest
      rw [hd, Magnitude.ofDecimal_zero] at h
      exact h0 (congrArg Magnitude.rank h).symm
    rw [readUnsigned_decimal negative hpos hr, Binary64.ofDecimal, m.ofDecimal_shortest]

/-! ## Signs

What is read without a sign starts with a digit, so a sign is told from a word by what follows. -/

theorem startsWithDigit_of_readUnsigned {negative : Bool} {cs : List Char}
    {r : Number × List Char} (h : readUnsigned negative cs = .ok r) : StartsWithDigit cs := by
  by_contra hd
  have hw : readWhole cs = none := by
    rw [readWhole.eq_def]
    split
    · exact absurd ⟨'0', rfl, rfl⟩ hd
    · rw [readDigits_eq_nil hd]
  rw [readUnsigned, hw] at h
  cases h

theorem readNumber_of_digit {cs : List Char} (h : StartsWithDigit cs) :
    readNumber cs = readUnsigned false cs := by
  obtain ⟨c, hc, hd⟩ := h
  rw [readNumber.eq_def]
  split <;> first | rfl | cases hc; cases hd

theorem readNumber_minus_of_digit {cs : List Char} (h : StartsWithDigit cs) :
    readNumber ('-' :: cs) = readUnsigned true cs := by
  obtain ⟨c, hc, hd⟩ := h
  rw [readNumber.eq_def]
  split
  next heq => cases heq
  next heq => cases heq
  next heq =>
    cases (List.cons.inj heq).2
    cases hc
    cases hd
  next heq =>
    cases heq
    rfl
  next hsign => exact (hsign cs rfl).elim

theorem readNumber_of_readUnsigned {cs : List Char} {r : Number × List Char}
    (h : readUnsigned false cs = .ok r) : readNumber cs = .ok r :=
  (readNumber_of_digit (startsWithDigit_of_readUnsigned h)).trans h

theorem readNumber_minus_of_readUnsigned {cs : List Char} {r : Number × List Char}
    (h : readUnsigned true cs = .ok r) : readNumber ('-' :: cs) = .ok r :=
  (readNumber_minus_of_digit (startsWithDigit_of_readUnsigned h)).trans h

/-- A double is read as it was written, not-a-number and infinity by their words. -/
theorem readNumber_textWith : ∀ (x : Binary64) {rest : List Char}, Delimits rest →
    readNumber (writeNumber (.float x) ++ rest) = .ok (.float x, rest)
  | .nan, _, _ => rfl
  | .signed negative m, rest, hr => by
      rw [writeNumber, Binary64.textWith]
      by_cases hm : m.isFinite = true
      · rw [if_pos hm]
        have h := readUnsigned_magnitude negative m hr
        cases negative with
        | false => exact readNumber_of_readUnsigned h
        | true => exact readNumber_minus_of_readUnsigned h
      · have hinf : m = .infinity := by
          refine Magnitude.ext (Nat.le_antisymm m.rank_le (Nat.le_of_not_lt fun hlt => hm ?_))
          exact decide_eq_true hlt
        rw [if_neg hm, hinf]
        cases negative <;> rfl

/-- **A number is read as it was written**, if it is short. -/
theorem readNumber_writeNumber : ∀ {n : Number} {rest : List Char}, n.isShort → Delimits rest →
    readNumber (writeNumber n ++ rest) = .ok (n, rest)
  | .int (.ofNat _), _, hn, hr =>
      readNumber_of_readUnsigned (readUnsigned_ofNat false (of_decide_eq_true hn) hr)
  | .int (.negSucc _), _, hn, hr =>
      readNumber_minus_of_readUnsigned (readUnsigned_ofNat true (of_decide_eq_true hn) hr)
  | .float x, _, _, hr => readNumber_textWith x hr

end EntitySchema.Json
