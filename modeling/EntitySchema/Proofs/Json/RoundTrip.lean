import EntitySchema.Proofs.Json.Number
import EntitySchema.Proofs.Json.Text

/-!
# Proofs/Json/RoundTrip — compact JSON reads back

    write v ++ rest ──readValue──▸ (v, rest)

A value whose mappings have distinct keys, and whose whole numbers are short, reads back from its
compact text, whatever closes or separates values behind it (`readValue_write`).  The induction is
on the value; the length of its text bounds the fuel, since every level of nesting and every item
spends at least one character.
-/

namespace EntitySchema.Json

open Text
open Value (DistinctList DistinctMembers)

/-! ## What a text starts with -/

/-- Whether a number may start with the character. -/
def opensNumber (c : Char) : Bool := c = 'N' || c = 'I' || c = '-' || (asciiDigit? c).isSome

theorem opensNumber_of_readNumber {cs : List Char} {r : Number × List Char}
    (h : readNumber cs = .ok r) : ∃ c cs', cs = c :: cs' ∧ opensNumber c = true := by
  rw [readNumber.eq_def] at h
  split at h
  · exact ⟨'N', _, rfl, rfl⟩
  · exact ⟨'I', _, rfl, rfl⟩
  · exact ⟨'-', _, rfl, rfl⟩
  · exact ⟨'-', _, rfl, rfl⟩
  · obtain ⟨c, hc, hd⟩ := startsWithDigit_of_readUnsigned h
    exact ⟨c, cs.tail, List.eq_cons_of_mem_head? hc, by simp [opensNumber, hd]⟩

/-- Where a number starts stands no space. -/
theorem isSpace_of_opensNumber {c : Char} (h : opensNumber c = true) : isSpace c = false := by
  refine Bool.eq_false_iff.mpr fun hc => ?_
  simp only [isSpace, Bool.or_eq_true, decide_eq_true_eq] at hc
  rcases hc with ((rfl | rfl) | rfl) | rfl <;> exact absurd h (by decide)

theorem skipSpace_cons {c : Char} (hc : isSpace c = false) (cs : List Char) :
    skipSpace (c :: cs) = c :: cs := by
  rw [skipSpace, List.dropWhile_cons, hc, if_neg Bool.false_ne_true]

/-- Where a number starts, nothing else does. -/
theorem readValue_of_readNumber {cs rest : List Char} {n : Number}
    (h : readNumber cs = .ok (n, rest)) (fuel : ℕ) :
    readValue (fuel + 1) cs = .ok (.number n, rest) := by
  obtain ⟨c, cs, rfl, hc⟩ := opensNumber_of_readNumber h
  rw [readValue, skipSpace_cons (isSpace_of_opensNumber hc)]
  split
  case h_7 => rw [h]; rfl
  all_goals next heq =>
    rw [(List.cons.inj heq).1] at hc
    exact absurd hc (by decide)

/-- A value starts with a character that neither is a space nor closes a list. -/
theorem exists_write_eq : ∀ {v : Value}, v.isShort →
    ∃ c cs, write v = c :: cs ∧ isSpace c = false ∧ c ≠ ']'
  | .null, _ => ⟨'n', _, rfl, rfl, by decide⟩
  | .bool true, _ => ⟨'t', _, rfl, rfl, by decide⟩
  | .bool false, _ => ⟨'f', _, rfl, rfl, by decide⟩
  | .text _, _ => ⟨'"', _, rfl, rfl, by decide⟩
  | .list _, _ => ⟨'[', _, rfl, rfl, by decide⟩
  | .map _, _ => ⟨'\x7b', _, rfl, rfl, by decide⟩
  | .number n, hs => by
      have h := readNumber_writeNumber (n := n) hs delimits_nil
      rw [List.append_nil] at h
      obtain ⟨c, cs, hcs, hc⟩ := opensNumber_of_readNumber h
      refine ⟨c, cs, hcs, isSpace_of_opensNumber hc, ?_⟩
      rintro rfl
      exact absurd hc (by decide)

/-! ## One item, one member -/

section Step

variable {fuel : ℕ} {x : Value} {cs cs' rest : List Char}

theorem readItems_last (h : readValue fuel cs = .ok (x, ']' :: rest)) :
    readItems (fuel + 1) cs = .ok ([x], rest) := by
  rw [readItems, h]
  rfl

theorem readItems_more {xs : List Value} (h : readValue fuel cs = .ok (x, ',' :: cs'))
    (h' : readItems fuel cs' = .ok (xs, rest)) :
    readItems (fuel + 1) cs = .ok (x :: xs, rest) := by
  rw [readItems, h]
  change (readItems fuel cs' >>= fun r => pure (x :: r.1, r.2)) = _
  rw [h']
  rfl

theorem readMembers_last (k : String) (h : readValue fuel cs = .ok (x, '\x7d' :: rest)) :
    readMembers (fuel + 1) (writeText k ++ ':' :: cs) = .ok ([(k, x)], rest) := by
  obtain ⟨cs₁, hcs, hread⟩ := readText_writeText k (':' :: cs)
  rw [hcs, readMembers, skipSpace_cons rfl]
  simp only [hread, required, bind, Except.bind, skipSpace_cons (c := ':') rfl, h]
  rfl

theorem readMembers_more (k : String) {ms : List (String × Value)}
    (h : readValue fuel cs = .ok (x, ',' :: cs'))
    (h' : readMembers fuel cs' = .ok (ms, rest)) :
    readMembers (fuel + 1) (writeText k ++ ':' :: cs) = .ok ((k, x) :: ms, rest) := by
  obtain ⟨cs₁, hcs, hread⟩ := readText_writeText k (':' :: cs)
  rw [hcs, readMembers, skipSpace_cons rfl]
  simp only [hread, required, bind, Except.bind, skipSpace_cons (c := ':') rfl,
    skipSpace_cons (c := ',') rfl, h, h']
  rfl

theorem readValue_bracket {c : Char} (hc : isSpace c = false) (hne : c ≠ ']') :
    readValue (fuel + 1) ('[' :: c :: cs)
      = (readItems fuel (c :: cs)).map fun (xs, rest) => (.list xs, rest) := by
  rw [readValue, skipSpace_cons (c := '[') rfl]
  simp only [skipSpace_cons hc]
  split
  next heq => exact absurd (List.cons.inj heq).1 hne
  next => rfl

theorem readValue_brace :
    readValue (fuel + 1) ('\x7b' :: '"' :: cs)
      = (readMembers fuel ('"' :: cs)).map fun (ms, rest) => (.map (Pairs.dedup ms), rest) := by
  rw [readValue, skipSpace_cons (c := '\x7b') rfl]
  rfl

end Step

@[simp] theorem writeItems_more (x y : Value) (xs : List Value) :
    writeItems (x :: y :: xs) = write x ++ ',' :: writeItems (y :: xs) := rfl

@[simp] theorem writeMembers_more (k : String) (x : Value) (m : String × Value)
    (ms : List (String × Value)) : writeMembers ((k, x) :: m :: ms)
      = writeText k ++ ':' :: (write x ++ ',' :: writeMembers (m :: ms)) := rfl

/-- A list of items starts as its first item does. -/
theorem exists_writeItems_eq {x : Value} (hx : x.isShort) (xs : List Value) :
    ∃ c cs, writeItems (x :: xs) = c :: cs ∧ isSpace c = false ∧ c ≠ ']' := by
  obtain ⟨c, cs, hcs, h⟩ := exists_write_eq hx
  cases xs with
  | nil => exact ⟨c, cs, hcs, h⟩
  | cons y xs => exact ⟨c, cs ++ ',' :: writeItems (y :: xs), by rw [writeItems_more, hcs]; rfl, h⟩

/-- A list of members starts with a quote. -/
theorem exists_writeMembers_eq (k : String) (x : Value) (ms : List (String × Value)) :
    ∃ cs, writeMembers ((k, x) :: ms) = '"' :: cs := by
  cases ms <;> exact ⟨_, rfl⟩

/-! ## Values -/

open Value (allNumbersList allNumbersMembers)

mutual

/-- **A value is read as it was written.** -/
theorem readValue_write : ∀ (v : Value) {fuel : ℕ} {rest : List Char}, v.Distinct → v.isShort →
    Delimits rest → (write v).length ≤ fuel →
    readValue (fuel + 1) (write v ++ rest) = .ok (v, rest)
  | .null, _, _, _, _, _, _ => rfl
  | .bool true, _, _, _, _, _, _ => rfl
  | .bool false, _, _, _, _, _, _ => rfl
  | .number _, fuel, _, _, hs, hr, _ => readValue_of_readNumber (readNumber_writeNumber hs hr) fuel
  | .text s, fuel, rest, _, _, _, _ => by
      obtain ⟨cs, hcs, hread⟩ := readText_writeText s rest
      rw [write, hcs, readValue, skipSpace_cons rfl]
      simp only [hread]
      rfl
  | .list [], _, _, _, _, _, _ => rfl
  | .list (x :: xs), fuel, rest, hd, hs, _, hfuel => by
      simp only [write, List.length_cons, List.length_append] at hfuel
      obtain ⟨fuel, rfl⟩ : ∃ n, fuel = n + 2 := ⟨fuel - 2, by omega⟩
      have hitems : readItems (fuel + 2) (writeItems (x :: xs) ++ ']' :: rest)
          = .ok (x :: xs, rest) :=
        readItems_writeItems (x :: xs) (List.cons_ne_nil x xs) hd hs (by omega)
      obtain ⟨c, cs, hcs, hc, hne⟩ := exists_writeItems_eq (Bool.and_eq_true_iff.mp hs).1 xs
      rw [hcs, List.cons_append] at hitems
      have htext : write (.list (x :: xs)) ++ rest = '[' :: c :: (cs ++ ']' :: rest) := by
        simp [write, hcs]
      rw [htext, readValue_bracket hc hne, hitems]
      rfl
  | .map [], _, _, _, _, _, _ => rfl
  | .map ((k, x) :: ms), fuel, rest, hd, hs, _, hfuel => by
      simp only [write, List.length_cons, List.length_append] at hfuel
      obtain ⟨fuel, rfl⟩ : ∃ n, fuel = n + 2 := ⟨fuel - 2, by omega⟩
      have hmembers : readMembers (fuel + 2) (writeMembers ((k, x) :: ms) ++ '\x7d' :: rest)
          = .ok ((k, x) :: ms, rest) :=
        readMembers_writeMembers ((k, x) :: ms) (List.cons_ne_nil (k, x) ms) hd.2 hs (by omega)
      obtain ⟨cs, hcs⟩ := exists_writeMembers_eq k x ms
      rw [hcs, List.cons_append] at hmembers
      have htext : write (.map ((k, x) :: ms)) ++ rest =
          '\x7b' :: '"' :: (cs ++ '\x7d' :: rest) := by
        simp [write, hcs]
      rw [htext, readValue_brace, hmembers]
      simp only [Except.map, Pairs.dedup_of_nodup hd.1]

theorem readItems_writeItems : ∀ (xs : List Value) {fuel : ℕ} {rest : List Char}, xs ≠ [] →
    DistinctList xs → allNumbersList Number.isShort xs → (writeItems xs).length ≤ fuel →
    readItems (fuel + 2) (writeItems xs ++ ']' :: rest) = .ok (xs, rest)
  | [], _, _, hne, _, _, _ => absurd rfl hne
  | [x], _, rest, _, hd, hs, hfuel =>
      readItems_last (readValue_write x hd.1 (Bool.and_eq_true_iff.mp hs).1 (delimits_bracket rest)
        hfuel)
  | x :: y :: xs, fuel, rest, _, hd, hs, hfuel => by
      rw [writeItems_more, List.length_append, List.length_cons] at hfuel
      obtain ⟨fuel, rfl⟩ : ∃ n, fuel = n + 1 := ⟨fuel - 1, by omega⟩
      have ⟨hx, hxs⟩ := Bool.and_eq_true_iff.mp hs
      rw [writeItems_more, List.append_assoc, List.cons_append]
      exact readItems_more
        (readValue_write x hd.1 hx (delimits_comma _) (by omega))
        (readItems_writeItems (y :: xs) (List.cons_ne_nil y xs) hd.2 hxs (by omega))

theorem readMembers_writeMembers : ∀ (ms : List (String × Value)) {fuel : ℕ} {rest : List Char},
    ms ≠ [] → DistinctMembers ms → allNumbersMembers Number.isShort ms →
    (writeMembers ms).length ≤ fuel →
    readMembers (fuel + 2) (writeMembers ms ++ '\x7d' :: rest) = .ok (ms, rest)
  | [], _, _, hne, _, _, _ => absurd rfl hne
  | [(k, x)], _, rest, _, hd, hs, hfuel => by
      rw [writeMembers, List.length_append, List.length_cons] at hfuel
      rw [writeMembers, List.append_assoc, List.cons_append]
      exact readMembers_last k (readValue_write x hd.1 (Bool.and_eq_true_iff.mp hs).1
        (delimits_brace rest) (by omega))
  | (k, x) :: m :: ms, fuel, rest, _, hd, hs, hfuel => by
      simp only [writeMembers_more, List.length_append, List.length_cons] at hfuel
      obtain ⟨fuel, rfl⟩ : ∃ n, fuel = n + 1 := ⟨fuel - 1, by omega⟩
      have ⟨hx, hms⟩ := Bool.and_eq_true_iff.mp hs
      rw [writeMembers_more, List.append_assoc, List.cons_append, List.append_assoc,
        List.cons_append]
      exact readMembers_more k
        (readValue_write x hd.1 hx (delimits_comma _) (by omega))
        (readMembers_writeMembers (m :: ms) (List.cons_ne_nil m ms) hd.2 hms (by omega))

end

/-- **Compact JSON is an exact text form** of values whose mappings have distinct keys and whose
whole numbers are short. -/
theorem parse_render {v : Value} (hd : v.Distinct) (hs : v.isShort) : parse (render v) = .ok v := by
  have hread : readValue (2 * (write v).length + 2) (write v ++ []) = .ok (v, []) :=
    readValue_write v hd hs delimits_nil (by omega)
  rw [List.append_nil] at hread
  rw [parse, render, String.toList_ofList]
  simp only [hread]
  rfl

end EntitySchema.Json
