import EntitySchema.Json.Reader
import EntitySchema.Json.Writer
import Mathlib.Data.List.Basic

/-!
# Proofs/Json/Text — strings read back

    c ──escape──▸ ASCII ──readUnits──▸ units c ──ofUnits──▸ c

A character stands for one code unit, or for the halves of a surrogate pair (`Text.units`).  Reading
an escaped character yields its code units (`readUnits_escape`) and joining code units yields the
character (`ofUnits_units_append`), so a text reads back whole (`readText_writeText`).
-/

namespace EntitySchema.Text

/-! ## Code units -/

/-- The code units of a character: its number, or beyond U+FFFF the halves of a pair. -/
def units (c : Char) : List ℕ :=
  if c.toNat < 0x10000 then [c.toNat]
  else [0xD800 + (c.toNat - 0x10000) / 0x400, 0xDC00 + (c.toNat - 0x10000) % 0x400]

theorem toNat_lt (c : Char) : c.toNat < 0x110000 := by
  have hc : c.toNat < 0xD800 ∨ 0xDFFF < c.toNat ∧ c.toNat < 0x110000 := c.valid
  omega

/-- No character is half a pair. -/
@[simp] theorem not_half (c : Char) : (isHighHalf c.toNat || isLowHalf c.toNat) = false := by
  have h : c.toNat < 0xD800 ∨ 0xDFFF < c.toNat := c.valid.imp_right And.left
  simp only [isHighHalf, isLowHalf, Bool.or_eq_false_iff, Bool.and_eq_false_iff,
    decide_eq_false_iff_not]
  omega

@[simp] theorem ofUnit_toNat (c : Char) : ofUnit c.toNat = c := by
  simp [ofUnit]

/-- A unit that is no first half stands alone, whatever follows. -/
theorem ofUnits_cons {u : ℕ} (h : isHighHalf u = false) :
    ∀ us : List ℕ, ofUnits (u :: us) = ofUnit u :: ofUnits us
  | [] => rfl
  | w :: us => by rw [ofUnits, h, Bool.false_and, if_neg Bool.false_ne_true]

/-- **The units of a character join to the character.** -/
@[simp] theorem ofUnits_units_append (c : Char) (us : List ℕ) :
    ofUnits (units c ++ us) = c :: ofUnits us := by
  rw [units]
  split
  · rw [List.singleton_append, ofUnits_cons (Bool.or_eq_false_iff.mp (not_half c)).1, ofUnit_toNat]
  · have hlt := toNat_lt c
    have hpair : ofPair (0xD800 + (c.toNat - 0x10000) / 0x400)
        (0xDC00 + (c.toNat - 0x10000) % 0x400) = c := by
      have hc : 0x10000 + (0xD800 + (c.toNat - 0x10000) / 0x400 - 0xD800) * 0x400
          + (0xDC00 + (c.toNat - 0x10000) % 0x400 - 0xDC00) = c.toNat := by omega
      rw [ofPair, hc, Char.ofNat_toNat]
    have hhigh : isHighHalf (0xD800 + (c.toNat - 0x10000) / 0x400) = true := by
      simp only [isHighHalf, Bool.and_eq_true, decide_eq_true_eq]
      omega
    have hlow : isLowHalf (0xDC00 + (c.toNat - 0x10000) % 0x400) = true := by
      simp only [isLowHalf, Bool.and_eq_true, decide_eq_true_eq]
      omega
    rw [List.cons_append, List.singleton_append, ofUnits, hhigh, hlow, Bool.true_and, if_pos rfl,
      hpair]

@[simp] theorem ofUnits_flatMap_units (cs : List Char) : ofUnits (cs.flatMap units) = cs := by
  induction cs with
  | nil => rfl
  | cons c cs ih => simp [ih]

/-! ## Hexadecimal digits -/

theorem hexValue?_hexDigit : ∀ {n : ℕ}, n < 16 → hexValue? (hexDigit n) = some n := by decide

/-- Four digits spell what they were written for. -/
theorem hexNumeral?_hex {n : ℕ} (hn : n < 0x10000) : hexNumeral? (hex 4 n) = some n := by
  have hdigit : ∀ k, hexValue? (hexDigit (k % 16)) = some (k % 16) :=
    fun k => hexValue?_hexDigit (Nat.mod_lt k (by decide))
  simp only [hex, hexNumeral?, List.nil_append, List.cons_append, List.mapM_cons, List.mapM_nil,
    hdigit, Option.pure_def, Option.bind_eq_bind, Option.bind_some, Option.map_some,
    List.foldl_cons, List.foldl_nil]
  congr 1
  omega

end EntitySchema.Text

namespace EntitySchema.Json

open Text

/-! ## Escapes -/

theorem readUnits_hex {n : ℕ} (hn : n < 0x10000) (cs : List Char) :
    readUnits ('\\' :: 'u' :: hex 4 n ++ cs)
      = (readUnits cs).map fun (us, rest) => (n :: us, rest) := by
  have hnum := hexNumeral?_hex hn
  simp only [hex, List.nil_append, List.cons_append] at hnum ⊢
  rw [readUnits, hnum]
  cases readUnits cs <;> rfl

/-- A character that has a letter. -/
theorem readUnits_letter {e x : Char} (he : e ≠ 'u') (h : unescape? e = some x) (cs : List Char) :
    readUnits ('\\' :: e :: cs) = (readUnits cs).map fun (us, rest) => (x.toNat :: us, rest) := by
  rw [readUnits, h]
  · cases readUnits cs <;> rfl
  · exact fun _ _ _ _ _ heq => absurd heq he

/-- A character that needs no escape. -/
theorem readUnits_plain {c : Char} (hq : c ≠ '"') (hb : c ≠ '\\') (hc : 0x20 ≤ c.toNat)
    (cs : List Char) :
    readUnits (c :: cs) = (readUnits cs).map fun (us, rest) => (c.toNat :: us, rest) := by
  rw [readUnits, if_neg (not_or.mpr ⟨hb, Nat.not_lt.mpr hc⟩)]
  · exact hq
  · exact fun _ _ _ _ _ heq => absurd heq hb
  · exact fun _ _ heq => absurd heq hb

/-- **An escaped character is read as its code units.** -/
@[simp] theorem readUnits_escape (c : Char) (cs : List Char) :
    readUnits (escape c ++ cs) = (readUnits cs).map fun (us, rest) => (units c ++ us, rest) := by
  have hunit : c.toNat < 0x10000 → units c = [c.toNat] := fun h => if_pos h
  rw [escape]
  split_ifs with hq hb hn hr ht hbs hff hplain hsmall
  · subst hq
    exact readUnits_letter (by decide) rfl cs
  · subst hb
    exact readUnits_letter (by decide) rfl cs
  · subst hn
    exact readUnits_letter (by decide) rfl cs
  · subst hr
    exact readUnits_letter (by decide) rfl cs
  · subst ht
    exact readUnits_letter (by decide) rfl cs
  · subst hbs
    exact readUnits_letter (by decide) rfl cs
  · subst hff
    exact readUnits_letter (by decide) rfl cs
  · rw [hunit (by omega)]
    exact readUnits_plain hq hb hplain.1 cs
  · rw [hunit hsmall]
    exact readUnits_hex hsmall cs
  · have hlt := toNat_lt c
    rw [units, if_neg hsmall, List.append_assoc, readUnits_hex (by omega), readUnits_hex (by omega)]
    cases readUnits cs <;> rfl

@[simp] theorem readUnits_flatMap_escape (cs rest : List Char) :
    readUnits (cs.flatMap escape ++ '"' :: rest) = some (cs.flatMap units, rest) := by
  induction cs with
  | nil => rfl
  | cons c cs ih =>
    rw [List.flatMap_cons, List.append_assoc, readUnits_escape, ih]
    rfl

/-- **A text is read as it was written**, behind its opening quote. -/
theorem readText_writeText (s : String) (rest : List Char) :
    ∃ cs, writeText s ++ rest = '"' :: cs ∧ readText cs = some (s, rest) := by
  refine ⟨s.toList.flatMap escape ++ '"' :: rest, by simp [writeText], ?_⟩
  rw [readText, readUnits_flatMap_escape, Option.map_some]
  simp only [ofUnits_flatMap_units, String.ofList_toList]

end EntitySchema.Json
