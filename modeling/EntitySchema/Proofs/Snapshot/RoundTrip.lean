import EntitySchema.Proofs.Json.RoundTrip
import EntitySchema.Proofs.Snapshot.Models

/-!
# Proofs/Snapshot/RoundTrip — snapshots read back

    (s, options) ──toValue──▸ value ──render──▸ text ──parse──▸ value ──ofValue──▸ (s, options)

The library for the models keeps the schema (`Models.Documented.keeps_schema`), and JSON keeps the
value around it (`Json.parse_render`).  What cannot be written at all is a whole number with very
many digits: then there is no text, and nothing to read.
-/

namespace EntitySchema

/-- A number from the limit on is not short. -/
theorem Number.isShort_of_le {z : ℤ} (h : 10 ^ Text.digitLimit ≤ z.natAbs) :
    (Number.int z).isShort = false := by
  refine decide_eq_false fun hlength => absurd h (Nat.not_le.mpr ?_)
  exact (Text.lt_ten_pow_length_ofNat _).trans_le (Nat.pow_le_pow_right (by decide) hlength)

namespace Snapshot

section

variable {M : Models} {s : Schema} {options : Record}

/-- A schema has a snapshot if all whole numbers in it are short. -/
theorem encode_eq_ok_iff {written : String} :
    encode M s options = .ok written ↔
      (toValue M s options).isShort ∧ written = text M s options := by
  rw [encode]
  split_ifs with hshort
  · simp [hshort, eq_comm]
  · simp [hshort]

variable (hM : M.Documented) (hs : s.Storable)

include hM hs

theorem distinct_toValue (ho : (Value.ofRecord options).Distinct) :
    (toValue M s options).Distinct :=
  ⟨by simp, trivial, ho, (hM.keeps_schema hs).distinct, trivial⟩

@[simp] theorem isShort_toValue :
    (toValue M s options).isShort = (s.isShort && (Value.ofRecord options).isShort) := by
  simp [toValue, hM.isShort_schema hs, Bool.and_comm]

/-- **The value of a snapshot holds the schema and its options.** -/
@[simp] theorem ofValue_toValue (options : Record) :
    ofValue M (toValue M s options) = .ok (s, options) := by
  have hschema : M.schema.read? (M.schema.dump s) = some s := (hM.keeps_schema hs).read
  simp [ofValue, toValue, Value.member?, Pairs.find?, Value.ofRecord, hschema]

/-- What is read from a snapshot is what it was made of. -/
theorem decode_text (hshort : (toValue M s options).isShort)
    (ho : (Value.ofRecord options).Distinct) :
    decode M (text M s options) = .ok (s, options) := by
  rw [decode, text, Json.parse_render (distinct_toValue hM hs ho) hshort]
  exact ofValue_toValue hM hs options

end

end Snapshot

end EntitySchema
