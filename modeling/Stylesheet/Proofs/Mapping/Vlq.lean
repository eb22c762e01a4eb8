import Mathlib.Algebra.Group.Nat.Defs
import Stylesheet.Mapping.Vlq

/-!
# Reading variable-length quantities

The digits of a number say themselves where they end.  Main statement: whatever follows
the digits of an integer, reading gives the integer and leaves what follows, so a row of
integers is read back from their digits alone.
-/

namespace Stylesheet
namespace Vlq

theorem digitValue?_digit {value : Nat} (h : value < 64) :
    digitValue? (digit value) = some value := by
  have hall : forall small : Fin 64, digitValue? (digit small) = some small.val := by
    decide +kernel
  exact hall ⟨value, h⟩

theorem groups_of_lt {payload : Nat} (h : payload < 32) : groups payload = [payload] := by
  rw [groups, if_pos h]

theorem groups_of_le {payload : Nat} (h : 32 <= payload) :
    groups payload = (payload % 32 + 32) :: groups (payload / 32) := by
  rw [groups, if_neg (Nat.not_lt.mpr h)]

theorem readPayload?_digit_of_lt {value : Nat} (h : value < 32) (rest : List Char) :
    readPayload? (digit value :: rest) = some (value, rest) := by
  rw [readPayload?, digitValue?_digit (Nat.lt_trans h (by decide))]
  exact if_pos h

theorem readPayload?_digit_of_le {value : Nat} (h : 32 <= value) (hlt : value < 64)
    (rest : List Char) :
    readPayload? (digit value :: rest) =
      (readPayload? rest).map fun (higher, after) => (value - 32 + 32 * higher, after) := by
  rw [readPayload?, digitValue?_digit hlt]
  exact if_neg (Nat.not_lt.mpr h)

theorem readPayload?_groups (payload : Nat) (rest : List Char) :
    readPayload? ((groups payload).map digit ++ rest) = some (payload, rest) := by
  induction payload using Nat.strongRecOn with
  | ind payload ih =>
      by_cases hsmall : payload < 32
      · rw [groups_of_lt hsmall]
        exact readPayload?_digit_of_lt hsmall rest
      · have hle : 32 <= payload := Nat.not_lt.mp hsmall
        rw [groups_of_le hle, List.map_cons, List.cons_append,
          readPayload?_digit_of_le (Nat.le_add_left _ _) (by omega),
          ih (payload / 32) (by omega)]
        show some (payload % 32 + 32 - 32 + 32 * (payload / 32), rest) = some (payload, rest)
        rw [Nat.add_sub_cancel, Nat.mod_add_div]

theorem ofPayload_payload {value : Int} (h : value.natAbs < 2 ^ 63) :
    ofPayload (payload value) = value := by
  have hfits : 2 * value.natAbs % modulus = 2 * value.natAbs :=
    Nat.mod_eq_of_lt (by unfold modulus; omega)
  unfold payload ofPayload
  rw [hfits]
  split <;> split <;> omega

theorem groups_map_digit_ne_nil (payload : Nat) : (groups payload).map digit ≠ [] := by
  intro hnil
  have hread := readPayload?_groups payload []
  rw [hnil] at hread
  cases hread

theorem toList_encode (value : Int) :
    (encode value).toList = (groups (payload value)).map digit :=
  String.toList_ofList

theorem readAll?_encode_append {value : Int} (h : value.natAbs < 2 ^ 63)
    (rest : List Char) :
    readAll? ((encode value).toList ++ rest) = (readAll? rest).map (value :: ·) := by
  have hread := readPayload?_groups (payload value) rest
  rw [toList_encode]
  rcases List.exists_cons_of_ne_nil (groups_map_digit_ne_nil (payload value)) with
    ⟨c, more, hcons⟩
  rw [hcons, List.cons_append] at hread ⊢
  rw [readAll?]
  split
  · rename_i hnone
    rw [hread] at hnone
    cases hnone
  · rename_i hsome
    rw [hread] at hsome
    cases hsome
    rw [ofPayload_payload h]

theorem readAll?_encode {value : Int} (h : value.natAbs < 2 ^ 63) :
    readAll? (encode value).toList = some [value] := by
  have hread := readAll?_encode_append h []
  rw [List.append_nil, readAll?] at hread
  exact hread

/-! ## Digits and separators -/

theorem groups_lt_64 (payload : Nat) : forall value, value ∈ groups payload -> value < 64 := by
  induction payload using Nat.strongRecOn with
  | ind payload ih =>
      intro value hmem
      by_cases hsmall : payload < 32
      · rw [groups_of_lt hsmall] at hmem
        rw [List.mem_singleton.mp hmem]
        exact Nat.lt_trans hsmall (by decide)
      · rw [groups_of_le (Nat.not_lt.mp hsmall)] at hmem
        rcases List.mem_cons.mp hmem with rfl | hmem
        · omega
        · exact ih (payload / 32) (by omega) value hmem

/-- A character that is no digit does not occur among the digits of an integer. -/
theorem not_mem_encode {c : Char} (h : digitValue? c = none) (value : Int) :
    c ∉ (encode value).toList := by
  rw [toList_encode]
  intro hmem
  rcases List.mem_map.mp hmem with ⟨group, hgroup, rfl⟩
  rw [digitValue?_digit (groups_lt_64 _ group hgroup)] at h
  cases h

end Vlq
end Stylesheet
