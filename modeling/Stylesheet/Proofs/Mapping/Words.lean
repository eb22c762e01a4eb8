import Mathlib.Data.List.Basic
import Stylesheet.Proofs.Mapping.Vlq

/-!
# Integers of 64 bits

Digits are shifted out of a machine word and pushed onto a text one by one.  The word is the
number that is written for an integer, so that the text grows by the digits of the integer.
Main statement: integers are read back from their digits alone, but for the least one, whose
magnitude does not fit; its digits are those of no other integer either.
-/

namespace Stylesheet
namespace Vlq

theorem toNat_shiftRight_five (word : UInt64) : (word >>> 5).toNat = word.toNat / 32 := by
  rw [UInt64.toNat_shiftRight]
  exact Nat.shiftRight_eq_div_pow word.toNat 5

/-- The word that is written for an integer: its magnitude above its sign. -/
def word (value : Int64) : UInt64 :=
  UInt64.ofNat value.toInt.natAbs <<< 1 ||| (decide (value < 0)).toUInt64

/-- Pushes the digits of a word, the lowest first. -/
def pushWord (text : String) (word : UInt64) : String :=
  let low := word &&& 31
  let rest := word >>> 5
  if rest = 0 then text.push (digit low.toNat)
  else pushWord (text.push (digit (low ||| 32).toNat)) rest
termination_by word.toNat
decreasing_by
  rename_i hrest
  have hne : (word >>> 5).toNat ≠ 0 := fun hzero => hrest (UInt64.toNat_inj.mp hzero)
  change (word >>> 5).toNat < word.toNat
  rw [toNat_shiftRight_five] at hne ⊢
  omega

/-- Pushes the digits of an integer. -/
def pushInteger (text : String) (value : Int64) : String :=
  pushWord text (word value)

/-! ## Words as numbers -/

theorem toNat_and_31 (word : UInt64) : (word &&& 31).toNat = word.toNat % 32 := by
  rw [UInt64.toNat_and]
  exact Nat.and_two_pow_sub_one_eq_mod word.toNat 5

theorem toNat_or_32 {low : UInt64} (h : low.toNat < 32) : (low ||| 32).toNat = low.toNat + 32 := by
  have hor : 32 * 1 + low.toNat = 32 * 1 ||| low.toNat := Nat.two_pow_add_eq_or_of_lt (i := 5) h 1
  rw [UInt64.toNat_or, Nat.or_comm, Nat.add_comm]
  exact hor.symm

theorem natAbs_toInt_lt (value : Int64) : value.toInt.natAbs < 2 ^ 64 := by
  have hlow := value.le_toInt
  have hhigh := value.toInt_lt
  omega

/-- The sign takes the place that the shift has left free. -/
theorem toNat_word (value : Int64) : (word value).toNat = payload value.toInt := by
  have hmagnitude : (UInt64.ofNat value.toInt.natAbs <<< 1).toNat =
      2 * (value.toInt.natAbs % 2 ^ 63) := by
    have hlt := natAbs_toInt_lt value
    rw [UInt64.toNat_shiftLeft, UInt64.toNat_ofNat', Nat.mod_eq_of_lt hlt]
    change value.toInt.natAbs <<< 1 % 2 ^ 64 = _
    rw [Nat.shiftLeft_eq]
    omega
  have hsign : (decide (value < 0)).toUInt64.toNat = if value.toInt < 0 then 1 else 0 := by
    have hiff : value < 0 <-> value.toInt < 0 := Int64.lt_iff_toInt_lt
    by_cases hneg : value.toInt < 0
    · rw [decide_eq_true (hiff.mpr hneg), if_pos hneg]
      rfl
    · rw [decide_eq_false (fun h => hneg (hiff.mp h)), if_neg hneg]
      rfl
  have hbit : (if value.toInt < 0 then 1 else 0) < 2 ^ 1 := by
    split <;> decide
  have hor := Nat.two_pow_add_eq_or_of_lt hbit (value.toInt.natAbs % 2 ^ 63)
  rw [word, UInt64.toNat_or, hmagnitude, hsign, payload]
  refine hor.symm.trans ?_
  unfold modulus
  omega

/-! ## Pushing -/

theorem pushWord_eq (text : String) (word : UInt64) :
    pushWord text word = text ++ String.ofList ((groups word.toNat).map digit) := by
  fun_induction pushWord text word with
  | case1 text word low rest hrest =>
      have hsmall : word.toNat < 32 := by
        have hzero : word.toNat / 32 = 0 := by
          rw [← toNat_shiftRight_five]
          exact congrArg UInt64.toNat hrest
        omega
      have hlow : low.toNat = word.toNat := by
        rw [toNat_and_31, Nat.mod_eq_of_lt hsmall]
      rw [groups_of_lt hsmall, hlow]
      rfl
  | case2 text word low rest hrest ih =>
      have hrest' : rest.toNat = word.toNat / 32 := toNat_shiftRight_five word
      have hlarge : 32 ≤ word.toNat := by
        by_contra hsmall
        apply hrest
        apply UInt64.toNat_inj.mp
        rw [hrest']
        exact Nat.div_eq_of_lt (Nat.not_le.mp hsmall)
      have hlow : low.toNat = word.toNat % 32 := toNat_and_31 word
      have hdigit : (low ||| 32).toNat = word.toNat % 32 + 32 := by
        rw [toNat_or_32 (by omega), hlow]
      rw [ih, hdigit, hrest', groups_of_le hlarge, List.map_cons, String.ofList_cons,
        String.push_eq_append, String.append_assoc]

theorem pushInteger_eq (text : String) (value : Int64) :
    pushInteger text value = text ++ encode value.toInt := by
  rw [pushInteger, pushWord_eq, toNat_word, encode]

theorem foldl_pushInteger (text : String) (values : List Int64) :
    values.foldl pushInteger text =
      text ++ String.join (values.map fun value => encode value.toInt) := by
  induction values generalizing text with
  | nil => simp
  | cons value rest ih =>
      rw [List.foldl_cons, ih, pushInteger_eq, List.map_cons, String.join_cons, String.append_assoc]

/-! ## Reading back -/

theorem readAll?_join_encode {values : List Int}
    (h : forall value, value ∈ values -> value.natAbs < 2 ^ 63) :
    readAll? (String.join (values.map encode)).toList = some values := by
  induction values with
  | nil =>
      rw [List.map_nil, String.join_nil, String.toList_empty, readAll?]
  | cons value rest ih =>
      rw [List.map_cons, String.join_cons, String.toList_append,
        readAll?_encode_append (h value List.mem_cons_self),
        ih fun other hother => h other (List.mem_cons_of_mem value hother)]
      rfl

theorem payload_eq_of_encode_eq {left right : Int} (h : encode left = encode right) :
    payload left = payload right := by
  have hleft := readPayload?_groups (payload left) []
  have hright := readPayload?_groups (payload right) []
  rw [← toList_encode] at hleft hright
  rw [h, hright] at hleft
  exact (congrArg Prod.fst (Option.some.inj hleft)).symm

theorem natAbs_lt_of_ne_minValue {value : Int64} (h : value ≠ Int64.minValue) :
    value.toInt.natAbs < 2 ^ 63 := by
  have hne : value.toInt ≠ -2 ^ 63 := fun hmin =>
    h (Int64.toInt_inj.mp (hmin.trans Int64.toInt_minValue.symm))
  have hlow := value.le_toInt
  have hhigh := value.toInt_lt
  omega

/-- Only the least integer has lost its magnitude: no other one is written as 1. -/
theorem payload_toInt_injective : Function.Injective fun value : Int64 => payload value.toInt := by
  intro left right h
  have hleft := left.le_toInt
  have hleft' := left.toInt_lt
  have hright := right.le_toInt
  have hright' := right.toInt_lt
  apply Int64.toInt_inj.mp
  simp only [payload, modulus] at h
  split at h <;> split at h <;> omega

/--
Pushing integers onto any text adds digits that are read back as these integers, the least one
excepted; and no two integers have the same digits.
-/
theorem readAll?_pushInteger (text : String) {values : List Int64}
    (h : forall value, value ∈ values -> value ≠ Int64.minValue) :
    (exists digits, values.foldl pushInteger text = text ++ digits ∧
        digits = String.join (values.map fun value => encode value.toInt) ∧
          readAll? digits.toList = some (values.map Int64.toInt)) ∧
      Function.Injective fun value : Int64 => encode value.toInt := by
  refine ⟨⟨_, foldl_pushInteger text values, rfl, ?_⟩, ?_⟩
  · have hvalues : forall value, value ∈ values.map Int64.toInt -> value.natAbs < 2 ^ 63 := by
      intro value hvalue
      rcases List.mem_map.mp hvalue with ⟨integer, hinteger, rfl⟩
      exact natAbs_lt_of_ne_minValue (h integer hinteger)
    have hread := readAll?_join_encode hvalues
    rwa [List.map_map] at hread
  · intro left right heq
    exact payload_toInt_injective (payload_eq_of_encode_eq heq)

/-- The integers beside either limit, and a sign without a magnitude behind a digit. -/
theorem readAll?_pushInteger_limits :
    (forall value, value ∈ [0, -1, Int64.maxValue, Int64.minValue + 1] ->
        value ≠ Int64.minValue) ∧
      exists digits, [0, -1, Int64.maxValue, Int64.minValue + 1].foldl pushInteger "A" =
          "A" ++ digits ∧
        digits = "AD+///////////P////////////P" ∧
          readAll? digits.toList =
            some [0, -1, 9223372036854775807, -9223372036854775807] := by
  have h : forall value, value ∈ [0, -1, Int64.maxValue, Int64.minValue + 1] ->
      value ≠ Int64.minValue := by
    rw [List.forall_mem_cons, List.forall_mem_cons, List.forall_mem_cons,
      List.forall_mem_singleton]
    decide
  rcases (readAll?_pushInteger "A" h).left with ⟨digits, hdigits, heq, hread⟩
  refine ⟨h, digits, hdigits, heq.trans ?_, hread⟩
  decide +kernel

end Vlq
end Stylesheet
