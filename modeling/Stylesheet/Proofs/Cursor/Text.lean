import Stylesheet.AnPlusB
import Stylesheet.Proofs.Cursor.Checks
import Stylesheet.Sheet

/-!
# Texts by offset

A text is cut at offsets that count the bytes of its characters, and a cut must not go through a
character.  Main statements: the cuts behind the variable of the An+B notation and behind the
vendor in a name are between two characters.
-/

namespace Stylesheet
namespace Cursor

/-- The number of bytes that a text takes. -/
def byteLength : List Char -> Nat
  | [] => 0
  | c :: rest => c.utf8Size + byteLength rest

theorem byteLength_append (front back : List Char) :
    byteLength (front ++ back) = byteLength front + byteLength back := by
  induction front with
  | nil => exact (Nat.zero_add _).symm
  | cons c front ih => rw [List.cons_append, byteLength, byteLength, ih, Nat.add_assoc]

/-- The offset of the first character that passes a test. -/
def findOffset? (test : Char -> Bool) : List Char -> Option Nat
  | [] => none
  | c :: rest =>
      if test c then some 0 else (findOffset? test rest).map (c.utf8Size + ·)

/-- Cuts a text at an offset. -/
def cutAt : Nat -> List Char -> Checked (List Char × List Char)
  | 0, text => return ([], text)
  | _ + 1, [] => .error .offset
  | offset + 1, c :: rest =>
      if c.utf8Size ≤ offset + 1 then do
        let (front, back) ← cutAt (offset + 1 - c.utf8Size) rest
        return (c :: front, back)
      else
        .error .offset

/-- The text up to an offset. -/
def textTo (text : List Char) (offset : Nat) : Checked (List Char) := do
  let (front, _) ← cutAt offset text
  return front

/-- The text from an offset on. -/
def textFrom (text : List Char) (offset : Nat) : Checked (List Char) := do
  let (_, back) ← cutAt offset text
  return back

theorem cutAt_byteLength (front back : List Char) :
    cutAt (byteLength front) (front ++ back) = .ok (front, back) := by
  induction front with
  | nil =>
      show cutAt 0 back = .ok ([], back)
      rw [cutAt, pure_eq_ok]
  | cons c front ih =>
      have hsize : byteLength (c :: front) = byteLength front + (c.utf8Size - 1) + 1 := by
        have := c.utf8Size_pos
        rw [byteLength]
        omega
      have hrest : byteLength front + (c.utf8Size - 1) + 1 - c.utf8Size = byteLength front := by
        have := c.utf8Size_pos
        omega
      have hfits : c.utf8Size ≤ byteLength front + (c.utf8Size - 1) + 1 := by omega
      rw [hsize, List.cons_append, cutAt, if_pos hfits, hrest, ih]
      rfl

theorem textTo_byteLength (front back : List Char) :
    textTo (front ++ back) (byteLength front) = .ok front := by
  rw [textTo, cutAt_byteLength]
  rfl

/-- What stands behind a character of one byte begins one byte behind it. -/
theorem textFrom_byteLength (front back : List Char) {c : Char} (hc : c.utf8Size = 1) :
    textFrom (front ++ c :: back) (byteLength front + 1) = .ok back := by
  have hcut := cutAt_byteLength (front ++ [c]) back
  have hsize : byteLength (front ++ [c]) = byteLength front + 1 := by
    rw [byteLength_append, byteLength, hc]
    rfl
  rw [hsize, List.append_assoc, List.cons_append, List.nil_append] at hcut
  rw [textFrom, hcut]
  rfl

theorem findOffset?_of_forall {test : Char -> Bool} {text : List Char}
    (h : forall c, c ∈ text -> test c = false) : findOffset? test text = none := by
  induction text with
  | nil => rfl
  | cons c rest ih =>
      rw [findOffset?, h c List.mem_cons_self,
        ih fun d hd => h d (List.mem_cons_of_mem c hd)]
      rfl

theorem findOffset?_append {test : Char -> Bool} {front : List Char}
    (h : forall c, c ∈ front -> test c = false) {c : Char} (hc : test c = true)
    (back : List Char) : findOffset? test (front ++ c :: back) = some (byteLength front) := by
  induction front with
  | nil =>
      rw [List.nil_append, findOffset?, if_pos hc]
      rfl
  | cons d front ih =>
      rw [List.cons_append, findOffset?, h d List.mem_cons_self,
        ih fun e he => h e (List.mem_cons_of_mem d he)]
      rfl

/-- A text in which no character passes a test, or the text up to the first that does. -/
theorem takeWhile_cases (test : Char -> Bool) (text : List Char) :
    (text.dropWhile (fun c => !test c) = [] ∧ text.takeWhile (fun c => !test c) = text ∧
        findOffset? test text = none) ∨
      exists c back, text.dropWhile (fun c => !test c) = c :: back ∧ test c = true ∧
        text = text.takeWhile (fun c => !test c) ++ c :: back ∧
        findOffset? test text = some (byteLength (text.takeWhile fun c => !test c)) := by
  have happend := List.takeWhile_append_dropWhile (p := fun c => !test c) (l := text)
  have hfront : forall c, c ∈ text.takeWhile (fun c => !test c) -> test c = false := by
    intro c hc
    simpa using List.mem_takeWhile_imp hc
  cases hdrop : text.dropWhile fun c => !test c with
  | nil =>
      rw [hdrop, List.append_nil] at happend
      refine Or.inl ⟨rfl, happend, ?_⟩
      rw [happend] at hfront
      exact findOffset?_of_forall hfront
  | cons c back =>
      have hc : test c = true := by
        have hhead := List.head?_dropWhile_not (fun c => !test c) text
        rw [hdrop] at hhead
        simpa using hhead
      rw [hdrop] at happend
      refine Or.inr ⟨c, back, rfl, hc, happend.symm, ?_⟩
      conv_lhs => rw [← happend]
      exact findOffset?_append hfront hc back

/-! ## The An+B notation -/

/-- Reads the notation from a text without spaces. -/
def anPlusB? (text : String) : Checked (Option AnPlusB) :=
  match findOffset? AnPlusB.isVariable text.toList with
  | none => return if AnPlusB.isInteger text.toList then some ⟨none, some text⟩ else none
  | some offset => do
      match AnPlusB.step? (← textTo text.toList offset) with
      | none => return none
      | some a =>
          let rest ← textFrom text.toList (offset + 1)
          if rest.isEmpty then
            return some ⟨some a, none⟩
          else
            return (AnPlusB.offset? rest).map fun b => ⟨some a, some b⟩

theorem utf8Size_of_isVariable {c : Char} (h : AnPlusB.isVariable c = true) : c.utf8Size = 1 := by
  simp only [AnPlusB.isVariable, Bool.or_eq_true, beq_iff_eq] at h
  rcases h with rfl | rfl <;> rfl

@[simp] theorem anPlusB?_eq (text : String) : anPlusB? text = .ok (AnPlusB.parse? text) := by
  unfold anPlusB? AnPlusB.parse?
  rcases takeWhile_cases AnPlusB.isVariable text.toList with
    ⟨hdrop, htake, hoffset⟩ | ⟨c, back, hdrop, hc, happend, hoffset⟩
  · simp only [hdrop, htake, hoffset, pure_eq_ok]
  · have hfrom := textFrom_byteLength (text.toList.takeWhile fun c => !AnPlusB.isVariable c) back
      (utf8Size_of_isVariable hc)
    have hto := textTo_byteLength (text.toList.takeWhile fun c => !AnPlusB.isVariable c)
      (c :: back)
    rw [← happend] at hfrom hto
    simp only [hoffset, hdrop, hto, hfrom, ok_bind]
    cases AnPlusB.step? (text.toList.takeWhile fun c => !AnPlusB.isVariable c) with
    | none => cases back <;> rfl
    | some a =>
        cases back with
        | nil => rfl
        | cons d back =>
            cases hb : AnPlusB.offset? (d :: back) <;> simp [hb]

/-! ## Names with a vendor -/

/-- A name without its vendor: what stands between a first and a second hyphen. -/
def withoutVendor (name : List Char) : Checked (List Char) :=
  match name with
  | '-' :: '-' :: _ => return name
  | '-' :: rest =>
      match findOffset? (· == '-') rest with
      | some offset => textFrom rest (offset + 1)
      | none => return name
  | _ => return name

@[simp] theorem withoutVendor_eq (name : List Char) :
    withoutVendor name = .ok (Sheet.withoutVendor name) := by
  fun_cases Sheet.withoutVendor name with
  | case1 rest => rfl
  | case2 rest hcustom d back hdrop =>
      rcases takeWhile_cases (· == '-') rest with
        ⟨hnil, _, _⟩ | ⟨c, back', hcons, hc, happend, hoffset⟩
      · exact absurd (hdrop.symm.trans hnil) (List.cons_ne_nil _ _)
      · cases hdrop.symm.trans hcons
        rw [beq_iff_eq] at hc
        subst hc
        have hfrom := textFrom_byteLength (c := '-') (rest.takeWhile fun c => !(c == '-')) back rfl
        rw [← happend] at hfrom
        simp only [withoutVendor, hoffset]
        exact hfrom
  | case3 rest hcustom hdrop =>
      rcases takeWhile_cases (· == '-') rest with
        ⟨_, _, hoffset⟩ | ⟨c, back, hcons, _⟩
      · simp only [withoutVendor, hoffset, pure_eq_ok]
      · exact absurd (hdrop.symm.trans hcons).symm (List.cons_ne_nil _ _)
  | case4 =>
      unfold withoutVendor
      split
      · rfl
      · rename_i hvendor
        exact absurd rfl (hvendor _)
      · rfl

/-- Whether the block of an at-rule holds declarations. -/
def holdsDeclarations (name : String) : Checked Bool := do
  let name ← withoutVendor name.toLower.toList
  return Sheet.declarationRules.contains (String.ofList name)

@[simp] theorem holdsDeclarations_eq (name : String) :
    holdsDeclarations name = .ok (Sheet.holdsDeclarations name) := by
  rw [holdsDeclarations, withoutVendor_eq]
  rfl

end Cursor
end Stylesheet
