import Mathlib.Data.List.DropRight
import Stylesheet.Proofs.Shape.Sheet
import Stylesheet.Proofs.Token.Brackets
import Stylesheet.Proofs.Token.Grammar

/-!
# Properties

A declaration is cut at the first colon of its run, and its property is the text in front of the
colon.  Main statement: a single identifier in front of the colon is taken for a property exactly
when its spelling holds no blank, and a blank comes from an escape or from outside ASCII.
-/

namespace Stylesheet

open Run Character

/-! ## Names -/

namespace Lexical

open scoped Computability

theorem mem_unit_of_mem_nameStart {text : List Char} (h : text ∈ nameStart) : text ∈ unit := by
  rcases h with ⟨c, hc, rfl⟩ | hescape
  · refine Or.inl (singleton_mem_one ?_)
    rw [isNameChar, hc, Bool.true_or, Bool.true_or]
  · exact Or.inr hescape

theorem mem_unit_of_mem_hyphen {text : List Char} (h : text ∈ mark '-') : text ∈ unit := by
  rcases h with ⟨c, hc, rfl⟩
  obtain rfl := eq_of_beq hc
  exact Or.inl (singleton_mem_one rfl)

theorem mem_kstar_of_mem_identifier {text : List Char} (h : text ∈ identifier) : text ∈ unit∗ := by
  rcases Language.mem_mul.mp h with ⟨start, hstart, back, hback, rfl⟩
  rcases hstart with hstart | hpair
  · exact append_mem_kstar (mem_unit_of_mem_nameStart hstart) hback
  · rcases Language.mem_mul.mp hpair with ⟨hyphen, hhyphen, next, hnext, rfl⟩
    have hunit : next ∈ unit := hnext.elim mem_unit_of_mem_nameStart mem_unit_of_mem_hyphen
    rw [List.append_assoc]
    exact append_mem_kstar (mem_unit_of_mem_hyphen hhyphen) (append_mem_kstar hunit hback)

/-- What is spelled with units but without a backslash is spelled with name characters. -/
theorem isNameChar_of_mem_kstar {text : List Char} (h : text ∈ unit∗) (hescape : '\\' ∉ text) :
    forall c, c ∈ text -> isNameChar c = true := by
  rcases Language.mem_kstar.mp h with ⟨units, rfl, hunits⟩
  intro c hc
  rcases List.mem_flatten.mp hc with ⟨front, hfront, hmem⟩
  rcases hunits front hfront with ⟨d, hd, rfl⟩ | hback
  · rw [List.mem_singleton.mp hmem]
    exact hd
  · rcases Language.mem_mul.mp hback with ⟨_, ⟨d, hd, rfl⟩, more, _, rfl⟩
    obtain rfl := eq_of_beq hd
    exact absurd (List.mem_flatten.mpr ⟨_, hfront, List.mem_cons_self⟩) hescape

end Lexical

/-- Among the name characters only some outside ASCII are blank. -/
theorem isWide_of_isNameChar {c : Char} (hname : isNameChar c = true) (hblank : isBlank c = true) :
    isWide c = true := by
  have hascii : forall n : Fin 128,
      isNameChar (Char.ofNat n) = true -> isBlank (Char.ofNat n) = false := by
    decide
  by_contra hwide
  rw [isWide, decide_eq_true_eq, not_le] at hwide
  have h := hascii ⟨c.toNat, hwide⟩
  rw [Char.ofNat_toNat, hblank] at h
  exact Bool.noConfusion (h hname)

namespace Run

theorem trimStart_append_cons {token : Token} (h : token.isTrivia = false)
    (front back : List Token) :
    trimStart (front ++ token :: back) = trimStart front ++ token :: back := by
  unfold trimStart
  rw [List.dropWhile_append]
  split
  · rename_i hempty
    rw [List.isEmpty_iff.mp hempty]
    exact trimStart_cons_of_not_trivia h back
  · rfl

/-- What is trimmed off a run lies on either side of a token that is no trivia. -/
theorem trim_append_cons {token : Token} (h : token.isTrivia = false) (front back : List Token) :
    trim (front ++ token :: back) =
      trimStart front ++ token :: (trimStart back.reverse).reverse := by
  rw [trim, trimStart_append_cons h, List.reverse_append, List.reverse_cons, List.append_assoc,
    List.singleton_append, trimStart_append_cons h, List.reverse_append, List.reverse_cons,
    List.reverse_reverse, List.append_assoc, List.singleton_append]

theorem trim_trimStart (run : List Token) : trim (trimStart run) = trim run := by
  have hagain : trimStart (trimStart run) = trimStart run := List.dropWhile_idempotent _ _
  rw [trim, trim, hagain]

end Run

namespace Declaration

variable {first colon word : Token} {rest front behind : List Token}

theorem not_isProperty_iff {text : String} :
    ¬ isProperty text = true <-> text = "" ∨ exists c, c ∈ text.toList ∧ isBlank c = true := by
  rw [isProperty_iff, not_and_or, not_not, not_forall]
  simp only [Classical.not_imp, Bool.not_eq_false]

/-! ## The first colon -/

theorem parse_of_not_colon (source : SourceName)
    (h : forall token, token ∈ first :: rest -> token.kind ≠ .colon) :
    parse source first rest = .error (.atToken .missingColon first) := by
  have hdrop : (trim (first :: rest)).dropWhile (·.kind != .colon) = [] := by
    rw [List.dropWhile_eq_nil_iff]
    intro token htoken
    rw [bne_iff_ne]
    exact h token ((trim_sublist _).subset htoken)
  simp only [parse, hdrop]

/-- What stands in front of a colon that is the first one of a run. -/
structure IsCutAt (front : List Token) (colon : Token) : Prop where
  front_kind : forall token, token ∈ front -> token.kind ≠ .colon
  colon_kind : colon.kind = .colon

theorem exists_isCutAt_or (run : List Token) :
    (exists front colon behind, run = front ++ colon :: behind ∧ IsCutAt front colon) ∨
      forall token, token ∈ run -> token.kind ≠ .colon := by
  cases hfind : run.find? (·.kind == .colon) with
  | none =>
      right
      intro token htoken hkind
      exact List.find?_eq_none.mp hfind token htoken (beq_iff_eq.mpr hkind)
  | some colon =>
      rcases List.find?_eq_some_iff_append.mp hfind with ⟨hcolon, front, behind, hrun, hfront⟩
      refine Or.inl ⟨front, colon, behind, hrun, ?_, beq_iff_eq.mp hcolon⟩
      intro token htoken hkind
      have hnot := hfront token htoken
      rw [hkind] at hnot
      cases hnot

theorem IsCutAt.parse_eq (h : IsCutAt front colon) (source : SourceName)
    (hrun : first :: rest = front ++ colon :: behind) :
    parse source first rest =
      if isProperty (text (trim front)) then
        .ok (Node.spanning source (trim (first :: rest))
          (.declaration (splitImportant (trimStart behind.reverse).reverse).2 (text (trim front))
            (value source (text (trim front))
              (splitImportant (trimStart behind.reverse).reverse).1)))
      else .error (.atToken .missingProperty first) := by
  have htrivia : colon.isTrivia = false := by
    rw [Token.isTrivia, h.colon_kind]
    rfl
  have hfront : forall token, token ∈ trimStart front -> (token.kind != .colon) = true := by
    intro token htoken
    rw [bne_iff_ne]
    exact h.front_kind token ((trimStart_suffix front).subset htoken)
  have hcolon : ¬ (colon.kind != .colon) = true := by
    rw [h.colon_kind]
    decide
  have hdropColon : forall run, (colon :: run).dropWhile (·.kind != .colon) = colon :: run :=
    fun run => List.dropWhile_cons_of_neg hcolon
  have htakeColon : forall run, (colon :: run).takeWhile (·.kind != .colon) = [] :=
    fun run => List.takeWhile_cons_of_neg hcolon
  have htrim := trim_append_cons htrivia front behind
  rw [← hrun] at htrim
  have hdrop : (trim (first :: rest)).dropWhile (·.kind != .colon) =
      colon :: (trimStart behind.reverse).reverse := by
    rw [htrim, List.dropWhile_append_of_pos hfront, hdropColon]
  have htake : (trim (first :: rest)).takeWhile (·.kind != .colon) = trimStart front := by
    rw [htrim, List.takeWhile_append_of_pos hfront, htakeColon, List.append_nil]
  simp only [parse, hdrop, htake, trim_trimStart]

/-! ## Identifiers -/

/-- A declaration behind a single identifier fails for the blanks in its spelling alone. -/
theorem IsCutAt.parse_ident {name : String} (h : IsCutAt front colon) (source : SourceName)
    (hrun : first :: rest = front ++ colon :: behind) (hword : trim front = [word])
    (htext : word.text = name) (hne : name ≠ "") :
    ((exists important value location, parse source first rest =
        .ok ⟨.declaration important name value, location⟩) <->
      forall c, c ∈ name.toList -> isBlank c = false) ∧
    ((exists c, c ∈ name.toList ∧ isBlank c = true) ->
      parse source first rest = .error (.atToken .missingProperty first)) := by
  have hproperty : text (trim front) = name := by
    rw [hword, text_cons, text_nil, String.append_empty, htext]
  have hparse := h.parse_eq source hrun
  rw [hproperty] at hparse
  have hfails : (exists c, c ∈ name.toList ∧ isBlank c = true) ->
      parse source first rest = .error (.atToken .missingProperty first) := by
    intro hblank
    rw [hparse, if_neg (not_isProperty_iff.mpr (Or.inr hblank))]
  constructor
  · constructor
    · intro hread c hc
      rcases hread with ⟨important, value, location, hok⟩
      rw [← Bool.not_eq_true]
      intro hblank
      rw [hfails ⟨c, hc, hblank⟩] at hok
      cases hok
    · intro hsolid
      rw [hparse, if_pos (isProperty_iff.mpr ⟨hne, hsolid⟩)]
      exact ⟨_, _, _, rfl⟩
  · exact hfails

/--
A single identifier in front of the first colon is the property of the declaration exactly when
its spelling holds no blank.  One that does was escaped, or is no character of ASCII.
-/
theorem parse_identifier (source : SourceName) {content name : String} {first colon word : Token}
    {tokens rest front behind : List Token} (htokens : tokenize content = .ok tokens)
    (hrun : first :: rest <:+: tokens) (hcut : first :: rest = front ++ colon :: behind)
    (hcolon : IsCutAt front colon) (hword : trim front = [word]) (hkind : word.kind = .ident name) :
    word.text = name ∧
    ((exists important value location, parse source first rest =
        .ok ⟨.declaration important name value, location⟩) <->
      forall c, c ∈ name.toList -> isBlank c = false) ∧
    ((exists c, c ∈ name.toList ∧ isBlank c = true) ->
      parse source first rest = .error (.atToken .missingProperty first)) ∧
    forall c, c ∈ name.toList -> isBlank c = true -> isWide c = true ∨ '\\' ∈ name.toList := by
  have hmem : word ∈ tokens := by
    have hfront : word ∈ front := (trim_sublist front).subset (hword ▸ List.mem_cons_self)
    refine hrun.subset ?_
    rw [hcut]
    exact List.mem_append_left _ hfront
  have hscan := Token.scan_of_scanFrom htokens
  have hne : word.kind ≠ .eof := by
    rw [hkind]
    exact TokenKind.noConfusion
  have hspelled := hscan.isSpelled hmem
  have htext : word.text = name := hspelled.spelling name (by rw [hkind]; rfl)
  rcases hcolon.parse_ident source hcut hword htext
    (htext ▸ hspelled.text_ne_empty hne) with ⟨hiff, hfails⟩
  refine ⟨htext, hiff, hfails, ?_⟩
  intro c hc hblank
  by_cases hescape : '\\' ∈ name.toList
  · exact Or.inr hescape
  · left
    rcases hscan.exists_readsBefore hmem hne with ⟨_, _, _, _, _, _, _, hread⟩
    have hgrammatical := (Lexeme.isGrammatical_of_read hread).left
    rw [hkind] at hgrammatical
    have hunits := Lexical.mem_kstar_of_mem_identifier hgrammatical
    exact isWide_of_isNameChar (Lexical.isNameChar_of_mem_kstar hunits hescape c hc) hblank

/-- A colon that is escaped belongs to the property. -/
theorem parse_identifier_escaped_colon :
    let name := "é\\:x"
    let word : Token := ⟨.ident name, name, ⟨1, 3, 2⟩⟩
    let colon : Token := ⟨.colon, ":", ⟨1, 7, 6⟩⟩
    let value : Token := ⟨.ident "z", "z", ⟨1, 8, 7⟩⟩
    tokenize "a\x7bé\\:x:z\x7d" = .ok [⟨.ident "a", "a", ⟨1, 1, 0⟩⟩, ⟨.leftBrace, "\x7b", ⟨1, 2, 1⟩⟩,
      word, colon, value, ⟨.rightBrace, "\x7d", ⟨1, 9, 8⟩⟩, ⟨.eof, "", ⟨1, 10, 9⟩⟩] ∧
    exists important value' location, parse none word [colon, value] =
      .ok ⟨.declaration important name value', location⟩ := by
  intro name word colon value
  have htokens : tokenize "a\x7bé\\:x:z\x7d" = .ok [⟨.ident "a", "a", ⟨1, 1, 0⟩⟩,
      ⟨.leftBrace, "\x7b", ⟨1, 2, 1⟩⟩, word, colon, value, ⟨.rightBrace, "\x7d", ⟨1, 9, 8⟩⟩,
      ⟨.eof, "", ⟨1, 10, 9⟩⟩] := by
    decide +kernel
  have hcut : IsCutAt [word] colon :=
    ⟨List.forall_mem_singleton.mpr TokenKind.noConfusion, rfl⟩
  have hrun : [word, colon, value] = [word] ++ colon :: [value] := rfl
  have h := parse_identifier none htokens ⟨[_, _], [_, _], rfl⟩ hrun hcut rfl rfl
  have hproperty : isProperty name = true := by decide
  exact ⟨htokens, h.right.left.mpr (isProperty_iff.mp hproperty).right⟩

/-- A space that is escaped makes an identifier none that is taken for a property. -/
theorem parse_escaped_space :
    let name := "x\\ y"
    let word : Token := ⟨.ident name, name, ⟨1, 3, 2⟩⟩
    let colon : Token := ⟨.colon, ":", ⟨1, 7, 6⟩⟩
    let value : Token := ⟨.ident "z", "z", ⟨1, 8, 7⟩⟩
    tokenize "a\x7bx\\ y:z\x7d" = .ok [⟨.ident "a", "a", ⟨1, 1, 0⟩⟩, ⟨.leftBrace, "\x7b", ⟨1, 2, 1⟩⟩,
      word, colon, value, ⟨.rightBrace, "\x7d", ⟨1, 9, 8⟩⟩, ⟨.eof, "", ⟨1, 10, 9⟩⟩] ∧
    trim [word] = [word] ∧ parse none word [colon, value] =
      .error ⟨.missingProperty, ⟨1, 3, 2⟩⟩ := by
  intro name word colon value
  have hcut : IsCutAt [word] colon :=
    ⟨List.forall_mem_singleton.mpr TokenKind.noConfusion, rfl⟩
  have hrun : [word, colon, value] = [word] ++ colon :: [value] := rfl
  have hblank : exists c, c ∈ name.toList ∧ isBlank c = true := ⟨' ', by decide, rfl⟩
  exact ⟨by decide +kernel, rfl, (hcut.parse_ident none hrun rfl rfl (by decide)).right hblank⟩

end Declaration
end Stylesheet
