import Stylesheet.Proofs.Reread.Selector
import Stylesheet.Proofs.Reread.Trivia
import Stylesheet.Proofs.Sheet.Property
import Stylesheet.Proofs.Sheet.Steps

/-!
# Declarations that are read back

The mark of importance is found at the end of the tokens that stand for a value just where it was
written, since the words and marks of a value are kept in their order.
-/

namespace Stylesheet
namespace Declaration

open Node Token Run

variable {run other : List Token}

/-! ## Marks of importance -/

/-- A run ends in a mark of importance, trivia aside. -/
def IsMarked (run : List Token) : Prop :=
  exists front bang word, significant run = front ++ [bang, word] ∧ bang.kind = .delim '!' ∧
    isImportant word = true

theorem significant_trivia (h : forall token, token ∈ run -> token.isTrivia = true) :
    significant run = [] :=
  List.filter_eq_nil_iff.mpr fun token htoken => by simp [h token htoken]

theorem significant_cons {token : Token} (h : token.isTrivia = false) (rest : List Token) :
    significant (token :: rest) = token :: significant rest :=
  List.filter_cons_of_pos (by simp [h])

theorem exists_trivia_of_trimStart (run : List Token) :
    exists front, run = front ++ trimStart run ∧
      forall token, token ∈ front -> token.isTrivia = true :=
  ⟨run.takeWhile Token.isTrivia, List.takeWhile_append_dropWhile.symm,
    fun _ => List.mem_takeWhile_imp⟩

/-- A value is what stands in front of its mark of importance, or the whole run. -/
theorem splitImportant_cases (run : List Token) :
    (IsMarked run ∧ exists front bang back word, run = front ++ bang :: back ∧
      bang.kind = .delim '!' ∧ significant back = [word] ∧ isImportant word = true ∧
        splitImportant run = (trim front, true)) ∨
          ¬IsMarked run ∧ splitImportant run = (trim run, false) := by
  have hshort : (significant run).length < 2 -> ¬IsMarked run := by
    rintro hlength ⟨front, bang, word, hrun, -, -⟩
    rw [hrun, List.length_append] at hlength
    exact Nat.not_lt.mpr (Nat.le_add_left 2 _) hlength
  unfold splitImportant
  split
  · rename_i word earlier hreverse
    have htrim : trim run = earlier.reverse ++ [word] := by
      rw [← List.reverse_reverse (trim run), hreverse, List.reverse_cons]
    have hne : trim run ≠ [] := by
      rw [htrim]
      exact List.append_ne_nil_of_right_ne_nil _ (List.cons_ne_nil _ _)
    have hword : word.isTrivia = false := by
      rcases (begins_and_ends_of_trim_ne_nil hne).2 with ⟨front, last, hends, hlast⟩
      rw [htrim] at hends
      rw [List.cons.inj (List.append_inj_right' hends rfl) |>.1]
      exact hlast
    have hsignificant : significant run = significant earlier.reverse ++ [word] := by
      rw [← significant_trim, htrim, significant_append, significant_cons hword]
      rfl
    rcases exists_trivia_of_trimStart earlier with ⟨space, hearlier, hspace⟩
    have hspace' : forall token, token ∈ space.reverse -> token.isTrivia = true :=
      fun token htoken => hspace token (List.mem_reverse.mp htoken)
    split
    · rename_i bang front hbefore
      have hbang : bang.isTrivia = false := not_trivia_of_trimStart_eq_cons hbefore
      have hfront : earlier.reverse = front.reverse ++ bang :: space.reverse := by
        rw [hearlier, hbefore, List.reverse_append, List.reverse_cons, List.append_assoc]
        rfl
      have hlast : significant run = significant front.reverse ++ [bang, word] := by
        rw [hsignificant, hfront, significant_append, significant_cons hbang,
          significant_trivia hspace', List.append_assoc]
        rfl
      split
      · rename_i hmark
        rw [Bool.and_eq_true, beq_iff_eq] at hmark
        refine Or.inl ⟨⟨_, bang, word, hlast, hmark.2, hmark.1⟩, ?_⟩
        rcases trim_eq_append run with ⟨before, behind, hrun, hbefore, hbehind⟩
        refine ⟨before ++ front.reverse, bang, space.reverse ++ word :: behind, word, ?_, hmark.2, ?_,
          hmark.1, ?_⟩
        · rw [hrun, htrim, hfront]
          simp
        · rw [significant_append, significant_trivia hspace', significant_cons hword,
            significant_trivia hbehind, List.nil_append]
        · rw [trim, trim, trimStart_append_of_trivia hbefore]
      · rename_i hmark
        refine Or.inr ⟨?_, rfl⟩
        rintro ⟨front', bang', word', hrun, hbang', hword'⟩
        rw [hlast] at hrun
        have hends := List.append_inj_right' hrun rfl
        simp only [List.cons.injEq, and_true] at hends
        rw [hends.1, hends.2, hbang', hword'] at hmark
        exact hmark (Bool.and_eq_true_iff.mpr ⟨rfl, beq_self_eq_true _⟩)
    · rename_i hbefore
      rw [hbefore, List.append_nil] at hearlier
      refine Or.inr ⟨hshort ?_, rfl⟩
      rw [hsignificant, hearlier, significant_trivia hspace']
      exact Nat.lt_succ_self 1
  · rename_i hreverse
    have hnil : trim run = [] := List.reverse_eq_nil_iff.mp hreverse
    refine Or.inr ⟨hshort ?_, by rw [hnil]⟩
    rw [trim_eq_nil_iff.mp hnil]
    exact Nat.succ_pos 1

theorem isImportant_eq {left right : Token} (h : left.kind = right.kind) :
    isImportant left = isImportant right := by
  unfold isImportant
  rw [h]

theorem isFixed_of_isImportant {token : Token} (h : isImportant token = true) :
    isFixed token.kind = true := by
  unfold isImportant at h
  split at h
  · rw [‹token.kind = _›]
    rfl
  · cases h

/-- A mark of importance is kept where words and marks are. -/
theorem IsMarked.similar (h : IsMarked run) (hsimilar : Similar run other) : IsMarked other := by
  rcases h with ⟨front, bang, word, hrun, hbang, hword⟩
  have hall := List.forall₂_reverse_iff.mpr hsimilar.significant
  rw [hrun, List.reverse_append] at hall
  rcases List.forall₂_cons_left_iff.mp hall with ⟨word', before, hlast, hbefore, hother⟩
  rcases List.forall₂_cons_left_iff.mp hbefore with ⟨bang', front', hmark, -, rfl⟩
  have hkind := hmark.kind_eq (by rw [hbang]; rfl)
  have hsame := isImportant_eq (hlast.kind_eq (isFixed_of_isImportant hword))
  refine ⟨front'.reverse, bang', word', ?_, hkind.symm.trans hbang, hsame.symm.trans hword⟩
  rw [← List.reverse_reverse (significant other), hother, List.reverse_cons, List.reverse_cons,
    List.append_assoc]
  rfl

theorem splitImportant_congr (h : trim run = trim other) :
    splitImportant run = splitImportant other := by
  unfold splitImportant
  rw [h]

/-! ## Values -/

/-- A value is read back from its tokens, which are those of its run but for trivia and closers. -/
structure IsValue (property : String) (content : List Token) (node : Node) : Prop where
  trim_eq : trim node.written = node.written
  similar : Similar content node.written
  uncut : forall depth, Uncut Sheet.endsDeclaration depth content ->
    Uncut Sheet.endsDeclaration depth node.written
  reads : value none property node.written = node

theorem isValue_raw {property : String} {content : List Token} (hcontent : Seamless content)
    (htrim : trim content = content)
    (h : value none property content = rawRun none content) :
    IsValue property content (rawRun none content) := by
  have hwritten := Selector.written_rawRun hcontent
  refine ⟨?_, ?_, ?_, ?_⟩
  · rw [hwritten, htrim]
  · rw [hwritten]
    exact Run.Similar.refl content
  · rw [hwritten]
    exact fun _ huncut => huncut
  · rw [hwritten, h]

theorem endsDeclaration_of_endsPrelude {kind : TokenKind} (h : Sheet.endsPrelude kind = false) :
    Sheet.endsDeclaration kind = false := by
  cases kind <;> first | rfl | cases h

theorem isValue_value (property : String) {content : List Token} (hcontent : Seamless content)
    (htrim : trim content = content) : IsValue property content (value none property content) := by
  by_cases hcustom : isCustom property = true
  · have hvalue : value none property content = rawRun none content := by
      rw [value, if_pos hcustom]
    rw [hvalue]
    exact isValue_raw hcontent htrim hvalue
  have hof : forall run, value none property run = Value.ofRun none run := fun run => by
    rw [value, if_neg hcustom]
  cases hcomponents : Value.components? none content with
  | none =>
      have hvalue : value none property content = rawRun none content := by
        rw [hof, Value.ofRun, htrim, hcomponents]
      rw [hvalue]
      exact isValue_raw hcontent htrim hvalue
  | some nodes =>
      have hlist := Value.isList_of_components? hcomponents
      have hvalue : value none property content = ofConstruct (.value nodes) := by
        rw [hof, Value.ofRun, htrim, hcomponents]
        exact spanning_none _ _
      have hwritten : (ofConstruct (.value nodes)).written = writtenAll nodes :=
        written_ofConstruct _
      rw [hvalue]
      refine ⟨?_, ?_, ?_, ?_⟩
      · rw [hwritten, hlist.trim_eq]
      · rw [hwritten]
        exact Value.similar_of_components? hcontent hcomponents
      · rw [hwritten]
        exact fun depth _ => (hlist.closes.uncut hlist.uncut depth).mono
          fun _ => endsDeclaration_of_endsPrelude
      · rw [hwritten, hof, Value.ofRun, hlist.trim_eq, hlist.reads]
        exact spanning_none _ _

/-! ## Declarations -/

/-- A declaration is read back from its tokens, when what follows ends it. -/
structure IsReread (run : List Token) (node : Node) : Prop where
  declaration : node.isDeclaration = true
  tallies : Tallies run node.written
  reads : exists first rest, node.written = first :: rest ∧ Sheet.BeginsItem first ∧
    parse none first rest = .ok node
  uncut : Uncut Sheet.endsDeclaration 0 node.written

/-- The mark of importance of a declaration that has one. -/
def mark (important : Bool) : List Token :=
  if important then importance else []

theorem uncut_mark (important : Bool) (depth : Nat) :
    Uncut Sheet.endsDeclaration depth (mark important) := by
  cases important with
  | true => exact uncut_plain (by decide) (by decide) depth
  | false => trivial

theorem trim_trimEnd (run : List Token) : trim (trimStart run.reverse).reverse = trim run := by
  rcases exists_trivia_of_trimStart run.reverse with ⟨space, hreverse, hspace⟩
  have hrun : run = (trimStart run.reverse).reverse ++ space.reverse := by
    rw [← List.reverse_append, ← hreverse, List.reverse_reverse]
  have hspace' : forall token, token ∈ space.reverse -> token.isTrivia = true :=
    fun token htoken => hspace token (List.mem_reverse.mp htoken)
  conv_rhs => rw [hrun]
  rw [trim_append_of_trivia hspace']

theorem begins_of_trim_eq {token : Token} (htrim : trim run = run) (htoken : token.isTrivia = false)
    (rest : List Token) : Begins (run ++ token :: rest) := by
  cases run with
  | nil => exact begins_cons htoken rest
  | cons first more =>
      have hne : trim (first :: more) ≠ [] := by
        rw [htrim]
        exact List.cons_ne_nil _ _
      have hbegins := (begins_and_ends_of_trim_ne_nil hne).left
      rw [htrim] at hbegins
      exact hbegins.append _

theorem splitImportant_importance (htrim : trim run = run) :
    splitImportant (run ++ importance) = (run, true) := by
  have hends : Ends (run ++ importance) :=
    (Ends.cons (ends_singleton rfl) (ofKind (.delim '!'))).append run
  have hwhole : trim (run ++ importance) = run ++ importance :=
    trim_eq_self (begins_of_trim_eq htrim rfl _) hends
  have hreverse : (run ++ importance).reverse =
      ofKind (.ident "important") :: ofKind (.delim '!') :: run.reverse := by
    rw [List.reverse_append]
    rfl
  have hstart : trimStart (ofKind (.delim '!') :: run.reverse) =
      ofKind (.delim '!') :: run.reverse :=
    trimStart_cons_of_not_trivia rfl _
  have hmark : (isImportant (ofKind (.ident "important")) &&
      (ofKind (.delim '!')).kind == .delim '!') = true := by
    rw [isImportant]
    exact Bool.and_eq_true_iff.mpr ⟨beq_self_eq_true _, beq_self_eq_true _⟩
  rw [splitImportant, hwhole, hreverse]
  simp only [hstart, hmark, if_true, List.reverse_reverse, htrim]

/-- The mark of importance is found where it was written, and nowhere else. -/
theorem splitImportant_written {property : String} {node : Node} {content : List Token}
    {important : Bool} (h : splitImportant run = (content, important))
    (hnode : IsValue property content node) :
    splitImportant (node.written ++ mark important) = (node.written, important) := by
  cases important with
  | true => exact splitImportant_importance hnode.trim_eq
  | false =>
      have hunmarked : ¬IsMarked node.written := by
        intro hmarked
        rcases splitImportant_cases run with ⟨-, _, _, _, _, -, -, -, -, hsplit⟩ | ⟨hnot, hsplit⟩
        · rw [h] at hsplit
          cases hsplit
        · rw [h] at hsplit
          cases hsplit
          rcases hmarked.similar hnode.similar.symm with ⟨front, bang, word, hrun, hmark⟩
          rw [significant_trim] at hrun
          exact hnot ⟨front, bang, word, hrun, hmark⟩
      rw [mark, if_neg Bool.false_ne_true, List.append_nil]
      rcases splitImportant_cases node.written with ⟨hmarked, -⟩ | ⟨-, hsplit⟩
      · exact absurd hmarked hunmarked
      · rw [hsplit, hnode.trim_eq]

/-- What is cut out of a run for a value, with the mark of importance behind it or without. -/
structure IsContent (run content : List Token) (important : Bool) : Prop where
  seamless : Seamless content
  trim_eq : trim content = content
  uncut : forall depth, Uncut Sheet.endsDeclaration depth run ->
    Uncut Sheet.endsDeclaration depth content
  tallies : Tallies run (content ++ mark important)

theorem isContent_splitImportant {content : List Token} {important : Bool} (hrun : Seamless run)
    (h : splitImportant run = (content, important)) : IsContent run content important := by
  rcases splitImportant_cases run with
    ⟨-, front, bang, back, word, hcut, hbang, hback, hword, hsplit⟩ | ⟨-, hsplit⟩
  · rw [h] at hsplit
    cases hsplit
    subst hcut
    refine ⟨(hrun.front_of_mark (by rw [hbang]; rfl)).trim, trim_trim front, ?_, ?_⟩
    · exact fun depth huncut => (uncut_append.mp huncut).1.trim
    · have hfront : Tallies front (trim front) :=
        tallies_of_significant_eq (significant_trim front).symm
      have hmark : significant (bang :: back) = [bang, word] := by
        rw [significant_cons, hback]
        rw [Token.isTrivia, hbang]
        rfl
      have hsame : word.isOpener = false ∧ word.isCloser = false := by
        unfold isImportant at hword
        unfold Token.isOpener Token.isCloser
        split at hword
        · rw [‹word.kind = _›]
          exact ⟨rfl, rfl⟩
        · cases hword
      refine hfront.append ?_
      rw [Tallies, hmark]
      refine List.Forall₂.cons ?_ (List.Forall₂.cons hsame List.Forall₂.nil)
      unfold Token.isOpener Token.isCloser
      rw [hbang]
      exact ⟨rfl, rfl⟩
  · rw [h] at hsplit
    cases hsplit
    refine ⟨hrun.trim, trim_trim run, fun depth huncut => huncut.trim, ?_⟩
    rw [mark, if_neg Bool.false_ne_true, List.append_nil]
    exact tallies_of_significant_eq (significant_trim run).symm

theorem isReread_parse {first : Token} {rest : List Token} {node : Node}
    (hrun : Seamless (first :: rest)) (hfirst : Sheet.BeginsItem first)
    (huncut : Uncut Sheet.endsDeclaration 0 (first :: rest))
    (h : parse none first rest = .ok node) : IsReread (first :: rest) node := by
  rcases exists_isCutAt_or (first :: rest) with ⟨front, colon, behind, hcut, hcolon⟩ | hnone
  swap
  · rw [parse_of_not_colon none hnone] at h
    cases h
  rw [hcolon.parse_eq none hcut] at h
  split at h
  swap
  · cases h
  rename_i hproperty
  rw [splitImportant_congr (trim_trimEnd behind), spanning_none] at h
  cases hsplit : splitImportant behind with
  | mk content important =>
      rw [hsplit] at h
      cases h
      rw [hcut] at hrun huncut
      rcases uncut_append.mp huncut with ⟨hfront, hbehind⟩
      have hmark : isMark colon.kind = true := by
        rw [hcolon.colon_kind]
        rfl
      have hbefore : Seamless (trim front) := (hrun.front_of_mark hmark).trim
      have hafter : Seamless behind := by
        rw [List.append_cons] at hrun
        exact hrun.back
      have hcontent := isContent_splitImportant hafter hsplit
      have hvalue := isValue_value (text (trim front)) hcontent.seamless hcontent.trim_eq
      generalize value none (text (trim front)) content = node at hvalue
      have hwritten : (ofConstruct (.declaration important (text (trim front)) node)).written =
          trim front ++ ofKind .colon :: (node.written ++ mark important) := by
        rw [written_ofConstruct, writtenConstruct, ofText_of_seamless hbefore, List.append_assoc]
        rfl
      -- The property is not empty, so that its first token is the first one of the declaration.
      have hstarts : exists more, trim front = first :: more := by
        cases front with
        | nil => exact absurd rfl (isProperty_iff.mp hproperty).1
        | cons _ front =>
            rw [List.cons_append, List.cons.injEq] at hcut
            rw [← hcut.1]
            exact trim_cons_of_not_trivia hfirst.isTrivia_eq front
      rcases hstarts with ⟨more, hmore⟩
      have hcut' : IsCutAt (trim front) (ofKind .colon) :=
        ⟨fun token htoken => hcolon.front_kind token ((trim_sublist front).subset htoken), rfl⟩
      have hreread : parse none first (more ++ ofKind .colon :: (node.written ++ mark important)) =
          .ok (ofConstruct (.declaration important (text (trim front)) node)) := by
        have hwhole : first :: (more ++ ofKind .colon :: (node.written ++ mark important)) =
            trim front ++ ofKind .colon :: (node.written ++ mark important) := by
          rw [hmore, List.cons_append]
        rw [hcut'.parse_eq none hwhole, trim_trim, if_pos hproperty,
          splitImportant_congr (trim_trimEnd _), splitImportant_written hsplit hvalue, hvalue.reads,
          spanning_none]
      refine ⟨rfl, ?_, ⟨first, _, ?_, hfirst, hreread⟩, ?_⟩
      · have hkind : colon.kind = (ofKind .colon).kind := hcolon.colon_kind
        have hmark : Similar [colon] [ofKind .colon] :=
          Similar.cons (Alike.kind hkind) Similar.nil
        have hbehind' : Tallies behind (node.written ++ mark important) :=
          hcontent.tallies.trans (hvalue.similar.tallies.append (tallies_of_significant_eq rfl))
        rw [hcut, hwritten]
        exact (tallies_of_significant_eq (significant_trim front).symm).append
          (hmark.tallies.append hbehind')
      · rw [hwritten, hmore, List.cons_append]
      · have hdepth := depthBehind_trim 0 front
        rcases hbehind with ⟨-, -, hbehind⟩
        have hcolonDepth : forall depth token, token.kind = .colon ->
            depthAfter depth token = depth := by
          intro depth token hkind
          unfold depthAfter Token.isOpener Token.isCloser
          rw [hkind]
          rfl
        rw [hcolonDepth _ colon hcolon.colon_kind] at hbehind
        rw [hwritten]
        refine uncut_append.mpr ⟨hfront.trim, TokenKind.noConfusion, fun _ => rfl, ?_⟩
        rw [hcolonDepth _ (ofKind .colon) rfl, hdepth]
        exact uncut_append.mpr ⟨hvalue.uncut _ (hcontent.uncut _ hbehind), uncut_mark important _⟩

end Declaration
end Stylesheet
