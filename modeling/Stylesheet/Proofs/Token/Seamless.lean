import Stylesheet.Proofs.Token.Spelling
import Stylesheet.Proofs.Token.Truncation.Lexeme
import Stylesheet.Token.Run

/-!
# Runs that are read back

A run is seamless when its text has just its tokens, so that no token runs into the next.
The tokens of a source are seamless, and a seamless run stays so when it is cut, unless the cut
takes the quote behind the opening of an address away.
-/

namespace Stylesheet

open Character

namespace Token

/-- A token that is said to start elsewhere. -/
def moved (place : Position -> Position) (token : Token) : Token :=
  { token with start := place token.start }

/-- A token as it stands at the start of a source. -/
def bare (token : Token) : Token :=
  token.moved fun _ => .start

/-- The tokens of a text, each as it stands at the start of a source. -/
inductive Lexes : List Char -> List Token -> Prop
  | nil : Lexes [] []
  | cons {c : Char} {rest : List Char} {lexeme : Lexeme} {run : List Token}
      (hread : Lexeme.read c rest = .ok lexeme) (hrest : Lexes lexeme.rest run) :
      Lexes (c :: rest) (⟨lexeme.kind, String.ofList lexeme.text, .start⟩ :: run)

theorem Scan.lexes {position : Position} {text : List Char} {tokens : List Token}
    (h : Scan position text tokens) :
    exists body last, tokens = body ++ [last] ∧ last.bare = ⟨.eof, "", .start⟩ ∧
      (forall token, token ∈ body -> token.kind ≠ .eof) ∧ Lexes text (body.map bare) := by
  induction h with
  | done position => exact ⟨[], _, rfl, rfl, by simp, Lexes.nil⟩
  | @step position c rest lexeme tokens hread hscan ih =>
      rcases ih with ⟨body, last, rfl, hlast, hbody, hlexes⟩
      refine ⟨_ :: body, last, rfl, hlast, ?_, Lexes.cons hread hlexes⟩
      intro token htoken
      rcases List.mem_cons.mp htoken with rfl | htoken
      · exact Lexeme.read_kind_ne_eof hread
      · exact hbody token htoken

theorem Lexes.scan {text : List Char} {run : List Token} (h : Lexes text run)
    (position : Position) :
    exists body last, Scan position text (body ++ [last]) ∧ last.kind = .eof ∧
      body.map bare = run := by
  induction h generalizing position with
  | nil => exact ⟨[], _, Scan.done position, rfl, rfl⟩
  | @cons c rest lexeme run hread hrest ih =>
      rcases ih (position.after lexeme.text) with ⟨body, last, hscan, hlast, rfl⟩
      exact ⟨_ :: body, last, Scan.step hread hscan, hlast, rfl⟩

end Token

namespace Run

open Token

@[simp] theorem text_nil : text [] = "" :=
  rfl

@[simp] theorem text_cons (token : Token) (run : List Token) :
    text (token :: run) = token.text ++ text run := by
  unfold text
  rw [List.map_cons, String.join_cons]

@[simp] theorem text_append (front back : List Token) :
    text (front ++ back) = text front ++ text back := by
  induction front with
  | nil => rw [List.nil_append, text_nil, String.empty_append]
  | cons token front ih => rw [List.cons_append, text_cons, text_cons, ih, String.append_assoc]

theorem text_map_bare (run : List Token) : text (run.map bare) = text run := by
  unfold text
  rw [List.map_map]
  rfl

theorem text_of_lexes {source : List Char} {run : List Token} (h : Lexes source run) :
    (text run).toList = source := by
  induction h with
  | nil => rfl
  | cons hread hrest ih =>
      rw [text_cons, String.toList_append, ih, String.toList_ofList, Lexeme.read_append hread]

/-- The text of a run has its tokens and no others. -/
def Seamless (run : List Token) : Prop :=
  Lexes (text run).toList run

theorem seamless_of_lexes {source : List Char} {run : List Token} (h : Lexes source run) :
    Seamless run := by
  unfold Seamless
  rw [text_of_lexes h]
  exact h

namespace Seamless

theorem nil : Seamless [] :=
  Lexes.nil

/-- Every token of a seamless run is read somewhere. -/
theorem exists_read {run : List Token} (h : Seamless run) {token : Token} (hmem : token ∈ run) :
    exists c rest lexeme, Lexeme.read c rest = .ok lexeme ∧
      token = ⟨lexeme.kind, String.ofList lexeme.text, .start⟩ := by
  unfold Seamless at h
  generalize (text run).toList = source at h
  induction h with
  | nil => cases hmem
  | cons hread hrest ih =>
      rcases List.mem_cons.mp hmem with rfl | hmem
      · exact ⟨_, _, _, hread, rfl⟩
      · exact ih hmem

theorem isSpelled {run : List Token} (h : Seamless run) {token : Token} (hmem : token ∈ run) :
    token.IsSpelled := by
  rcases h.exists_read hmem with ⟨c, rest, lexeme, hread, rfl⟩
  refine ⟨?_, Lexeme.isSpelled_of_read hread⟩
  intro hkind
  simpa using Lexeme.read_text_ne_nil hread

theorem kind_ne_eof {run : List Token} (h : Seamless run) {token : Token} (hmem : token ∈ run) :
    token.kind ≠ .eof := by
  rcases h.exists_read hmem with ⟨c, rest, lexeme, hread, rfl⟩
  exact Lexeme.read_kind_ne_eof hread

theorem bare_eq {run : List Token} (h : Seamless run) {token : Token} (hmem : token ∈ run) :
    token.bare = token := by
  rcases h.exists_read hmem with ⟨c, rest, lexeme, hread, rfl⟩
  rfl

/-- A token that begins with a mark of its own kind is that mark. -/
theorem kind_of_text {run : List Token} (h : Seamless run) {token : Token} (hmem : token ∈ run)
    {c : Char} {more : List Char} (htext : token.text.toList = c :: more) {kind : TokenKind}
    (hkind : Lexeme.punctuation? c = some kind) : token.kind = kind := by
  rcases h.exists_read hmem with ⟨first, rest, lexeme, hread, rfl⟩
  have happend := Lexeme.read_append hread
  rw [String.toList_ofList] at htext
  rw [htext, List.cons_append] at happend
  cases happend
  rw [Lexeme.read_of_punctuation? hkind] at hread
  exact (congrArg Lexeme.kind (Except.ok.inj hread)).symm

theorem kind_ne_delim {run : List Token} (h : Seamless run) {token : Token} (hmem : token ∈ run)
    {c : Char} {kind : TokenKind} (hkind : Lexeme.punctuation? c = some kind) :
    token.kind ≠ .delim c := by
  intro hdelim
  have htext := (h.isSpelled hmem).spelling (String.singleton c) (by rw [hdelim]; rfl)
  have hmark := h.kind_of_text hmem (by rw [htext, String.toList_singleton]) hkind
  rw [← hmark, hdelim] at hkind
  cases Lexeme.isPunctuation_of_punctuation? hkind

theorem back {front back : List Token} (h : Seamless (front ++ back)) : Seamless back := by
  unfold Seamless at h
  generalize (text (front ++ back)).toList = source at h
  induction front generalizing source with
  | nil => exact seamless_of_lexes h
  | cons token front ih =>
      cases h with
      | cons hread hrest => exact ih _ hrest

theorem of_suffix {run back : List Token} (h : Seamless run) (hsuffix : back <:+ run) :
    Seamless back := by
  rcases hsuffix with ⟨front, rfl⟩
  exact h.back

end Seamless

/-! ## Cutting behind a run -/

theorem startsQuotedAddress_of_append {front back : List Char}
    (h : Lexeme.startsQuotedAddress (front ++ back) = true)
    (hback : Lexeme.startsQuotedAddress back = false) :
    Lexeme.startsQuotedAddress front = true := by
  unfold Lexeme.startsQuotedAddress at h hback ⊢
  rw [List.dropWhile_append] at h
  cases hfront : front.dropWhile isSpace with
  | nil =>
      rw [hfront] at h
      exact absurd (h.symm.trans hback) (by decide)
  | cons c rest =>
      rw [hfront] at h
      exact h

theorem opens_of_read {c : Char} {rest : List Char} {lexeme : Lexeme}
    (h : Lexeme.read c rest = .ok lexeme) : Lexeme.Opens lexeme.kind lexeme.rest := by
  intro name hkind hname
  cases Lexeme.isRead_of_read h with
  | punctuation hpunctuation => exact absurd hkind (Lexeme.ne_of_punctuation? hpunctuation rfl)
  | numeric => exact absurd hkind (Lexeme.numeric_kind_ne _ rfl)
  | named hstarts hnamed =>
      simp only [Lexeme.named] at hnamed
      split at hnamed
      · split at hnamed
        · split at hnamed <;> cases hnamed
          cases hkind
        · rename_i hurl
          cases hnamed
          cases hkind
          simpa [hname] using hurl
      · cases hnamed
        cases hkind
  | _ => cases hkind

namespace Seamless

theorem front {front back : List Token} (h : Seamless (front ++ back))
    (hback : Lexeme.startsQuotedAddress (text back).toList = false) : Seamless front := by
  have hlexes : forall source, Lexes source (front ++ back) ->
      Lexes (text front).toList front := by
    clear h
    induction front with
    | nil =>
        intro source h
        exact Lexes.nil
    | cons token front ih =>
        intro source h
        cases h with
        | @cons c rest lexeme _ hread hrest =>
            have hkeep : lexeme.rest = (text front).toList ++ (text back).toList := by
              rw [← String.toList_append, ← text_append]
              exact (text_of_lexes hrest).symm
            have hopens : Lexeme.Opens lexeme.kind (text front).toList := by
              intro name hkind hname
              have hquoted := opens_of_read hread name hkind hname
              rw [hkeep] at hquoted
              exact startsQuotedAddress_of_append hquoted hback
            rcases Lexeme.read_of_append hread hkeep hopens with ⟨body, hbody, hread'⟩
            have htext : (text (⟨lexeme.kind, String.ofList lexeme.text, .start⟩ :: front)).toList =
                c :: (body ++ (text front).toList) := by
              rw [text_cons, String.toList_append, String.toList_ofList, hbody]
              rfl
            have hcons := Lexes.cons hread' (ih _ hrest)
            rw [htext]
            exact hcons
  exact hlexes _ h

end Seamless

/-! ## Where runs are cut -/

theorem not_startsQuotedAddress_cons {token : Token} {c : Char} {more : List Char}
    (htext : token.text.toList = c :: more) (hspace : isSpace c = false)
    (hquote : isQuote c = false) (rest : List Token) :
    Lexeme.startsQuotedAddress (text (token :: rest)).toList = false := by
  rw [text_cons, String.toList_append, htext, List.cons_append]
  unfold Lexeme.startsQuotedAddress
  rw [List.dropWhile_cons_of_neg (ne_true_of_eq_false hspace)]
  exact hquote

/-- The marks that runs are cut in front of. -/
def isMark : TokenKind -> Bool
  | .colon => true
  | .semicolon => true
  | .comma => true
  | .leftBrace => true
  | .rightBrace => true
  | .rightParen => true
  | .rightBracket => true
  | .delim c => c == '!'
  | _ => false

theorem not_startsQuotedAddress_of_isMark {token : Token} (hspelled : token.IsSpelled)
    (hmark : isMark token.kind = true) (rest : List Token) :
    Lexeme.startsQuotedAddress (text (token :: rest)).toList = false := by
  have htext : exists c, token.text.toList = [c] ∧ isSpace c = false ∧ isQuote c = false := by
    cases hkind : token.kind with
    | delim c =>
        rw [hkind] at hmark
        have hc : c = '!' := by simpa [isMark] using hmark
        rw [hspelled.spelling (String.singleton c) (by rw [hkind]; rfl), hc]
        exact ⟨'!', rfl, by decide, by decide⟩
    | colon | semicolon | comma | leftBrace | rightBrace | rightParen | rightBracket =>
        rw [hspelled.spelling _ (by rw [hkind]; rfl)]
        exact ⟨_, rfl, by decide, by decide⟩
    | _ =>
        rw [hkind] at hmark
        cases hmark
  rcases htext with ⟨c, htext, hspace, hquote⟩
  exact not_startsQuotedAddress_cons htext hspace hquote rest

theorem spaces_of_whitespace {run : List Token} (h : Seamless run) {token : Token}
    (hmem : token ∈ run) (hkind : token.kind = .whitespace) :
    forall c, c ∈ token.text.toList -> isSpace c = true := by
  rcases h.exists_read hmem with ⟨c, rest, lexeme, hread, rfl⟩
  rw [String.toList_ofList]
  change lexeme.kind = .whitespace at hkind
  cases Lexeme.isRead_of_read hread with
  | whitespace hspace =>
      intro d hd
      rcases List.mem_cons.mp hd with rfl | hd
      · exact hspace
      · exact List.mem_takeWhile_imp hd
  | punctuation hpunctuation => exact absurd hkind (Lexeme.ne_of_punctuation? hpunctuation rfl)
  | numeric => exact absurd hkind (Lexeme.numeric_kind_ne _ rfl)
  | named _ hnamed => exact absurd hkind (Lexeme.named_kind_ne hnamed rfl)
  | _ => cases hkind

end Run
end Stylesheet
