import Stylesheet.Proofs.Selector.Derivation
import Stylesheet.Proofs.Shape.Selector
import Stylesheet.Proofs.Token.Cuts
import Stylesheet.Proofs.Token.Joints

/-!
# The tokens of simple selectors

A simple selector is written as the tokens it was read from, without the trivia between them.
Each of them is read again in front of what a selector puts behind it, unless it joins that.
-/

namespace Stylesheet

open Character

/-! ## Runs that are written for others -/

namespace Run

open Token

/-- Tokens that are written for those of a run, in front of texts of some kind. -/
structure Kept (meets : List Char -> Prop) (run written : List Token) : Prop where
  keeps : List.Forall₂ Keeps (significant run) (significant written)
  stands : forall behind, meets behind -> Stands behind written

/-- Any text. -/
def Anything (_ : List Char) : Prop :=
  True

namespace Kept

variable {meets meets' : List Char -> Prop} {run run' written written' : List Token}

theorem nil : Kept meets [] [] :=
  ⟨List.Forall₂.nil, fun _ _ => trivial⟩

theorem mono (h : Kept meets run written) (hmeets : forall behind, meets' behind -> meets behind) :
    Kept meets' run written :=
  ⟨h.keeps, fun behind hbehind => h.stands behind (hmeets behind hbehind)⟩

theorem append (h : Kept meets run written) (h' : Kept meets' run' written')
    (hmeets : forall behind, meets' behind -> meets ((text written').toList ++ behind)) :
    Kept meets' (run ++ run') (written ++ written') where
  keeps := by
    unfold significant
    rw [List.filter_append, List.filter_append]
    exact List.rel_append h.keeps h'.keeps
  stands := fun behind hbehind =>
    (h.stands _ (hmeets behind hbehind)).append (h'.stands behind hbehind)

theorem trivia {token : Token} (h : Kept meets run written) (htrivia : token.isTrivia = true) :
    Kept meets (token :: run) written where
  keeps := by
    rw [significant, List.filter_cons_of_neg (by simp [htrivia])]
    exact h.keeps
  stands := h.stands

theorem of_significant (h : Kept meets run written) (hrun : significant run' = significant run) :
    Kept meets run' written :=
  ⟨hrun ▸ h.keeps, h.stands⟩

/-- A run that stands where it is written is kept. -/
theorem of_stands (h : forall behind, meets behind -> Stands behind run) : Kept meets run run where
  keeps := List.forall₂_same.mpr fun _ _ => Keeps.same rfl rfl
  stands := h

theorem singleton {token : Token}
    (h : forall firm behind, meets behind -> token.Stands firm behind) :
    Kept meets [token] [token] :=
  of_stands fun behind hbehind => ⟨h _ behind hbehind, trivial⟩

end Kept

/-- The closer of a group may be given another shape. -/
theorem kept_closer {closer : Token} (h : closer.isCloser = true) {c : Char} {kind : TokenKind}
    (hkind : Lexeme.punctuation? c = some kind) (hcloser : kind.isCloser = true) :
    Kept Anything [closer] [ofKind kind] where
  keeps := by
    have htrivia : (ofKind kind).isTrivia = false := Value.isTrivia_of_isCloser hcloser
    unfold significant
    rw [List.filter_cons_of_pos (by simp [Value.isTrivia_of_isCloser h]),
      List.filter_cons_of_pos (by simp [htrivia])]
    exact List.Forall₂.cons (Keeps.closer h hcloser) List.Forall₂.nil
  stands := fun behind _ => ⟨(readsBefore_punctuation hkind behind).stands, trivial⟩

/-! ## Tokens of seamless runs -/

namespace Seamless

variable {run rest : List Token} {token : Token}

theorem ofKind_eq (h : Seamless run) (hmem : token ∈ run) {kind : TokenKind} {spelling : String}
    (hkind : token.kind = kind) (hspelling : kind.spelling? = some spelling) :
    ofKind kind = token := by
  subst hkind
  unfold ofKind
  rw [hspelling, Option.getD_some, ← (h.isSpelled hmem).spelling spelling hspelling]
  exact h.bare_eq hmem

theorem readsIn (h : Seamless run) : ReadsIn [] run := by
  have hbare : run.map bare = run := by
    refine (List.map_congr_left ?_).trans run.map_id
    intro token htoken
    exact h.bare_eq htoken
  exact readsIn_of_lexes (hbare.symm ▸ h)

theorem readsBefore (h : Seamless (token :: rest)) : token.ReadsBefore (text rest).toList := by
  have hread := h.readsIn.1
  rwa [List.append_nil] at hread

theorem tail (h : Seamless (token :: rest)) : Seamless rest :=
  @Seamless.back [token] rest h

end Seamless

end Run

namespace Selector

open Token Run Node

/-! ## What stands behind a name -/

/-- Whether a run begins with a name. -/
def startsName : List Token -> Bool
  | [] => false
  | token :: _ =>
      match token.kind with
      | .ident _ => true
      | _ => false

theorem exists_ident_of_startsName {run : List Token} (h : startsName run = true) :
    exists token name rest, run = token :: rest ∧ token.kind = .ident name := by
  unfold startsName at h
  split at h
  · cases h
  · split at h
    · exact ⟨_, _, _, rfl, ‹_›⟩
    · cases h

theorem startsType_of_startsName {run : List Token} (h : startsName run = true) :
    startsType run = true := by
  rcases exists_ident_of_startsName h with ⟨⟨kind, text, start⟩, name, rest, rfl, hkind⟩
  cases hkind
  rfl

/-- A text that may be written for a run: it begins with a mark, or the run begins with a name. -/
def Meets (run : List Token) (text : List Char) : Prop :=
  StartsMark text ∨ startsName run = true

theorem startsMark_cons {c : Char} (h : c ∈ marks) (rest : List Char) : StartsMark (c :: rest) := by
  rintro _ ⟨⟩
  exact h

variable {token : Token} {run rest : List Token}

/-- No name stands directly behind a word. -/
theorem startsMark_of_meets (h : Seamless (token :: rest)) (hword : isWord token.kind = true)
    {text : List Char} (hmeets : Meets rest text) : StartsMark text := by
  refine hmeets.resolve_right ?_
  intro hname
  rcases exists_ident_of_startsName hname with ⟨other, name, more, rfl, hkind⟩
  have hnone := h.readsBefore.splitUnit?_word hword
  have hsome := h.tail.readsBefore.startsIdent hkind (Run.text more).toList
  rw [text_cons, String.toList_append] at hnone
  have hunit := splitUnit?_isSome_of_startsIdent hsome
  rw [hnone] at hunit
  cases hunit

theorem kept_before_mark {source : List Char} (h : token.ReadsBefore source)
    (hword : isWord token.kind = true) : Kept StartsMark [token] [token] :=
  Kept.singleton fun _ _ hmark => h.stands_word hword hmark

theorem kept_word (h : Seamless (token :: rest)) (hword : isWord token.kind = true) :
    Kept (Meets rest) [token] [token] :=
  (kept_before_mark h.readsBefore hword).mono fun _ => startsMark_of_meets h hword

theorem kept_punctuation {c : Char} {kind : TokenKind} (h : Lexeme.punctuation? c = some kind) :
    Kept Anything [ofKind kind] [ofKind kind] :=
  Kept.singleton fun _ behind _ => (readsBefore_punctuation h behind).stands

/-! ## What stands behind a combinator -/

/-- A text that may stand behind a combinator: it begins no number and no whitespace. -/
structure BeginsOperand (text : List Char) : Prop where
  unsigned : Numeral.startsUnsigned text = false
  space : forall b, b ∈ text.head? -> isSpace b = false

theorem beginsOperand_cons {c : Char} (h : (isDigit c || c == '.' || isSpace c) = false)
    (rest : List Char) : BeginsOperand (c :: rest) := by
  rw [Bool.or_eq_false_iff, Bool.or_eq_false_iff, beq_eq_false_iff_ne] at h
  rcases h with ⟨⟨hdigit, hpoint⟩, hspace⟩
  constructor
  · unfold Numeral.startsUnsigned
    split
    · rename_i heq
      exact absurd (List.cons.inj heq).1 hpoint
    · exact hdigit
  · rintro _ ⟨⟩
    exact hspace

theorem kept_blank : Kept BeginsOperand [] [blank] where
  keeps := List.Forall₂.nil
  stands := fun _ hbehind => ⟨(readsBefore_blank hbehind.space).stands, trivial⟩

/-- A name begins with no digit and with no whitespace. -/
theorem beginsOperand_of_startsIdent {text : List Char} (h : Name.startsIdent text = true) :
    BeginsOperand text ∧ BeginsOperand ('.' :: text) := by
  have hfirst : exists c rest, text = c :: rest ∧
      (isNameStart c = true ∨ c = '\\' ∨ c = '-') := by
    rcases Name.startsIdent_cases h with ⟨c, rest, rfl, hc | ⟨rfl, _⟩⟩
    · exact ⟨c, rest, rfl, hc.imp_right Or.inl⟩
    · exact ⟨'-', rest, rfl, Or.inr (Or.inr rfl)⟩
  rcases hfirst with ⟨c, rest, rfl, hc⟩
  have hspace : isSpace c = false := by
    rw [← Bool.not_eq_true]
    intro hspace
    simp only [isSpace, Bool.or_eq_true, beq_iff_eq] at hspace
    rcases hspace with (((rfl | rfl) | rfl) | rfl) | rfl
    all_goals exact absurd hc (by decide)
  have hdigit : isDigit c = false := by
    rw [← Bool.not_eq_true]
    intro hdigit
    have hname := Numeral.not_isNameStart_of_isDigit hdigit
    rcases hc with hc | rfl | rfl
    · rw [hname] at hc
      cases hc
    · cases hdigit
    · cases hdigit
  refine ⟨⟨Numeral.startsUnsigned_name hc rest, ?_⟩, ⟨hdigit, ?_⟩⟩
  · rintro _ ⟨⟩
    exact hspace
  · rintro _ ⟨⟩
    rfl

/-! ## Simple selectors -/

/-- A simple selector that is written for the tokens at the front of a run. -/
structure IsKept (front rest : List Token) (node : Node) : Prop where
  kept : Kept (Meets rest) front node.written
  meets : forall more, Meets (front ++ rest) ((Run.text node.written).toList ++ more)
  begins : forall more, BeginsOperand ((Run.text node.written).toList ++ more)

/-- A simple selector that begins with a mark. -/
theorem isKept_of_mark {front : List Token} {construct : Construct Node} {c : Char}
    {body : List Char} (hkept : Kept (Meets rest) front (writtenConstruct construct))
    (htext : (Run.text (writtenConstruct construct)).toList = c :: body) (hc : c ∈ marks)
    (hbegins : forall more, BeginsOperand (c :: (body ++ more))) :
    IsKept front rest (ofConstruct construct) := by
  refine ⟨?_, ?_, ?_⟩
  · rw [written_ofConstruct]
    exact hkept
  · intro more
    rw [written_ofConstruct, htext]
    exact Or.inl (startsMark_cons hc _)
  · intro more
    rw [written_ofConstruct, htext]
    exact hbegins more

theorem toList_text_singleton (token : Token) : (Run.text [token]).toList = token.text.toList := by
  rw [text_cons, text_nil, String.append_empty]

theorem isKept_ident (h : Seamless (token :: rest)) {name : String}
    (hkind : token.kind = .ident name) :
    IsKept [token] rest (ofConstruct (.typeSelector name)) := by
  have hwritten : (ofConstruct (.typeSelector name)).written = [token] := by
    have hname : name ≠ "*" := by
      rintro rfl
      have hstarts := h.readsBefore.startsIdent hkind []
      rw [h.readsBefore.text_eq (by rw [hkind]; rfl)] at hstarts
      exact absurd hstarts (by decide)
    rw [written_ofConstruct, writtenConstruct, if_neg hname,
      h.ofKind_eq List.mem_cons_self hkind rfl]
  refine ⟨?_, ?_, ?_⟩
  · rw [hwritten]
    exact kept_word h (by rw [hkind]; rfl)
  · intro more
    refine Or.inr ?_
    rw [List.singleton_append, startsName, hkind]
  · intro more
    rw [hwritten, toList_text_singleton]
    exact (beginsOperand_of_startsIdent (h.readsBefore.startsIdent hkind more)).1

theorem isKept_universal (h : Seamless (token :: rest)) (hkind : token.kind = .delim '*') :
    IsKept [token] rest (ofConstruct (.typeSelector "*")) := by
  have htoken : ofKind (.delim '*') = token := h.ofKind_eq List.mem_cons_self hkind rfl
  have htext : (Run.text (writtenConstruct (.typeSelector "*"))).toList = ['*'] := rfl
  refine isKept_of_mark ?_ htext (by decide) fun more => beginsOperand_cons (by decide) _
  change Kept _ [token] [ofKind (.delim '*')]
  rw [← htoken]
  exact Kept.singleton fun _ behind _ =>
    (readsBefore_delim (Lexeme.read_delim (by decide) behind)).stands

theorem isKept_class {word : Token} (h : Seamless (token :: word :: rest))
    (hkind : token.kind = .delim '.') {name : String} (hname : word.kind = .ident name) :
    IsKept [token, word] rest (ofConstruct (.classSelector name)) := by
  have htoken : ofKind (.delim '.') = token := h.ofKind_eq List.mem_cons_self hkind rfl
  have hword : ofKind (.ident name) = word := h.tail.ofKind_eq List.mem_cons_self hname rfl
  have hstarts := fun more => h.tail.readsBefore.startsIdent hname more
  have htext : word.text = name := h.tail.readsBefore.text_eq (by rw [hname]; rfl)
  have hclass :
      (Run.text (writtenConstruct (.classSelector name))).toList = '.' :: name.toList := by
    rw [writtenConstruct, text_cons, text_cons, text_nil, String.append_empty,
      String.toList_append]
    rfl
  refine isKept_of_mark ?_ hclass (by decide) ?_
  · change Kept _ ([token] ++ [word]) ([ofKind (.delim '.')] ++ [ofKind (.ident name)])
    rw [hword, ← htoken]
    have hpoint : Kept (fun text => Name.startsIdent text = true) [ofKind (.delim '.')]
        [ofKind (.delim '.')] := by
      refine Kept.singleton fun _ behind hbehind => ?_
      have hnumeral := (beginsOperand_of_startsIdent hbehind).2.unsigned
      exact (readsBefore_delim (Lexeme.read_sign (Or.inr rfl) hnumeral)).stands
    refine hpoint.append (kept_word h.tail (by rw [hname]; rfl)) ?_
    intro behind _
    rw [toList_text_singleton]
    exact hstarts behind
  · intro more
    have hpoint := hstarts more
    rw [htext] at hpoint
    exact (beginsOperand_of_startsIdent hpoint).2

theorem isKept_id (h : Seamless (token :: rest)) {name : String}
    (hkind : token.kind = .hash name) : IsKept [token] rest (ofConstruct (.idSelector name)) := by
  have htoken : ofKind (.hash name) = token := h.ofKind_eq List.mem_cons_self hkind rfl
  have hid : (Run.text (writtenConstruct (.idSelector name))).toList = '#' :: name.toList := by
    rw [writtenConstruct, toList_text_singleton, text_ofKind]
    exact String.toList_append
  refine isKept_of_mark ?_ hid (by decide) fun more => beginsOperand_cons (by decide) _
  rw [writtenConstruct, htoken]
  exact kept_word h (by rw [hkind]; rfl)

/-! ## Attribute selectors -/

theorem mem_delims_of_mem_matcherMarks {c : Char} (h : c ∈ matcherMarks) :
    c ∈ ['*', '=', '~', '>', '|', '^', '$'] ∧ c ∈ marks := by
  simp only [matcherMarks, List.mem_cons, List.not_mem_nil, or_false] at h
  rcases h with rfl | rfl | rfl | rfl | rfl <;> decide

theorem IsMatcher.eq_written {matched : List Token} {matcher : String}
    (hdelim : forall token, token ∈ matched -> forall c, token.kind = .delim c ->
      ofKind (.delim c) = token)
    (h : IsMatcher matched matcher) :
    matched = writtenMatcher matcher ∧
      (exists c more, matcher.toList = c :: more ∧ c ∈ marks) ∧
        forall c, c ∈ matcher.toList -> c ∈ ['*', '=', '~', '>', '|', '^', '$'] := by
  cases h with
  | equals hequals =>
      have htext : "=".toList = ['='] := rfl
      refine ⟨?_, ⟨'=', [], htext, by decide⟩, ?_⟩
      · rw [← hdelim _ List.mem_cons_self '=' hequals]
        rfl
      · rw [htext, List.forall_mem_singleton]
        decide
  | marked hmark hc hequals =>
      have hfirst := hdelim _ List.mem_cons_self _ hmark
      have hsecond := hdelim _ (List.mem_cons_of_mem _ List.mem_cons_self) '=' hequals
      rcases mem_delims_of_mem_matcherMarks hc with ⟨hdelims, hmarks⟩
      refine ⟨?_, ⟨_, ['='], String.toList_ofList, hmarks⟩, ?_⟩
      · rw [← hfirst, ← hsecond, writtenMatcher, String.toList_ofList]
        rfl
      · rw [String.toList_ofList, List.forall_mem_cons, List.forall_mem_singleton]
        exact ⟨hdelims, by decide⟩

theorem kept_matcher {matcher : String}
    (h : forall c, c ∈ matcher.toList -> c ∈ ['*', '=', '~', '>', '|', '^', '$']) :
    Kept Anything (writtenMatcher matcher) (writtenMatcher matcher) := by
  refine Kept.of_stands fun behind _ => ?_
  unfold writtenMatcher
  generalize matcher.toList = chars at h
  induction chars with
  | nil => trivial
  | cons c chars ih =>
      rw [List.map_cons]
      refine ⟨?_, ih fun d hd => h d (List.mem_cons_of_mem c hd)⟩
      exact (readsBefore_delim (Lexeme.read_delim (h c List.mem_cons_self) _)).stands

theorem kept_value {value : Construct Node} (h : Seamless run) (hmem : token ∈ run)
    (hvalue : IsCompared token value) :
    Kept StartsMark [token] (ofToken none token value).written := by
  rcases h.readsIn.exists_readsBefore token hmem with ⟨source, hread⟩
  cases hvalue with
  | word hkind =>
      rw [ofToken_none, written_ofConstruct, writtenConstruct, h.ofKind_eq hmem hkind rfl]
      exact kept_before_mark hread (by rw [hkind]; rfl)
  | quoted hkind =>
      rw [ofToken_none, written_ofConstruct, writtenConstruct, h.ofKind_eq hmem hkind rfl]
      refine Kept.singleton fun _ behind _ => ReadsBefore.stands ?_
      rcases hread with ⟨c, body, htext, hread⟩
      rw [hkind] at hread
      exact ⟨c, body, htext, hkind ▸ Lexeme.read_string hread behind⟩

theorem startsMark_append {front behind : List Char} (h : StartsMark front)
    (hbehind : StartsMark behind) : StartsMark (front ++ behind) := by
  cases front with
  | nil => exact hbehind
  | cons c front => exact h

theorem kept_flags {flagged : List Token} {flags : Option String} (h : Seamless run)
    (hmem : forall token, token ∈ flagged -> token ∈ run) (hflags : IsFlagged flagged flags) :
    Kept StartsMark flagged (writtenFlags flags) ∧
      StartsMark (Run.text (writtenFlags flags)).toList := by
  cases hflags with
  | bare => exact ⟨Kept.nil, fun b hb => absurd hb (Option.not_mem_none b)⟩
  | word hkind =>
      have hword := hmem _ List.mem_cons_self
      rcases h.readsIn.exists_readsBefore _ hword with ⟨source, hread⟩
      rw [writtenFlags, h.ofKind_eq hword hkind rfl]
      have hflag := kept_before_mark hread (by rw [hkind]; rfl)
      constructor
      · refine kept_blank.append hflag ?_
        intro behind _
        rw [toList_text_singleton]
        exact (beginsOperand_of_startsIdent (hread.startsIdent (by rw [hkind]) behind)).1
      · rw [text_cons, String.toList_append]
        exact startsMark_cons (c := ' ') (by decide) _

/-- What stands behind the name of an attribute that is compared. -/
theorem kept_comparison {matched flagged : List Token} {matcher : String} {value : Construct Node}
    {flags : Option String} (h : Seamless run)
    (hmem : forall other, other ∈ matched ++ token :: flagged -> other ∈ run)
    (hmatcher : IsMatcher matched matcher) (hvalue : IsCompared token value)
    (hflags : IsFlagged flagged flags) :
    Kept StartsMark (matched ++ token :: flagged)
        (writtenMatcher matcher ++ ((ofToken none token value).written ++ writtenFlags flags)) ∧
      forall behind, StartsMark ((Run.text (writtenMatcher matcher ++
        ((ofToken none token value).written ++ writtenFlags flags))).toList ++ behind) := by
  rcases hmatcher.eq_written (fun other hother c hkind =>
    h.ofKind_eq (hmem other (List.mem_append_left _ hother)) hkind rfl) with
    ⟨rfl, ⟨c, more, hmark, hc⟩, hmarks⟩
  have hlater : forall other, other ∈ token :: flagged -> other ∈ run :=
    fun other hother => hmem other (List.mem_append_right _ hother)
  rcases kept_flags h (fun other hother => hlater other (List.mem_cons_of_mem _ hother)) hflags
    with ⟨hkeptflags, hstarts⟩
  have hbehind := (kept_value h (hlater token List.mem_cons_self) hvalue).append hkeptflags
    fun behind => startsMark_append hstarts
  refine ⟨(kept_matcher hmarks).append hbehind fun _ _ => trivial, ?_⟩
  intro behind
  rw [text_append, String.toList_append, text_writtenMatcher, hmark]
  exact startsMark_cons hc _

theorem kept_attribute? {content : List Token} {construct : Construct Node} (h : Seamless content)
    (hconstruct : attribute? none content = some construct) :
    exists inner, writtenConstruct construct =
        [ofKind .leftBracket] ++ (inner ++ [ofKind .rightBracket]) ∧
      Kept StartsMark content inner := by
  rcases isAttribute_of_attribute? hconstruct with ⟨tokens, heq, hattribute⟩
  have hmem : forall token, token ∈ tokens -> token ∈ content :=
    fun token htoken => List.mem_of_mem_filter (heq.symm ▸ htoken)
  have hname : forall {word : Token} {name : String}, word ∈ tokens -> word.kind = .ident name ->
      ofKind (.ident name) = word ∧ Kept StartsMark [word] [word] := by
    intro word name hword hkind
    rcases h.readsIn.exists_readsBefore _ (hmem word hword) with ⟨source, hread⟩
    exact ⟨h.ofKind_eq (hmem word hword) hkind rfl, kept_before_mark hread (by rw [hkind]; rfl)⟩
  have hsignificant : significant content = significant tokens := by
    rw [← heq]
    unfold significant
    rw [List.filter_filter]
    simp
  cases hattribute with
  | @named word name hword =>
      rcases hname List.mem_cons_self hword with ⟨hself, hkept⟩
      refine ⟨[ofKind (.ident name)], rfl, ?_⟩
      rw [hself]
      exact hkept.of_significant hsignificant
  | @compared word token matched flagged name matcher value flags hword hmarks hvalue hflags =>
      rcases hname List.mem_cons_self hword with ⟨hself, hkept⟩
      rcases kept_comparison h (fun other hother => hmem other (List.mem_cons_of_mem _ hother))
        hmarks hvalue hflags with ⟨hcompared, hmark⟩
      have hwhole := hkept.append hcompared fun behind _ => hmark behind
      refine ⟨_, ?_, hwhole.of_significant hsignificant⟩
      rw [← hself]
      simp [writtenConstruct, writtenOr]

/-- An attribute selector, which a closer of any shape may end. -/
theorem isKept_attribute {content : List Token} {closer : Token} {construct : Construct Node}
    (h : Seamless (token :: content ++ closer :: rest)) (hkind : token.kind = .leftBracket)
    (hcloser : closer.isCloser = true) (hconstruct : attribute? none content = some construct) :
    IsKept (token :: content ++ [closer]) rest (ofConstruct construct) := by
  have hcontent : Seamless content := h.tail.front_of_mark (Seamless.isMark_of_isCloser hcloser)
  rcases kept_attribute? hcontent hconstruct with ⟨inner, hwritten, hinner⟩
  have htoken : ofKind .leftBracket = token := h.ofKind_eq List.mem_cons_self hkind rfl
  have hclosed : Kept Anything (content ++ [closer]) (inner ++ [ofKind .rightBracket]) := by
    refine hinner.append (kept_closer hcloser (c := ']') rfl rfl) ?_
    exact fun _ _ => startsMark_cons (c := ']') (by decide) _
  have hopened : Kept Anything ([token] ++ (content ++ [closer]))
      ([ofKind .leftBracket] ++ (inner ++ [ofKind .rightBracket])) := by
    rw [← htoken]
    exact (kept_punctuation (c := '[') rfl).append hclosed fun _ _ => trivial
  have htext : (Run.text (writtenConstruct construct)).toList =
      '[' :: (Run.text (inner ++ [ofKind .rightBracket])).toList := by
    rw [hwritten, text_append, String.toList_append]
    rfl
  refine isKept_of_mark ?_ htext (by decide) fun more => beginsOperand_cons (by decide) _
  rw [hwritten]
  exact hopened.mono fun _ _ => trivial

/-- A simple selector is kept, whichever it is. -/
theorem isKept_simple? {simple : Simple} (h : Seamless (token :: rest))
    (hsimple : simple? none token rest = some simple) :
    exists front, token :: rest = front ++ simple.rest ∧
      IsKept front simple.rest simple.node := by
  cases readsSimple_of_simple? hsimple with
  | typeName hkind hbar => exact ⟨[token], rfl, isKept_ident h hkind⟩
  | universal hkind hbar => exact ⟨[token], rfl, isKept_universal h hkind⟩
  | @dotted word name after hkind hword =>
      refine ⟨[token, word], rfl, ?_⟩
      rw [spanning_none]
      exact isKept_class h hkind hword
  | hash hkind => exact ⟨[token], rfl, isKept_id h hkind⟩
  | @bracketed closer _ content after construct hkind hgroup hattribute =>
      have happend := splitGroup?_append hgroup
      have hcloser := Seamless.closer_of_splitGroup? hgroup
      rw [← happend] at h
      refine ⟨token :: content ++ [closer], ?_, ?_⟩
      · rw [← happend, List.append_assoc]
        rfl
      · rw [spanning_none]
        exact isKept_attribute h hkind hcloser hattribute

/-! ## Pseudo-classes and pseudo-elements -/

namespace Pseudo

/-- The colons that a pseudo-class or a pseudo-element is written with. -/
def colons (pseudo : Pseudo) : List Token :=
  if pseudo.isElement then [ofKind .colon, ofKind .colon] else [ofKind .colon]

variable {pseudo : Pseudo}

theorem exists_colons (pseudo : Pseudo) :
    exists more, pseudo.colons = ofKind .colon :: more := by
  unfold colons
  split
  · exact ⟨_, rfl⟩
  · exact ⟨_, rfl⟩

theorem kept_colons (pseudo : Pseudo) : Kept Anything pseudo.colons pseudo.colons := by
  have hcolon : Kept Anything [ofKind .colon] [ofKind .colon] := kept_punctuation (c := ':') rfl
  unfold colons
  split
  · exact hcolon.append hcolon fun _ _ => trivial
  · exact hcolon

theorem written_bare (pseudo : Pseudo) :
    writtenConstruct (pseudo.construct none) = pseudo.colons ++ [ofKind (.ident pseudo.name)] := by
  unfold construct colons
  split
  · rfl
  · rfl

theorem written_called (pseudo : Pseudo) (child : Node) :
    writtenConstruct (pseudo.construct (some [child])) =
      pseudo.colons ++ ([ofKind (.function pseudo.name)] ++
        (child.written ++ [ofKind .rightParen])) := by
  unfold construct colons
  split
  · simp [writtenConstruct, writtenAll]
  · simp [writtenConstruct, writtenAll]

end Pseudo

variable {pseudo : Pseudo}

section Names

variable {colons behind content : List Token} {isElement : Bool}

theorem ReadsName.isElement_eq (h : ReadsName colons isElement behind pseudo) :
    pseudo.isElement = isElement := by
  cases h with
  | word => rfl
  | called => rfl

theorem ReadsName.exists_word (h : ReadsName colons isElement behind pseudo)
    (hbare : pseudo.arguments = none) :
    exists word, behind = word :: pseudo.rest ∧ word.kind = .ident pseudo.name ∧
      pseudo.run = colons ++ [word] := by
  cases h with
  | word hkind => exact ⟨_, rfl, hkind, rfl⟩
  | called hkind hgroup => cases hbare

theorem ReadsName.exists_group (h : ReadsName colons isElement behind pseudo)
    (hcalled : pseudo.arguments = some content) :
    exists opener closer, behind = opener :: (content ++ closer :: pseudo.rest) ∧
      opener.kind = .function pseudo.name ∧ closer.isCloser = true ∧
        pseudo.run = colons ++ ([opener] ++ (content ++ [closer])) := by
  cases h with
  | word hkind => cases hcalled
  | called hkind hgroup =>
      cases hcalled
      exact ⟨_, _, congrArg _ (splitGroup?_append hgroup).symm, hkind,
        Seamless.closer_of_splitGroup? hgroup, by simp⟩

end Names

/-- The colons of a pseudo-class or pseudo-element are cut off the run. -/
theorem pseudo?_eq_some (h : Seamless (token :: rest)) (hkind : token.kind = .colon)
    (hpseudo : pseudo? token rest = some pseudo) :
    exists behind, token :: rest = pseudo.colons ++ behind ∧
      ReadsName pseudo.colons pseudo.isElement behind pseudo := by
  have htoken : ofKind .colon = token := h.ofKind_eq List.mem_cons_self hkind rfl
  cases readsPseudo_of_pseudo? hpseudo with
  | pseudoClass hname =>
      have hcolons : pseudo.colons = [token] := by
        rw [Pseudo.colons, hname.isElement_eq, if_neg Bool.false_ne_true, htoken]
      refine ⟨rest, ?_, ?_⟩
      · rw [hcolons]
        rfl
      · rw [hcolons, hname.isElement_eq]
        exact hname
  | @pseudoElement second more _ hsecond hname =>
      have hsecond' : ofKind .colon = second := h.tail.ofKind_eq List.mem_cons_self hsecond rfl
      have hcolons : pseudo.colons = [token, second] := by
        rw [Pseudo.colons, hname.isElement_eq, if_pos rfl, ← hsecond', htoken]
      refine ⟨more, ?_, ?_⟩
      · rw [hcolons]
        rfl
      · rw [hcolons, hname.isElement_eq]
        exact hname

theorem isKept_pseudo {front : List Token} {children : Option (List Node)} {more : List Token}
    (hwritten : writtenConstruct (pseudo.construct children) = pseudo.colons ++ more)
    (hkept : Kept (Meets rest) front (writtenConstruct (pseudo.construct children))) :
    IsKept front rest (ofConstruct (pseudo.construct children)) := by
  rcases pseudo.exists_colons with ⟨colons, hcolons⟩
  have htext : (Run.text (writtenConstruct (pseudo.construct children))).toList =
      ':' :: (Run.text (colons ++ more)).toList := by
    rw [hwritten, hcolons, List.cons_append, text_cons, String.toList_append]
    rfl
  exact isKept_of_mark hkept htext (by decide) fun more => beginsOperand_cons (by decide) _

theorem isKept_bare (h : Seamless (token :: rest)) (hkind : token.kind = .colon)
    (hpseudo : pseudo? token rest = some pseudo) (hbare : pseudo.arguments = none) :
    token :: rest = pseudo.run ++ pseudo.rest ∧
      IsKept pseudo.run pseudo.rest (ofConstruct (pseudo.construct none)) := by
  rcases pseudo?_eq_some h hkind hpseudo with ⟨behind, hbehind, hname⟩
  rcases hname.exists_word hbare with ⟨word, rfl, hword, hrun⟩
  rw [hbehind] at h
  have hself : ofKind (.ident pseudo.name) = word :=
    h.back.ofKind_eq List.mem_cons_self hword rfl
  have hwritten := pseudo.written_bare
  refine ⟨?_, isKept_pseudo hwritten ?_⟩
  · rw [hbehind, hrun, List.append_assoc]
    rfl
  · rw [hwritten, hself, hrun]
    exact pseudo.kept_colons.append (kept_word h.back (by rw [hword]; rfl)) fun _ _ => trivial

/-- The text behind the opening of a function is quoted where the source has it quoted. -/
theorem opens_trim {opener closer : Token} {content : List Token}
    (h : Seamless (opener :: (content ++ closer :: rest))) (hcloser : closer.isCloser = true)
    {name : String} (hkind : opener.kind = .function name) (hname : sameWord name "url" = true) :
    Lexeme.startsQuotedAddress (Run.text (trim content)).toList = true := by
  have hcontent : Lexeme.startsQuotedAddress (Run.text content).toList = true := by
    rcases h.readsBefore with ⟨c, body, _, hread⟩
    have hquoted := opens_of_read hread name hkind hname
    rw [text_append, String.toList_append] at hquoted
    have hspelled := h.tail.isSpelled (List.mem_append_right _ List.mem_cons_self)
    exact startsQuotedAddress_of_append hquoted (not_startsQuotedAddress_of_isMark hspelled
      (Seamless.isMark_of_isCloser hcloser) rest)
  have hseamless : Seamless content :=
    h.tail.front_of_mark (Seamless.isMark_of_isCloser hcloser)
  rcases trim_eq_append content with ⟨front, back, hrun, hfront, hback⟩
  rw [hrun, List.append_assoc] at hcontent hseamless
  have hlater : Lexeme.startsQuotedAddress (Run.text (trim content ++ back)).toList = true := by
    clear hrun
    induction front with
    | nil => exact hcontent
    | cons first front ih =>
        rw [List.cons_append, text_cons, String.toList_append] at hcontent
        have hquoted := startsQuotedAddress_of_trivia hseamless.readsBefore
          (hfront first List.mem_cons_self) hcontent
        refine ih hseamless.tail hquoted ?_
        exact fun other hother => hfront other (List.mem_cons_of_mem first hother)
  have hquiet := hseamless.back.not_startsQuotedAddress_of_trivia hback
  rw [text_append, String.toList_append] at hlater
  exact startsQuotedAddress_of_append hlater hquiet

/-- A text that begins with a parenthesis. -/
def StartsParen (text : List Char) : Prop :=
  exists more, text = ')' :: more

/-- An argument that is written for a run; behind the opening of an address it is the run itself. -/
structure IsKeptArgument (name : String) (run : List Token) (node : Node) : Prop where
  kept : Kept StartsParen run node.written
  address : sameWord name "url" = true -> node.written = run

theorem isKept_called {arguments : List Token} {child : Node} (h : Seamless (token :: rest))
    (hkind : token.kind = .colon) (hpseudo : pseudo? token rest = some pseudo)
    (hcalled : pseudo.arguments = some arguments)
    (hchild : Seamless (trim arguments) -> IsKeptArgument pseudo.name (trim arguments) child) :
    token :: rest = pseudo.run ++ pseudo.rest ∧
      IsKept pseudo.run pseudo.rest (ofConstruct (pseudo.construct (some [child]))) := by
  rcases pseudo?_eq_some h hkind hpseudo with ⟨behind, hbehind, hname⟩
  rcases hname.exists_group hcalled with ⟨opener, closer, rfl, hopener, hcloser, hrun⟩
  rw [hbehind] at h
  have hself : ofKind (.function pseudo.name) = opener :=
    h.back.ofKind_eq List.mem_cons_self hopener rfl
  have harguments : Seamless (trim arguments) :=
    (h.back.tail.front_of_mark (Seamless.isMark_of_isCloser hcloser)).trim
  rcases hchild harguments with ⟨hkept, haddress⟩
  have hwritten := pseudo.written_called child
  refine ⟨?_, isKept_pseudo hwritten ?_⟩
  · rw [hbehind, hrun]
    simp
  have hargument : Kept StartsParen arguments child.written :=
    hkept.of_significant (significant_trim arguments).symm
  have hclosed : Kept Anything (arguments ++ [closer]) (child.written ++ [ofKind .rightParen]) :=
    hargument.append (kept_closer hcloser (c := ')') rfl rfl) fun behind _ => ⟨behind, rfl⟩
  have hfunction : Kept (Lexeme.Opens opener.kind) [opener] [opener] :=
    Kept.singleton fun _ _ hopens => (h.back.readsBefore.function hopener hopens).stands
  have hopened := hfunction.append hclosed (by
    intro behind _ name hkind hurl
    rw [hopener] at hkind
    obtain rfl := TokenKind.function.inj hkind
    rw [haddress hurl, text_append, String.toList_append, List.append_assoc]
    exact Lexeme.startsQuotedAddress_append (opens_trim h.back hcloser hopener hurl) _)
  rw [hwritten, hself, hrun]
  exact (pseudo.kept_colons.append hopened fun _ _ => trivial).mono fun _ _ => trivial

end Selector
end Stylesheet
