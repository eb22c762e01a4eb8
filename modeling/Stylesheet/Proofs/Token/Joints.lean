import Stylesheet.Proofs.Token.Marks

/-!
# Tokens that join what stands behind them

A run may be written so that one of its tokens takes up characters of the token behind it.  Where
none does, the text of the run has the tokens of the run.
-/

namespace Stylesheet

open Character

namespace Token

/--
Whether a token takes up characters of the text directly behind it: a letter that begins a range,
hyphens that begin an arrow, an escape that a blank belongs to, a backslash before a parenthesis.
-/
def joins (token : Token) (behind : List Char) : Bool :=
  match token.kind with
  | .ident name =>
      (name == "u" || name == "U") && Lexeme.startsRange behind ||
        name == "--" && behind.head? == some '>' ||
          endsOpen token.kind && behind.head? == some ' '
  | .hash _ => endsOpen token.kind && behind.head? == some ' '
  | .delim c => c == '\\' && behind.head? == some ')'
  | _ => false

/-- A token that has been read, and is read again in front of a text unless a token joins. -/
structure Stands (token : Token) (firm : Prop) (target : List Char) : Prop where
  somewhere : exists source, token.ReadsBefore source
  here : token.joins target = false -> firm -> token.ReadsBefore target
  trivia : token.isTrivia = true -> token.ReadsBefore target
  slash : token.kind = .delim '/' -> target.head? ≠ some '*'

end Token

namespace Run

open Token

/-- No token of a run joins the text behind it. -/
def Unjoined (behind : List Char) : List Token -> Prop
  | [] => True
  | token :: rest =>
      token.joins ((text rest).toList ++ behind) = false ∧ Unjoined behind rest

instance decidableUnjoined (behind : List Char) : (run : List Token) ->
    Decidable (Unjoined behind run)
  | [] => isTrue trivial
  | token :: rest =>
      have := decidableUnjoined behind rest
      inferInstanceAs (Decidable (token.joins ((text rest).toList ++ behind) = false ∧ _))

/-- Each token of a run stands in front of the text behind it. -/
def Stands (behind : List Char) : List Token -> Prop
  | [] => True
  | token :: rest =>
      token.Stands (Unjoined behind rest) ((text rest).toList ++ behind) ∧ Stands behind rest

end Run

namespace Token

variable {token : Token} {source target : List Char} {firm : Prop}

/-! ## Tokens that are read whatever joins -/

namespace ReadsBefore

theorem head_ne_asterisk (h : token.ReadsBefore target) (hkind : token.kind = .delim '/') :
    target.head? ≠ some '*' := by
  intro hstar
  rcases List.head?_eq_some_iff.mp hstar with ⟨more, rfl⟩
  have hslash : token.text = "/" := h.text_eq (by rw [hkind]; rfl)
  rcases h with ⟨c, body, htext, hread⟩
  rw [hslash] at htext
  cases htext
  rw [List.nil_append, Lexeme.read, if_neg (by decide), if_pos (by rfl), hkind] at hread
  split at hread <;> cases hread

theorem stands (h : token.ReadsBefore target) : token.Stands firm target where
  somewhere := ⟨target, h⟩
  here := fun _ _ => h
  trivia := fun _ => h
  slash := h.head_ne_asterisk

end ReadsBefore

theorem readsBefore_punctuation {c : Char} {kind : TokenKind}
    (h : Lexeme.punctuation? c = some kind) (target : List Char) :
    (ofKind kind).ReadsBefore target := by
  refine ⟨c, [], ?_, Lexeme.read_of_punctuation? h target⟩
  rw [text_ofKind, Lexeme.spelling?_punctuation? h]
  exact String.toList_singleton c

theorem readsBefore_delim {c : Char} (h : Lexeme.read c target = .ok ⟨.delim c, [c], target⟩) :
    (ofKind (.delim c)).ReadsBefore target :=
  ⟨c, [], String.toList_singleton c, h⟩

theorem readsBefore_blank (h : forall b, b ∈ target.head? -> isSpace b = false) :
    blank.ReadsBefore target := by
  refine ⟨' ', [], rfl, Lexeme.read_whitespace ?_ h⟩
  intro b hb
  rw [List.mem_singleton.mp hb]
  rfl

/-- The opening of a function stands in front of what its name asks for. -/
theorem ReadsBefore.function (h : token.ReadsBefore source) {name : String}
    (hkind : token.kind = .function name) (hopens : Lexeme.Opens token.kind target) :
    token.ReadsBefore target := by
  rcases h with ⟨c, body, htext, hread⟩
  rw [hkind] at hread hopens
  refine ⟨c, body, htext, ?_⟩
  rw [hkind]
  exact Lexeme.read_function hread hopens

/-! ## Names -/

/-- The tokens of names that stand alone. -/
def isWord : TokenKind -> Bool
  | .ident _ => true
  | .hash _ => true
  | _ => false

theorem ends_of_not_endsOpen {kind : TokenKind} {name : String}
    (hname : kind.lastName? = some name) (hmark : StartsMark target)
    (h : (endsOpen kind && target.head? == some ' ') = false) :
    Name.Ends name.toList target := by
  intro b hb hspace hopen
  obtain rfl := (not_isNameChar_of_mem_marks (hmark b hb)).2.2.2 hspace
  have hends : endsOpen kind = true := by
    rw [endsOpen, hname, Option.any_some, bne_iff_ne]
    exact hopen
  rw [hends, hb] at h
  cases h

/-- A name that has been read is read in front of a mark, unless it joins. -/
theorem ReadsBefore.word (h : token.ReadsBefore source) (hword : isWord token.kind = true)
    (hmark : StartsMark target) (hjoins : token.joins target = false) :
    token.ReadsBefore target := by
  have hopens : Lexeme.Opens token.kind [] := by
    intro name hkind
    rw [hkind] at hword
    cases hword
  rcases h.short hopens with ⟨c, body, htext, hread⟩
  rw [List.append_nil] at hread
  refine ⟨c, body, htext, ?_⟩
  unfold isWord at hword
  unfold joins at hjoins
  split at hword
  · rename_i name hkind
    have hname : token.text = name := h.text_eq (by rw [hkind]; rfl)
    rw [hkind] at hread hjoins ⊢
    rw [Bool.or_eq_false_iff, Bool.or_eq_false_iff] at hjoins
    rcases hjoins with ⟨⟨hrange, harrow⟩, hblank⟩
    refine Lexeme.read_ident_mark hread hmark ⟨?_, ?_, ?_⟩
    · intro hletter
      rw [Bool.and_eq_false_imp] at hrange
      apply hrange
      rw [← htext, hname] at hletter
      rw [Bool.or_eq_true, beq_iff_eq, beq_iff_eq]
      exact hletter.imp String.toList_inj.mp String.toList_inj.mp
    · intro hhyphens hhead
      rw [← htext, hname] at hhyphens
      have hdashes : name = "--" := String.toList_inj.mp hhyphens
      rw [hdashes, hhead] at harrow
      cases harrow
    · rw [← htext, hname]
      exact ends_of_not_endsOpen rfl hmark hblank
  · rename_i name hkind
    have hname : token.text = "#" ++ name := h.text_eq (by rw [hkind]; rfl)
    rw [hkind] at hread hjoins ⊢
    refine Lexeme.read_hash_mark hread hmark ?_
    have hlist : c :: body = '#' :: name.toList := by
      rw [← htext, hname, String.toList_append]
      rfl
    rw [(List.cons.inj hlist).2]
    exact ends_of_not_endsOpen rfl hmark hjoins
  · cases hword

/-- A word stands in front of a mark. -/
theorem ReadsBefore.stands_word (h : token.ReadsBefore source)
    (hword : isWord token.kind = true) (hmark : StartsMark target) : token.Stands firm target where
  somewhere := ⟨source, h⟩
  here := fun hjoins _ => h.word hword hmark hjoins
  trivia := by
    intro htrivia
    unfold isWord at hword
    unfold isTrivia at htrivia
    split at hword <;> simp_all [TokenKind.isTrivia]
  slash := by
    intro hkind
    rw [hkind] at hword
    cases hword

/-- A word is all of the name that it begins. -/
theorem ReadsBefore.split_word (h : token.ReadsBefore source) (hword : isWord token.kind = true) :
    exists name, token.kind.lastName? = some name ∧
      Name.split (name.toList ++ source) = (name.toList, source) := by
  rcases h with ⟨c, body, htext, hread⟩
  unfold isWord at hword
  split at hword
  · rename_i name hkind
    rw [hkind] at hread
    refine ⟨_, congrArg TokenKind.lastName? hkind, ?_⟩
    cases Lexeme.names_of_named (Lexeme.named_of_read hread rfl).2 with
    | ident hsplit =>
        rw [String.toList_ofList]
        exact hsplit
  · rename_i name hkind
    rw [hkind] at hread
    have hmarked := (Lexeme.hash_of_read hread rfl).2.2
    cases hsplit : Name.split (body ++ source) with
    | mk first behind =>
        simp only [Lexeme.marked, hsplit, Lexeme.mk.injEq, TokenKind.hash.injEq, List.cons.injEq]
          at hmarked
        obtain ⟨rfl, ⟨rfl, rfl⟩, rfl⟩ := hmarked
        refine ⟨_, congrArg TokenKind.lastName? hkind, ?_⟩
        rw [String.toList_ofList]
        exact hsplit
  · cases hword

/-- Nothing that goes on with a name stands behind it. -/
theorem ReadsBefore.splitUnit?_word (h : token.ReadsBefore source)
    (hword : isWord token.kind = true) : Name.splitUnit? source = none := by
  rcases h.split_word hword with ⟨name, _, hsplit⟩
  have hnone := Name.splitUnit?_split (name.toList ++ source)
  rwa [hsplit] at hnone

/-- An identifier begins like one. -/
theorem ReadsBefore.startsIdent (h : token.ReadsBefore source) {name : String}
    (hkind : token.kind = .ident name) (more : List Char) :
    Name.startsIdent (token.text.toList ++ more) = true := by
  have hopens : Lexeme.Opens token.kind [] := by
    intro other hother
    rw [hkind] at hother
    cases hother
  rcases h.short hopens with ⟨c, body, htext, hread⟩
  rw [List.append_nil, hkind] at hread
  rw [htext]
  have hbranch := (Lexeme.named_of_read hread rfl).1
  exact Name.startsIdent_append (Lexeme.startsIdent_of_branch hbranch) more

theorem splitUnit?_isSome_of_startsIdent {text : List Char} (h : Name.startsIdent text = true) :
    (Name.splitUnit? text).isSome = true :=
  (Name.splitUnit?_isSome_iff text).mpr (Name.split_ne_nil_of_startsIdent h)

/-! ## Tokens that join are not read -/

theorem ReadsBefore.not_endsOpen (h : token.ReadsBefore target)
    (hword : isWord token.kind = true) :
    (endsOpen token.kind && target.head? == some ' ') = false := by
  cases hblank : target.head? == some ' ' with
  | false => exact Bool.and_false _
  | true =>
      rcases List.head?_eq_some_iff.mp (beq_iff_eq.mp hblank) with ⟨more, rfl⟩
      rcases h.split_word hword with ⟨name, hname, hsplit⟩
      have hshort : Name.split (name.toList ++ [' ']) = (name.toList, [' ']) :=
        Name.split_of_append _ more hsplit
      rw [endsOpen, hname, Option.any_some, hshort, bne_self_eq_false, Bool.false_and]

theorem read_range {c : Char} {text : List Char} (hc : c = 'u' ∨ c = 'U')
    (h : Lexeme.startsRange text = true) :
    Lexeme.read c text = .ok (Lexeme.range c (text.drop 1)) := by
  rcases hc with rfl | rfl
  all_goals
    unfold Lexeme.read
    rw [h]
    rfl

/-- A token that joins a text is not read in front of it. -/
theorem ReadsBefore.joins_eq_false (h : token.ReadsBefore target) :
    token.joins target = false := by
  unfold joins
  split
  · rename_i name hkind
    have hword : isWord token.kind = true := by
      rw [hkind]
      rfl
    have hname : token.text = name := h.text_eq (by rw [hkind]; rfl)
    have hblank := h.not_endsOpen hword
    rcases h with ⟨c, body, htext, hread⟩
    rw [hname] at htext
    rw [hkind] at hread
    rw [Bool.or_eq_false_iff, Bool.or_eq_false_iff]
    refine ⟨⟨?_, ?_⟩, hblank⟩
    · rw [Bool.and_eq_false_imp, Bool.or_eq_true, beq_iff_eq, beq_iff_eq, ← Bool.not_eq_true]
      intro hletter hstarts
      have hc : (c = 'u' ∨ c = 'U') ∧ body = [] := by
        rcases hletter with rfl | rfl
        · cases htext
          exact ⟨Or.inl rfl, rfl⟩
        · cases htext
          exact ⟨Or.inr rfl, rfl⟩
      rcases hc with ⟨hc, rfl⟩
      rw [List.nil_append, read_range hc hstarts] at hread
      cases hread
    · rw [Bool.and_eq_false_imp, beq_iff_eq, beq_eq_false_iff_ne]
      rintro rfl hhead
      rcases List.head?_eq_some_iff.mp hhead with ⟨more, rfl⟩
      have hlist : "--".toList = ['-', '-'] := rfl
      rw [hlist] at htext
      obtain ⟨rfl, rfl⟩ := List.cons.inj htext
      have harrow : Lexeme.read '-' ('-' :: '>' :: more) = .ok ⟨.cdc, ['-', '-', '>'], more⟩ := rfl
      rw [List.singleton_append, harrow] at hread
      cases hread
  · rename_i name hkind
    exact h.not_endsOpen (by rw [hkind]; rfl)
  · rename_i d hkind
    have htext' : token.text = String.singleton d := h.text_eq (by rw [hkind]; rfl)
    rcases h with ⟨c, body, htext, hread⟩
    rw [htext', String.toList_singleton] at htext
    obtain ⟨rfl, rfl⟩ := List.cons.inj htext
    rw [Bool.and_eq_false_imp, beq_iff_eq, beq_eq_false_iff_ne]
    rintro rfl hhead
    rcases List.head?_eq_some_iff.mp hhead with ⟨more, rfl⟩
    have hescape : Lexeme.read '\\' (')' :: more) = Lexeme.named ('\\' :: ')' :: more) := rfl
    rw [List.nil_append, hescape, hkind] at hread
    cases Lexeme.isNamed_of_named hread
  · rfl

/-! ## Tokens in front of a parenthesis -/

section Paren

variable {keep : List Char}

theorem ReadsBefore.head_not_isSpace (h : token.ReadsBefore source)
    (hkind : token.kind = .whitespace) : forall b, b ∈ source.head? -> isSpace b = false := by
  rcases h with ⟨c, body, htext, hread⟩
  have hrest := Lexeme.rest_of_read_whitespace hread hkind
  intro b hb
  have hnot := List.head?_dropWhile_not isSpace (body ++ source)
  rw [← hrest, hb] at hnot
  simpa using hnot

theorem ReadsBefore.trivia (h : token.ReadsBefore source) (htrivia : token.isTrivia = true)
    (hhead : token.kind = .whitespace -> forall b, b ∈ target.head? -> isSpace b = false) :
    token.ReadsBefore target := by
  have hspells := h.spells
  rcases h with ⟨c, body, htext, hread⟩
  refine ⟨c, body, htext, ?_⟩
  unfold isTrivia at htrivia
  cases hkind : token.kind <;> rw [hkind] at htrivia hspells hread <;> try cases htrivia
  · rw [htext] at hspells
    exact Lexeme.read_whitespace hspells.2 (hhead hkind)
  · exact Lexeme.read_comment hread target

/-- A head of a text that goes on before a parenthesis. -/
theorem head?_append_paren {more : List Char} {P : Char -> Prop}
    (hkeep : forall b, b ∈ keep.head? -> P b) (hparen : P ')') :
    forall b, b ∈ (keep ++ ')' :: more).head? -> P b := by
  cases keep with
  | nil =>
      rintro _ ⟨⟩
      exact hparen
  | cons d keep => exact hkeep

/-- A token that has been read stands in front of the same text before a parenthesis. -/
theorem ReadsBefore.stands_paren {more : List Char} (h : token.ReadsBefore keep)
    (hfirm : firm -> keep ≠ ['\\'] ∧ keep ≠ ['-', '\\']) :
    token.Stands firm (keep ++ ')' :: more) where
  somewhere := ⟨keep, h⟩
  trivia := by
    intro htrivia
    refine h.trivia htrivia ?_
    intro hkind
    exact head?_append_paren (h.head_not_isSpace hkind) (by decide)
  slash := by
    intro hkind hstar
    have hkeep : forall b, b ∈ keep.head? -> b ≠ '*' := by
      rintro b hb rfl
      exact h.head_ne_asterisk hkind hb
    exact head?_append_paren hkeep (by decide) '*' hstar rfl
  here := by
    intro hjoins hdangles
    rcases hfirm hdangles with ⟨hbackslash, hhyphen⟩
    by_cases hfunction : exists name, token.kind = .function name
    · rcases hfunction with ⟨name, hkind⟩
      refine h.function hkind ?_
      rcases h with ⟨c, body, htext, hread⟩
      intro other hother hname
      exact Lexeme.startsQuotedAddress_append (Run.opens_of_read hread other hother hname) _
    by_cases haddress : exists content, token.kind = .url content
    · rcases haddress with ⟨content, hkind⟩
      rcases h with ⟨c, body, htext, hread⟩
      refine ⟨c, body, htext, ?_⟩
      rw [hkind] at hread ⊢
      exact Lexeme.read_whole_address hread _
    rcases h with ⟨c, body, htext, hread⟩
    have hportable : Lexeme.Portable c body keep [] (')' :: more) token.kind := by
      refine ⟨?_, resembles_stop (by decide) more, ?_, ?_, ?_, ?_⟩
      · rw [List.append_nil, List.append_nil]
        exact hread
      · rintro (heq | heq)
        · exact absurd heq hbackslash
        · exact absurd heq hhyphen
      · rintro rfl
        refine ⟨?_, ?_, ?_, ?_⟩
        · rintro - b ⟨⟩
          rfl
        · rintro - ⟨⟩
        · intro hkind
          rw [joins, hkind] at hjoins
          cases hjoins
        · rintro name - b ⟨⟩ hspace
          cases hspace
      · exact fun name hkind => hfunction ⟨name, hkind⟩
      · exact fun content hkind => haddress ⟨content, hkind⟩
    refine ⟨c, body, htext, ?_⟩
    rw [← List.append_assoc]
    exact hportable.read_other

end Paren

end Token

namespace Run

open Token

variable {front back run : List Token} {behind : List Char}

theorem unjoined_append :
    Unjoined behind (front ++ back) <->
      Unjoined ((text back).toList ++ behind) front ∧ Unjoined behind back := by
  induction front with
  | nil => exact ⟨fun h => ⟨trivial, h⟩, And.right⟩
  | cons token front ih =>
      rw [List.cons_append, Unjoined, Unjoined, ih, text_append, String.toList_append,
        List.append_assoc, and_assoc]

theorem Stands.append (hfront : Stands ((text back).toList ++ behind) front)
    (hback : Stands behind back) : Stands behind (front ++ back) := by
  induction front with
  | nil => exact hback
  | cons token front ih =>
      rcases hfront with ⟨htoken, hfront⟩
      rw [List.cons_append, Stands, text_append, String.toList_append, List.append_assoc]
      refine ⟨⟨htoken.somewhere, ?_, htoken.trivia, htoken.slash⟩, ih hfront⟩
      intro hjoins hunjoined
      exact htoken.here hjoins (unjoined_append.mp hunjoined).1

/-- Where no token joins each is read where it stands. -/
theorem Stands.readsIn (h : Stands behind run) (hunjoined : Unjoined behind run) :
    ReadsIn behind run := by
  induction run with
  | nil => trivial
  | cons token rest ih =>
      exact ⟨h.1.here hunjoined.1 hunjoined.2, ih h.2 hunjoined.2⟩

theorem ReadsIn.unjoined (h : ReadsIn behind run) : Unjoined behind run := by
  induction run with
  | nil => trivial
  | cons token rest ih => exact ⟨h.1.joins_eq_false, ih h.2⟩

theorem eq_of_backslash {token : Token} {source : List Char} (h : token.ReadsBefore source) :
    (token.text.toList = ['\\'] -> token.kind = .delim '\\') ∧
      token.text.toList ≠ ['-', '\\'] := by
  by_cases hkind : token.kind = .delim '\\'
  · refine ⟨fun _ => hkind, ?_⟩
    have htext : token.text = String.singleton '\\' := h.text_eq (by rw [hkind]; rfl)
    rw [htext, String.toList_singleton]
    decide
  · by_cases hfunction : exists name, token.kind = .function name
    · rcases hfunction with ⟨name, hname⟩
      have htext : token.text = name ++ "(" := h.text_eq (by rw [hname]; rfl)
      have hlast : token.text.toList.getLast? = some '(' := by
        rw [htext, String.toList_append]
        exact List.getLast?_concat
      constructor
      · intro heq
        rw [heq] at hlast
        cases hlast
      · intro heq
        rw [heq] at hlast
        cases hlast
    · have hne := h.ne_backslash hkind fun name hname => hfunction ⟨name, hname⟩
      exact ⟨fun heq => absurd heq hne.1, hne.2⟩

/-- Where no token joins a parenthesis no backslash stands before it that escapes nothing. -/
theorem not_dangling {more : List Char} (h : ReadsIn [] run)
    (hunjoined : Unjoined (')' :: more) run) :
    (text run).toList ≠ ['\\'] ∧ (text run).toList ≠ ['-', '\\'] := by
  induction run with
  | nil => exact ⟨(List.cons_ne_nil _ _).symm, (List.cons_ne_nil _ _).symm⟩
  | cons token rest ih =>
      rcases ih h.2 hunjoined.2 with ⟨hrest, _⟩
      rcases eq_of_backslash h.1 with ⟨hbackslash, hhyphen⟩
      have hne : token.text.toList ≠ [] := by
        rcases h.1 with ⟨c, body, htext, _⟩
        rw [htext]
        exact List.cons_ne_nil c body
      rw [text_cons, String.toList_append]
      constructor
      · intro heq
        rcases List.append_eq_singleton_iff.mp heq with ⟨hnil, _⟩ | ⟨hone, hnil⟩
        · exact hne hnil
        · have hjoins := hunjoined.1
          rw [joins, hbackslash hone, hnil] at hjoins
          cases hjoins
      · intro heq
        rcases List.append_eq_cons_iff.mp heq with ⟨hnil, _⟩ | ⟨tail, hcons, htail⟩
        · exact hne hnil
        · rcases List.append_eq_singleton_iff.mp htail.symm with ⟨_, hone⟩ | ⟨rfl, _⟩
          · exact hrest hone
          · exact hhyphen hcons

theorem ReadsIn.stands_paren (h : ReadsIn [] run) (more : List Char) :
    Stands (')' :: more) run := by
  induction run with
  | nil => trivial
  | cons token rest ih =>
      rcases h with ⟨htoken, hrest⟩
      rw [List.append_nil] at htoken
      exact ⟨htoken.stands_paren (not_dangling hrest), ih hrest⟩

/-! ## Runs whose tokens are kept -/

/-- The token of a run that is written for another, which may have given a closer its shape. -/
inductive Keeps (token token' : Token) : Prop
  | same (hkind : token'.kind = token.kind) (htext : token'.text = token.text)
  | closer (h : token.isCloser = true) (h' : token'.isCloser = true)

/-- The kinds and the texts of the tokens of a run that are neither whitespace nor comments. -/
def contents (run : List Token) : List (TokenKind × String) :=
  (significant run).map fun token => (token.kind, token.text)

/-- The kinds of the closers of a run. -/
def closers (run : List Token) : List TokenKind :=
  ((contents run).map Prod.fst).filter TokenKind.isCloser

/-- A text has the tokens of a run, by kind and text, but for whitespace and comments. -/
def IsKeptIn (run : List Token) (text : String) : Prop :=
  exists tokens last, tokenize text = .ok (tokens ++ [last]) ∧ last.kind = .eof ∧
    contents tokens = contents run

end Run

theorem TokenKind.exists_spelling_of_isCloser {kind : TokenKind} (h : kind.isCloser = true) :
    exists spelling, kind.spelling? = some spelling := by
  cases kind <;> first | exact ⟨_, rfl⟩ | cases h

namespace Token.ReadsBefore

variable {token : Token} {source target : List Char}

/-- A closer is read in front of anything. -/
theorem closer (h : token.ReadsBefore source) (hcloser : token.isCloser = true) :
    token.ReadsBefore target := by
  rcases Becomes.exists_closer h hcloser with ⟨c, htext, hc⟩
  have hkind : Lexeme.punctuation? c = some token.kind := by
    rcases h with ⟨d, body, htext', hread⟩
    rw [htext'] at htext
    obtain ⟨rfl, rfl⟩ := List.cons.inj htext
    simp only [List.mem_cons, List.not_mem_nil, or_false] at hc
    rcases hc with rfl | rfl | rfl
    all_goals
      rw [List.nil_append, Lexeme.read_of_punctuation? rfl, Except.ok.injEq,
        Lexeme.mk.injEq] at hread
      rw [← hread.1]
      rfl
  exact ⟨c, [], htext, Lexeme.read_of_punctuation? hkind target⟩

theorem lexeme_eq (h : token.ReadsBefore target) {c : Char} {body : List Char}
    (htext : token.text.toList = c :: body) {lexeme : Lexeme}
    (hread : Lexeme.read c (body ++ target) = .ok lexeme) :
    lexeme = ⟨token.kind, c :: body, target⟩ := by
  rcases h with ⟨d, body', htext', hread'⟩
  rw [htext] at htext'
  obtain ⟨rfl, rfl⟩ := List.cons.inj htext'
  rw [hread] at hread'
  exact Except.ok.inj hread'

/-- A token that is no trivia is replaced by no trivia, whatever stands behind it. -/
theorem not_isTrivia (h : token.ReadsBefore source) (htrivia : token.isTrivia = false)
    (hslash : token.kind = .delim '/' -> target.head? ≠ some '*') {c : Char} {body : List Char}
    (htext : token.text.toList = c :: body) {lexeme : Lexeme}
    (hread : Lexeme.read c (body ++ target) = .ok lexeme) : lexeme.kind.isTrivia = false := by
  rw [← Bool.not_eq_true]
  intro hlexeme
  cases hkind : lexeme.kind <;> rw [hkind] at hlexeme <;> try cases hlexeme
  · have hspace := Lexeme.isSpace_of_read hread hkind
    rw [h.not_isSpace htrivia htext] at hspace
    cases hspace
  · rcases Lexeme.comment_of_read hread hkind with ⟨rfl, behind, _, _, hstar, _, _⟩
    rcases h with ⟨d, body', htext', hsource⟩
    rw [htext] at htext'
    obtain ⟨rfl, rfl⟩ := List.cons.inj htext'
    by_cases hcomment : (body ++ source).head? = some '*'
    · rcases List.head?_eq_some_iff.mp hcomment with ⟨more, hmore⟩
      rw [hmore, Lexeme.read, if_neg (by decide), if_pos (by rfl)] at hsource
      split at hsource
      · rw [Except.ok.injEq, Lexeme.mk.injEq] at hsource
        rw [isTrivia, ← hsource.1] at htrivia
        cases htrivia
      · cases hsource
    · rw [Lexeme.read_operator (Or.inl rfl) fun _ => hcomment, Except.ok.injEq,
        Lexeme.mk.injEq] at hsource
      obtain ⟨hdelim, hbody, _⟩ := hsource
      obtain rfl := (List.cons.inj hbody).2
      exact hslash hdelim.symm (congrArg List.head? hstar)

end Token.ReadsBefore

namespace Run

open Token

variable {run other : List Token}

/-- Kept tokens are the same where their closers are. -/
theorem map_eq_of_keeps {left right : List Token} (h : List.Forall₂ Keeps left right)
    (hleft : forall token, token ∈ left -> exists source, token.ReadsBefore source)
    (hright : forall token, token ∈ right -> exists source, token.ReadsBefore source)
    (hclosers : (left.map Token.kind).filter TokenKind.isCloser =
      (right.map Token.kind).filter TokenKind.isCloser) :
    left.map (fun token => (token.kind, token.text)) =
      right.map (fun token => (token.kind, token.text)) := by
  induction h with
  | nil => rfl
  | @cons token token' left right hkeeps _ ih =>
      have hleft' := fun other hother => hleft other (List.mem_cons_of_mem token hother)
      have hright' := fun other hother => hright other (List.mem_cons_of_mem token' hother)
      have hkind : token.kind = token'.kind ∧
          (left.map Token.kind).filter TokenKind.isCloser =
            (right.map Token.kind).filter TokenKind.isCloser := by
        rw [List.map_cons, List.map_cons, List.filter_cons, List.filter_cons] at hclosers
        cases hkeeps with
        | same hkind =>
            rw [hkind] at hclosers
            refine ⟨hkind.symm, ?_⟩
            split at hclosers
            · exact (List.cons.inj hclosers).2
            · exact hclosers
        | closer hcloser hcloser' =>
            unfold isCloser at hcloser hcloser'
            rw [if_pos hcloser, if_pos hcloser'] at hclosers
            exact List.cons.inj hclosers
      have htext : token.text = token'.text := by
        cases hkeeps with
        | same _ htext => exact htext.symm
        | closer hcloser =>
            rcases hleft token List.mem_cons_self with ⟨source, hread⟩
            rcases hright token' List.mem_cons_self with ⟨source', hread'⟩
            rcases TokenKind.exists_spelling_of_isCloser hcloser with ⟨spelling, hspelling⟩
            rw [hread.text_eq hspelling, hread'.text_eq (hkind.1 ▸ hspelling)]
      rw [List.map_cons, List.map_cons, hkind.1, htext, ih hleft' hright' hkind.2]

theorem exists_readsBefore_significant
    (h : forall token, token ∈ run -> exists source, token.ReadsBefore source) :
    forall token, token ∈ significant run -> exists source, token.ReadsBefore source :=
  fun token htoken => h token (List.mem_of_mem_filter htoken)

theorem Stands.exists_readsBefore {behind : List Char} (h : Stands behind run) :
    forall token, token ∈ run -> exists source, token.ReadsBefore source := by
  induction run with
  | nil => simp
  | cons first rest ih =>
      intro token htoken
      rcases List.mem_cons.mp htoken with rfl | htoken
      · exact h.1.somewhere
      · exact ih h.2 token htoken

/-- A token is read where another is read that it may be written for. -/
theorem Keeps.readsBefore {token : Token} {source target : List Char} {c : Char}
    {body : List Char} {lexeme : Lexeme}
    (h : Keeps ⟨lexeme.kind, String.ofList lexeme.text, .start⟩ token)
    (hsource : token.ReadsBefore source) (htext : token.text.toList = c :: body)
    (hread : Lexeme.read c (body ++ target) = .ok lexeme) : token.ReadsBefore target := by
  cases h with
  | same hkind hsame =>
      have hchars : lexeme.text = c :: body := by
        rw [← htext, hsame, String.toList_ofList]
      have hbehind := Lexeme.read_append hread
      rw [hchars, List.cons_append, List.cons.injEq, List.append_cancel_left_eq] at hbehind
      refine ⟨c, body, htext, ?_⟩
      rw [hread, hkind, ← hchars, ← hbehind.2]
  | closer _ hcloser => exact hsource.closer hcloser

/--
Where the tokens that a run is read as are those of the run, but for the shapes of closers, each
token of the run is read where it stands.
-/
theorem Stands.readsIn_of_keeps (h : Stands [] run) (hlexes : Lexes (text run).toList other)
    (hkeeps : List.Forall₂ Keeps (significant other) (significant run)) :
    ReadsIn [] run ∧ other = run.map bare := by
  induction run generalizing other with
  | nil =>
      cases hlexes
      exact ⟨trivial, rfl⟩
  | cons token rest ih =>
      rcases h with ⟨htoken, hrest⟩
      rcases htoken.somewhere with ⟨source, hsource⟩
      rcases id hsource with ⟨c, body, htext, _⟩
      rw [text_cons, String.toList_append, htext, List.cons_append] at hlexes
      cases hlexes with
      | @cons _ _ lexeme later hread hlater =>
          rw [List.append_nil] at htoken
          have hhere : token.ReadsBefore (text rest).toList ∧
              List.Forall₂ Keeps (significant later) (significant rest) := by
            cases htrivia : token.isTrivia with
            | true =>
                have hself := htoken.trivia htrivia
                obtain rfl := hself.lexeme_eq htext hread
                have hlexed : TokenKind.isTrivia token.kind = true := htrivia
                rw [significant, significant, List.filter_cons_of_neg (by simp [isTrivia, hlexed]),
                  List.filter_cons_of_neg (by simp [htrivia])] at hkeeps
                exact ⟨hself, hkeeps⟩
            | false =>
                have hlexed := hsource.not_isTrivia htrivia htoken.slash htext hread
                rw [significant, significant, List.filter_cons_of_pos (by simp [isTrivia, hlexed]),
                  List.filter_cons_of_pos (by simp [htrivia]), List.forall₂_cons] at hkeeps
                rcases hkeeps with ⟨hhead, htail⟩
                exact ⟨hhead.readsBefore hsource htext hread, htail⟩
          rcases hhere with ⟨hself, htail⟩
          obtain rfl := hself.lexeme_eq htext hread
          rcases ih hrest hlater htail with ⟨hreads, rfl⟩
          refine ⟨⟨?_, hreads⟩, ?_⟩
          · rw [List.append_nil]
            exact hself
          · rw [List.map_cons, ← htext, String.ofList_toList]
            rfl

theorem contents_map_bare (run : List Token) : contents (run.map bare) = contents run := by
  unfold contents significant
  rw [List.filter_map, List.map_map]
  rfl

theorem ReadsIn.map_bare {behind : List Char} (h : ReadsIn behind run) :
    ReadsIn behind (run.map bare) := by
  induction run with
  | nil => trivial
  | cons token rest ih =>
      rw [List.map_cons, ReadsIn, text_map_bare]
      exact ⟨h.1, ih h.2⟩

/-- What is kept of tokens is kept of tokens of the same kinds and texts. -/
theorem keeps_of_contents {left middle right : List Token}
    (h : left.map (fun token => (token.kind, token.text)) =
      middle.map (fun token => (token.kind, token.text)))
    (hkeeps : List.Forall₂ Keeps middle right) : List.Forall₂ Keeps left right := by
  induction hkeeps generalizing left with
  | nil =>
      rw [List.map_nil, List.map_eq_nil_iff] at h
      rw [h]
      exact List.Forall₂.nil
  | @cons token token' middle right hhead _ ih =>
      rcases List.map_eq_cons_iff.mp h with ⟨first, rest, rfl, hfirst, hrest⟩
      rcases Prod.mk.inj hfirst with ⟨hkind, htext⟩
      refine List.Forall₂.cons ?_ (ih hrest)
      cases hhead with
      | same hkind' htext' => exact Keeps.same (hkind'.trans hkind.symm) (htext'.trans htext.symm)
      | closer hcloser hcloser' =>
          refine Keeps.closer ?_ hcloser'
          unfold isCloser
          rw [hkind]
          exact hcloser

/--
The text of a run that is written for another has the tokens of that other just where no token
joins what stands behind it and each closer is written in its own shape.
-/
theorem Stands.isKeptIn_iff (h : Stands [] other)
    (hread : forall token, token ∈ run -> exists source, token.ReadsBefore source)
    (hkeeps : List.Forall₂ Keeps (significant run) (significant other)) :
    IsKeptIn run (text other) <-> Unjoined [] other ∧ closers other = closers run := by
  constructor
  · rintro ⟨tokens, last, htokens, hlast, hcontents⟩
    rcases (scan_of_scanFrom htokens).lexes with ⟨body, last', hbody, _, _, hlexes⟩
    obtain rfl := List.append_inj_left' hbody rfl
    have hlexed : contents (tokens.map bare) = contents run :=
      (contents_map_bare tokens).trans hcontents
    rcases h.readsIn_of_keeps hlexes (keeps_of_contents hlexed hkeeps) with ⟨hreads, heq⟩
    refine ⟨hreads.unjoined, ?_⟩
    have hwritten : contents other = contents run := by
      rw [← hlexed, heq]
      exact (contents_map_bare other).symm
    rw [closers, hwritten]
    rfl
  · rintro ⟨hunjoined, hclosers⟩
    have hreads := h.readsIn hunjoined
    have hseamless : Seamless (other.map bare) := by
      refine seamless_of_readsIn hreads.map_bare ?_
      intro token htoken
      rcases List.mem_map.mp htoken with ⟨original, _, rfl⟩
      rfl
    rcases tokenize_of_seamless hseamless with ⟨body, last, hbody, hlast, hbare⟩
    rw [text_map_bare] at hbody
    refine ⟨body, last, hbody, hlast, ?_⟩
    have hcontents : contents body = contents other := by
      rw [← contents_map_bare body, hbare, contents_map_bare]
    rw [hcontents]
    refine (map_eq_of_keeps hkeeps (exists_readsBefore_significant hread)
      (exists_readsBefore_significant h.exists_readsBefore) ?_).symm
    simpa [closers, contents, Function.comp_def] using hclosers.symm

end Run
end Stylesheet
