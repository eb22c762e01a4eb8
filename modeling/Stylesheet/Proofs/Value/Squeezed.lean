import Mathlib.Data.List.Chain
import Stylesheet.Proofs.Reread.Components
import Stylesheet.Proofs.Token.Neighbours

/-!
# Runs with little trivia

A value is written with a blank where its tokens need one and with nothing elsewhere.  Each of
its tokens is still read as it was, but for what `IsFirm` rules out.
-/

namespace Stylesheet

open Character

namespace Token

/-- How a token of a value is written: as it is, or in the one shape of its kind of bracket. -/
inductive Becomes : Token -> Token -> Prop
  | same {token : Token} (htrivia : token.isTrivia = false) (hcloser : token.isCloser = false)
      (haddress : forall content, token.kind ≠ .url content) : Becomes token token.bare
  | opening {token : Token} {name : String} (hkind : token.kind = .function name)
      (hname : sameWord name "url" = true) : Becomes token (ofKind (.function "url"))
  | address {token : Token} {content : String} (hkind : token.kind = .url content) :
      Becomes token ⟨.url content, "url(" ++ content ++ ")", .start⟩
  | closer {token : Token} {kind : TokenKind} (hcloser : token.isCloser = true)
      (hkind : kind = .rightParen ∨ kind = .rightBracket) : Becomes token (ofKind kind)

/-- Whether a token needs no whitespace behind it. -/
def isLoose : TokenKind -> Bool
  | .comma => true
  | .colon => true
  | .leftParen => true
  | .leftBracket => true
  | .function _ => true
  | .delim c => c == '/' || c == '*' || c == '='
  | _ => false

/-- Whether a token ends in an escape that a blank behind it would belong to. -/
def endsOpen (kind : TokenKind) : Bool :=
  kind.lastName?.any fun name => (Name.split (name.toList ++ [' '])).1 != name.toList

/-- Whether a token ends in a backslash that escapes nothing but a space that is left out. -/
def endsInBackslash : TokenKind -> Bool
  | .delim c => c == '\\'
  | .url content => Lexeme.endsInBackslash content.toList
  | _ => false

/-- The characters that no whitespace is written before. -/
def stops : List Char :=
  [',', '/', '*', ':', '=', ')', ']']

end Token

namespace Run

open Token

/-- A run begins with a token that no whitespace is written before, if it is not empty. -/
def Stops (run : List Token) : Prop :=
  forall token, token ∈ run.head? -> exists b more, token.text.toList = b :: more ∧ b ∈ stops

/--
A run is written with less trivia.  The flag says whether the token in front of it needs no
whitespace behind it.
-/
inductive Squeezed : Bool -> List Token -> List Token -> Prop
  | nil (free : Bool) : Squeezed free [] []
  | drop {free : Bool} {token : Token} {run other : List Token} (htrivia : token.isTrivia = true)
      (hstops : free = true ∨ Stops other) (h : Squeezed free run other) :
      Squeezed free (token :: run) other
  | blank {token : Token} {run other : List Token} (htrivia : token.isTrivia = true)
      (hne : other ≠ []) (h : Squeezed true run other) :
      Squeezed false (token :: run) (blank :: other)
  | cons {free : Bool} {token token' : Token} {run other : List Token}
      (hbecomes : Becomes token token') (hopener : token.isOpener = true -> other ≠ [])
      (h : Squeezed (isLoose token.kind) run other) :
      Squeezed free (token :: run) (token' :: other)

/-- What would make a token of a run another one when the run is squeezed does not occur in it. -/
structure IsFirm (run : List Token) : Prop where
  slash : (significant run).IsChain fun left right =>
    left.kind = .delim '/' -> right.kind ≠ .delim '*'
  escape : run.IsChain fun left right => right.isTrivia = true -> endsOpen left.kind = false
  backslash : forall token, token ∈ run -> endsInBackslash token.kind = false

instance (run : List Token) : Decidable (IsFirm run) :=
  decidable_of_iff
    ((significant run).IsChain (fun left right =>
        left.kind = .delim '/' -> right.kind ≠ .delim '*') ∧
      run.IsChain (fun left right => right.isTrivia = true -> endsOpen left.kind = false) ∧
        forall token, token ∈ run -> endsInBackslash token.kind = false)
    ⟨fun h => ⟨h.1, h.2.1, h.2.2⟩, fun h => ⟨h.slash, h.escape, h.backslash⟩⟩

end Run

namespace Token

namespace Becomes

variable {token token' : Token} {text : List Char}

theorem isTrivia_eq (h : Becomes token token') :
    token.isTrivia = false ∧ token'.isTrivia = false := by
  cases h with
  | same htrivia => exact ⟨htrivia, htrivia⟩
  | opening hkind hname =>
      unfold isTrivia
      rw [hkind]
      exact ⟨rfl, rfl⟩
  | address hkind =>
      unfold isTrivia
      rw [hkind]
      exact ⟨rfl, rfl⟩
  | closer hcloser hkind =>
      refine ⟨Value.isTrivia_of_isCloser hcloser, ?_⟩
      rcases hkind with rfl | rfl <;> rfl

theorem exists_closer (hread : token.ReadsBefore text) (hcloser : token.isCloser = true) :
    exists c, token.text.toList = [c] ∧ c ∈ [')', ']', '\x7d'] := by
  unfold isCloser at hcloser
  cases hkind : token.kind <;> rw [hkind] at hcloser <;> try cases hcloser
  all_goals
    rw [hread.text_eq (by rw [hkind]; rfl)]
    exact ⟨_, rfl, by decide⟩

theorem exists_letter_of_function (hread : token.ReadsBefore text) {name : String}
    (hkind : token.kind = .function name) (hname : sameWord name "url" = true) :
    exists c body, token.text.toList = c :: body ∧ (c = 'u' ∨ c = 'U') := by
  have htext := hread.text_eq (by rw [hkind]; rfl)
  rw [← String.ofList_toList (s := name)] at hname
  rcases exists_cons_of_sameWord hname with ⟨c, rest, heq, hc⟩
  refine ⟨c, rest ++ ['('], ?_, hc⟩
  rw [htext, String.toList_append, heq]
  rfl

theorem exists_letter_of_url (hread : token.ReadsBefore text) {content : String}
    (hkind : token.kind = .url content) :
    exists c body, token.text.toList = c :: body ∧ (c = 'u' ∨ c = 'U') := by
  have hspells := hread.spells
  rw [hkind] at hspells
  generalize token.text.toList = source at hspells
  cases hspells with
  | mk hname hbefore hafter =>
      rcases exists_cons_of_sameWord hname with ⟨c, rest, rfl, hc⟩
      exact ⟨c, _, rfl, hc⟩

theorem toList_address (content : String) :
    ("url(" ++ content ++ ")").toList = 'u' :: 'r' :: 'l' :: '(' :: (content.toList ++ [')']) := by
  rw [String.toList_append, String.toList_append]
  rfl

/-- The first characters of a token and of what it becomes. -/
inductive Heads : Char -> Char -> Prop
  | same (c : Char) : Heads c c
  | letter {c : Char} (hc : c = 'u' ∨ c = 'U') : Heads c 'u'
  | closer {c d : Char} (hc : c ∈ [')', ']', '\x7d']) (hd : d ∈ [')', ']']) : Heads c d

namespace Heads

variable {c d : Char}

theorem not_isSpace (h : Heads c d) (hc : isSpace c = false) : isSpace d = false := by
  cases h with
  | same => exact hc
  | letter => decide
  | closer _ hd =>
      rw [List.mem_pair] at hd
      rcases hd with rfl | rfl <;> rfl

theorem eq_of_isQuote (h : Heads c d) (hc : isQuote c = true) : d = c := by
  cases h with
  | same => rfl
  | letter hletter => rcases hletter with rfl | rfl <;> cases hc
  | closer hcloser _ =>
      rw [List.mem_cons, List.mem_pair] at hcloser
      rcases hcloser with rfl | rfl | rfl <;> cases hc

end Heads

theorem exists_heads (h : Becomes token token') (hread : token.ReadsBefore text) :
    exists c body d more, token.text.toList = c :: body ∧ token'.text.toList = d :: more ∧
      Heads c d := by
  cases h with
  | same =>
      rcases hread with ⟨c, body, htext, _⟩
      exact ⟨c, body, c, body, htext, htext, Heads.same c⟩
  | opening hkind hname =>
      rcases exists_letter_of_function hread hkind hname with ⟨c, body, htext, hc⟩
      exact ⟨c, body, 'u', ['r', 'l', '('], htext, rfl, Heads.letter hc⟩
  | @address content hkind =>
      rcases exists_letter_of_url hread hkind with ⟨c, body, htext, hc⟩
      exact ⟨c, body, 'u', _, htext, toList_address content, Heads.letter hc⟩
  | closer hcloser hkind =>
      rcases exists_closer hread hcloser with ⟨c, htext, hc⟩
      rcases hkind with rfl | rfl
      · exact ⟨c, [], ')', [], htext, rfl, Heads.closer hc (by decide)⟩
      · exact ⟨c, [], ']', [], htext, rfl, Heads.closer hc (by decide)⟩

end Becomes

/-! ## What stands behind a token -/

/-- A token that needs no whitespace behind it is an opening or one character. -/
theorem exists_of_isLoose {kind : TokenKind} (h : isLoose kind = true) :
    (exists name, kind = .function name) ∨
      exists c spelling, kind.spelling? = some spelling ∧ spelling.toList = [c] ∧ IsEdge c ∧
        (Lexeme.punctuation? c = some kind ∨
          kind = .delim c ∧ (c = '/' ∨ c = '*' ∨ c = '=')) := by
  unfold isLoose at h
  split at h
  · refine Or.inr ⟨',', ",", rfl, rfl, ?_, Or.inl rfl⟩
    constructor <;> decide
  · refine Or.inr ⟨':', ":", rfl, rfl, ?_, Or.inl rfl⟩
    constructor <;> decide
  · exact Or.inr ⟨'(', "(", rfl, rfl, Lexeme.isEdge_paren, Or.inl rfl⟩
  · refine Or.inr ⟨'[', "[", rfl, rfl, ?_, Or.inl rfl⟩
    constructor <;> decide
  · exact Or.inl ⟨_, rfl⟩
  · rename_i c
    simp only [Bool.or_eq_true, beq_iff_eq, or_assoc] at h
    refine Or.inr ⟨c, String.singleton c, rfl, String.toList_singleton c, ?_, Or.inr ⟨rfl, h⟩⟩
    rcases h with rfl | rfl | rfl
    all_goals constructor <;> decide
  · cases h

theorem resembles_edge {b : Char} (hb : IsEdge b) (more : List Char) :
    Resembles [b] (b :: more) := by
  refine ⟨?_, ?_, rfl, fun h => h⟩
  · intro c hc
    cases hc
    exact hb
  · intro c hc
    cases hc
    exact hb

theorem resembles_letter {c : Char} (hc : c = 'u' ∨ c = 'U') (more : List Char) :
    Resembles [c] ('u' :: more) := by
  have hedge : IsEdge 'u' ∧ IsEdge 'U' := by
    constructor <;> constructor <;> decide
  refine ⟨?_, ?_, ?_, ?_⟩
  · intro b hb
    cases hb
    rcases hc with rfl | rfl
    · exact hedge.1
    · exact hedge.2
  · intro b hb
    cases hb
    exact hedge.1
  · rcases hc with rfl | rfl <;> rfl
  · intro hb
    cases hb

theorem isEdge_of_mem_stops {b : Char} (hb : b ∈ ' ' :: stops) :
    IsEdge b ∧ isNameStart b = false ∧ b ≠ '(' := by
  have hall : (' ' :: stops).all (fun b => !isDigit b && !Lexeme.isRangeDigit b && !isSign b &&
      !(['\\', '.', '!', '>', '%', '\n', '\t', '\r', '\x0c'].contains b) && !isNameStart b &&
        b != '(') = true := by
    decide
  have hchar := List.all_eq_true.mp hall b hb
  simp only [Bool.and_eq_true, Bool.not_eq_true', bne_iff_ne, List.contains_eq_mem,
    decide_eq_false_iff_not] at hchar
  rcases hchar with ⟨⟨⟨⟨⟨hdigit, hrange⟩, hsign⟩, hmark⟩, hname⟩, hparen⟩
  exact ⟨⟨hdigit, hrange, hsign, hmark⟩, hname, hparen⟩

theorem resembles_stop {b : Char} (hb : b ∈ ' ' :: stops) (more : List Char) :
    Resembles [] (b :: more) := by
  rcases isEdge_of_mem_stops hb with ⟨hedge, hname, hparen⟩
  refine ⟨?_, ?_, ?_, ?_⟩
  · intro c hc
    cases hc
  · intro c hc
    cases hc
    exact hedge
  · simp [hname]
  · intro hc
    cases hc
    exact absurd rfl hparen

namespace Becomes

variable {token token' : Token} {source target : List Char}

theorem near (h : Becomes token token') (hread : token.ReadsBefore source)
    (hbackslash : token.kind ≠ .delim '\\')
    (hnear : isLoose token.kind = false -> Near source target) :
    Near (token.text.toList ++ source) (token'.text.toList ++ target) := by
  cases h with
  | same htrivia hcloser haddress =>
      change Near (token.text.toList ++ source) (token.text.toList ++ target)
      cases hloose : isLoose token.kind with
      | false =>
          have hfunction : forall name, token.kind ≠ .function name := by
            intro name hkind
            rw [hkind] at hloose
            cases hloose
          rcases hread with ⟨c, body, htext, hread'⟩
          have hne := ReadsBefore.ne_backslash ⟨c, body, htext, hread'⟩ hbackslash hfunction
          refine (hnear hloose).append ?_ hne.1 hne.2
          rw [htext]
          exact List.cons_ne_nil c body
      | true =>
          rcases exists_of_isLoose hloose with
            ⟨name, hkind⟩ | ⟨c, spelling, hspelling, hc, hedge, _⟩
          · have htext := hread.text_eq (by rw [hkind]; rfl)
            rw [htext, String.toList_append, List.append_assoc, List.append_assoc]
            have hresembles := resembles_edge Lexeme.isEdge_paren target
            refine ⟨name.toList, ['('], '(' :: target, ?_, rfl, hresembles, ?_⟩
            · exact (List.prefix_append_right_inj _).mpr (List.prefix_append ['('] source)
            · rintro -
              exact ⟨List.cons_ne_nil _ _, List.cons_ne_nil _ _⟩
          · have htext : token.text.toList = [c] := by rw [hread.text_eq hspelling, hc]
            rw [htext]
            exact Near.of_resembles (resembles_edge hedge target) (List.prefix_append [c] source)
  | opening hkind hname =>
      rcases exists_letter_of_function hread hkind hname with ⟨c, body, htext, hc⟩
      rw [htext]
      exact Near.of_resembles (resembles_letter hc _) (List.prefix_append [c] _)
  | @address content hkind =>
      rcases exists_letter_of_url hread hkind with ⟨c, body, htext, hc⟩
      rw [htext, toList_address]
      exact Near.of_resembles (resembles_letter hc _) (List.prefix_append [c] _)
  | closer hcloser hkind =>
      rcases hkind with rfl | rfl
      · exact Near.of_resembles (resembles_stop (by decide) _) List.nil_prefix
      · exact Near.of_resembles (resembles_stop (by decide) _) List.nil_prefix

/-- What a token becomes is read where the token was, with a text near by behind it. -/
theorem readsBefore (h : Becomes token token') (hread : token.ReadsBefore source)
    (hbackslash : token.kind ≠ .delim '\\')
    (hnear : isLoose token.kind = false -> Near source target)
    (hends : forall name, token.kind.lastName? = some name -> Name.Ends name.toList target)
    (hslash : token.kind = .delim '/' -> target.head? ≠ some '*')
    (hquoted : forall name, token.kind = .function name ->
      Lexeme.startsQuotedAddress source = true -> Lexeme.startsQuotedAddress target = true)
    (haddress : forall content, token.kind = .url content ->
      Lexeme.endsInBackslash content.toList = false) : token'.ReadsBefore target := by
  cases h with
  | same htrivia hcloser hurl =>
      -- A token that needs no whitespace behind it hardly looks at what stands there; only for
      -- the others does the text behind have to be near the one they were read in front of.
      cases hloose : isLoose token.kind with
      | false =>
          have hfunction : forall name, token.kind ≠ .function name := by
            intro name hkind
            rw [hkind] at hloose
            cases hloose
          have hagain := hread.near (hnear hloose) (fun text => ?_) hfunction hurl
          · exact hagain
          constructor
          · intro hkind
            rw [isTrivia, hkind] at htrivia
            cases htrivia
          · intro hkind
            rw [hkind] at hloose
            cases hloose
          · exact fun hkind => absurd hkind hbackslash
          · exact hends
      | true =>
          rcases exists_of_isLoose hloose with
            ⟨name, hkind⟩ | ⟨c, spelling, hspelling, hc, hedge, hmark⟩
          · rcases hread with ⟨c, body, htext, hread'⟩
            have hopens := Run.opens_of_read hread'
            refine ⟨c, body, htext, ?_⟩
            change Lexeme.read c (body ++ target) = .ok ⟨token.kind, c :: body, target⟩
            rw [hkind] at hread' hopens ⊢
            apply Lexeme.read_function hread'
            intro other hother hname
            exact hquoted name hkind (hopens other hother hname)
          · have htext : token.text.toList = [c] := by rw [hread.text_eq hspelling, hc]
            refine ⟨c, [], htext, ?_⟩
            rcases hmark with hmark | ⟨hkind, hoperator⟩
            · exact Lexeme.read_of_punctuation? hmark target
            · change Lexeme.read c target = .ok ⟨token.kind, [c], target⟩
              rw [hkind]
              refine Lexeme.read_operator (hoperator.imp_right ?_) ?_
              · rintro (rfl | rfl) <;> decide
              · rintro rfl
                exact hslash hkind
  | @opening name hkind hname =>
      rcases hread with ⟨c, body, htext, hread'⟩
      refine ⟨'u', ['r', 'l', '('], rfl, Lexeme.read_url (hquoted name hkind ?_)⟩
      exact Run.opens_of_read hread' name hkind hname
  | @address content hkind =>
      rcases hread with ⟨c, body, htext, hread'⟩
      rw [hkind] at hread'
      rcases Lexeme.splitAddress_of_read hread' with ⟨text, address, hsplit, rfl, hhead⟩
      have hend := haddress _ hkind
      rw [String.toList_ofList] at hend
      refine ⟨'u', 'r' :: 'l' :: '(' :: (address.content ++ [')']), ?_, ?_⟩
      · rw [toList_address, String.toList_ofList]
      · have hlong := Lexeme.read_address hhead (Lexeme.splitAddress_tight hsplit hend target)
        simp only [List.cons_append, List.append_assoc, List.nil_append]
        exact hlong
  | closer hcloser hkind =>
      rcases hkind with rfl | rfl
      · exact ⟨')', [], rfl, Lexeme.read_of_punctuation? rfl target⟩
      · exact ⟨']', [], rfl, Lexeme.read_of_punctuation? rfl target⟩

end Becomes

end Token

namespace Lexeme

theorem startsQuotedAddress_cons {c : Char} (hc : isSpace c = false) (rest : List Char) :
    startsQuotedAddress (c :: rest) = isQuote c := by
  rw [startsQuotedAddress, List.dropWhile_cons, hc]
  rfl

theorem startsQuotedAddress_spaces {spaces : List Char}
    (h : forall c, c ∈ spaces -> isSpace c = true) (rest : List Char) :
    startsQuotedAddress (spaces ++ rest) = startsQuotedAddress rest := by
  rw [startsQuotedAddress, List.dropWhile_append_of_pos h]
  rfl

end Lexeme

namespace Token

/-- A quote that stands behind whitespace or a comment stands behind whitespace. -/
theorem startsQuotedAddress_of_trivia {token : Token} {text more : List Char}
    (hread : token.ReadsBefore text) (htrivia : token.isTrivia = true)
    (h : Lexeme.startsQuotedAddress (token.text.toList ++ more) = true) :
    Lexeme.startsQuotedAddress more = true := by
  have hspells := hread.spells
  unfold isTrivia at htrivia
  cases hkind : token.kind <;> rw [hkind] at htrivia hspells <;> try cases htrivia
  · rwa [Lexeme.startsQuotedAddress_spaces hspells.2] at h
  · rename_i content
    rw [hread.text_eq (by rw [hkind]; rfl), String.toList_append, String.toList_append] at h
    cases h

end Token

namespace Run

open Token

namespace IsFirm

variable {token : Token} {run : List Token}

theorem tail (h : IsFirm (token :: run)) : IsFirm run := by
  have hslash := h.slash
  refine ⟨?_, h.escape.tail, ?_⟩
  · rw [significant, List.filter_cons] at hslash
    split at hslash
    · exact hslash.tail
    · exact hslash
  · exact fun other hmem => h.backslash other (List.mem_cons_of_mem token hmem)

end IsFirm

namespace Squeezed

variable {free : Bool} {run other : List Token} {behind : List Char}

/-- Where no whitespace is needed the first token is written first. -/
theorem exists_first (h : Squeezed free run other) (hfree : free = true) (hne : other ≠ []) :
    exists gap token rest token' later, run = gap ++ token :: rest ∧
      (forall piece, piece ∈ gap -> piece.isTrivia = true) ∧ other = token' :: later ∧
      Becomes token token' := by
  induction h with
  | nil => exact absurd rfl hne
  | @drop free token run other htrivia hstops h ih =>
      rcases ih hfree hne with ⟨gap, first, rest, token', later, rfl, hgap, hother, hbecomes⟩
      refine ⟨token :: gap, first, rest, token', later, rfl, ?_, hother, hbecomes⟩
      intro piece hpiece
      rcases List.mem_cons.mp hpiece with rfl | hpiece
      · exact htrivia
      · exact hgap piece hpiece
  | blank => cases hfree
  | cons hbecomes => exact ⟨[], _, _, _, _, rfl, by simp, rfl, hbecomes⟩

/-- What the first token says of the texts where no whitespace is needed. -/
theorem exists_heads (h : Squeezed true run other) (hread : ReadsIn behind run)
    (hne : other ≠ []) :
    exists gap token rest c body d more, run = gap ++ token :: rest ∧
      (forall piece, piece ∈ gap -> piece.isTrivia = true) ∧ token.isTrivia = false ∧
      token.text.toList = c :: body ∧ (text other).toList = d :: more ∧ isSpace c = false ∧
      Becomes.Heads c d := by
  rcases h.exists_first rfl hne with ⟨gap, token, rest, token', later, rfl, hgap, rfl, hbecomes⟩
  have htoken := (readsIn_append.mp hread).2.1
  rcases hbecomes.exists_heads htoken with ⟨c, body, d, more, hc, hd, hheads⟩
  have htrivia := hbecomes.isTrivia_eq.1
  refine ⟨gap, token, rest, c, body, d, more ++ (text later).toList, rfl, hgap, htrivia, hc, ?_,
    htoken.not_isSpace htrivia hc, hheads⟩
  rw [text_cons, String.toList_append, hd]
  rfl

theorem head_not_isSpace (h : Squeezed true run other) (hread : ReadsIn behind run) :
    forall b, b ∈ (text other).toList.head? -> isSpace b = false := by
  intro b hb
  by_cases hne : other = []
  · rw [hne] at hb
    cases hb
  · rcases h.exists_heads hread hne with
      ⟨gap, token, rest, c, body, d, more, _, _, _, _, hd, hc, hheads⟩
    rw [hd] at hb
    cases hb
    exact hheads.not_isSpace hc

/-- A quote that stands behind whitespace is written without it. -/
theorem startsQuotedAddress (h : Squeezed true run other) (hread : ReadsIn behind run)
    (hne : other ≠ [])
    (hquoted : Lexeme.startsQuotedAddress ((text run).toList ++ behind) = true) :
    Lexeme.startsQuotedAddress (text other).toList = true := by
  rcases h.exists_heads hread hne with
    ⟨gap, token, rest, c, body, d, more, rfl, hgap, htrivia, htext, hd, hc, hheads⟩
  have htoken : Lexeme.startsQuotedAddress ((text (token :: rest)).toList ++ behind) = true := by
    clear h htext
    induction gap with
    | nil => exact hquoted
    | cons piece gap ih =>
        rw [List.cons_append, text_cons, String.toList_append, List.append_assoc] at hquoted
        have hpiece := startsQuotedAddress_of_trivia hread.1 (hgap piece List.mem_cons_self) hquoted
        exact ih hread.2 hpiece fun other hother => hgap other (List.mem_cons_of_mem piece hother)
  rw [text_cons, String.toList_append, htext, List.append_assoc, List.cons_append,
    Lexeme.startsQuotedAddress_cons hc] at htoken
  rw [hd, hheads.eq_of_isQuote htoken, Lexeme.startsQuotedAddress_cons hc, htoken]

theorem append {back back' : List Token} (h : Squeezed free run other)
    (hback : forall free, Squeezed free back back') (hstops : Stops back') (hne : back' ≠ []) :
    Squeezed free (run ++ back) (other ++ back') := by
  induction h with
  | nil free => exact hback free
  | @drop free token run other htrivia hfree h ih =>
      refine drop htrivia (hfree.imp_right ?_) ih
      intro hother
      cases other with
      | nil => exact hstops
      | cons first later => exact hother
  | blank htrivia hother h ih =>
      exact blank htrivia (List.append_ne_nil_of_right_ne_nil _ hne) ih
  | cons hbecomes hopener h ih =>
      exact cons hbecomes (fun _ => List.append_ne_nil_of_right_ne_nil _ hne) ih

/-- A squeezed run has what the tokens of the run become. -/
theorem significant (h : Squeezed free run other) :
    List.Forall₂ Becomes (significant run) (significant other) := by
  unfold Run.significant
  induction h with
  | nil => exact List.Forall₂.nil
  | drop htrivia _ _ ih =>
      rw [List.filter_cons_of_neg (by simp [htrivia])]
      exact ih
  | blank htrivia _ _ ih =>
      rw [List.filter_cons_of_neg (by simp [htrivia]), List.filter_cons_of_neg (by decide)]
      exact ih
  | cons hbecomes _ _ ih =>
      rcases hbecomes.isTrivia_eq with ⟨htoken, htoken'⟩
      rw [List.filter_cons_of_pos (by simp [htoken]), List.filter_cons_of_pos (by simp [htoken'])]
      exact List.Forall₂.cons hbecomes ih

end Squeezed

end Run
end Stylesheet
