import Stylesheet.Proofs.Lists
import Stylesheet.Proofs.Media.Derivation
import Stylesheet.Proofs.Token.Balanced
import Stylesheet.Proofs.Token.Parts
import Stylesheet.Proofs.Token.Similar
import Stylesheet.Token.Stream

/-!
# The grammar of media queries

A query is read token by token behind the parts read so far, whose last may be a piece of whitespace
that goes away again.  The grammar has no such state: a query is a word or a feature, or goes on
with another one behind it, with or without trivia between them.  Main statement: a prelude is read
as media queries exactly when every part of it between commas is a query of the grammar, and any
other prelude is a row of components or keeps its text.
-/

namespace Stylesheet

namespace Media

open Node Run

variable {source : SourceName}

/-! ## Features -/

/-- What stands between the parentheses of a feature: a name, or a name, a colon and a value. -/
inductive IsFeature (source : SourceName) (content : List Token) : Construct Node -> Prop
  | named {name : String} (hname : (significant content).map Token.kind = [.ident name]) :
      IsFeature source content (.mediaFeature name none)
  | valued {front back : List Token} {colon : Token} {name : String} {value : Construct Node}
      (hcontent : content = front ++ colon :: back)
      (hname : (significant front).map Token.kind = [.ident name]) (hcolon : colon.kind = .colon)
      (hvalue : IsFeatureValue ((significant back).map Token.kind) value) :
      IsFeature source content (.mediaFeature name (some (spanning source (trim back) value)))

theorem significant_eq_word_iff {run : List Token} {name : String} :
    (significant run).map Token.kind = [.ident name] <->
      exists front word back, run = front ++ word :: back ∧
        (forall token, token ∈ front -> token.isTrivia = true) ∧ word.kind = .ident name ∧
          significant back = [] := by
  rw [List.map_eq_singleton_iff]
  constructor
  · rintro ⟨word, hrun, hword⟩
    rcases List.filter_eq_cons_iff.mp hrun with ⟨front, back, rfl, hfront, _, hback⟩
    exact ⟨front, word, back, rfl, fun token htoken => by simpa using hfront token htoken, hword,
      hback⟩
  · rintro ⟨front, word, back, rfl, hfront, hword, hback⟩
    refine ⟨word, List.filter_eq_cons_iff.mpr ⟨front, back, rfl, ?_, ?_, hback⟩, hword⟩
    · intro token htoken
      simp [hfront token htoken]
    · simp [Token.isTrivia, hword, TokenKind.isTrivia]

theorem isTrivia_of_word {token : Token} {name : String} (h : token.kind = .ident name) :
    token.isTrivia = false :=
  congrArg TokenKind.isTrivia h

theorem isFeature_of_feature? {content : List Token} {construct : Construct Node}
    (h : feature? source content = some construct) : IsFeature source content construct := by
  cases feature?_eq_some_iff.mp h with
  | named hcontent hword hrest =>
      rcases trim_eq_cons_iff.mp ⟨_, hcontent, rfl⟩ with ⟨front, back, rfl, hfront, _, hback⟩
      exact IsFeature.named (significant_eq_word_iff.mpr
        ⟨front, _, back, rfl, hfront, hword, trim_eq_nil_iff.mp (hback.trans hrest)⟩)
  | valued hcontent hword hrest hcolon hvalue =>
      rcases trim_eq_cons_iff.mp ⟨_, hcontent, rfl⟩ with
        ⟨front, behind, rfl, hfront, _, hbehind⟩
      rcases trim_eq_cons_iff.mp ⟨_, hbehind.trans hrest, rfl⟩ with
        ⟨gap, back, rfl, hgap, _, hback⟩
      rw [← hback] at hvalue ⊢
      refine IsFeature.valued (List.append_assoc front (_ :: gap) (_ :: back)).symm ?_ hcolon ?_
      · exact significant_eq_word_iff.mpr
          ⟨front, _, gap, rfl, hfront, hword, by simpa [significant] using hgap⟩
      · rw [← significant_trim]
        exact featureValue?_eq_some_iff.mp hvalue

theorem IsFeature.feature? {content : List Token} {construct : Construct Node}
    (h : IsFeature source content construct) :
    Media.feature? source content = some construct := by
  cases h with
  | named hname =>
      rcases significant_eq_word_iff.mp hname with ⟨front, word, back, rfl, hfront, hword, hback⟩
      rcases trim_eq_cons_iff.mpr ⟨front, back, rfl, hfront, isTrivia_of_word hword, rfl⟩ with
        ⟨rest, hcontent, hrest⟩
      exact feature?_eq_some_iff.mpr
        (ReadsFeature.named hcontent hword (hrest.trans (trim_eq_nil_iff.mpr hback)))
  | @valued front back colon name value hcontent hname hcolon hvalue =>
      rcases significant_eq_word_iff.mp hname with ⟨front, word, gap, rfl, hfront, hword, hgap⟩
      rw [List.append_assoc, List.cons_append] at hcontent
      rcases trim_eq_cons_iff.mpr
        ⟨front, _, hcontent, hfront, isTrivia_of_word hword, rfl⟩ with ⟨rest, hcontent, hrest⟩
      have hgap : forall token, token ∈ gap -> token.isTrivia = true := by
        simpa [significant] using hgap
      rcases trim_eq_cons_iff.mpr
        ⟨gap, back, rfl, hgap, congrArg TokenKind.isTrivia hcolon, rfl⟩ with
        ⟨inner, hbehind, hinner⟩
      rw [← significant_trim, ← featureValue?_eq_some_iff, ← hinner] at hvalue
      rw [← hinner]
      exact feature?_eq_some_iff.mpr
        (ReadsFeature.valued hcontent hword (hrest.trans hbehind) hcolon hvalue)

/-! ## Queries -/

/-- A word of a query, or a feature in parentheses, which end at the closer that is left over. -/
inductive IsItem (source : SourceName) : List Token -> Construct Node -> Prop
  | word {token : Token} {name : String} (htoken : token.kind = .ident name) :
      IsItem source [token] (.identifier name)
  | feature {opener closer : Token} {content : List Token} {construct : Construct Node}
      (hopener : opener.kind = .leftParen) (hcontent : Balances 0 content)
      (hcloser : closer.isCloser = true) (hfeature : IsFeature source content construct) :
      IsItem source (opener :: content ++ [closer]) construct

/-- The tokens of a query and its nodes, with one piece of whitespace for the trivia between two. -/
inductive IsQuery (source : SourceName) : List Token -> List Node -> Prop
  | single {run : List Token} {construct : Construct Node} (hitem : IsItem source run construct) :
      IsQuery source run [spanning source run construct]
  | joined {front run : List Token} {nodes : List Node} {construct : Construct Node}
      (hfront : IsQuery source front nodes) (hitem : IsItem source run construct) :
      IsQuery source (front ++ run) (nodes ++ [spanning source run construct])
  | apart {front trivia run : List Token} {first : Token} {nodes : List Node}
      {construct : Construct Node} (hfront : IsQuery source front nodes)
      (htrivia : forall token, token ∈ first :: trivia -> token.isTrivia = true)
      (hitem : IsItem source run construct) :
      IsQuery source (front ++ first :: trivia ++ run)
        (nodes ++ [ofToken source first (.whiteSpace " "), spanning source run construct])

/-- A query over what is left of a part of a list. -/
inductive IsQueryOver (source : SourceName) (part : List Token) : Node -> Prop
  | intro {nodes : List Node} (hquery : IsQuery source (trim part) nodes) :
      IsQueryOver source part (spanning source (trim part) (.mediaQuery nodes))

/-- A list of queries, one for each part of a run between commas. -/
inductive IsQueryList (source : SourceName) (run : List Token) : Node -> Prop
  | intro {parts : List (List Token)} {queries : List Node}
      (hparts : AreSeparated (· == .comma) run parts)
      (hqueries : List.Forall₂ (IsQueryOver source) parts queries) :
      IsQueryList source run (spanning source run (.mediaQueryList queries))

/-- The nodes of a prelude that asks for media queries. -/
inductive IsMediaPrelude (source : SourceName) (run : List Token) : List Node -> Prop
  | queries {list : Node} (hlist : IsQueryList source run list) : IsMediaPrelude source run [list]
  | components {nodes : List Node} (hlist : ¬ exists list, IsQueryList source run list)
      (hnodes : Value.components? source run = some nodes) : IsMediaPrelude source run nodes
  | raw (hlist : ¬ exists list, IsQueryList source run list)
      (hnodes : Value.components? source run = none) :
      IsMediaPrelude source run [spanning source run (.raw (text run))]

/-! ### A query of the grammar is read -/

theorem IsFeature.isWhiteSpace {content run : List Token} {construct : Construct Node}
    (h : IsFeature source content construct) :
    (spanning source run construct).isWhiteSpace = false := by
  cases h <;> rfl

theorem IsItem.isWhiteSpace {run : List Token} {construct : Construct Node}
    (h : IsItem source run construct) : (spanning source run construct).isWhiteSpace = false := by
  cases h with
  | word => rfl
  | feature _ _ _ hfeature => exact hfeature.isWhiteSpace

theorem IsItem.queryParts? {run : List Token} {construct : Construct Node}
    (h : IsItem source run construct) (parts : List Node) (rest : List Token) :
    queryParts? source parts (run ++ rest) =
      Media.queryParts? source (spanning source run construct :: parts) rest := by
  cases h with
  | word htoken => exact queryParts?_word htoken rest
  | @feature opener closer content construct hopener hcontent hcloser hfeature =>
      have hgroup := hcontent.splitGroup?_append hcloser rest
      rw [List.cons_append, List.cons_append, queryParts?_feature hopener, hgroup,
        Option.bind_some, hfeature.feature?, Option.bind_some]
      rfl

/-- Trivia behind a part that is no whitespace is read as one piece of whitespace. -/
theorem queryParts?_space {first : Token} {trivia : List Token} {last : Node}
    (hlast : last.isWhiteSpace = false)
    (htrivia : forall token, token ∈ first :: trivia -> token.isTrivia = true)
    (earlier : List Node) (rest : List Token) :
    queryParts? source (last :: earlier) (first :: trivia ++ rest) =
      queryParts? source (ofToken source first (.whiteSpace " ") :: last :: earlier) rest := by
  rcases List.forall_mem_cons.mp htrivia with ⟨hfirst, htrivia⟩
  rw [List.cons_append, queryParts?_trivia hfirst, addSpace, hlast, if_neg Bool.false_ne_true]
  induction trivia with
  | nil => rfl
  | cons token trivia ih =>
      rcases List.forall_mem_cons.mp htrivia with ⟨htoken, htrivia⟩
      rw [List.cons_append, queryParts?_trivia htoken]
      exact ih (List.forall_mem_cons.mpr ⟨hfirst, htrivia⟩) htrivia

/-- The latest part of a query is no whitespace. -/
theorem IsQuery.exists_reverse {run : List Token} {nodes : List Node}
    (h : IsQuery source run nodes) :
    exists last earlier, nodes.reverse = last :: earlier ∧ last.isWhiteSpace = false := by
  cases h with
  | single hitem => exact ⟨_, [], rfl, hitem.isWhiteSpace⟩
  | joined _ hitem => exact ⟨_, _, List.reverse_concat, hitem.isWhiteSpace⟩
  | apart _ _ hitem => exact ⟨_, _, List.reverse_append, hitem.isWhiteSpace⟩

theorem IsQuery.queryParts? {run : List Token} {nodes : List Node} (h : IsQuery source run nodes)
    (rest : List Token) :
    Media.queryParts? source [] (run ++ rest) = Media.queryParts? source nodes.reverse rest := by
  induction h generalizing rest with
  | single hitem => exact hitem.queryParts? [] rest
  | joined hfront hitem ih =>
      rw [List.append_assoc, ih, hitem.queryParts?, List.reverse_concat]
  | apart hfront htrivia hitem ih =>
      rcases hfront.exists_reverse with ⟨last, earlier, hnodes, hlast⟩
      rw [List.append_assoc, List.append_assoc, ih, hnodes, queryParts?_space hlast htrivia,
        hitem.queryParts?, List.reverse_append, hnodes]
      rfl

/-! ### What is read is a query of the grammar -/

/-- What has been read of a query, with the parts read so far, the latest first. -/
inductive IsRead (source : SourceName) : List Token -> List Node -> Prop
  | nothing : IsRead source [] []
  | query {front : List Token} {nodes : List Node} (hfront : IsQuery source front nodes) :
      IsRead source front nodes.reverse
  | spaced {front trivia : List Token} {first : Token} {nodes : List Node}
      (hfront : IsQuery source front nodes)
      (htrivia : forall token, token ∈ first :: trivia -> token.isTrivia = true) :
      IsRead source (front ++ first :: trivia)
        (ofToken source first (.whiteSpace " ") :: nodes.reverse)

theorem IsRead.item {front run : List Token} {parts : List Node} {construct : Construct Node}
    (h : IsRead source front parts) (hitem : IsItem source run construct) :
    IsRead source (front ++ run) (spanning source run construct :: parts) := by
  cases h with
  | nothing => exact IsRead.query (IsQuery.single hitem)
  | query hfront =>
      have hquery := IsRead.query (hfront.joined hitem)
      rwa [List.reverse_concat] at hquery
  | spaced hfront htrivia =>
      have hquery := IsRead.query (hfront.apart htrivia hitem)
      rwa [List.reverse_append] at hquery

theorem IsRead.trivia {front : List Token} {parts : List Node} {token : Token}
    (h : IsRead source front parts) (hne : front ≠ []) (htoken : token.isTrivia = true) :
    IsRead source (front ++ [token])
      (addSpace (ofToken source token (.whiteSpace " ")) parts) := by
  cases h with
  | nothing => exact absurd rfl hne
  | @query front nodes hfront =>
      rcases hfront.exists_reverse with ⟨last, earlier, hnodes, hlast⟩
      have hspaced := IsRead.spaced hfront (List.forall_mem_singleton.mpr htoken)
      rw [hnodes] at hspaced ⊢
      rwa [addSpace, hlast, if_neg Bool.false_ne_true]
  | @spaced front trivia first nodes hfront htrivia =>
      have hmore : forall other, other ∈ first :: (trivia ++ [token]) -> other.isTrivia = true := by
        rw [← List.cons_append, List.forall_mem_append, List.forall_mem_singleton]
        exact ⟨htrivia, htoken⟩
      rw [List.append_assoc, List.cons_append]
      exact IsRead.spaced hfront hmore

theorem dropSpace_reverse {run : List Token} {nodes : List Node} (h : IsQuery source run nodes) :
    (dropSpace nodes.reverse).reverse = nodes := by
  rcases h.exists_reverse with ⟨last, earlier, hnodes, hlast⟩
  rw [hnodes, dropSpace, hlast, if_neg Bool.false_ne_true, ← hnodes, List.reverse_reverse]

theorem not_ends_of_trivia {front trivia : List Token} {first : Token}
    (htrivia : forall token, token ∈ first :: trivia -> token.isTrivia = true) :
    ¬ Ends (front ++ first :: trivia) := by
  rintro ⟨before, last, heq, hlast⟩
  have hlast? : (first :: trivia).getLast? = some last := by
    rw [← List.getLast?_append_cons front, heq, List.getLast?_concat]
  rw [htrivia last (List.mem_of_getLast? hlast?)] at hlast
  cases hlast

/-- A run without trivia at its ends that is read to its end is a query. -/
theorem Reads.isQuery {parts nodes : List Node} {run : List Token}
    (h : Reads source parts run nodes) {front : List Token} (hfront : IsRead source front parts)
    (hbegins : Begins (front ++ run)) (hends : Ends (front ++ run)) :
    IsQuery source (front ++ run) nodes := by
  induction h generalizing front with
  | done parts =>
      rw [List.append_nil] at hbegins hends ⊢
      cases hfront with
      | nothing =>
          rcases hbegins with ⟨token, rest, hnil, _⟩
          cases hnil
      | query hquery =>
          rw [dropSpace_reverse hquery]
          exact hquery
      | spaced _ htrivia => exact absurd hends (not_ends_of_trivia htrivia)
  | @trivia parts nodes token rest htrivia hrest ih =>
      have hne : front ≠ [] := by
        rintro rfl
        rcases hbegins with ⟨first, behind, heq, hfirst⟩
        rw [← (List.cons.inj heq).left, htrivia] at hfirst
        cases hfirst
      rw [List.append_cons] at hbegins hends ⊢
      exact ih (hfront.trivia hne htrivia) hbegins hends
  | word hkind hrest ih =>
      rw [List.append_cons] at hbegins hends ⊢
      exact ih (hfront.item (IsItem.word hkind)) hbegins hends
  | @feature parts nodes token closer rest content after construct hkind hgroup hfeature hrest ih =>
      rcases splitGroup?_eq_some_iff.mp hgroup with ⟨hrun, hcloser, hcontent⟩
      have hitem := IsItem.feature hkind hcontent hcloser (isFeature_of_feature? hfeature)
      have happend : front ++ token :: rest =
          front ++ (token :: content ++ [closer]) ++ after := by
        rw [hrun]
        simp
      rw [happend] at hbegins hends ⊢
      exact ih (hfront.item hitem) hbegins hends

theorem IsItem.ne_nil {run : List Token} {construct : Construct Node}
    (h : IsItem source run construct) : run ≠ [] := by
  cases h <;> exact List.cons_ne_nil _ _

theorem IsQuery.ne_nil {run : List Token} {nodes : List Node} (h : IsQuery source run nodes) :
    run ≠ [] := by
  cases h with
  | single hitem => exact hitem.ne_nil
  | joined _ hitem => exact List.append_ne_nil_of_right_ne_nil _ hitem.ne_nil
  | apart _ _ hitem => exact List.append_ne_nil_of_right_ne_nil _ hitem.ne_nil

theorem query?_eq_some_iff {part : List Token} {node : Node} :
    query? source (trim part) = some node <-> IsQueryOver source part node := by
  constructor
  · intro h
    rcases reads_of_query? h with ⟨hne, nodes, hnodes, rfl⟩
    rcases begins_and_ends_of_trim_ne_nil hne with ⟨hbegins, hends⟩
    exact IsQueryOver.intro (hnodes.isQuery IsRead.nothing hbegins hends)
  · rintro ⟨hquery⟩
    have hread := hquery.queryParts? []
    rw [List.append_nil, queryParts?, dropSpace_reverse hquery] at hread
    rw [query?, if_neg (mt List.isEmpty_iff.mp hquery.ne_nil), hread]
    rfl

/-! ## Lists of queries -/

theorem queryList?_eq_some_iff {run : List Token} {list : Node} :
    queryList? source run = some list <-> IsQueryList source run list := by
  have hqueries : forall parts queries,
      parts.mapM (fun part => query? source (trim part)) = some queries <->
        List.Forall₂ (IsQueryOver source) parts queries := by
    intro parts queries
    simp only [mapM_eq_some_iff, query?_eq_some_iff]
  rw [queryList?, Option.map_eq_some_iff]
  constructor
  · rintro ⟨queries, hall, rfl⟩
    exact IsQueryList.intro (splitTopLevel_eq_iff.mp rfl) ((hqueries _ _).mp hall)
  · rintro ⟨hparts, hall⟩
    rw [← splitTopLevel_eq_iff] at hparts
    subst hparts
    exact ⟨_, (hqueries _ _).mpr hall, rfl⟩

/-! ## Preludes -/

theorem preludeNodes_eq_iff {name : String} (h : takesQueries name = true) {run : List Token}
    {nodes : List Node} :
    preludeNodes source name run = nodes <-> IsMediaPrelude source run nodes := by
  have hnone : queryList? source run = none <-> ¬ exists list, IsQueryList source run list := by
    simp only [← queryList?_eq_some_iff, Option.eq_none_iff_forall_ne_some, not_exists, ne_eq]
  unfold preludeNodes
  rw [if_pos h]
  constructor
  · rintro rfl
    cases hlist : queryList? source run with
    | some list => exact IsMediaPrelude.queries (queryList?_eq_some_iff.mp hlist)
    | none =>
        cases hnodes : Value.components? source run with
        | some nodes => exact IsMediaPrelude.components (hnone.mp hlist) hnodes
        | none => exact IsMediaPrelude.raw (hnone.mp hlist) hnodes
  · intro hprelude
    cases hprelude with
    | queries hlist => rw [queryList?_eq_some_iff.mpr hlist]
    | components hlist hnodes =>
        rw [hnone.mpr hlist, hnodes]
        rfl
    | raw hlist hnodes =>
        rw [hnone.mpr hlist, hnodes]
        rfl

/--
A run is read as media queries exactly when every part of it between commas is a query of the
grammar.  A prelude that asks for media queries holds them, or else the components of its run, or
else the text of its run.
-/
theorem queryList?_and_prelude?_eq_some_iff (source : SourceName) {name : String}
    (h : takesQueries name = true) (run : List Token) :
    (forall list, queryList? source run = some list <-> IsQueryList source run list) ∧
      forall prelude, prelude? source name run = some prelude <->
        trim run ≠ [] ∧ exists nodes, IsMediaPrelude source (trim run) nodes ∧
          prelude = spanning source (trim run) (.atRulePrelude nodes) := by
  refine ⟨fun list => queryList?_eq_some_iff, ?_⟩
  intro prelude
  unfold prelude?
  by_cases hrun : trim run = []
  · simp [hrun]
  · rw [if_neg (mt List.isEmpty_iff.mp hrun), Option.some.injEq]
    constructor
    · rintro rfl
      exact ⟨hrun, _, (preludeNodes_eq_iff h).mp rfl, rfl⟩
    · rintro ⟨_, nodes, hnodes, rfl⟩
      rw [(preludeNodes_eq_iff h).mpr hnodes]

/-- A ratio with a space in it, in a feature behind a word. -/
theorem prelude?_word_and_ratio :
    tokenize "a (b:1/ 2)" = .ok [⟨.ident "a", "a", ⟨1, 1, 0⟩⟩, ⟨.whitespace, " ", ⟨1, 2, 1⟩⟩,
        ⟨.leftParen, "(", ⟨1, 3, 2⟩⟩, ⟨.ident "b", "b", ⟨1, 4, 3⟩⟩, ⟨.colon, ":", ⟨1, 5, 4⟩⟩,
        ⟨.number "1", "1", ⟨1, 6, 5⟩⟩, ⟨.delim '/', "/", ⟨1, 7, 6⟩⟩,
        ⟨.whitespace, " ", ⟨1, 8, 7⟩⟩, ⟨.number "2", "2", ⟨1, 9, 8⟩⟩,
        ⟨.rightParen, ")", ⟨1, 10, 9⟩⟩, ⟨.eof, "", ⟨1, 11, 10⟩⟩] ∧
      takesQueries "media" = true ∧
      prelude? none "media" [⟨.ident "a", "a", ⟨1, 1, 0⟩⟩, ⟨.whitespace, " ", ⟨1, 2, 1⟩⟩,
        ⟨.leftParen, "(", ⟨1, 3, 2⟩⟩, ⟨.ident "b", "b", ⟨1, 4, 3⟩⟩, ⟨.colon, ":", ⟨1, 5, 4⟩⟩,
        ⟨.number "1", "1", ⟨1, 6, 5⟩⟩, ⟨.delim '/', "/", ⟨1, 7, 6⟩⟩,
        ⟨.whitespace, " ", ⟨1, 8, 7⟩⟩, ⟨.number "2", "2", ⟨1, 9, 8⟩⟩,
        ⟨.rightParen, ")", ⟨1, 10, 9⟩⟩] =
      some (ofConstruct (.atRulePrelude [ofConstruct (.mediaQueryList [
        ofConstruct (.mediaQuery [ofConstruct (.identifier "a"), ofConstruct (.whiteSpace " "),
          ofConstruct (.mediaFeature "b" (some (ofConstruct (.ratio "1" "2"))))])])])) := by
  have htakes : takesQueries "media" = true := by decide +kernel
  have hword : IsQuery none [⟨.ident "a", "a", ⟨1, 1, 0⟩⟩] _ := IsQuery.single (IsItem.word rfl)
  have hfeature : IsFeature none [⟨.ident "b", "b", ⟨1, 4, 3⟩⟩, ⟨.colon, ":", ⟨1, 5, 4⟩⟩,
      ⟨.number "1", "1", ⟨1, 6, 5⟩⟩, ⟨.delim '/', "/", ⟨1, 7, 6⟩⟩,
      ⟨.whitespace, " ", ⟨1, 8, 7⟩⟩, ⟨.number "2", "2", ⟨1, 9, 8⟩⟩] _ :=
    @IsFeature.valued none _ [_] _ _ _ _ rfl rfl rfl (IsFeatureValue.ratio "1" "2")
  have hitem := @IsItem.feature none ⟨.leftParen, "(", ⟨1, 3, 2⟩⟩ ⟨.rightParen, ")", ⟨1, 10, 9⟩⟩
    _ _ rfl (closes_iff.mp (closes_plain (by decide))).right rfl hfeature
  have hquery := @IsQuery.apart none _ [] _ ⟨.whitespace, " ", ⟨1, 2, 1⟩⟩ _ _ hword (by decide)
    hitem
  refine ⟨by decide +kernel, htakes, ?_⟩
  exact ((queryList?_and_prelude?_eq_some_iff none htakes _).right _).mpr
    ⟨by decide +kernel, _, IsMediaPrelude.queries (IsQueryList.intro (splitTopLevel_eq_iff.mp rfl)
      (.cons (IsQueryOver.intro hquery) .nil)), rfl⟩

end Media
end Stylesheet
