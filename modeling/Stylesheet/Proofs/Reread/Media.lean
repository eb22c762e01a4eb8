import Stylesheet.Proofs.Lists
import Stylesheet.Proofs.Media.Derivation
import Stylesheet.Proofs.Reread.Commas
import Stylesheet.Proofs.Reread.Trivia

/-!
# Media queries and preludes that are read back
-/

namespace Stylesheet
namespace Media

open Node Token Run

/-! ## Features -/

theorem featureValue?_written {run : List Token} {construct : Construct Node}
    (h : featureValue? run = some construct) :
    featureValue? (writtenConstruct construct) = some construct ∧
      writtenConstruct construct ≠ [] ∧
      forall token, token ∈ writtenConstruct construct ->
        isPlain token.kind = true ∧ token.isTrivia = false := by
  rcases isFeatureValue_of_featureValue? h with ⟨kinds, -, hvalue⟩
  cases hvalue with
  | ratio left right =>
      refine ⟨rfl, List.cons_ne_nil _ _, ?_⟩
      intro token htoken
      rcases List.mem_cons.mp htoken with rfl | htoken
      · exact ⟨rfl, rfl⟩
      · rcases List.mem_cons.mp htoken with rfl | htoken
        · exact ⟨rfl, rfl⟩
        · rcases List.mem_singleton.mp htoken with rfl
          exact ⟨rfl, rfl⟩
  | _ =>
      refine ⟨rfl, List.cons_ne_nil _ _, ?_⟩
      intro token htoken
      rcases List.mem_singleton.mp htoken with rfl
      exact ⟨rfl, rfl⟩

/-- A feature is read back from what stands between its parentheses. -/
theorem feature?_written {content : List Token} {construct : Construct Node}
    (h : feature? none content = some construct) :
    exists inner, writtenConstruct construct = ofKind .leftParen :: inner ++ [ofKind .rightParen] ∧
      Closes 0 inner ∧ feature? none inner = some construct := by
  cases feature?_eq_some_iff.mp h with
  | @named word name rest hcontent hword hrest =>
      have htrim : trim [ofKind (.ident name)] = [ofKind (.ident name)] :=
        trim_eq_self (begins_cons rfl []) (ends_singleton rfl)
      exact ⟨[ofKind (.ident name)], rfl, closes_token rfl,
        feature?_eq_some_iff.mpr (ReadsFeature.named htrim rfl rfl)⟩
  | @valued word colon name rest behind inner hcontent hword hrest hcolon hvalue =>
      rcases featureValue?_written hvalue with ⟨hread, hne, hplain⟩
      rcases begins_and_ends_of_not_trivia hne fun token htoken => (hplain token htoken).2 with
        ⟨hbegins, hends⟩
      have hall : Ends (ofKind .colon :: writtenConstruct inner) := hends.cons _
      have htrim := trim_eq_self hbegins hends
      refine ⟨ofKind (.ident name) :: ofKind .colon :: writtenConstruct inner, ?_, ?_, ?_⟩
      · rw [writtenConstruct, writtenBehind, spanning_none, written_ofConstruct]
        rfl
      · refine closes_plain fun token htoken => ?_
        rcases List.mem_cons.mp htoken with rfl | htoken
        · rfl
        · rcases List.mem_cons.mp htoken with rfl | htoken
          · rfl
          · exact (hplain token htoken).1
      · have hread' : ReadsFeature none
            (ofKind (.ident name) :: ofKind .colon :: writtenConstruct inner) _ :=
          ReadsFeature.valued (trim_eq_self (begins_cons rfl _) (hall.cons _)) rfl
            (trim_eq_self (begins_cons rfl _) hall) rfl (by rw [htrim]; exact hread)
        rw [spanning_none] at hread' ⊢
        exact feature?_eq_some_iff.mpr hread'

/-! ## Parts of queries -/

/-- A word or a feature that is read back, behind whatever has been read. -/
structure IsPart (node : Node) : Prop extends node.IsListed where
  solid : node.isWhiteSpace = false
  reads : forall parts rest,
    queryParts? none parts (node.written ++ rest) = queryParts? none (node :: parts) rest

theorem isPart_word (name : String) : IsPart (ofConstruct (.identifier name)) where
  closes := closes_token rfl
  uncut := uncut_token rfl rfl
  begins := begins_cons rfl []
  ends := ends_singleton rfl
  solid := rfl
  reads := fun _ rest => queryParts?_word rfl rest

theorem isPart_feature {content : List Token} {construct : Construct Node}
    (h : feature? none content = some construct) : IsPart (ofConstruct construct) := by
  have hsolid : (ofConstruct construct).isWhiteSpace = false := by
    cases feature?_eq_some_iff.mp h with
    | named => rfl
    | valued => rfl
  rcases feature?_written h with ⟨inner, hwritten, hcloses, hfeature⟩
  refine ⟨⟨?_, ?_, ?_, ?_⟩, hsolid, ?_⟩
  · rw [written_ofConstruct, hwritten]
    exact hcloses.group rfl rfl
  · rw [written_ofConstruct, hwritten]
    exact uncut_group hcloses rfl rfl rfl
  · rw [written_ofConstruct, hwritten]
    exact begins_cons rfl _
  · rw [written_ofConstruct, hwritten]
    exact (ends_singleton rfl).append _
  · intro parts rest
    rw [written_ofConstruct, hwritten, List.append_assoc, List.cons_append,
      queryParts?_feature rfl, List.singleton_append, hcloses.splitGroup? rfl, Option.bind_some,
      hfeature, Option.bind_some, spanning_none]

/-! ## Queries -/

/-- The whitespace of a query. -/
def space : Node :=
  ofConstruct (.whiteSpace " ")

/-- The parts read so far, the latest first, end in one piece of whitespace at most. -/
inductive Tidy : List Node -> Prop
  | nil : Tidy []
  | solid {last : Node} (h : last.isWhiteSpace = false) (earlier : List Node) :
      Tidy (last :: earlier)
  | spaced {last : Node} (h : last.isWhiteSpace = false) (earlier : List Node) :
      Tidy (space :: last :: earlier)

theorem dropSpace_solid {last : Node} (h : last.isWhiteSpace = false) (earlier : List Node) :
    dropSpace (last :: earlier) = last :: earlier := by
  rw [dropSpace, h, if_neg Bool.false_ne_true]

theorem dropSpace_addSpace (parts : List Node) :
    dropSpace (addSpace space parts) = dropSpace parts := by
  cases parts with
  | nil => rfl
  | cons last earlier =>
      cases hlast : last.isWhiteSpace with
      | true => rw [addSpace, if_pos hlast]
      | false =>
          rw [addSpace, hlast, if_neg Bool.false_ne_true, dropSpace_solid hlast]
          rfl

theorem Tidy.addSpace {parts : List Node} (h : Tidy parts) : Tidy (addSpace space parts) := by
  cases h with
  | nil => exact nil
  | solid h earlier =>
      rw [Media.addSpace, h, if_neg Bool.false_ne_true]
      exact spaced h earlier
  | spaced h earlier => exact spaced h earlier

/-- What is read behind the parts of a query is read back from its tokens. -/
structure Behind (parts nodes new : List Node) : Prop where
  nodes_eq : nodes = (dropSpace parts).reverse ++ new
  reads : queryParts? none (dropSpace parts) (writtenAll new) = some nodes
  closes : Closes 0 (writtenAll new)
  uncut : Uncut endsPart 0 (writtenAll new)
  begins : parts = [] -> new ≠ [] -> Begins (writtenAll new)
  ends : new ≠ [] -> Ends (writtenAll new)

theorem Behind.done {parts : List Node} (h : Tidy parts) :
    Behind parts (dropSpace parts).reverse [] := by
  have hdrop : dropSpace (dropSpace parts) = dropSpace parts := by
    cases h with
    | nil => rfl
    | solid h earlier => rw [dropSpace_solid h, dropSpace_solid h]
    | spaced h earlier => exact dropSpace_solid h earlier
  refine ⟨(List.append_nil _).symm, ?_, closes_nil, trivial, ?_, ?_⟩
  · rw [writtenAll, queryParts?, hdrop]
  · exact fun _ hne => absurd rfl hne
  · exact fun hne => absurd rfl hne

theorem Behind.part {parts nodes new : List Node} {part : Node} (hparts : Tidy parts)
    (hpart : IsPart part) (h : Behind (part :: parts) nodes new) :
    exists new', Behind parts nodes new' := by
  have hnodes := h.nodes_eq
  have hreads := h.reads
  rw [dropSpace_solid hpart.solid] at hnodes hreads
  have hcloses : Closes 0 (writtenAll (part :: new)) := by
    rw [writtenAll]
    exact hpart.closes.append h.closes
  have huncut : Uncut endsPart 0 (writtenAll (part :: new)) := by
    rw [writtenAll]
    refine uncut_append.mpr ⟨hpart.uncut, ?_⟩
    rw [hpart.closes.depthBehind]
    exact h.uncut
  have hbegins : Begins (writtenAll (part :: new)) := by
    rw [writtenAll]
    exact hpart.begins.append _
  have hends : Ends (writtenAll (part :: new)) := by
    rw [writtenAll]
    by_cases hne : new = []
    · rw [hne, writtenAll, List.append_nil]
      exact hpart.ends
    · exact (h.ends hne).append _
  cases hparts with
  | nil =>
      refine ⟨part :: new, hnodes, ?_, hcloses, huncut, fun _ _ => hbegins, fun _ => hends⟩
      rw [writtenAll, hpart.reads]
      exact hreads
  | @solid last hlast earlier =>
      have hdrop := dropSpace_solid hlast earlier
      refine ⟨part :: new, ?_, ?_, hcloses, huncut, fun _ _ => hbegins, fun _ => hends⟩
      · rw [hnodes, hdrop, List.reverse_cons, List.append_assoc, List.singleton_append]
      · rw [hdrop, writtenAll, hpart.reads, hreads]
  | @spaced last hlast earlier =>
      have hdrop : dropSpace (space :: last :: earlier) = last :: earlier := rfl
      have hspace : space.written = [⟨.whitespace, " ", .start⟩] := written_ofConstruct _
      have hblank : Closes 0 space.written ∧ Uncut endsPart 0 space.written := by
        rw [hspace]
        exact ⟨closes_token rfl, uncut_token rfl rfl⟩
      refine ⟨space :: part :: new, ?_, ?_, ?_, ?_, ?_, ?_⟩
      · rw [hnodes, hdrop, List.reverse_cons, List.reverse_cons, List.append_assoc,
          List.append_assoc, List.singleton_append, List.singleton_append]
      · rw [hdrop, writtenAll, hspace, List.singleton_append, queryParts?_trivia rfl,
          ofToken_none]
        change queryParts? none (addSpace space (last :: earlier)) _ = _
        rw [addSpace, hlast, if_neg Bool.false_ne_true, writtenAll, hpart.reads, hreads]
      · rw [writtenAll]
        exact hblank.1.append hcloses
      · rw [writtenAll]
        refine uncut_append.mpr ⟨hblank.2, ?_⟩
        rw [hblank.1.depthBehind]
        exact huncut
      · exact fun hnil => absurd hnil (List.cons_ne_nil _ _)
      · intro _
        rw [writtenAll]
        exact hends.append _

theorem exists_behind {parts nodes : List Node} {run : List Token}
    (h : Reads none parts run nodes) (hparts : Tidy parts) :
    exists new, Behind parts nodes new := by
  induction h with
  | done parts => exact ⟨[], Behind.done hparts⟩
  | @trivia parts nodes token rest htrivia hrest ih =>
      rcases ih hparts.addSpace with ⟨new, hnew⟩
      have hdrop := dropSpace_addSpace parts
      change Behind (addSpace space parts) nodes new at hnew
      refine ⟨new, ?_, ?_, hnew.closes, hnew.uncut, ?_, hnew.ends⟩
      · rw [hnew.nodes_eq, hdrop]
      · rw [← hdrop]
        exact hnew.reads
      · rintro rfl
        exact hnew.begins rfl
  | word hkind hrest ih =>
      rcases ih (Tidy.solid rfl _) with ⟨new, hnew⟩
      exact Behind.part hparts (isPart_word _) hnew
  | feature hkind hgroup hfeature hrest ih =>
      have hpart := isPart_feature hfeature
      rw [spanning_none] at ih
      rcases ih (Tidy.solid hpart.solid _) with ⟨new, hnew⟩
      exact Behind.part hparts hpart hnew

/-- A query is read back from its tokens. -/
theorem query?_written {run : List Token} {node : Node} (h : query? none (trim run) = some node) :
    node.IsListed ∧ query? none node.written = some node := by
  rcases reads_of_query? h with ⟨hne, nodes, hreads, rfl⟩
  have hbegins := (begins_and_ends_of_trim_ne_nil hne).1
  rcases exists_behind hreads Tidy.nil with ⟨new, hnew⟩
  rcases hnew with ⟨hnodeseq, hread, hcloses, huncut, hfirst, hlast⟩
  change nodes = new at hnodeseq
  subst hnodeseq
  have hnodesne : nodes ≠ [] := by
    rcases hbegins with ⟨token, rest, hrun, htrivia⟩
    rw [hrun] at hreads
    have hbehind : forall {part : Node} {rest : List Token}, part.isWhiteSpace = false ->
        Reads none [part] rest nodes -> nodes ≠ [] := by
      intro part rest hsolid hrest
      rcases exists_behind hrest (Tidy.solid hsolid []) with ⟨new, hnew⟩
      rw [hnew.nodes_eq, dropSpace_solid hsolid]
      simp
    cases hreads with
    | trivia htoken => exact absurd htoken (ne_true_of_eq_false htrivia)
    | word hkind hrest => exact hbehind rfl hrest
    | feature hkind hgroup hfeature hrest =>
        rw [spanning_none] at hrest
        exact hbehind (isPart_feature hfeature).solid hrest
  have hwritten : (ofConstruct (.mediaQuery nodes)).written = writtenAll nodes :=
    written_ofConstruct _
  have hbegins := hfirst rfl hnodesne
  rw [spanning_none]
  refine ⟨⟨?_, ?_, ?_, ?_⟩, ?_⟩
  · rw [hwritten]
    exact hcloses
  · rw [hwritten]
    exact huncut
  · rw [hwritten]
    exact hbegins
  · rw [hwritten]
    exact hlast hnodesne
  · change queryParts? none [] (writtenAll nodes) = some nodes at hread
    rw [hwritten, query?, hread, if_neg]
    · rw [Option.map_some, spanning_none]
    · rcases hbegins with ⟨token, rest, heq, _⟩
      rw [heq]
      exact Bool.false_ne_true

/-- A list of queries is read back from its tokens, which have no trivia at either end. -/
theorem queryList?_written {run : List Token} {list : Node}
    (h : queryList? none run = some list) :
    exists queries, list = ofConstruct (.mediaQueryList queries) ∧ queries ≠ [] ∧
      (forall query, query ∈ queries -> query.IsListed) ∧
        queryList? none (writtenCommas queries) = some list := by
  unfold queryList? at h
  rcases Option.map_eq_some_iff.mp h with ⟨queries, hqueries, rfl⟩
  have hall : forall query, query ∈ queries ->
      query.IsListed ∧ query? none query.written = some query := by
    intro query hquery
    rcases exists_of_mem_mapM hqueries hquery with ⟨part, hpart, hquery⟩
    exact query?_written hquery
  have hne : queries ≠ [] := by
    rintro rfl
    have := (mapM_eq_some_iff.mp hqueries).length_eq
    exact splitTopLevel_ne_nil _ _ _ (List.length_eq_zero_iff.mp this)
  have hlisted := fun query hquery => (hall query hquery).1
  refine ⟨queries, spanning_none _ _, hne, hlisted, ?_⟩
  unfold queryList?
  have hparts : (queries.map written).mapM (fun part => query? none (trim part)) = some queries := by
    refine mapM_eq_some_iff.mpr (List.forall₂_map_left_iff.mpr (List.forall₂_same.mpr ?_))
    intro query hquery
    rcases hall query hquery with ⟨hlisted, hread⟩
    rw [trim_eq_self hlisted.begins hlisted.ends, hread]
  rw [splitTopLevel_writtenCommas hlisted hne, hparts, Option.map_some, spanning_none,
    spanning_none]

/-! ## What is no list of queries -/

theorem featureValue?_similar {run other : List Token} {construct : Construct Node}
    (h : Similar run other) (hrun : featureValue? run = some construct) :
    featureValue? other = some construct := by
  rcases isFeatureValue_of_featureValue? hrun with ⟨kinds, hkinds, hvalue⟩
  have hfixed : forall kind, kind ∈ kinds -> isFixed kind = true := by
    cases hvalue with
    | ratio => exact List.forall_mem_cons.mpr ⟨rfl, List.forall_mem_cons.mpr
        ⟨rfl, List.forall_mem_singleton.mpr rfl⟩⟩
    | _ => exact List.forall_mem_singleton.mpr rfl
  refine featureValue?_eq_some_iff.mpr ?_
  rw [← h.kinds_eq (hkinds ▸ hfixed), hkinds]
  exact hvalue

theorem feature?_similar {content other : List Token} {construct : Construct Node}
    (h : Similar content other) (hcontent : feature? none content = some construct) :
    feature? none other = some construct := by
  have hword : forall {word word' : Token} {name : String}, Alike word word' ->
      word.kind = .ident name -> word'.kind = .ident name := by
    intro word word' name halike hword
    rw [← halike.kind_eq (by rw [hword]; rfl), hword]
  cases feature?_eq_some_iff.mp hcontent with
  | named htrim hkind hrest =>
      rcases h.trim_cons htrim with ⟨word', rest', htrim', halike, hsimilar⟩
      exact feature?_eq_some_iff.mpr
        (ReadsFeature.named htrim' (hword halike hkind) (hsimilar.trim_nil hrest))
  | valued htrim hkind hrest hcolon hvalue =>
      rcases h.trim_cons htrim with ⟨word', rest', htrim', halike, hsimilar⟩
      rcases hsimilar.trim_cons hrest with ⟨colon', behind', hrest', halike', hbehind⟩
      have hcolon' : colon'.kind = .colon := by
        rw [← halike'.kind_eq (by rw [hcolon]; rfl), hcolon]
      have hread : ReadsFeature none other _ := ReadsFeature.valued htrim' (hword halike hkind)
        hrest' hcolon' (featureValue?_similar hbehind.trim hvalue)
      rw [spanning_none] at hread ⊢
      exact feature?_eq_some_iff.mpr hread

theorem queryParts?_similar {run other : List Token} {nodes : List Node} (h : Similar run other)
    (parts parts' : List Node) (hrun : queryParts? none parts run = some nodes) :
    exists nodes', queryParts? none parts' other = some nodes' := by
  generalize hsize : run.length + other.length = size
  induction size using Nat.strongRecOn generalizing run other parts parts' with
  | ind size ih =>
      subst hsize
      cases h with
      | nil => exact ⟨_, by rw [queryParts?]⟩
      | left htrivia h =>
          rw [queryParts?_trivia htrivia] at hrun
          exact ih _ (by simp) h _ parts' hrun rfl
      | right htrivia h =>
          rw [queryParts?_trivia htrivia]
          exact ih _ (by simp) h parts _ hrun rfl
      | @cons token token' run other halike h =>
          cases reads_of_queryParts? hrun with
          | trivia htrivia hrest =>
              have htrivia' := halike.isTrivia_eq.symm.trans htrivia
              rw [queryParts?_trivia htrivia] at hrun
              rw [queryParts?_trivia htrivia']
              exact ih _ (by simp; omega) h _ _ hrun rfl
          | word hkind hrest =>
              have hkind' := (halike.kind_eq (by rw [hkind]; rfl)).symm.trans hkind
              rw [queryParts?_word hkind] at hrun
              rw [queryParts?_word hkind']
              exact ih _ (by simp; omega) h _ _ hrun rfl
          | feature hkind hgroup hfeature hrest =>
              have hkind' := (halike.kind_eq (by rw [hkind]; rfl)).symm.trans hkind
              rcases h.splitGroup? hgroup with ⟨cut', hcut', hcontent, hafter⟩
              rw [queryParts?_feature hkind, hgroup, Option.bind_some, hfeature,
                Option.bind_some] at hrun
              rw [queryParts?_feature hkind', hcut', Option.bind_some,
                feature?_similar hcontent hfeature, Option.bind_some]
              have hlength := (splitGroup?_lengths hgroup).2
              have hlength' := (splitGroup?_lengths hcut').2
              exact ih _ (by simp at *; omega) hafter _ _ hrun rfl

theorem queryList?_similar {run other : List Token} {list : Node} (h : Similar run other)
    (hrun : queryList? none run = some list) : exists list', queryList? none other = some list' := by
  rcases Option.map_eq_some_iff.mp hrun with ⟨queries, hqueries, rfl⟩
  have htrivia : forall kind : TokenKind, kind.isTrivia = true -> (kind == .comma) = false := by
    intro kind hkind
    cases kind <;> first | rfl | cases hkind
  have hquery : forall part part' query, Similar part part' -> query? none (trim part) = some query ->
      exists query', query? none (trim part') = some query' := by
    intro part part' query hpart hread
    unfold query? at hread ⊢
    split at hread
    · cases hread
    rename_i hne
    rcases Option.map_eq_some_iff.mp hread with ⟨nodes, hnodes, rfl⟩
    rcases queryParts?_similar hpart.trim [] [] hnodes with ⟨nodes', hnodes'⟩
    rw [if_neg, hnodes']
    · exact ⟨_, rfl⟩
    · intro hempty
      have hnil := hpart.symm.trim_nil (List.isEmpty_iff.mp hempty)
      exact hne (List.isEmpty_iff.mpr hnil)
  rcases exists_mapM_of_forall₂ (h.splitTopLevel htrivia 0) hquery hqueries with
    ⟨queries', hqueries'⟩
  unfold queryList?
  rw [hqueries']
  exact ⟨_, rfl⟩

/-! ## Preludes -/

theorem prelude?_begins {name : String} {run : List Token} (h : Begins run) (hends : Ends run) :
    prelude? none name run = some (ofConstruct (.atRulePrelude (preludeNodes none name run))) := by
  unfold prelude?
  rw [trim_eq_self h hends]
  rcases h with ⟨token, rest, rfl, _⟩
  simp

/-- A prelude is read back from its tokens, with whitespace before them. -/
structure IsPrelude (name : String) (run : List Token) (node : Node) : Prop where
  begins : Begins node.written
  ends : Ends node.written
  reads : prelude? none name node.written = some node
  follows : Follows Sheet.endsPrelude run node.written
  closes : Closes 0 node.written ∨ node.written = trim run

theorem isPrelude_of_prelude? {name : String} {run : List Token} {node : Node}
    (hrun : Seamless run) (h : prelude? none name run = some node) : IsPrelude name run node := by
  simp only [prelude?] at h
  split at h
  · cases h
  rename_i hne
  rcases @begins_and_ends_of_trim_ne_nil run (by simpa using hne) with ⟨hbegins, hends⟩
  have hseamless : Seamless (trim run) := hrun.trim
  have hfollows : Follows Sheet.endsPrelude run (trim run) := follows_trim run
  rw [spanning_none] at h
  cases h
  cases hqueries : (if takesQueries name then queryList? none (trim run) else none) with
  | some list =>
      have htakes : takesQueries name = true ∧ queryList? none (trim run) = some list := by
        split at hqueries
        · exact ⟨‹_›, hqueries⟩
        · cases hqueries
      rcases queryList?_written htakes.2 with ⟨queries, rfl, hqueriesne, hlisted, hread⟩
      have hnodes : preludeNodes none name (trim run) =
          [ofConstruct (.mediaQueryList queries)] := by
        unfold preludeNodes
        rw [hqueries]
      have hwritten : (ofConstruct (.atRulePrelude (preludeNodes none name (trim run)))).written =
          writtenCommas queries := by
        rw [hnodes, written_ofConstruct, writtenConstruct, writtenAll, writtenAll,
          List.append_nil, written_ofConstruct]
        rfl
      have hbegins' := begins_writtenCommas hlisted hqueriesne
      have hends' := ends_writtenCommas hlisted hqueriesne
      have hcloses := closes_writtenCommas hlisted
      refine ⟨hwritten ▸ hbegins', hwritten ▸ hends', ?_, ?_, Or.inl (hwritten ▸ hcloses)⟩
      · rw [hwritten, prelude?_begins hbegins' hends', hnodes, preludeNodes, if_pos htakes.1, hread]
      · rw [hwritten]
        exact hcloses.follows (uncut_writtenCommas hlisted) run
  | none =>
      cases hcomponents : Value.components? none (trim run) with
      | some nodes =>
          have hnodes : preludeNodes none name (trim run) = nodes := by
            unfold preludeNodes
            rw [hqueries, hcomponents]
            rfl
          have hwritten :
              (ofConstruct (.atRulePrelude (preludeNodes none name (trim run)))).written =
                writtenAll nodes := by
            rw [hnodes, written_ofConstruct]
            rfl
          have hlist := Value.isList_of_components? hcomponents
          rcases Value.begins_and_ends_of_components? hbegins hcomponents with
            ⟨hbegins', hends'⟩
          have hsimilar := (Value.similar_of_components? hseamless hcomponents).symm
          have hqueries' :
              (if takesQueries name then queryList? none (writtenAll nodes) else none) = none := by
            split
            · rename_i htakes
              rw [if_pos htakes] at hqueries
              cases hread : queryList? none (writtenAll nodes) with
              | none => rfl
              | some list =>
                  rcases queryList?_similar hsimilar hread with ⟨list', hlist'⟩
                  rw [hlist'] at hqueries
                  cases hqueries
            · rfl
          refine ⟨hwritten ▸ hbegins', hwritten ▸ hends', ?_, ?_, Or.inl (hwritten ▸ hlist.closes)⟩
          · rw [hwritten, prelude?_begins hbegins' hends', hnodes, preludeNodes, hqueries',
              hlist.reads]
            rfl
          · rw [hwritten]
            exact hlist.closes.follows hlist.uncut run
      | none =>
          have hnodes : preludeNodes none name (trim run) = [rawRun none (trim run)] := by
            unfold preludeNodes
            rw [hqueries, hcomponents]
            rfl
          have hwritten :
              (ofConstruct (.atRulePrelude (preludeNodes none name (trim run)))).written =
                trim run := by
            rw [hnodes, written_ofConstruct, writtenConstruct, writtenAll, writtenAll,
              List.append_nil, rawRun, spanning_none, written_ofConstruct]
            exact ofText_of_seamless hseamless
          refine ⟨?_, ?_, ?_, ?_, Or.inr hwritten⟩
          · rw [hwritten]
            exact hbegins
          · rw [hwritten]
            exact hends
          · rw [hwritten, prelude?_begins hbegins hends]
          · rw [hwritten]
            exact hfollows

end Media
end Stylesheet
