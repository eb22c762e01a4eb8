import Stylesheet.Media

/-!
# Reading media queries as a derivation

`Media.ReadsFeature` says how a feature comes about, and `Media.Reads` how the parts of a media
query do, behind the parts read so far.
-/

namespace Stylesheet
namespace Media

variable {source : SourceName} {parts : List Node} {token : Token}

/-! ## Features -/

/-- The tokens of the value of a feature but for trivia, and what they stand for. -/
inductive IsFeatureValue : List TokenKind -> Construct Node -> Prop
  | number (value : String) : IsFeatureValue [.number value] (.number value)
  | dimension (value unit : String) :
      IsFeatureValue [.dimension value unit] (.dimension value unit)
  | word (name : String) : IsFeatureValue [.ident name] (.identifier name)
  | ratio (left right : String) :
      IsFeatureValue [.number left, .delim '/', .number right] (.ratio left right)

/-- A feature without a value, or one whose value stands behind a colon. -/
inductive ReadsFeature (source : SourceName) (content : List Token) : Construct Node -> Prop
  | named {word : Token} {name : String} {rest : List Token}
      (hcontent : Run.trim content = word :: rest) (hword : word.kind = .ident name)
      (hrest : Run.trim rest = []) : ReadsFeature source content (.mediaFeature name none)
  | valued {word colon : Token} {name : String} {rest behind : List Token}
      {value : Construct Node} (hcontent : Run.trim content = word :: rest)
      (hword : word.kind = .ident name) (hrest : Run.trim rest = colon :: behind)
      (hcolon : colon.kind = .colon) (hvalue : featureValue? (Run.trim behind) = some value) :
      ReadsFeature source content
        (.mediaFeature name (some (Node.spanning source (Run.trim behind) value)))

theorem featureValue?_eq_some_iff {run : List Token} {value : Construct Node} :
    featureValue? run = some value <->
      IsFeatureValue ((Run.significant run).map Token.kind) value := by
  unfold featureValue?
  constructor
  · intro h
    split at h <;> rename_i hkinds
    · cases h
      exact hkinds ▸ IsFeatureValue.ratio _ _
    · cases h
      exact hkinds ▸ IsFeatureValue.number _
    · cases h
      exact hkinds ▸ IsFeatureValue.dimension _ _
    · cases h
      exact hkinds ▸ IsFeatureValue.word _
    · cases h
  · generalize (Run.significant run).map Token.kind = kinds
    intro h
    cases h <;> rfl

/-- The kinds of the tokens of a value that has been read. -/
theorem isFeatureValue_of_featureValue? {run : List Token} {value : Construct Node}
    (h : featureValue? run = some value) :
    exists kinds, (Run.significant run).map Token.kind = kinds ∧ IsFeatureValue kinds value :=
  ⟨_, rfl, featureValue?_eq_some_iff.mp h⟩

theorem feature?_eq_some_iff {content : List Token} {construct : Construct Node} :
    feature? source content = some construct <-> ReadsFeature source content construct := by
  constructor
  · intro h
    unfold feature? at h
    split at h
    · rename_i hcontent
      split at h
      · rename_i hrest
        cases h
        exact ReadsFeature.named hcontent rfl hrest
      · rename_i hrest
        split at h
        · rename_i hcolon
          rcases Option.map_eq_some_iff.mp h with ⟨value, hvalue, rfl⟩
          exact ReadsFeature.valued hcontent rfl hrest hcolon hvalue
        · cases h
    · cases h
  · intro h
    cases h with
    | @named word name rest hcontent hword hrest =>
        rcases word with ⟨kind, text, start⟩
        subst hword
        simp only [feature?, hcontent, hrest]
    | @valued word colon name rest behind value hcontent hword hrest hcolon hvalue =>
        rcases word with ⟨kind, text, start⟩
        subst hword
        simp only [feature?, hcontent, hrest, if_pos hcolon, hvalue, Option.map_some]

/-! ## Queries -/

theorem queryParts?_trivia (h : token.isTrivia = true) (rest : List Token) :
    queryParts? source parts (token :: rest) =
      queryParts? source (addSpace (Node.ofToken source token (.whiteSpace " ")) parts) rest := by
  unfold Token.isTrivia TokenKind.isTrivia at h
  split at h
  · rename_i hkind
    rw [queryParts?, hkind]
  · rename_i hkind
    rw [queryParts?, hkind]
  · cases h

theorem queryParts?_word {name : String} (h : token.kind = .ident name) (rest : List Token) :
    queryParts? source parts (token :: rest) =
      queryParts? source (Node.ofToken source token (.identifier name) :: parts) rest := by
  rw [queryParts?, h]

theorem queryParts?_feature (h : token.kind = .leftParen) (rest : List Token) :
    queryParts? source parts (token :: rest) =
      (Run.splitGroup? 0 rest).bind fun cut =>
        (feature? source cut.content).bind fun construct =>
          queryParts? source
            (Node.spanning source (token :: cut.content ++ [cut.closer]) construct :: parts)
            cut.rest := by
  rw [queryParts?, h]
  simp only
  split
  · rename_i hnone
    rw [hnone]
    rfl
  · rename_i content closer after hsome
    rw [hsome, Option.bind_some]
    cases feature? source content <;> rfl

theorem queryParts?_none (htrivia : token.isTrivia = false)
    (hword : forall name, token.kind ≠ .ident name) (hparen : token.kind ≠ .leftParen)
    (rest : List Token) : queryParts? source parts (token :: rest) = none := by
  rw [queryParts?]
  split
  · rename_i hkind
    rw [Token.isTrivia, hkind] at htrivia
    cases htrivia
  · rename_i hkind
    rw [Token.isTrivia, hkind] at htrivia
    cases htrivia
  · exact absurd ‹_› (hword _)
  · exact absurd ‹_› hparen
  · rfl

/-- The rest of a query is read behind the parts read so far, the latest of which comes first. -/
inductive Reads (source : SourceName) : List Node -> List Token -> List Node -> Prop
  | done (parts : List Node) : Reads source parts [] (dropSpace parts).reverse
  | trivia {parts nodes : List Node} {token : Token} {rest : List Token}
      (htrivia : token.isTrivia = true)
      (hrest : Reads source
        (addSpace (Node.ofToken source token (.whiteSpace " ")) parts) rest nodes) :
      Reads source parts (token :: rest) nodes
  | word {parts nodes : List Node} {token : Token} {name : String} {rest : List Token}
      (hkind : token.kind = .ident name)
      (hrest : Reads source (Node.ofToken source token (.identifier name) :: parts) rest nodes) :
      Reads source parts (token :: rest) nodes
  | feature {parts nodes : List Node} {token closer : Token} {rest content after : List Token}
      {construct : Construct Node} (hkind : token.kind = .leftParen)
      (hgroup : Run.splitGroup? 0 rest = some ⟨content, closer, after⟩)
      (hfeature : feature? source content = some construct)
      (hrest : Reads source
        (Node.spanning source (token :: content ++ [closer]) construct :: parts) after nodes) :
      Reads source parts (token :: rest) nodes

theorem reads_of_queryParts? {parts nodes : List Node} {run : List Token}
    (h : queryParts? source parts run = some nodes) : Reads source parts run nodes := by
  fun_induction queryParts? source parts run generalizing nodes with
  | case1 parts =>
      cases h
      exact Reads.done parts
  | case2 parts token rest hkind ih =>
      exact Reads.trivia (congrArg TokenKind.isTrivia hkind) (ih h)
  | case3 parts token rest content hkind ih =>
      exact Reads.trivia (congrArg TokenKind.isTrivia hkind) (ih h)
  | case4 parts token rest name hkind ih => exact Reads.word hkind (ih h)
  | case5 => cases h
  | case6 => cases h
  | case7 parts token rest hkind content closer after hgroup construct hfeature node =>
      rename_i ih
      exact Reads.feature hkind hgroup hfeature (ih h)
  | case8 => cases h

theorem reads_of_query? {run : List Token} {node : Node} (h : query? source run = some node) :
    run ≠ [] ∧ exists parts, Reads source [] run parts ∧
      node = Node.spanning source run (.mediaQuery parts) := by
  unfold query? at h
  split at h
  · cases h
  · rename_i hne
    rcases Option.map_eq_some_iff.mp h with ⟨parts, hparts, rfl⟩
    exact ⟨by simpa using hne, parts, reads_of_queryParts? hparts, rfl⟩

end Media
end Stylesheet
