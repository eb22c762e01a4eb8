import Stylesheet.Proofs.Reshaped.Selector
import Stylesheet.Proofs.Token.Paired
import Stylesheet.Token.Stream

/-!
# Shapes of closers

Main statement: values and preludes are read alike whatever the shapes of the closers, so that a run
is read as if every group in it were closed by its own shape.
-/

namespace Stylesheet

namespace Token

/-- A token, with a round closer in place of any other. -/
def rounded (token : Token) : Token :=
  if token.isCloser then { token with kind := .rightParen } else token

theorem rounded_of_isCloser {token : Token} (h : token.isCloser = true) :
    token.rounded = { token with kind := .rightParen } :=
  if_pos h

theorem rounded_of_not_isCloser {token : Token} (h : token.isCloser = false) :
    token.rounded = token := by
  rw [rounded, h, if_neg Bool.false_ne_true]

theorem start_rounded (token : Token) : token.rounded.start = token.start := by
  unfold rounded
  split <;> rfl

theorem text_rounded (token : Token) : token.rounded.text = token.text := by
  unfold rounded
  split <;> rfl

theorem reshapes_rounded : Reshapes rounded where
  text := text_rounded
  kind := fun _ hcloser => congrArg Token.kind (rounded_of_not_isCloser hcloser)
  closer := by
    intro token hcloser
    rw [rounded_of_isCloser hcloser]
    rfl

end Token

open Run

/-- Nodes do not tell the shapes of closers apart. -/
theorem Node.follows_rounded (source : SourceName) :
    Node.Follows Token.rounded source source id := by
  refine Node.follows_id source Token.start_rounded ?_
  intro token
  rw [Token.stop, Token.stop, Token.start_rounded, Token.text_rounded]

theorem Run.rounded_mend {expected : List TokenKind}
    (h : forall kind, kind ∈ expected -> kind.isCloser = true) (run : List Token) :
    (mend expected run).map Token.rounded = run.map Token.rounded := by
  induction run generalizing expected with
  | nil => rfl
  | cons token rest ih =>
      cases bracketing token with
      | opener hopener =>
          have hcloser := TokenKind.isCloser_of_closer? hopener
          rw [mend_opener hopener, List.map_cons, List.map_cons,
            ih (List.forall_mem_cons.mpr ⟨hcloser, h⟩)]
      | closer hcloses =>
          have hmended : Token.isCloser { token with kind := expected.headD token.kind } = true :=
            isCloser_headD h hcloses
          rw [mend_closer hcloses, List.map_cons, List.map_cons,
            ih fun kind hkind => h kind (List.mem_of_mem_tail hkind),
            Token.rounded_of_isCloser hcloses, Token.rounded_of_isCloser hmended]
      | plain hopener hcloses =>
          rw [mend_plain hopener hcloses, List.map_cons, List.map_cons, ih h]

/--
Runs that differ in the shapes of closers only are read as the same value and as the same preludes.
To mend a run is to change such shapes only, so that every group that is found in it is closed by
its own shape, with all the groups in it, and there is nothing to mend exactly when the groups of
the run are closed so already.
-/
theorem reads_mend (source : SourceName) (name : String) (run : List Token) :
    (forall other, other.map Token.rounded = run.map Token.rounded ->
      Value.ofRun source other = Value.ofRun source run ∧
        Selector.prelude source other = Selector.prelude source run ∧
          Media.prelude? source name other = Media.prelude? source name run) ∧
      (mend [] run).map Token.rounded = run.map Token.rounded ∧
        HasPairedGroups (mend [] run) ∧ (mend [] run = run <-> HasPairedGroups run) := by
  have htokens := Token.reshapes_rounded
  have h := Node.follows_rounded source
  have hnone : forall kind, kind ∈ ([] : List TokenKind) -> kind.isCloser = true := by simp
  refine ⟨?_, rounded_mend hnone run, hasPairedGroups_mend hnone run, mend_eq_self_iff⟩
  intro other hother
  refine ⟨?_, ?_, ?_⟩
  · have hvalue := Value.ofRun_map htokens h other
    rw [hother] at hvalue
    exact hvalue.symm.trans (Value.ofRun_map htokens h run)
  · have hprelude := Selector.prelude_map htokens h other
    rw [hother] at hprelude
    exact hprelude.symm.trans (Selector.prelude_map htokens h run)
  · have hprelude := Media.prelude?_map htokens h name other
    rw [hother] at hprelude
    simpa using hprelude.symm.trans (Media.prelude?_map htokens h name run)

/-- A bracket closes a parenthesis, and the run is read as if it were closed by its own shape. -/
theorem reads_mend_bracket :
    let run : List Token := [⟨.leftParen, "(", ⟨1, 1, 0⟩⟩, ⟨.number "1", "1", ⟨1, 2, 1⟩⟩,
      ⟨.rightBracket, "]", ⟨1, 3, 2⟩⟩]
    (mend [] run).map Token.kind = [.leftParen, .number "1", .rightParen] ∧
      Value.ofRun none (mend [] run) = Value.ofRun none run := by
  intro run
  rcases reads_mend none "media" run with ⟨hreads, hmend, _, _⟩
  exact ⟨by decide, (hreads _ hmend).left⟩

/-- A bracket closes a parenthesis, and the value does not fall back to its text. -/
theorem ofRun_closed_by_bracket :
    let run : List Token := [⟨.leftParen, "(", ⟨1, 1, 0⟩⟩, ⟨.number "1", "1", ⟨1, 2, 1⟩⟩,
      ⟨.rightBracket, "]", ⟨1, 3, 2⟩⟩]
    tokenize "(1]" = .ok (run ++ [⟨.eof, "", ⟨1, 4, 3⟩⟩]) ∧ ¬ HasPairedGroups run ∧
      Value.ofRun none run =
        Node.ofConstruct (.value [Node.ofConstruct (.parentheses
          [Node.ofConstruct (.number "1")])]) := by
  intro run
  have hreads : Value.Reads none run _ :=
    Value.Reads.group rfl rfl (Value.Reads.single rfl Value.Reads.nil) Value.Reads.nil
  have hcomponents := congrArg (Option.map Value.normalize)
    (Value.spacedComponents?_of_reads hreads)
  refine ⟨by decide +kernel, mt mend_eq_self_iff.mpr (by decide), ?_⟩
  have htrim : trim run = run := rfl
  rw [Value.ofRun, htrim, Value.components?, hcomponents]
  rfl

end Stylesheet
