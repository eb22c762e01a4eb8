import Stylesheet.Proofs.Range.Placed
import Stylesheet.Proofs.Shape.Basic
import Stylesheet.Proofs.Sheet.Steps
import Stylesheet.Proofs.Token.Brackets

/-!
# Items of a stylesheet

`Sheet.Items` says how what stands within a block, or outside every block, is made of items: of
tokens that belong to none, of items without a block, and of blocks with what stands in front of
them.  A block without its brace reaches to the end of the source, and is the last item of the
block around it.
-/

namespace Stylesheet

namespace Run

/-! ## What trimming keeps -/

theorem trimStart_append_of_begins {back : List Token} (h : Begins back) (front : List Token) :
    exists front', trimStart (front ++ back) = front' ++ back := by
  unfold trimStart
  rw [List.dropWhile_append]
  split
  · exact ⟨[], trimStart_eq_self h⟩
  · exact ⟨_, rfl⟩

theorem Begins.head?_trim {run : List Token} (h : Begins run) : (trim run).head? = run.head? := by
  rcases h with ⟨token, rest, rfl, htoken⟩
  rcases trim_cons_of_not_trivia htoken rest with ⟨rest', htrim⟩
  rw [htrim]
  rfl

theorem Begins.trim_ne_nil {run : List Token} (h : Begins run) : trim run ≠ [] := by
  rcases h with ⟨token, rest, rfl, htoken⟩
  rcases trim_cons_of_not_trivia htoken rest with ⟨rest', htrim⟩
  rw [htrim]
  exact List.cons_ne_nil _ _

/-- What begins and ends with no trivia is kept when a run around it is trimmed. -/
theorem trim_append_append {inner : List Token} (hbegins : Begins inner) (hends : Ends inner)
    (front back : List Token) :
    exists front' back', trim (front ++ inner ++ back) = front' ++ inner ++ back' ∧
      ((forall token, token ∈ back -> token.isTrivia = true) -> back' = []) := by
  rcases trimStart_append_of_begins (hbegins.append back) front with ⟨front', hfront⟩
  have hreverse : Begins (inner.reverse ++ front'.reverse) := hends.begins_reverse.append _
  rcases trimStart_append_of_begins hreverse back.reverse with ⟨back', hback⟩
  refine ⟨front', back'.reverse, ?_, ?_⟩
  · rw [trim, List.append_assoc, hfront]
    simp only [List.reverse_append, List.append_assoc] at hback ⊢
    rw [hback]
    simp only [List.reverse_append, List.reverse_reverse, List.append_assoc]
  · intro htrivia
    have hskip := trimStart_append_of_trivia
      (fun token htoken => htrivia token (List.mem_reverse.mp htoken))
      (inner.reverse ++ front'.reverse)
    rw [hback, trimStart_eq_self hreverse] at hskip
    simpa using hskip

/-- A trimmed run is kept when more stands around it. -/
theorem trim_isInfix_trim (front run back : List Token) :
    trim run <:+: trim (front ++ run ++ back) := by
  by_cases hne : trim run = []
  · rw [hne]
    exact List.nil_infix
  · rcases begins_and_ends_of_trim_ne_nil hne with ⟨hbegins, hends⟩
    rcases trim_eq_append run with ⟨before, behind, hrun, _, _⟩
    rcases trim_append_append hbegins hends (front ++ before) (behind ++ back) with
      ⟨front', back', htrim, _⟩
    have hwhole : front ++ run ++ back = front ++ before ++ trim run ++ (behind ++ back) := by
      conv_lhs => rw [hrun]
      simp only [List.append_assoc]
    rw [hwhole, htrim]
    exact ⟨front', back', rfl⟩

/-- What is left of a run ends as what is left of its end does. -/
theorem getLast?_trim_append {run : List Token} (hne : trim run ≠ []) (front : List Token) :
    (trim (front ++ run)).getLast? = (trim run).getLast? := by
  rcases begins_and_ends_of_trim_ne_nil hne with ⟨hbegins, hends⟩
  rcases trim_eq_append run with ⟨before, behind, hrun, _, hbehind⟩
  rcases trim_append_append hbegins hends (front ++ before) behind with
    ⟨front', back', htrim, hback⟩
  have hwhole : front ++ run = front ++ before ++ trim run ++ behind := by
    conv_lhs => rw [hrun]
    simp only [List.append_assoc]
  rw [hwhole, htrim, hback hbehind, List.append_nil, List.getLast?_append_of_ne_nil _ hne]

end Run

namespace Sheet

open Run

/-! ## The derivation -/

/-- What stands in front of a brace makes an owner, whose block holds the items of a scope. -/
inductive Leads (source : SourceName) : Owner -> Scope -> List Token -> Token -> Prop
  | atRule {keyword brace : Token} {name : String} {run : List Token} {prelude : Option Node}
      (hkeyword : keyword.kind = .atKeyword name) (hbrace : brace.kind = .leftBrace)
      (hprelude : Placed source .value run prelude.toList) :
      Leads source (.atRule keyword name prelude) (scopeOf name) (keyword :: run) brace
  | rule {first brace : Token} {front : List Token} {prelude : Node}
      (hfirst : (front ++ [brace]).head? = some first) (hbrace : brace.kind = .leftBrace)
      (hprelude : Placed source .value front [prelude]) :
      Leads source (.rule first.start prelude) .declarations front brace

/-- The construct that a block belongs to, over the run that it covers. -/
def Owner.node (source : SourceName) (covered : List Token) (body : Node) : Owner -> Node
  | .atRule _ name prelude => Node.spanning source covered (.atRule name prelude (some body))
  | .rule _ prelude => Node.spanning source covered (.rule prelude body)

/--
What the owner of a block covers that the end of the source closes: a rule all of it, an at-rule
its tokens up to the last one that is not trivia.
-/
def Owner.covers (run : List Token) (last : Token) : Owner -> List Token
  | .atRule .. => trim run
  | .rule .. => run ++ [last]

theorem Owner.node_location (owner : Owner) (source : SourceName) (covered : List Token)
    (body : Node) : (owner.node source covered body).location = Location.ofRun source covered := by
  cases owner <;> rfl

theorem Owner.node_type_mem (owner : Owner) (source : SourceName) (covered : List Token)
    (body : Node) : (owner.node source covered body).type ∈ [.atRule, .rule] := by
  cases owner with
  | atRule => exact List.mem_cons_self
  | rule => exact List.mem_cons_of_mem _ List.mem_cons_self

/-- A block over its run. -/
def blockOver (source : SourceName) (run : List Token) (children : List Node) : Node :=
  Node.spanning source run (.block children)

/--
Items in a run of a scope.  The flag says whether the run ends where the source ends, so that
its last item may be a block without its brace.
-/
inductive Items (source : SourceName) : Bool -> Scope -> List Token -> List Node -> Prop
  | nil (ends : Bool) (scope : Scope) : Items source ends scope [] []
  | skip {ends : Bool} {scope : Scope} {token : Token} {run : List Token} {nodes : List Node}
      (hskips : scope.skips token.kind = true) (hrest : Items source ends scope run nodes) :
      Items source ends scope (token :: run) nodes
  | item {ends : Bool} {scope : Scope} {inner rest : List Token} {node : Node}
      {nodes : List Node} (hne : inner ≠ []) (hnode : node.Over source .value inner)
      (hrest : Items source ends scope rest nodes) :
      Items source ends scope (inner ++ rest) (node :: nodes)
  | closed {ends : Bool} {scope within : Scope} {front inner rest : List Token}
      {brace closer : Token} {owner : Owner} {children nodes : List Node}
      (hleads : Leads source owner within front brace) (hcloser : closer.kind = .rightBrace)
      (hinner : Items source false within inner children)
      (hrest : Items source ends scope rest nodes) :
      Items source ends scope ((front ++ brace :: inner) ++ [closer] ++ rest)
        (owner.node source ((front ++ brace :: inner) ++ [closer])
          (blockOver source (brace :: inner ++ [closer]) children) :: nodes)
  | unclosed {scope within : Scope} {front inner : List Token} {brace last : Token}
      {owner : Owner} {children : List Node} (hleads : Leads source owner within front brace)
      (hlast : last.kind = .eof)
      (hinner : Items source true within (inner ++ [last]) children) :
      Items source true scope ((front ++ brace :: inner) ++ [last])
        [owner.node source (owner.covers (front ++ brace :: inner) last)
          (blockOver source (brace :: inner ++ [last]) children)]

namespace Items

variable {source : SourceName} {ends : Bool} {scope : Scope} {run more : List Token}
  {nodes others : List Node} {node : Node}

/-- Items behind items, all of which are closed. -/
theorem append (h : Items source false scope run nodes) (h' : Items source ends scope more others) :
    Items source ends scope (run ++ more) (nodes ++ others) := by
  generalize hflag : false = flag at h
  induction h with
  | nil => exact h'
  | skip hskips hrest ih => exact skip hskips (ih h' hflag)
  | item hne hnode hrest ih =>
      rw [List.append_assoc]
      exact item hne hnode (ih h' hflag)
  | closed hleads hcloser hinner hrest ihinner ih =>
      rw [List.append_assoc]
      exact closed hleads hcloser hinner (ih h' hflag)
  | unclosed => cases hflag

theorem of_skips (h : forall token, token ∈ run -> scope.skips token.kind = true) :
    Items source ends scope run [] := by
  induction run with
  | nil => exact nil ends scope
  | cons token rest ih =>
      exact skip (h token List.mem_cons_self)
        (ih fun other hother => h other (List.mem_cons_of_mem token hother))

theorem of_trivia (h : forall token, token ∈ run -> token.isTrivia = true) :
    Items source ends scope run [] :=
  of_skips fun token htoken => scope.skips_of_isTrivia (h token htoken)

/-- An item over a run without the trivia at its ends. -/
theorem of_trim (hne : trim run ≠ []) (hnode : node.Over source .value (trim run)) :
    Items source false scope run [node] := by
  rcases trim_eq_append run with ⟨front, back, hrun, hfront, hback⟩
  have hitems : Items source false scope (front ++ (trim run ++ back)) ([] ++ [node]) :=
    (of_trivia hfront).append (item hne hnode (of_trivia hback))
  rw [← List.append_assoc, ← hrun] at hitems
  exact hitems

theorem row_of_trim (h : node.location = Location.ofRun source (trim run)) :
    Row source scope.skips run [node] := by
  rcases trim_eq_append run with ⟨front, back, hrun, hfront, hback⟩
  have htrivia : forall {trivia : List Token},
      (forall token, token ∈ trivia -> token.isTrivia = true) ->
        Row source scope.skips trivia [] := by
    intro trivia h
    exact Row.nil fun token htoken => scope.skips_of_isTrivia (h token htoken)
  have hrow : Row source scope.skips (front ++ trim run ++ back) ([] ++ [node] ++ []) :=
    ((htrivia hfront).append (Row.singleton h)).append (htrivia hback)
  rw [← hrun] at hrow
  exact hrow

/-- Items stand in a row, and only what their scope skips stands between them. -/
theorem row (h : Items source ends scope run nodes) : Row source scope.skips run nodes := by
  induction h with
  | nil =>
      apply Row.nil
      intro token htoken
      cases htoken
  | skip hskips hrest ih => exact ih.skip (List.forall_mem_singleton.mpr hskips)
  | item hne hnode hrest ih => exact (Row.singleton hnode.location).append ih
  | closed hleads hcloser hinner hrest ihinner ih =>
      exact (Row.singleton (Owner.node_location _ _ _ _)).append ih
  | @unclosed scope within front inner brace last owner children hleads hlast hinner ih =>
      have hskips : scope.skips last.kind = true := by
        rw [hlast]
        rfl
      cases owner with
      | rule => exact Row.singleton (Owner.node_location _ _ _ _)
      | atRule keyword name prelude =>
          exact (row_of_trim (Owner.node_location _ _ _ _)).pad
            (List.forall_mem_singleton.mpr hskips)

end Items

end Sheet
end Stylesheet
