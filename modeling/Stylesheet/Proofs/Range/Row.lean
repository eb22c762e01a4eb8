import Stylesheet.Proofs.Range.Basic

/-!
# Rows of nodes

Nodes that were read one behind another stand in a row: each is located over a run of its own,
and what stands between these runs belongs to no node.  Main statements: the ranges of a row
are in order and do not overlap, and a token that may not stand between them lies in just one.
-/

namespace Stylesheet

open Run

namespace Node

/-- A node ends before another begins, as far as both are located. -/
def EndsBefore (left right : Node) : Prop :=
  forall location, location ∈ left.location ->
    forall location', location' ∈ right.location ->
      location.stop.offset <= location'.start.offset

/-- The range of a node lies between two offsets, if the node is located. -/
def IsWithin (start stop : Nat) (node : Node) : Prop :=
  forall location, location ∈ node.location ->
    start <= location.start.offset ∧ location.start.offset <= location.stop.offset ∧
      location.stop.offset <= stop

theorem IsWithin.mono {node : Node} {start stop start' stop' : Nat}
    (h : node.IsWithin start stop) (hstart : start' <= start) (hstop : stop <= stop') :
    node.IsWithin start' stop' := by
  intro location hlocation
  rcases h location hlocation with ⟨hbegin, hle, hend⟩
  exact ⟨Nat.le_trans hstart hbegin, hle, Nat.le_trans hend hstop⟩

/-- A node over a run lies between the ends of the run. -/
theorem isWithin_of_location {name : String} {node : Node} {before run behind : List Token}
    (h : node.location = Location.ofRun (some name) run)
    (hadjoins : Adjoins .start (before ++ run ++ behind)) :
    node.IsWithin (chars before).length (chars (before ++ run)).length := by
  intro location hsome
  have hlocation : Location.ofRun (some name) run = some location := h.symm.trans hsome
  rw [Location.ofRun_eq hadjoins (Location.ne_nil_of_ofRun_eq_some hlocation)] at hlocation
  cases hlocation
  simp only [offset_positionBehind, chars_append, List.length_append]
  omega

end Node

namespace Token

/-- Whether a token lies in the range of a node. -/
def liesIn (token : Token) (node : Node) : Bool :=
  node.location.any fun location =>
    location.start.offset <= token.start.offset && token.stop.offset <= location.stop.offset

theorem liesIn_iff {token : Token} {node : Node} :
    token.liesIn node = true <->
      exists location, node.location = some location ∧
        location.start.offset <= token.start.offset ∧
          token.stop.offset <= location.stop.offset := by
  unfold liesIn
  rw [Option.any_eq_true]
  simp only [Bool.and_eq_true, decide_eq_true_eq]

/-- The tokens of its run lie in a node. -/
theorem liesIn_of_mem {name : String} {node : Node} {token : Token}
    {before run behind : List Token} (hlocation : node.location = Location.ofRun (some name) run)
    (hadjoins : Adjoins .start (before ++ run ++ behind)) (h : token ∈ run) :
    token.liesIn node = true := by
  rw [Location.ofRun_eq hadjoins (List.ne_nil_of_mem h)] at hlocation
  rcases hadjoins.offsets_of_mem h with ⟨hstart, _, hstop⟩
  apply liesIn_iff.mpr
  refine ⟨_, hlocation, ?_, ?_⟩
  · rw [offset_positionBehind]
    exact hstart
  · rw [offset_positionBehind]
    exact hstop

/-- A token that is not empty does not lie in a node before or behind it. -/
theorem not_liesIn {node : Node} {token : Token} {start stop : Nat} (h : node.IsWithin start stop)
    (hwidth : token.start.offset < token.stop.offset)
    (hapart : token.stop.offset <= start ∨ stop <= token.start.offset) :
    ¬ token.liesIn node = true := by
  intro hlies
  rcases liesIn_iff.mp hlies with ⟨location, hlocation, hbegin, hend⟩
  rcases h location hlocation with ⟨hstart, _, hstop⟩
  omega

end Token

/-- Nodes in a row within a run; `gap` says what may stand in front of, between and behind them. -/
inductive Row (source : SourceName) (gap : TokenKind -> Bool) : List Token -> List Node -> Prop
  | nil {run : List Token} (hgap : forall token, token ∈ run -> gap token.kind = true) :
      Row source gap run []
  | cons {front inner rest : List Token} {node : Node} {nodes : List Node}
      (hgap : forall token, token ∈ front -> gap token.kind = true)
      (hlocation : node.location = Location.ofRun source inner)
      (hrest : Row source gap rest nodes) :
      Row source gap (front ++ inner ++ rest) (node :: nodes)

namespace Row

variable {name : String} {source : SourceName} {gap : TokenKind -> Bool}
  {before run behind : List Token} {nodes : List Node}

/-- More may stand in front of a row. -/
theorem skip {front : List Token} (hgap : forall token, token ∈ front -> gap token.kind = true)
    (h : Row source gap run nodes) : Row source gap (front ++ run) nodes := by
  cases h with
  | nil hrun =>
      apply nil
      intro token htoken
      rcases List.mem_append.mp htoken with htoken | htoken
      · exact hgap token htoken
      · exact hrun token htoken
  | @cons front' inner rest node nodes hfront hlocation hrest =>
      rw [← List.append_assoc, ← List.append_assoc]
      apply cons _ hlocation hrest
      intro token htoken
      rcases List.mem_append.mp htoken with htoken | htoken
      · exact hgap token htoken
      · exact hfront token htoken

/-- More may stand behind a row. -/
theorem pad {back : List Token} (h : Row source gap run nodes)
    (hgap : forall token, token ∈ back -> gap token.kind = true) :
    Row source gap (run ++ back) nodes := by
  induction h with
  | nil hrun =>
      apply nil
      intro token htoken
      rcases List.mem_append.mp htoken with htoken | htoken
      · exact hrun token htoken
      · exact hgap token htoken
  | cons hfront hlocation hrest ih =>
      rw [List.append_assoc]
      exact cons hfront hlocation ih

theorem append {more : List Token} {others : List Node} (h : Row source gap run nodes)
    (h' : Row source gap more others) : Row source gap (run ++ more) (nodes ++ others) := by
  induction h with
  | nil hrun => exact h'.skip hrun
  | cons hfront hlocation hrest ih =>
      rw [List.append_assoc]
      exact cons hfront hlocation ih

theorem singleton {node : Node} (hlocation : node.location = Location.ofRun source run) :
    Row source gap run [node] := by
  have hrow : Row source gap ([] ++ run ++ []) [node] :=
    cons (by intro token hnil; cases hnil) hlocation (nil (by intro token hnil; cases hnil))
  rw [List.append_nil] at hrow
  exact hrow

theorem mono {gap' : TokenKind -> Bool} (h : Row source gap run nodes)
    (hgap : forall kind, gap kind = true -> gap' kind = true) : Row source gap' run nodes := by
  induction h with
  | nil hrun => exact nil fun token htoken => hgap _ (hrun token htoken)
  | cons hfront hlocation hrest ih =>
      exact cons (fun token htoken => hgap _ (hfront token htoken)) hlocation ih

/-! ## Order -/

section Order

variable {front inner rest : List Token}

theorem adjoins_inner (h : Adjoins .start (before ++ (front ++ inner ++ rest) ++ behind)) :
    Adjoins .start ((before ++ front) ++ inner ++ (rest ++ behind)) := by
  simpa only [List.append_assoc] using h

theorem adjoins_rest (h : Adjoins .start (before ++ (front ++ inner ++ rest) ++ behind)) :
    Adjoins .start ((before ++ front ++ inner) ++ rest ++ behind) := by
  simpa only [List.append_assoc] using h

end Order

/-- The nodes of a row lie between the ends of its run. -/
theorem isWithin (h : Row (some name) gap run nodes)
    (hadjoins : Adjoins .start (before ++ run ++ behind)) :
    forall node, node ∈ nodes ->
      node.IsWithin (chars before).length (chars (before ++ run)).length := by
  induction h generalizing before with
  | nil =>
      intro node hnode
      cases hnode
  | cons hgap hlocation hrest ih =>
      intro other hother
      rcases List.mem_cons.mp hother with rfl | hother
      · apply (Node.isWithin_of_location hlocation (adjoins_inner hadjoins)).mono
        · simp only [chars_append, List.length_append]
          omega
        · simp only [chars_append, List.length_append]
          omega
      · apply (ih (adjoins_rest hadjoins) other hother).mono
        · simp only [chars_append, List.length_append]
          omega
        · simp only [chars_append, List.length_append]
          omega

/-- The nodes of a row are in order and do not overlap. -/
theorem endsBefore (h : Row (some name) gap run nodes)
    (hadjoins : Adjoins .start (before ++ run ++ behind)) : nodes.Pairwise Node.EndsBefore := by
  induction h generalizing before with
  | nil => exact List.Pairwise.nil
  | cons hgap hlocation hrest ih =>
      apply List.pairwise_cons.mpr
      constructor
      · intro other hother location hsome location' hsome'
        have hnode := Node.isWithin_of_location hlocation (adjoins_inner hadjoins) location hsome
        have hlater := hrest.isWithin (adjoins_rest hadjoins) other hother location' hsome'
        exact Nat.le_trans hnode.right.right hlater.left
      · exact ih (adjoins_rest hadjoins)

/-! ## Coverage -/

/-- A token that may not stand between the nodes of a row lies in the range of just one. -/
theorem countP_liesIn {token : Token} (h : Row (some name) gap run nodes)
    (hadjoins : Adjoins .start (before ++ run ++ behind)) (htoken : token ∈ run)
    (hne : token.text ≠ "") (hgap : gap token.kind = false) :
    nodes.countP token.liesIn = 1 := by
  have hwidth : 0 < token.text.toList.length := by
    rw [List.length_pos_iff]
    simpa using hne
  have habsurd : forall {run : List Token}, (forall token, token ∈ run -> gap token.kind = true) ->
      token ∉ run := by
    intro run hrun hmem
    exact absurd hgap (ne_false_of_eq_true (hrun token hmem))
  induction h generalizing before with
  | nil hrun => exact absurd htoken (habsurd hrun)
  | @cons front inner rest node nodes hfront hlocation hrest ih =>
      have hinner := adjoins_inner hadjoins
      have hbehind := adjoins_rest hadjoins
      rcases List.mem_append.mp htoken with hfirst | hlater
      · rcases List.mem_append.mp hfirst with hskipped | hwithin
        · exact absurd hskipped (habsurd hfront)
        · -- the token lies in the first node, and so before the others
          have hothers : nodes.countP token.liesIn = 0 := by
            apply List.countP_eq_zero.mpr
            intro other hother
            rcases hinner.offsets_of_mem hwithin with ⟨_, hstop, hend⟩
            apply Token.not_liesIn (hrest.isWithin hbehind other hother)
            · omega
            · exact Or.inl hend
          rw [List.countP_cons_of_pos (Token.liesIn_of_mem hlocation hinner hwithin), hothers]
      · -- the token lies behind the first node
        have hlies : ¬ token.liesIn node = true := by
          rcases hbehind.offsets_of_mem hlater with ⟨hstart, hstop, _⟩
          apply Token.not_liesIn (Node.isWithin_of_location hlocation hinner)
          · omega
          · exact Or.inr hstart
        rw [List.countP_cons_of_neg hlies, ih hbehind hlater]

end Row

end Stylesheet
