import Stylesheet.Declaration
import Stylesheet.Proofs.Cursor.Components
import Stylesheet.Proofs.Media.Derivation

/-!
# Values and preludes by index
-/

namespace Stylesheet
namespace Cursor

variable {source : SourceName}

/-! ## Values -/

/-- The value of a declaration: components, or else the text as it is written. -/
def valueOfRun (source : SourceName) (run : List Token) : Checked Node := do
  let run ← trim run
  match ← components source run with
  | some children => return Node.spanning source run (.value children)
  | none => return Node.rawRun source run

/-- A value without the mark of importance at its end, and whether there was one. -/
def splitImportant (run : List Token) : Checked (List Token × Bool) := do
  let run ← trim run
  match run.reverse with
  | [] => return (run, false)
  | word :: earlier =>
      if Declaration.isImportant word then
        let before ← trim earlier.reverse
        match before.reverse with
        | [] => return (run, false)
        | bang :: front =>
            if bang.kind = .delim '!' then
              let front ← trim front.reverse
              return (front, true)
            else
              return (run, false)
      else
        return (run, false)

@[simp] theorem valueOfRun_eq (source : SourceName) (run : List Token) :
    valueOfRun source run = .ok (Value.ofRun source run) := by
  rw [valueOfRun, trim_eq, ok_bind, components_eq, ok_bind, Value.ofRun]
  cases Value.components? source (Run.trim run) <;> rfl

/-- What stands in front of the last token of a trimmed run has trivia at its end only. -/
theorem reverse_trim {run earlier : List Token} {word : Token}
    (h : (Run.trim run).reverse = word :: earlier) :
    (Run.trim earlier.reverse).reverse = Run.trimStart earlier := by
  have hrun : Run.trim run = earlier.reverse ++ [word] := by
    rw [← List.reverse_reverse (Run.trim run), h, List.reverse_cons]
  have hstart : Run.trimStart earlier.reverse = earlier.reverse := by
    cases hreverse : earlier.reverse with
    | nil => rfl
    | cons first rest =>
        rw [hreverse, List.cons_append] at hrun
        exact Run.trimStart_cons_of_not_trivia (Run.not_trivia_of_trim_eq_cons hrun) rest
  rw [Run.trim, hstart, List.reverse_reverse, List.reverse_reverse]

@[simp] theorem splitImportant_eq (run : List Token) :
    splitImportant run = .ok (Declaration.splitImportant run) := by
  rw [splitImportant, trim_eq, ok_bind]
  unfold Declaration.splitImportant
  split <;> rename_i hreverse
  · rw [hreverse, List.reverse_eq_nil_iff.mp hreverse]
    rfl
  · rename_i word earlier
    have hbefore := reverse_trim hreverse
    rw [hreverse]
    simp only [trim_eq, ok_bind, hbefore]
    cases Declaration.isImportant word with
    | false =>
        simp only [Bool.false_and, Bool.false_eq_true, if_false]
        cases Run.trimStart earlier <;> rfl
    | true =>
        simp only [if_true, Bool.true_and, beq_iff_eq]
        cases Run.trimStart earlier with
        | nil => rfl
        | cons bang front =>
            by_cases hbang : bang.kind = .delim '!'
            · simp only [if_pos hbang, pure_eq_ok]
            · simp only [if_neg hbang, pure_eq_ok]

/-! ## Media queries -/

/-- Reads a feature, with its parentheses. -/
def readFeature (source : SourceName) (group : List Token) : Checked (Option Node) := do
  match ← trim (← interior group) with
  | [] => return none
  | first :: rest =>
      match first.kind with
      | .ident name =>
          match ← trim rest with
          | [] => return some (Node.spanning source group (.mediaFeature name none))
          | colon :: value =>
              if colon.kind = .colon then
                let value ← trim value
                return (Media.featureValue? value).map fun construct =>
                  Node.spanning source group
                    (.mediaFeature name (some (Node.spanning source value construct)))
              else
                return none
      | _ => return none

/-- Reads a media query from an index on, behind the parts read so far, the latest first. -/
def queryFrom (source : SourceName) (run : List Token) (parts : List Node) (i : Nat) :
    Checked (Option (List Node)) :=
  if _h : i < run.length then do
    let token ← tokenAt run i
    match token.kind with
    | .whitespace | .comment _ =>
        let space := Node.ofToken source token (.whiteSpace " ")
        queryFrom source run (Media.addSpace space parts) (i + 1)
    | .ident name =>
        queryFrom source run (Node.ofToken source token (.identifier name) :: parts) (i + 1)
    | .leftParen =>
        match matchingClose? run i with
        | none => return none
        | some close =>
            let group ← slice run i (close + 1)
            match ← readFeature source group with
            | none => return none
            | some node =>
                if _h' : i < close + 1 then queryFrom source run (node :: parts) (close + 1)
                else .error .stall
    | _ => return none
  else
    return some (Media.dropSpace parts).reverse
termination_by run.length - i

/-- A media query. -/
def query (source : SourceName) (run : List Token) : Checked (Option Node) := do
  let parts ← queryFrom source run [] 0
  return parts.map fun parts => Node.spanning source run (.mediaQuery parts)

/-- A list of media queries between commas. -/
def queryList (source : SourceName) (run : List Token) : Checked (Option Node) := do
  let queries ← readParts (query source) (← splitTopLevel (· == .comma) run)
  return queries.map fun queries => Node.spanning source run (.mediaQueryList queries)

/-- The nodes of a prelude that is not empty. -/
def preludeNodes (source : SourceName) (name : String) (run : List Token) :
    Checked (List Node) := do
  match ← if Media.takesQueries name then queryList source run else .ok none with
  | some list => return [list]
  | none =>
      let nodes ← components source run
      return nodes.getD [Node.rawRun source run]

/-- The prelude of an at-rule, unless there is none. -/
def atRulePrelude (source : SourceName) (name : String) (run : List Token) :
    Checked (Option Node) := do
  let run ← trim run
  if run.isEmpty then
    return none
  else
    let nodes ← preludeNodes source name run
    return some (Node.spanning source run (.atRulePrelude nodes))

theorem readFeature_wholeGroup (opener : Token) (group : Run.Group) :
    readFeature source (wholeGroup opener group) =
      .ok ((Media.feature? source group.content).map
        (Node.spanning source (wholeGroup opener group))) := by
  simp only [readFeature, interior_wholeGroup, trim_eq, ok_bind]
  unfold Media.feature?
  cases Run.trim group.content with
  | nil => rfl
  | cons first rest =>
      rcases first with ⟨kind, text, start⟩
      cases kind with
      | ident name =>
          simp only
          cases Run.trim rest with
          | nil => rfl
          | cons colon value =>
              by_cases hcolon : colon.kind = .colon
              · simp only [if_pos hcolon, pure_eq_ok, Option.map_map]
                rfl
              · simp only [if_neg hcolon]
                rfl
      | _ => rfl

/-- A feature moves the index behind its parentheses. -/
theorem queryFrom_paren {opener : Token} (hkind : opener.kind = .leftParen)
    (front rest : List Token) (parts : List Node) :
    queryFrom source (front ++ opener :: rest) parts front.length =
      match Run.splitGroup? 0 rest with
      | none => .ok none
      | some group =>
          readFeature source (wholeGroup opener group) >>= fun
          | none => .ok none
          | some node =>
              queryFrom source (front ++ wholeGroup opener group ++ group.rest) (node :: parts)
                (front ++ wholeGroup opener group).length := by
  have hopener : opener.isOpener = true := congrArg TokenKind.isOpener hkind
  rw [queryFrom, dif_pos (by simp), tokenAt_append, ok_bind]
  simp only [hkind]
  cases hgroup : Run.splitGroup? 0 rest with
  | none => simp only [matchingClose?_append hopener, hgroup, Option.map_none, pure_eq_ok]
  | some group =>
      rcases exists_isClose hopener hgroup front with ⟨close, hclose⟩
      simp only [hclose.found, hclose.whole, ok_bind, dif_pos hclose.moves]
      rw [hclose.behind, wholeGroup_append hgroup]
      rfl

theorem queryFrom_append (source : SourceName) (front rest : List Token) (parts : List Node) :
    queryFrom source (front ++ rest) parts front.length =
      .ok (Media.queryParts? source parts rest) := by
  fun_induction Media.queryParts? source parts rest generalizing front with
  | case1 parts => rw [queryFrom, dif_neg (by simp), pure_eq_ok]
  | case2 parts token rest hkind ih =>
      rw [queryFrom, dif_pos (by simp), tokenAt_append, ok_bind]
      simp only [hkind]
      simpa only [List.append_assoc, List.singleton_append, List.length_append,
        List.length_singleton] using ih (front ++ [token])
  | case3 parts token rest content hkind ih =>
      rw [queryFrom, dif_pos (by simp), tokenAt_append, ok_bind]
      simp only [hkind]
      simpa only [List.append_assoc, List.singleton_append, List.length_append,
        List.length_singleton] using ih (front ++ [token])
  | case4 parts token rest name hkind ih =>
      rw [queryFrom, dif_pos (by simp), tokenAt_append, ok_bind]
      simp only [hkind]
      simpa only [List.append_assoc, List.singleton_append, List.length_append,
        List.length_singleton] using ih (front ++ [token])
  | case5 parts token rest hkind hgroup =>
      rw [queryFrom_paren hkind, hgroup]
  | case6 parts token rest hkind content closer after hgroup hfeature =>
      rw [queryFrom_paren hkind, hgroup]
      simp only [readFeature_wholeGroup, hfeature]
      rfl
  | case7 parts token rest hkind content closer after hgroup construct hfeature node ih =>
      rw [queryFrom_paren hkind, hgroup]
      simp only [readFeature_wholeGroup, hfeature]
      exact ih (front ++ wholeGroup token ⟨content, closer, after⟩)
  | case8 parts token rest hwhitespace hcomment hname hparen =>
      rw [queryFrom, dif_pos (by simp), tokenAt_append, ok_bind]
      split
      · exact absurd ‹_› hwhitespace
      · exact absurd ‹_› (hcomment _)
      · exact absurd ‹_› (hname _)
      · exact absurd ‹_› hparen
      · rfl

theorem query_eq {run : List Token} (hne : run ≠ []) :
    query source run = .ok (Media.query? source run) := by
  have h := queryFrom_append source [] run []
  rw [List.nil_append, List.length_nil] at h
  rw [query, h, Media.query?, if_neg (by simpa using hne)]
  rfl

@[simp] theorem queryList_eq (source : SourceName) (run : List Token) :
    queryList source run = .ok (Media.queryList? source run) := by
  have hparts : forall parts, readParts (query source) parts =
      .ok (parts.mapM fun part => Media.query? source (Run.trim part)) := by
    intro parts
    refine readParts_eq ?_ fun part _ hne => query_eq hne
    intro part _ hnil
    rw [hnil]
    rfl
  rw [queryList, splitTopLevel_eq, ok_bind, hparts]
  rfl

@[simp] theorem preludeNodes_eq (source : SourceName) (name : String) (run : List Token) :
    preludeNodes source name run = .ok (Media.preludeNodes source name run) := by
  unfold preludeNodes Media.preludeNodes
  cases Media.takesQueries name with
  | false =>
      simp only [Bool.false_eq_true, if_false, components_eq, ok_bind]
      rfl
  | true =>
      simp only [if_true, queryList_eq, components_eq, ok_bind]
      cases Media.queryList? source run <;> rfl

@[simp] theorem atRulePrelude_eq (source : SourceName) (name : String) (run : List Token) :
    atRulePrelude source name run = .ok (Media.prelude? source name run) := by
  rw [atRulePrelude, trim_eq, ok_bind, Media.prelude?]
  split <;> simp

end Cursor
end Stylesheet
