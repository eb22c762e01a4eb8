import Stylesheet.Proofs.Canonical.Words
import Stylesheet.Proofs.Reread.Trivia

/-!
# Canonical items

Items are read back from their tokens, the tokens are read back from their text, and their
whitespace is normal: an item is no whitespace and no operator, so that each separator stays.
-/

namespace Stylesheet
namespace Canonical

open Character Node Token Run Value

/-! ## The tokens of items -/

theorem Separator.written_node (separator : Separator) :
    separator.node.written = [if separator matches .space then blank else ofKind .comma] := by
  cases separator <;> rfl

theorem Item.isWhiteSpace_node (item : Item) : item.node.isWhiteSpace = false := by
  cases item <;> rfl

theorem Item.isTight_node (item : Item) : isTight item.node = false := by
  cases item <;> rfl

theorem Separator.isComponent (separator : Separator) : IsComponent separator.node := by
  cases separator with
  | space => exact @isComponent_single blank _ rfl
  | comma => exact @isComponent_single (ofKind .comma) _ rfl

/-! ## Normal whitespace -/

/-- The first item of a row. -/
def Row.first : Row -> Item
  | .last item => item
  | .cons item _ _ => item

/-- Every separator of a row stays, and so does whitespace in front of the row. -/
theorem Row.normalizeAfter_nodes : forall (row : Row) (before space : Option Node),
    normalizeAfter before space row.nodes = gap before space row.first.node ++ row.nodes
  | .last item, before, space => by
      rw [Row.nodes, normalizeAfter_node item.isWhiteSpace_node]
      rfl
  | .cons item separator rest, before, space => by
      rw [Row.nodes, normalizeAfter_node item.isWhiteSpace_node]
      refine congrArg (fun nodes => gap before space item.node ++ item.node :: nodes) ?_
      cases separator with
      | space =>
          have hgap : gap (some item.node) (some Separator.space.node) rest.first.node =
              [Separator.space.node] := by
            simp only [gap, item.isTight_node, rest.first.isTight_node, Bool.or_false,
              if_neg Bool.false_ne_true]
          rw [normalizeAfter_whiteSpace rfl, Row.normalizeAfter_nodes rest, Option.orElse, hgap]
          rfl
      | comma =>
          rw [normalizeAfter_node rfl, gap_none, Row.normalizeAfter_nodes rest, gap_none]
          rfl

theorem Items.normalize_nodes (items : Items) : normalize items.nodes = items.nodes := by
  cases items with
  | empty => rfl
  | row row => exact row.normalizeAfter_nodes none none

/-! ## Reading back from tokens -/

mutual

theorem Item.isComponent : forall item : Item, IsComponent item.node
  | .identifier word => @isComponent_single (ofKind (.ident word.text)) _ rfl
  | .number digits => @isComponent_single (ofKind (.number digits.text)) _ rfl
  | .percentage digits => @isComponent_single (ofKind (.percentage digits.text)) _ rfl
  | .dimension digits unit =>
      @isComponent_single (ofKind (.dimension digits.text unit.text)) _ rfl
  | .hash word => @isComponent_single (ofKind (.hash word.text)) _ rfl
  | .function name items => by
      have hgroup := @isComponent_group (ofKind (.function name.text)) _ rfl
        items.isComponent
      rw [items.normalize_nodes] at hgroup
      rw [Item.node]
      convert hgroup using 2
      simp [group, ofKind, name.notAddress]
  | .parentheses items => by
      have hgroup := @isComponent_group (ofKind .leftParen) _ rfl items.isComponent
      rw [items.normalize_nodes] at hgroup
      exact hgroup

theorem Items.isComponent : forall items : Items, forall node, node ∈ items.nodes ->
    IsComponent node
  | .empty => fun _ h => nomatch h
  | .row row => row.isComponent

theorem Row.isComponent : forall row : Row, forall node, node ∈ row.nodes -> IsComponent node
  | .last item => by
      intro node hnode
      rw [List.mem_singleton.mp hnode]
      exact item.isComponent
  | .cons item separator rest => by
      intro node hnode
      rcases List.mem_cons.mp hnode with rfl | hnode
      · exact item.isComponent
      · rcases List.mem_cons.mp hnode with rfl | hnode
        · exact separator.isComponent
        · exact rest.isComponent node hnode

end

theorem Items.isList (items : Items) : IsList items.nodes := by
  have hreads := components?_writtenAll items.isComponent
  rw [items.normalize_nodes] at hreads
  exact isList_of_components? hreads

/-! ## Reading back from text -/

section Runs

variable {token : Token} {run : List Token} {behind : List Char}

theorem toList_text_cons (token : Token) (rest : List Token) (behind : List Char) :
    (text (token :: rest)).toList ++ behind =
      token.text.toList ++ ((text rest).toList ++ behind) := by
  rw [text_cons, String.toList_append, List.append_assoc]

theorem readsIn_singleton (h : token.ReadsBefore behind) : ReadsIn behind [token] :=
  ⟨h, trivial⟩

/-- A run that begins with no trivia begins with no space. -/
theorem not_isSpace_of_begins (hreads : ReadsIn behind run) (hbegins : Begins run) :
    forall b, b ∈ ((text run).toList ++ behind).head? -> isSpace b = false := by
  rcases hbegins with ⟨token, rest, rfl, htrivia⟩
  rcases hreads.left with ⟨c, body, htext, hread⟩
  have hspace := hreads.left.not_isSpace htrivia htext
  rw [toList_text_cons, htext]
  intro b hb
  cases hb
  exact hspace

/-- A group in parentheses is read where its content is read in front of a parenthesis. -/
theorem readsIn_group {opener : Token} (hopener : forall text, opener.ReadsBefore text)
    (hcontent : ReadsIn (')' :: behind) run) :
    ReadsIn behind (opener :: run ++ [ofKind .rightParen]) := by
  refine ⟨hopener _, readsIn_append.mpr ⟨?_, readsIn_singleton ?_⟩⟩
  · exact hcontent
  · exact readsBefore_punctuation (c := ')') rfl behind

end Runs

theorem Separator.endsItem (separator : Separator) (rest : List Token) (behind : List Char) :
    EndsItem ((text (separator.node.written ++ rest)).toList ++ behind) := by
  rw [separator.written_node, List.singleton_append, toList_text_cons]
  cases separator with
  | space => exact endsItem_cons (b := ' ') (by decide) _
  | comma => exact endsItem_cons (b := ',') (by decide) _

/-- A separator is read in front of what is no whitespace. -/
theorem Separator.readsIn (separator : Separator) {behind : List Char}
    (h : forall b, b ∈ behind.head? -> isSpace b = false) :
    ReadsIn behind separator.node.written := by
  cases separator with
  | space => exact readsIn_singleton (readsBefore_blank h)
  | comma => exact readsIn_singleton (readsBefore_punctuation (c := ',') rfl behind)

theorem Row.begins_written (row : Row) : Begins (writtenAll row.nodes) := by
  cases row with
  | last item =>
      exact (item.isComponent.ends item.isWhiteSpace_node).left.append _
  | cons item separator rest =>
      exact (item.isComponent.ends item.isWhiteSpace_node).left.append _

theorem Row.ends_written (row : Row) : Ends (writtenAll row.nodes) := by
  have htrim := (Items.row row).isList.trim_eq
  change trim (writtenAll row.nodes) = writtenAll row.nodes at htrim
  have hne : trim (writtenAll row.nodes) ≠ [] := by
    rcases row.begins_written with ⟨token, rest, heq, -⟩
    rw [htrim, heq]
    exact List.cons_ne_nil _ _
  rw [← htrim]
  exact (begins_and_ends_of_trim_ne_nil hne).right

mutual

theorem Item.readsIn : forall (item : Item) {behind : List Char}, EndsItem behind ->
    ReadsIn behind item.node.written
  | .identifier word, _, h => readsIn_singleton (word.readsBefore_ident h.endsWord)
  | .number digits, _, h => readsIn_singleton (digits.readsBefore_number h)
  | .percentage digits, behind, _ => readsIn_singleton (digits.readsBefore_percentage behind)
  | .dimension digits unit, _, h => readsIn_singleton (digits.readsBefore_dimension unit h)
  | .hash word, _, h => readsIn_singleton (word.readsBefore_hash h.endsWord)
  | .function name items, behind, _ =>
      readsIn_group name.readsBefore (items.readsIn (endsItem_cons (by decide) behind))
  | .parentheses items, behind, _ =>
      readsIn_group (readsBefore_punctuation (c := '(') rfl)
        (items.readsIn (endsItem_cons (by decide) behind))

theorem Items.readsIn : forall (items : Items) {behind : List Char}, EndsItem behind ->
    ReadsIn behind (writtenAll items.nodes)
  | .empty, _, _ => trivial
  | .row row, _, h => row.readsIn h

/-- A row of items is read where its last item is. -/
theorem Row.readsIn : forall (row : Row) {behind : List Char}, EndsItem behind ->
    ReadsIn behind (writtenAll row.nodes)
  | .last item, behind, h => readsIn_append.mpr ⟨item.readsIn h, trivial⟩
  | .cons item separator rest, behind, h => by
      have hrest := rest.readsIn h
      have hsolid := not_isSpace_of_begins hrest rest.begins_written
      rw [Row.nodes, writtenAll, writtenAll, readsIn_append, readsIn_append]
      exact ⟨item.readsIn (separator.endsItem _ behind), separator.readsIn hsolid, hrest⟩

end

/-! ## No exclamation mark -/

theorem kind_ne_bang_group {opener : Token} {content : List Token}
    (hopener : opener.kind ≠ .delim '!')
    (hcontent : forall token, token ∈ content -> token.kind ≠ .delim '!') :
    forall token, token ∈ opener :: (content ++ [ofKind .rightParen]) ->
      token.kind ≠ .delim '!' := by
  intro token htoken
  rcases List.mem_cons.mp htoken with rfl | htoken
  · exact hopener
  · rcases List.mem_append.mp htoken with htoken | htoken
    · exact hcontent token htoken
    · rw [List.mem_singleton.mp htoken]
      exact TokenKind.noConfusion

mutual

theorem Item.kind_ne_bang : forall (item : Item), forall token, token ∈ item.node.written ->
    token.kind ≠ .delim '!'
  | .identifier _ | .number _ | .percentage _ | .dimension _ _ | .hash _ => by
      intro token htoken
      rw [List.mem_singleton.mp htoken]
      exact TokenKind.noConfusion
  | .function name items => kind_ne_bang_group TokenKind.noConfusion items.kind_ne_bang
  | .parentheses items => kind_ne_bang_group TokenKind.noConfusion items.kind_ne_bang

theorem Items.kind_ne_bang : forall (items : Items), forall token,
    token ∈ writtenAll items.nodes -> token.kind ≠ .delim '!'
  | .empty => fun _ h => nomatch h
  | .row row => row.kind_ne_bang

theorem Row.kind_ne_bang : forall (row : Row), forall token, token ∈ writtenAll row.nodes ->
    token.kind ≠ .delim '!'
  | .last item => by
      intro token htoken
      rw [Row.nodes, writtenAll, writtenAll, List.append_nil] at htoken
      exact item.kind_ne_bang token htoken
  | .cons item separator rest => by
      intro token htoken
      rw [Row.nodes, writtenAll, writtenAll, separator.written_node, List.mem_append,
        List.mem_append, List.mem_singleton] at htoken
      rcases htoken with htoken | rfl | htoken
      · exact item.kind_ne_bang token htoken
      · cases separator <;> exact TokenKind.noConfusion
      · exact rest.kind_ne_bang token htoken

end

end Canonical
end Stylesheet
