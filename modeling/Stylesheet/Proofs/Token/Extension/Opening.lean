import Stylesheet.Proofs.Token.Extension.Lexeme

/-!
# Openings and addresses in front of another text

The opening of a function and an unquoted address both end with a parenthesis, so that hardly
anything behind them matters.
-/

namespace Stylesheet

open Character

theorem map_toLower_of_sameWord {name : List Char}
    (h : sameWord (String.ofList name) "url" = true) :
    name.map Char.toLower = ['u', 'r', 'l'] := by
  rw [sameWord_iff, String.toList_ofList] at h
  exact h.trans (by decide)

/-- A word that is spelled `url` begins with that letter in either case. -/
theorem exists_cons_of_sameWord {name : List Char}
    (h : sameWord (String.ofList name) "url" = true) :
    exists c rest, name = c :: rest ∧ (c = 'u' ∨ c = 'U') := by
  have hlist := map_toLower_of_sameWord h
  cases name with
  | nil => cases hlist
  | cons c rest =>
      refine ⟨c, rest, rfl, ?_⟩
      have hc : c.toLower = 'u' := (List.cons.inj hlist).1
      unfold Char.toLower at hc
      split at hc
      · right
        have hval : c.val + ('a'.val - 'A'.val) = 'u'.val := congrArg Char.val hc
        have hupper : 'u'.val - ('a'.val - 'A'.val) = 'U'.val := by decide
        apply Char.ext
        rw [← hupper, ← hval, UInt32.add_sub_cancel]
      · exact Or.inl hc

namespace Lexeme

variable {c : Char} {body text other rest : List Char} {lexeme : Lexeme}

/-- Identifiers, openings and addresses are read where a name begins. -/
theorem named_of_read (h : read c rest = .ok lexeme) (hnamed : lexeme.kind.isNamed = true) :
    branch c rest = .named ∧ named (c :: rest) = .ok lexeme := by
  rw [read_eq_branch] at h
  cases hbranch : branch c rest with
  | named =>
      rw [hbranch] at h
      exact ⟨rfl, h⟩
  | numeric =>
      rw [hbranch] at h
      cases h
      have hnumeric := isNumeric_numeric (c :: rest)
      cases hkind : (numeric (c :: rest)).kind <;> rw [hkind] at hnumeric hnamed <;>
        first
          | exact absurd hnumeric Bool.false_ne_true
          | exact absurd hnamed Bool.false_ne_true
  | punctuation kind =>
      have hkind := isPunctuation_of_punctuation? (punctuation?_of_branch hbranch)
      rw [hbranch] at h
      cases h
      change kind.isNamed = true at hnamed
      cases kind <;> first
        | exact absurd hkind Bool.false_ne_true
        | exact absurd hnamed Bool.false_ne_true
  | comment | string =>
      rw [hbranch, Branch.read] at h
      split at h <;> cases h
      cases hnamed
  | _ =>
      rw [hbranch] at h
      cases h
      cases hnamed

theorem isEdge_paren : IsEdge '(' := by
  constructor <;> decide

theorem resembles_paren (text other : List Char) : Resembles ('(' :: text) ('(' :: other) := by
  have hstarts : forall text, StartsEdge ('(' :: text) := by
    intro text b hb
    cases hb
    exact isEdge_paren
  exact ⟨hstarts text, hstarts other, rfl, fun _ => rfl⟩

theorem branch_paren {front : List Char} (text other : List Char) :
    branch c (front ++ '(' :: other) = branch c (front ++ '(' :: text) := by
  apply branch_of_resembles (resembles_paren text other)
  · rintro - -
    simp
  · rintro - -
    exact ⟨List.cons_ne_nil _ _, List.cons_ne_nil _ _⟩
  · rintro -
    exact ⟨List.cons_ne_nil _ _, List.cons_ne_nil _ _⟩

/-- The opening of a function is read whatever follows it, but for the quote of an address. -/
theorem read_function {name : String}
    (h : read c (body ++ text) = .ok ⟨.function name, c :: body, text⟩)
    (hopens : Opens (.function name) other) :
    read c (body ++ other) = .ok ⟨.function name, c :: body, other⟩ := by
  rcases named_of_read h rfl with ⟨hbranch, hnamed⟩
  generalize hlexeme : Lexeme.mk (.function name) (c :: body) text = lexeme at hnamed
  cases names_of_named hnamed with
  | ident => cases hlexeme
  | url => cases hlexeme
  | @function first arguments hsplit hquoted =>
      rw [Lexeme.mk.injEq, TokenKind.function.injEq] at hlexeme
      obtain ⟨rfl, hbody, rfl⟩ := hlexeme
      cases first with
      | nil =>
          obtain rfl := (List.cons.inj hbody).1
          cases hbranch
      | cons d front =>
          obtain ⟨rfl, rfl⟩ := List.cons.inj hbody
          have hlong : forall more, front ++ ['('] ++ more = front ++ '(' :: more :=
            fun more => List.append_assoc front ['('] more
          change branch c (front ++ ['('] ++ text) = .named at hbranch
          change Name.split (c :: (front ++ ['('] ++ text)) = _ at hsplit
          change read c (front ++ ['('] ++ other) = _
          rw [hlong] at hbranch hsplit ⊢
          have hends : Name.Ends (c :: front) ('(' :: other) := by
            intro b hb hspace
            cases hb
            cases hspace
          have hsplit' : Name.split (c :: front ++ [] ++ '(' :: other) =
              (c :: front, [] ++ '(' :: other) := by
            apply Name.split_of_resembles _ (resembles_paren text other) _ fun _ => hends
            · rw [List.append_nil]
              exact hsplit
            · rintro -
              exact List.cons_ne_nil _ _
          rw [List.append_nil] at hsplit'
          rw [read_eq_branch, branch_paren text other, hbranch, Branch.read]
          exact named_of_names (.function hsplit' (hopens _ rfl))

theorem split_url (text : List Char) :
    Name.split ('u' :: 'r' :: 'l' :: '(' :: text) = (['u', 'r', 'l'], '(' :: text) := by
  have hword : Name.split ['u', 'r', 'l'] = (['u', 'r', 'l'], []) := by decide +kernel
  refine Name.split_append_edge ?_ hword (by decide)
  intro b hb
  cases hb
  exact ⟨by decide, by decide, by decide⟩

theorem read_u_eq_named (text : List Char) :
    read 'u' ('r' :: 'l' :: '(' :: text) = named ('u' :: 'r' :: 'l' :: '(' :: text) :=
  rfl

/-- The opening of a quoted address is read in front of the quote. -/
theorem read_url (h : startsQuotedAddress text = true) :
    read 'u' ('r' :: 'l' :: '(' :: text) =
      .ok ⟨.function "url", ['u', 'r', 'l', '('], text⟩ := by
  rw [read_u_eq_named]
  exact named_of_names (.function (split_url text) fun _ => h)

/-- An operator is read as a character of its own, but for a slash in front of an asterisk. -/
theorem read_operator (hc : c = '/' ∨ c ∈ ['*', '=', '~', '>', '|', '^', '$'])
    (hslash : c = '/' -> text.head? ≠ some '*') :
    read c text = .ok ⟨.delim c, [c], text⟩ := by
  simp only [List.mem_cons, List.not_mem_nil, or_false] at hc
  have hident : Name.startsIdent (c :: text) = false := by
    rcases hc with rfl | rfl | rfl | rfl | rfl | rfl | rfl | rfl
    all_goals
      rw [Name.startsIdent_cons (by decide), Name.startsEscape_cons (by decide)]
      rfl
  have hcomment : (c == '/' && ['*'].isPrefixOf text) = false := by
    by_cases heq : c = '/'
    · rw [isPrefixOf_singleton (hslash heq), Bool.and_false]
    · rw [beq_false_of_ne heq, Bool.false_and]
  unfold read
  rw [hcomment, hident]
  rcases hc with rfl | rfl | rfl | rfl | rfl | rfl | rfl | rfl <;> rfl

/-! ## Addresses -/

/-- Whether the content of an address ends with a backslash that escapes nothing. -/
def endsInBackslash : List Char -> Bool
  | [] => false
  | ['\\'] => true
  | '\\' :: _ :: rest => endsInBackslash rest
  | _ :: rest => endsInBackslash rest

theorem endsInBackslash_cons (hc : c ≠ '\\') (rest : List Char) :
    endsInBackslash (c :: rest) = endsInBackslash rest := by
  rw [endsInBackslash]
  · rintro rfl
    exact absurd rfl hc
  · rintro d more rfl
    exact absurd rfl hc

theorem content_of_lineFeed {address : Address} (h : splitAddress ('\n' :: rest) = .ok address) :
    address.content = [] := by
  rw [splitAddress, if_neg (by decide), if_pos (by decide)] at h
  · split at h
    · cases h
      rfl
    · cases h
  · intro d more heq
    cases heq

theorem splitAddress_paren (more : List Char) :
    splitAddress (')' :: more) = .ok ⟨[], [], more⟩ := by
  rw [splitAddress, if_pos (by decide)]
  intro d rest heq
  cases heq

/-- An address needs no spaces before its parenthesis, unless a backslash would escape it. -/
theorem splitAddress_tight {address : Address} (h : splitAddress text = .ok address)
    (hend : endsInBackslash address.content = false) (more : List Char) :
    splitAddress (address.content ++ ')' :: more) = .ok ⟨address.content, [], more⟩ := by
  fun_induction splitAddress text generalizing address with
  | case1 => cases h
  | case2 d rest hd ih =>
      rcases extend_eq_ok h with ⟨inner, hinner, rfl⟩
      rw [beq_iff_eq] at hd
      rw [hd] at hinner
      rw [content_of_lineFeed hinner] at hend
      cases hend
  | case3 d rest hd ih =>
      rcases extend_eq_ok h with ⟨inner, hinner, rfl⟩
      have hagain := ih hinner hend
      simp only [List.cons_append, List.nil_append]
      rw [splitAddress, if_neg hd, hagain]
      rfl
  | case4 c rest hescape hc =>
      cases h
      exact splitAddress_paren more
  | case5 c rest hescape hc hspace after heq =>
      cases h
      exact splitAddress_paren more
  | case6 => cases h
  | case7 c rest hescape hc hspace ih =>
      rcases extend_eq_ok h with ⟨inner, hinner, rfl⟩
      have hbackslash : c ≠ '\\' := by
        rintro rfl
        cases rest with
        | nil => cases hinner
        | cons d rest => exact hescape d rest rfl rfl
      have hagain := ih hinner (endsInBackslash_cons hbackslash _ ▸ hend)
      simp only [List.cons_append, List.nil_append]
      rw [splitAddress, if_neg hc, if_neg hspace, hagain]
      · rfl
      · rintro d more rfl
        exact absurd rfl hbackslash

/-- What is known of the content of an address that has been read. -/
theorem splitAddress_of_read {content : String} {after : List Char}
    (h : read c rest = .ok ⟨.url content, c :: body, after⟩) :
    exists text address, splitAddress text = .ok address ∧
      content = String.ofList address.content ∧
      forall b, b ∈ address.content.head? -> isSpace b = false ∧ isQuote b = false := by
  rcases named_of_read h rfl with ⟨_, hnamed⟩
  generalize hlexeme : Lexeme.mk (.url content) (c :: body) after = lexeme at hnamed
  cases names_of_named hnamed with
  | ident => cases hlexeme
  | function => cases hlexeme
  | @url name arguments address hsplit hword hquoted haddress =>
      have hcontent := TokenKind.url.inj (congrArg Lexeme.kind hlexeme)
      refine ⟨_, address, haddress, hcontent, ?_⟩
      intro b hb
      rcases List.head?_eq_some_iff.mp hb with ⟨more, hmore⟩
      have happend := splitAddress_append haddress
      have hhead := List.head?_dropWhile_not isSpace arguments
      rw [startsQuotedAddress] at hquoted
      rw [hmore, List.cons_append, List.cons_append] at happend
      rw [← happend] at hhead hquoted
      exact ⟨by simpa using hhead, hquoted⟩

/-- An address is read between its parentheses as it is. -/
theorem read_address {content : List Char}
    (hhead : forall b, b ∈ content.head? -> isSpace b = false ∧ isQuote b = false)
    (hcontent : splitAddress (content ++ ')' :: text) = .ok ⟨content, [], text⟩) :
    read 'u' ('r' :: 'l' :: '(' :: (content ++ ')' :: text)) =
      .ok ⟨.url (String.ofList content), 'u' :: 'r' :: 'l' :: '(' :: (content ++ [')']), text⟩ := by
  have hfirst : forall b, b ∈ (content ++ ')' :: text).head? ->
      isSpace b = false ∧ isQuote b = false := by
    intro b hb
    cases content with
    | nil =>
        cases hb
        exact ⟨by decide, by decide⟩
    | cons d content => exact hhead b hb
  have hdrop : (content ++ ')' :: text).dropWhile isSpace = content ++ ')' :: text ∧
      (content ++ ')' :: text).takeWhile isSpace = [] := by
    cases hlong : content ++ ')' :: text with
    | nil => exact ⟨rfl, rfl⟩
    | cons d more =>
        rw [hlong] at hfirst
        simp [(hfirst d rfl).1]
  have hquoted : startsQuotedAddress (content ++ ')' :: text) = false := by
    rw [startsQuotedAddress, hdrop.1]
    split
    · rename_i b more heq
      exact (hfirst b (by rw [heq]; rfl)).2
    · rfl
  have hword : sameWord (String.ofList ['u', 'r', 'l']) "url" = true := by
    have hlist : String.ofList ['u', 'r', 'l'] = "url" := rfl
    rw [hlist]
    exact beq_self_eq_true _
  rw [← hdrop.1] at hcontent
  have hnames := Names.url (split_url _) hword hquoted hcontent
  rw [hdrop.2, List.append_nil] at hnames
  rw [read_u_eq_named]
  exact (named_of_names hnames).trans (by simp)

end Lexeme
end Stylesheet
