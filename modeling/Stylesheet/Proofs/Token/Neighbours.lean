import Stylesheet.Proofs.Token.Extension.Opening
import Stylesheet.Proofs.Token.Lossless
import Stylesheet.Proofs.Token.Seamless

/-!
# Tokens and what stands behind them

A run is seamless when each of its tokens is read in front of the text of those behind it.  The
text behind a token may be exchanged for one near it: one that goes on in the same way up to
a character that no token looks beyond.
-/

namespace Stylesheet

open Character

namespace Token

/-- A token is read in front of a text. -/
def ReadsBefore (token : Token) (text : List Char) : Prop :=
  exists c body, token.text.toList = c :: body ∧
    Lexeme.read c (body ++ text) = .ok ⟨token.kind, c :: body, text⟩

variable {token : Token} {text other : List Char}

theorem readsBefore_of_read {c : Char} {rest : List Char} {lexeme : Lexeme}
    (h : Lexeme.read c rest = .ok lexeme) (start : Position) :
    ReadsBefore ⟨lexeme.kind, String.ofList lexeme.text, start⟩ lexeme.rest := by
  have happend := Lexeme.read_append h
  rcases List.exists_cons_of_ne_nil (Lexeme.read_text_ne_nil h) with ⟨d, body, htext⟩
  rw [htext, List.cons_append, List.cons.injEq] at happend
  obtain ⟨rfl, rfl⟩ := happend
  refine ⟨d, body, ?_, ?_⟩
  · rw [String.toList_ofList, htext]
  · rw [← htext]
    exact h

namespace ReadsBefore

theorem spells (h : token.ReadsBefore text) : token.kind.Spells token.text.toList := by
  rcases h with ⟨c, body, htext, hread⟩
  rw [htext]
  exact Lexeme.spells_of_read hread

theorem text_eq (h : token.ReadsBefore text) {spelling : String}
    (hspelling : token.kind.spelling? = some spelling) : token.text = spelling := by
  rcases h with ⟨c, body, htext, hread⟩
  rw [← Lexeme.isSpelled_of_read hread spelling hspelling, ← htext, String.ofList_toList]

/-- Only whitespace begins with a space. -/
theorem not_isSpace (h : token.ReadsBefore text) (htrivia : token.isTrivia = false) {c : Char}
    {body : List Char} (htext : token.text.toList = c :: body) : isSpace c = false := by
  rcases h with ⟨d, body', htext', hread⟩
  rw [htext'] at htext
  obtain ⟨rfl, rfl⟩ := List.cons.inj htext
  rw [← Bool.not_eq_true]
  intro hspace
  rw [Lexeme.read, if_pos hspace, Except.ok.injEq, Lexeme.mk.injEq] at hread
  rw [isTrivia, ← hread.1] at htrivia
  cases htrivia

/-- A token is read alone, unless it needs a quote behind it. -/
theorem short (h : token.ReadsBefore text) (hopens : Lexeme.Opens token.kind []) :
    token.ReadsBefore [] := by
  rcases h with ⟨c, body, htext, hread⟩
  rcases Lexeme.read_of_append hread (List.nil_append text).symm hopens with
    ⟨body', hbody, hshort⟩
  cases hbody
  exact ⟨c, body, htext, hshort⟩

/-- A token that ends in a backslash that escapes nothing is that backslash. -/
theorem ne_backslash (h : token.ReadsBefore text) (hbackslash : token.kind ≠ .delim '\\')
    (hfunction : forall name, token.kind ≠ .function name) :
    token.text.toList ≠ ['\\'] ∧ token.text.toList ≠ ['-', '\\'] := by
  have hopens : Lexeme.Opens token.kind [] := fun name hkind => absurd hkind (hfunction name)
  rcases h.short hopens with ⟨c, body, htext, hshort⟩
  rw [htext, List.append_nil] at *
  constructor
  · intro heq
    obtain ⟨rfl, rfl⟩ := List.cons.inj heq
    have hdelim : Lexeme.read '\\' [] = .ok ⟨.delim '\\', ['\\'], []⟩ := by decide
    rw [hdelim, Except.ok.injEq, Lexeme.mk.injEq] at hshort
    exact hbackslash hshort.1.symm
  · intro heq
    obtain ⟨rfl, rfl⟩ := List.cons.inj heq
    have hdelim : Lexeme.read '-' ['\\'] = .ok ⟨.delim '-', ['-'], ['\\']⟩ := by decide
    rw [hdelim, Except.ok.injEq, Lexeme.mk.injEq] at hshort
    cases hshort.2.2

end ReadsBefore

/-- Every token of a source but its end is read in front of what follows it there. -/
theorem Scan.exists_readsBefore {position : Position} {source : List Char} {tokens : List Token}
    (h : Scan position source tokens) (hmem : token ∈ tokens) (hkind : token.kind ≠ .eof) :
    exists front behind, front ++ token.text.toList ++ behind = source ∧
      token.start = position.after front ∧ token.ReadsBefore behind := by
  induction h with
  | done position =>
      rcases List.mem_singleton.mp hmem with rfl
      exact absurd rfl hkind
  | @step position c rest lexeme tokens hread hscan ih =>
      have happend := Lexeme.read_append hread
      rcases List.mem_cons.mp hmem with rfl | hmem
      · refine ⟨[], lexeme.rest, ?_, rfl, readsBefore_of_read hread position⟩
        rw [String.toList_ofList]
        exact happend
      · rcases ih hmem with ⟨front, behind, htext, hstart, hbefore⟩
        refine ⟨lexeme.text ++ front, behind, ?_, ?_, hbefore⟩
        · rw [← happend, ← htext]
          simp only [List.append_assoc]
        · rw [hstart, Position.after_append]

end Token

namespace Run

open Token

/-- Each token of a run is read where it stands, with a text behind the run. -/
def ReadsIn (behind : List Char) : List Token -> Prop
  | [] => True
  | token :: rest => token.ReadsBefore ((text rest).toList ++ behind) ∧ ReadsIn behind rest

theorem ReadsIn.exists_readsBefore {behind : List Char} {run : List Token}
    (h : ReadsIn behind run) : forall token, token ∈ run -> exists text, token.ReadsBefore text := by
  induction run with
  | nil => simp
  | cons first rest ih =>
      intro token htoken
      rcases List.mem_cons.mp htoken with rfl | htoken
      · exact ⟨_, h.1⟩
      · exact ih h.2 token htoken

theorem readsIn_append {behind : List Char} {front back : List Token} :
    ReadsIn behind (front ++ back) <->
      ReadsIn ((text back).toList ++ behind) front ∧ ReadsIn behind back := by
  induction front with
  | nil => exact ⟨fun h => ⟨trivial, h⟩, And.right⟩
  | cons token front ih =>
      rw [List.cons_append, ReadsIn, ReadsIn, ih, text_append, String.toList_append,
        List.append_assoc, and_assoc]

theorem readsIn_of_lexes {source : List Char} {run : List Token} (h : Lexes source (run.map bare)) :
    ReadsIn [] run := by
  induction run generalizing source with
  | nil => trivial
  | cons token rest ih =>
      rw [List.map_cons] at h
      generalize hfirst : token.bare = first at h
      generalize hlater : rest.map bare = later at h
      cases h with
      | cons hread hrest =>
          subst hlater
          refine ⟨?_, ih hrest⟩
          have hfront := readsBefore_of_read hread .start
          rw [← hfirst, ← text_of_lexes hrest, text_map_bare] at hfront
          rw [List.append_nil]
          exact hfront

theorem seamless_of_readsIn {run : List Token} (h : ReadsIn [] run)
    (hstart : forall token, token ∈ run -> token.start = .start) : Seamless run := by
  induction run with
  | nil => exact Seamless.nil
  | cons token rest ih =>
      rcases h with ⟨⟨c, body, htext, hread⟩, hrest⟩
      rw [List.append_nil] at hread
      have hlater := ih hrest fun other hmem => hstart other (List.mem_cons_of_mem _ hmem)
      have hlexes := Lexes.cons hread hlater
      have htoken : (⟨token.kind, String.ofList (c :: body), .start⟩ : Token) = token := by
        rw [← htext, String.ofList_toList, ← hstart token List.mem_cons_self]
      rw [htoken] at hlexes
      unfold Seamless
      rw [text_cons, String.toList_append, htext]
      exact hlexes

end Run

/-! ## Texts that are near one another -/

/--
A text goes on like another up to a place where no test tells what follows in the one from what
follows in the other.
-/
def Near (source target : List Char) : Prop :=
  exists keep text other, keep ++ text <+: source ∧ target = keep ++ other ∧
    Resembles text other ∧
      (keep = ['\\'] ∨ keep = ['-', '\\'] -> text ≠ [] ∧ other ≠ [])

namespace Near

variable {source target : List Char}

theorem of_resembles {text other : List Char} (h : Resembles text other) (htext : text <+: source) :
    Near source other := by
  refine ⟨[], text, other, htext, rfl, h, ?_⟩
  rintro (hnil | hnil) <;> cases hnil

theorem append {front : List Char} (h : Near source target) (hfront : front ≠ [])
    (hbackslash : front ≠ ['\\']) (hhyphen : front ≠ ['-', '\\']) :
    Near (front ++ source) (front ++ target) := by
  rcases h with ⟨keep, text, other, htext, rfl, hresembles, hdangles⟩
  refine ⟨front ++ keep, text, other, ?_, (List.append_assoc _ _ _).symm, hresembles, ?_⟩
  · rw [List.append_assoc]
    exact (List.prefix_append_right_inj front).mpr htext
  · rintro (heq | heq)
    · rw [List.append_eq_singleton_iff] at heq
      rcases heq with ⟨hnil, _⟩ | ⟨hone, _⟩
      · exact absurd hnil hfront
      · exact absurd hone hbackslash
    · rw [List.append_eq_cons_iff] at heq
      rcases heq with ⟨hnil, _⟩ | ⟨more, hcons, hmore⟩
      · exact absurd hnil hfront
      · rw [eq_comm, List.append_eq_singleton_iff] at hmore
        rcases hmore with ⟨rfl, hkeep⟩ | ⟨rfl, _⟩
        · exact hdangles (Or.inl hkeep)
        · exact absurd hcons hhyphen

end Near

namespace Token

variable {token : Token} {source target : List Char}

/-- A token is read in front of a text that is near the one it was read in front of. -/
theorem ReadsBefore.near (h : token.ReadsBefore source) (hnear : Near source target)
    (hapart : forall text, Apart token.kind text target)
    (hfunction : forall name, token.kind ≠ .function name)
    (haddress : forall content, token.kind ≠ .url content) : token.ReadsBefore target := by
  rcases h with ⟨c, body, htext, hread⟩
  rcases hnear with ⟨keep, text, other, ⟨cut, hcut⟩, rfl, hresembles, hdangles⟩
  have hopens : Lexeme.Opens token.kind (keep ++ text) :=
    fun name hkind => absurd hkind (hfunction name)
  rcases Lexeme.read_of_append hread hcut.symm hopens with ⟨body', hbody, hshort⟩
  cases hbody
  rw [← List.append_assoc] at hshort
  have hportable : Lexeme.Portable c body keep text other token.kind := by
    refine ⟨hshort, hresembles, hdangles, ?_, hfunction, haddress⟩
    rintro rfl
    exact hapart text
  refine ⟨c, body, htext, ?_⟩
  rw [← List.append_assoc]
  exact hportable.read_other

end Token

end Stylesheet
