import Stylesheet.Node.OverRun
import Stylesheet.Proofs.Token.Lossless
import Stylesheet.Proofs.Token.Seamless

/-!
# Ranges of runs

The tokens of a source stand one directly behind another, so a run of them covers the piece of
the source between the texts before and behind it.  Main statement: the location of a run is
that piece, counted from the start of the source.
-/

namespace Stylesheet

namespace Run

/-- The characters that a run covers. -/
def chars (run : List Token) : List Char :=
  (text run).toList

@[simp] theorem chars_nil : chars [] = [] :=
  rfl

theorem chars_cons (token : Token) (run : List Token) :
    chars (token :: run) = token.text.toList ++ chars run := by
  unfold chars
  rw [text_cons, String.toList_append]

@[simp] theorem chars_append (front back : List Token) :
    chars (front ++ back) = chars front ++ chars back := by
  unfold chars
  rw [text_append, String.toList_append]

theorem chars_singleton (token : Token) : chars [token] = token.text.toList := by
  rw [chars_cons, chars_nil, List.append_nil]

/-! ## Adjoining tokens -/

/-- The tokens of a run stand one directly behind another, the first at a position. -/
def Adjoins : Position -> List Token -> Prop
  | _, [] => True
  | position, token :: rest => token.start = position ∧ Adjoins token.stop rest

theorem Adjoins.append_iff {position : Position} {front back : List Token} :
    Adjoins position (front ++ back) <->
      Adjoins position front ∧ Adjoins (position.after (chars front)) back := by
  induction front generalizing position with
  | nil => exact ⟨fun h => ⟨trivial, h⟩, And.right⟩
  | cons token rest ih =>
      have hstop : token.start = position ->
          token.stop.after (chars rest) = position.after (chars (token :: rest)) := by
        rintro rfl
        rw [chars_cons, Position.after_append]
        rfl
      rw [List.cons_append, Adjoins, Adjoins, ih]
      constructor
      · rintro ⟨hstart, hrest, hback⟩
        rw [hstop hstart] at hback
        exact ⟨⟨hstart, hrest⟩, hback⟩
      · rintro ⟨⟨hstart, hrest⟩, hback⟩
        rw [← hstop hstart] at hback
        exact ⟨hstart, hrest, hback⟩

/-- The position behind a run that begins a source. -/
def positionBehind (front : List Token) : Position :=
  Position.start.after (chars front)

theorem offset_positionBehind (front : List Token) :
    (positionBehind front).offset = (chars front).length := by
  unfold positionBehind
  rw [Position.offset_after]
  exact Nat.zero_add _

/-- A token among adjoining tokens covers the characters behind those before it. -/
theorem Adjoins.token {front back : List Token} {token : Token}
    (h : Adjoins .start (front ++ token :: back)) :
    token.start = positionBehind front ∧ token.stop = positionBehind (front ++ [token]) := by
  rcases (append_iff.mp h).right with ⟨hstart, _⟩
  constructor
  · exact hstart
  · unfold positionBehind Token.stop
    rw [chars_append, chars_singleton, Position.after_append, hstart]

theorem Adjoins.offsets {front back : List Token} {token : Token}
    (h : Adjoins .start (front ++ token :: back)) :
    token.start.offset = (chars front).length ∧
      token.stop.offset = (chars front).length + token.text.toList.length := by
  rcases h.token with ⟨hstart, hstop⟩
  rw [hstart, hstop, offset_positionBehind, offset_positionBehind, chars_append,
    chars_singleton, List.length_append]
  exact ⟨rfl, rfl⟩

/-- The tokens of a run among adjoining tokens cover characters between its ends. -/
theorem Adjoins.offsets_of_mem {before run behind : List Token} {token : Token}
    (h : Adjoins .start (before ++ run ++ behind)) (hmem : token ∈ run) :
    (chars before).length <= token.start.offset ∧
      token.stop.offset = token.start.offset + token.text.toList.length ∧
        token.stop.offset <= (chars (before ++ run)).length := by
  rcases List.append_of_mem hmem with ⟨front, back, rfl⟩
  have hat : Adjoins .start ((before ++ front) ++ token :: (back ++ behind)) := by
    simpa only [List.append_assoc, List.cons_append] using h
  rcases hat.offsets with ⟨hstart, hstop⟩
  rw [hstart, hstop]
  simp only [chars_append, chars_cons, List.length_append, true_and]
  omega

end Run

namespace Token

open Run

namespace Scan

variable {position : Position} {text : List Char} {tokens : List Token}

theorem adjoins (h : Scan position text tokens) : Adjoins position tokens := by
  induction h with
  | done position => exact ⟨rfl, trivial⟩
  | step hread hscan ih =>
      constructor
      · rfl
      · rw [stop, String.toList_ofList]
        exact ih

theorem chars_eq (h : Scan position text tokens) : chars tokens = text := by
  induction h with
  | done position => rfl
  | step hread hscan ih =>
      rw [chars_cons, ih, String.toList_ofList]
      exact Lexeme.read_append hread

end Scan

end Token

/-! ## Locations -/

namespace Location

open Run

theorem ofRun_of_ends {source : SourceName} {run : List Token} {first last : Token}
    (hfirst : run.head? = some first) (hlast : run.getLast? = some last) :
    ofRun source run = between source first.start last.stop := by
  unfold ofRun
  rw [hfirst, hlast]

/-- The location of a run that begins and ends with given tokens. -/
theorem ofRun_between (source : SourceName) (first last : Token) (run : List Token) :
    ofRun source (first :: run ++ [last]) = between source first.start last.stop := by
  apply ofRun_of_ends
  · rfl
  · exact List.getLast?_concat

/-- A run among adjoining tokens covers the piece of the source behind the run before it. -/
theorem ofRun_eq {name : String} {before run behind : List Token}
    (h : Adjoins .start (before ++ run ++ behind)) (hne : run ≠ []) :
    ofRun (some name) run =
      some ⟨name, positionBehind before, positionBehind (before ++ run)⟩ := by
  rcases List.exists_cons_of_ne_nil hne with ⟨first, rest, hfirst⟩
  rcases List.eq_nil_or_concat run with hnil | ⟨front, last, hlast⟩
  · exact absurd hnil hne
  rw [List.concat_eq_append] at hlast
  have hstart : first.start = positionBehind before := by
    rw [hfirst, List.append_assoc, List.cons_append] at h
    exact h.token.left
  have hstop : last.stop = positionBehind (before ++ run) := by
    rw [hlast, ← List.append_assoc, List.append_assoc _ [last], List.singleton_append] at h
    rw [h.token.right, hlast, List.append_assoc]
  have hhead : run.head? = some first := by
    rw [hfirst]
    rfl
  have hend : run.getLast? = some last := by
    rw [hlast]
    exact List.getLast?_concat
  rw [ofRun_of_ends hhead hend, hstart, hstop]
  rfl

theorem ofRun_eq_none_iff {name : String} {run : List Token} :
    ofRun (some name) run = none <-> run = [] := by
  constructor
  · intro hnone
    cases run with
    | nil => rfl
    | cons token rest =>
        unfold ofRun at hnone
        rw [List.head?_cons, List.getLast?_cons] at hnone
        cases hnone
  · rintro rfl
    rfl

/-- A location that is known is the one of a run with tokens in it. -/
theorem ne_nil_of_ofRun_eq_some {source : SourceName} {run : List Token} {location : Location}
    (h : ofRun source run = some location) : run ≠ [] := by
  rintro rfl
  cases h

end Location

end Stylesheet
