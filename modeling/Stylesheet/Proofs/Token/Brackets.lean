import Stylesheet.Proofs.Token.Run

/-!
# Runs put side by side

How the scanners of runs go on behind a run that they do not cut: a balanced run is passed as a
whole, inside and outside of groups.
-/

namespace Stylesheet
namespace Run

/-! ## Trimmed runs -/

/-- A run begins with a token that is not trivia. -/
def Begins (run : List Token) : Prop :=
  exists token rest, run = token :: rest ∧ token.isTrivia = false

/-- A run ends with a token that is not trivia. -/
def Ends (run : List Token) : Prop :=
  exists front token, run = front ++ [token] ∧ token.isTrivia = false

theorem Begins.append {front : List Token} (h : Begins front) (back : List Token) :
    Begins (front ++ back) := by
  rcases h with ⟨token, rest, rfl, htoken⟩
  exact ⟨token, rest ++ back, rfl, htoken⟩

theorem Ends.append {back : List Token} (h : Ends back) (front : List Token) :
    Ends (front ++ back) := by
  rcases h with ⟨rest, token, rfl, htoken⟩
  exact ⟨front ++ rest, token, (List.append_assoc _ _ _).symm, htoken⟩

theorem Ends.cons {back : List Token} (h : Ends back) (token : Token) : Ends (token :: back) :=
  h.append [token]

theorem begins_cons {token : Token} (h : token.isTrivia = false) (rest : List Token) :
    Begins (token :: rest) :=
  ⟨token, rest, rfl, h⟩

theorem ends_singleton {token : Token} (h : token.isTrivia = false) : Ends [token] :=
  ⟨[], token, rfl, h⟩

theorem trimStart_eq_self {run : List Token} (h : Begins run) : trimStart run = run := by
  rcases h with ⟨token, rest, rfl, htoken⟩
  exact trimStart_cons_of_not_trivia htoken rest

theorem Ends.begins_reverse {run : List Token} (h : Ends run) : Begins run.reverse := by
  rcases h with ⟨front, token, rfl, htoken⟩
  rw [List.reverse_append]
  exact begins_cons htoken front.reverse

theorem trim_eq_self {run : List Token} (hbegins : Begins run) (hends : Ends run) :
    trim run = run := by
  unfold trim
  rw [trimStart_eq_self hbegins, trimStart_eq_self hends.begins_reverse, List.reverse_reverse]

/-- A run without trivia has none at its ends. -/
theorem begins_and_ends_of_not_trivia {run : List Token} (hne : run ≠ [])
    (h : forall token, token ∈ run -> token.isTrivia = false) : Begins run ∧ Ends run := by
  constructor
  · cases run with
    | nil => exact absurd rfl hne
    | cons token rest => exact begins_cons (h token List.mem_cons_self) rest
  · rcases List.eq_nil_or_concat run with hnil | ⟨front, token, rfl⟩
    · exact absurd hnil hne
    · exact ⟨front, token, List.concat_eq_append, h token (by simp)⟩

theorem begins_of_trimStart_ne_nil {run : List Token} (h : trimStart run ≠ []) :
    Begins (trimStart run) := by
  cases htrim : trimStart run with
  | nil => exact absurd htrim h
  | cons token rest => exact begins_cons (not_trivia_of_trimStart_eq_cons htrim) rest

/-- What stays of a run when it is trimmed is empty or has no trivia at either end. -/
theorem begins_and_ends_of_trim_ne_nil {run : List Token} (h : trim run ≠ []) :
    Begins (trim run) ∧ Ends (trim run) := by
  constructor
  · cases htrim : trim run with
    | nil => exact absurd htrim h
    | cons token rest => exact begins_cons (not_trivia_of_trim_eq_cons htrim) rest
  · have hreverse : trimStart (trimStart run).reverse ≠ [] := by
      intro hnil
      exact h (by rw [trim, hnil, List.reverse_nil])
    rcases begins_of_trimStart_ne_nil hreverse with ⟨token, rest, heq, htoken⟩
    refine ⟨rest.reverse, token, ?_, htoken⟩
    rw [trim, heq, List.reverse_cons]

theorem trim_trim (run : List Token) : trim (trim run) = trim run := by
  by_cases h : trim run = []
  · rw [h]
    rfl
  · rcases begins_and_ends_of_trim_ne_nil h with ⟨hbegins, hends⟩
    exact trim_eq_self hbegins hends

theorem trimStart_append_of_trivia {front : List Token}
    (h : forall token, token ∈ front -> token.isTrivia = true) (back : List Token) :
    trimStart (front ++ back) = trimStart back :=
  List.dropWhile_append_of_pos h

theorem trim_append_of_trivia {back : List Token}
    (hback : forall token, token ∈ back -> token.isTrivia = true) (run : List Token) :
    trim (run ++ back) = trim run := by
  have hreverse : forall token, token ∈ back.reverse -> token.isTrivia = true := fun token htoken =>
    hback token (List.mem_reverse.mp htoken)
  by_cases hrun : trimStart run = []
  · have hall : forall token, token ∈ run -> token.isTrivia = true :=
      List.dropWhile_eq_nil_iff.mp hrun
    have hnil : trimStart back = [] := List.dropWhile_eq_nil_iff.mpr hback
    rw [trim, trim, trimStart_append_of_trivia hall, hnil, hrun]
  · have hbegins := begins_of_trimStart_ne_nil hrun
    have happend : trimStart (run ++ back) = trimStart run ++ back := by
      rw [trimStart, List.dropWhile_append, if_neg (by simpa [trimStart] using hrun)]
      rfl
    rw [trim, trim, happend, List.reverse_append, trimStart_append_of_trivia hreverse]

/-- What is left of a run behind the first token that is no trivia. -/
theorem trim_eq_cons_iff {run inner : List Token} {token : Token} :
    (exists rest, trim run = token :: rest ∧ trim rest = inner) <->
      exists front back, run = front ++ token :: back ∧
        (forall other, other ∈ front -> other.isTrivia = true) ∧ token.isTrivia = false ∧
          trim back = inner := by
  constructor
  · rintro ⟨rest, hrun, rfl⟩
    rcases trim_eq_append run with ⟨front, back, happend, hfront, hback⟩
    refine ⟨front, rest ++ back, ?_, hfront, not_trivia_of_trim_eq_cons hrun, ?_⟩
    · rw [happend, hrun, List.append_assoc, List.cons_append]
    · exact trim_append_of_trivia hback rest
  · rintro ⟨front, back, rfl, hfront, htoken, rfl⟩
    rcases trim_eq_append (token :: back) with ⟨before, behind, happend, hbefore, hbehind⟩
    rcases trim_cons_of_not_trivia htoken back with ⟨rest, hrest⟩
    cases before with
    | nil =>
        rw [hrest, List.nil_append, List.cons_append, List.cons.injEq] at happend
        refine ⟨rest, ?_, ?_⟩
        · rw [trim, trimStart_append_of_trivia hfront]
          exact hrest
        · rw [happend.right, trim_append_of_trivia hbehind]
    | cons other before =>
        rw [List.cons_append, List.cons_append, List.cons.injEq] at happend
        have hother := hbefore other List.mem_cons_self
        rw [← happend.left, htoken] at hother
        cases hother

/-! ## Brackets -/

/-- How many groups are open behind a run. -/
def depthBehind (depth : Nat) (run : List Token) : Nat :=
  run.foldl depthAfter depth

theorem depthBehind_append (depth : Nat) (front back : List Token) :
    depthBehind depth (front ++ back) = depthBehind (depthBehind depth front) back :=
  List.foldl_append

theorem depthAfter_opener {token : Token} (h : token.isOpener = true) (depth : Nat) :
    depthAfter depth token = depth + 1 :=
  if_pos h

theorem depthAfter_closer {token : Token} (h : token.isCloser = true) (depth : Nat) :
    depthAfter depth token = depth - 1 := by
  have hopener : token.isOpener = false := by
    rw [← Bool.not_eq_true]
    intro hopener
    have := TokenKind.isCloser_of_isOpener hopener
    rw [show token.kind.isCloser = token.isCloser from rfl, h] at this
    cases this
  rw [depthAfter, hopener, h]
  rfl

theorem depthAfter_plain {token : Token} (hopener : token.isOpener = false)
    (hcloser : token.isCloser = false) (depth : Nat) : depthAfter depth token = depth := by
  rw [depthAfter, hopener, hcloser]
  rfl

theorem plain_of_isTrivia {token : Token} (h : token.isTrivia = true) :
    token.isOpener = false ∧ token.isCloser = false := by
  unfold Token.isTrivia at h
  unfold Token.isOpener Token.isCloser
  cases hkind : token.kind <;> rw [hkind] at h <;> first | exact ⟨rfl, rfl⟩ | cases h

theorem depthAfter_trivia {token : Token} (h : token.isTrivia = true) (depth : Nat) :
    depthAfter depth token = depth :=
  depthAfter_plain (plain_of_isTrivia h).1 (plain_of_isTrivia h).2 depth

/-- Groups that are open around a run make no difference to a token that closes none of them. -/
theorem depthAfter_add {token : Token} {depth : Nat} (h : token.isCloser = true -> depth ≠ 0)
    (around : Nat) : depthAfter (depth + around) token = depthAfter depth token + around := by
  unfold depthAfter
  split
  · omega
  · split
    · have := h ‹_›
      omega
    · rfl

theorem depthBehind_trivia {run : List Token}
    (h : forall token, token ∈ run -> token.isTrivia = true) (depth : Nat) :
    depthBehind depth run = depth := by
  unfold depthBehind
  induction run with
  | nil => rfl
  | cons token rest ih =>
      rw [List.foldl_cons, depthAfter_trivia (h token List.mem_cons_self)]
      exact ih fun other hother => h other (List.mem_cons_of_mem token hother)

/-- What trimming takes away opens and closes nothing. -/
theorem depthBehind_trim (depth : Nat) (run : List Token) :
    depthBehind depth (trim run) = depthBehind depth run := by
  rcases trim_eq_append run with ⟨front, back, hrun, hfront, hback⟩
  conv_rhs => rw [hrun]
  rw [depthBehind_append, depthBehind_append, depthBehind_trivia hfront,
    depthBehind_trivia hback]

/-! ## Runs that close what they open -/

/-- A run closes the groups that are open around it, and all that it opens, and no others. -/
def Closes : Nat -> List Token -> Prop
  | depth, [] => depth = 0
  | depth, token :: rest =>
      token.kind ≠ .eof ∧ (token.isCloser = true -> depth ≠ 0) ∧
        Closes (depthAfter depth token) rest

theorem Closes.append {depth around : Nat} {front back : List Token} (h : Closes depth front)
    (hback : Closes around back) : Closes (depth + around) (front ++ back) := by
  induction front generalizing depth with
  | nil =>
      rw [show depth = 0 from h, Nat.zero_add]
      exact hback
  | cons token front ih =>
      rcases h with ⟨heof, hcloser, hfront⟩
      refine ⟨heof, ?_, ?_⟩
      · intro hclose
        have := hcloser hclose
        omega
      · rw [depthAfter_add hcloser]
        exact ih hfront

theorem Closes.depthBehind_add {depth : Nat} {run : List Token} (h : Closes depth run)
    (around : Nat) : depthBehind (depth + around) run = around := by
  unfold depthBehind
  induction run generalizing depth with
  | nil =>
      rw [show depth = 0 from h, Nat.zero_add]
      rfl
  | cons token rest ih =>
      rcases h with ⟨heof, hcloser, hrest⟩
      rw [List.foldl_cons, depthAfter_add hcloser, ih hrest]

theorem Closes.depthBehind {run : List Token} (h : Closes 0 run) (depth : Nat) :
    depthBehind depth run = depth := by
  have hadd := h.depthBehind_add depth
  rwa [Nat.zero_add] at hadd

/-- A token within a group that it does not close belongs to what the group holds. -/
theorem splitGroup?_inside {depth : Nat} {token : Token} (h : token.isCloser = true -> depth ≠ 0)
    (rest : List Token) :
    splitGroup? depth (token :: rest) =
      (splitGroup? (depthAfter depth token) rest).map fun group =>
        { group with content := token :: group.content } := by
  have hinside : (token.isCloser && depth == 0) = false := by
    cases hcloser : token.isCloser with
    | false => rfl
    | true => simp [h hcloser]
  rw [splitGroup?, hinside, if_neg Bool.false_ne_true]
  cases splitGroup? (depthAfter depth token) rest <;> rfl

/-- A run that closes what it opens stays within the group that it stands in. -/
theorem Closes.splitGroup?_append {depth : Nat} {run : List Token} (h : Closes depth run)
    (around : Nat) (rest : List Token) :
    splitGroup? (depth + around) (run ++ rest) =
      (splitGroup? around rest).map fun cut => { cut with content := run ++ cut.content } := by
  induction run generalizing depth with
  | nil =>
      rw [show depth = 0 from h, Nat.zero_add]
      exact Option.map_id'.symm
  | cons token run ih =>
      rcases h with ⟨heof, hcloser, hrun⟩
      have hinside : token.isCloser = true -> depth + around ≠ 0 := fun hclose =>
        Nat.ne_of_gt (Nat.add_pos_left (Nat.pos_of_ne_zero (hcloser hclose)) around)
      rw [List.cons_append, splitGroup?_inside hinside, depthAfter_add hcloser, ih hrun,
        Option.map_map]
      rfl

theorem Closes.splitGroup? {run : List Token} (h : Closes 0 run) {closer : Token}
    (hcloser : closer.isCloser = true) (rest : List Token) :
    splitGroup? 0 (run ++ closer :: rest) = some ⟨run, closer, rest⟩ := by
  have happend := h.splitGroup?_append 0 (closer :: rest)
  rw [Nat.zero_add, Run.splitGroup?, hcloser] at happend
  rw [happend]
  simp

theorem closes_nil : Closes 0 [] :=
  rfl

theorem closes_closer {token : Token} (h : token.isCloser = true) : Closes 1 [token] := by
  refine ⟨?_, fun _ => Nat.one_ne_zero, depthAfter_closer h 1⟩
  intro heof
  rw [Token.isCloser, heof] at h
  cases h

theorem Closes.group {content : List Token} (h : Closes 0 content) {opener closer : Token}
    (hopener : opener.isOpener = true) (hcloser : closer.isCloser = true) :
    Closes 0 (opener :: content ++ [closer]) := by
  refine ⟨?_, ?_, ?_⟩
  · intro heof
    rw [Token.isOpener, heof] at hopener
    cases hopener
  · intro hclose
    have hnot := TokenKind.isCloser_of_isOpener hopener
    rw [show opener.kind.isCloser = opener.isCloser from rfl, hclose] at hnot
    cases hnot
  · rw [depthAfter_opener hopener]
    exact h.append (closes_closer hcloser)

theorem Closes.of_trivia_append {front : List Token} {depth : Nat} {run : List Token}
    (hfront : forall token, token ∈ front -> token.isTrivia = true)
    (h : Closes depth (front ++ run)) : Closes depth run := by
  induction front with
  | nil => exact h
  | cons token front ih =>
      rcases h with ⟨_, _, hrest⟩
      rw [depthAfter_trivia (hfront token List.mem_cons_self)] at hrest
      exact ih (fun other hother => hfront other (List.mem_cons_of_mem token hother)) hrest

theorem Closes.of_append_trivia {depth : Nat} {run back : List Token}
    (hback : forall token, token ∈ back -> token.isTrivia = true)
    (h : Closes depth (run ++ back)) : Closes depth run := by
  induction run generalizing depth with
  | nil =>
      rw [List.nil_append, ← List.append_nil back] at h
      exact h.of_trivia_append hback
  | cons token run ih =>
      rcases h with ⟨heof, hcloser, hrest⟩
      exact ⟨heof, hcloser, ih hrest⟩

theorem Closes.trim {run : List Token} (h : Closes 0 run) : Closes 0 (trim run) := by
  rcases trim_eq_append run with ⟨front, back, hrun, hfront, hback⟩
  rw [hrun, List.append_assoc] at h
  exact (h.of_trivia_append hfront).of_append_trivia hback

/-- A token that neither opens nor closes a group, nor ends the source. -/
def isPlain (kind : TokenKind) : Bool :=
  !kind.isOpener && !kind.isCloser && kind != .eof

theorem closes_plain {run : List Token} (h : forall token, token ∈ run -> isPlain token.kind = true) :
    Closes 0 run := by
  induction run with
  | nil => exact closes_nil
  | cons token rest ih =>
      have htoken := h token List.mem_cons_self
      simp only [isPlain, Bool.and_eq_true, Bool.not_eq_true', bne_iff_ne] at htoken
      rcases htoken with ⟨⟨hopener, hcloser⟩, heof⟩
      refine ⟨heof, ?_, ?_⟩
      · intro hclose
        rw [Token.isCloser, hcloser] at hclose
        cases hclose
      · rw [depthAfter_plain hopener hcloser]
        exact ih fun other hother => h other (List.mem_cons_of_mem token hother)

theorem closes_token {token : Token} (h : isPlain token.kind = true) : Closes 0 [token] :=
  closes_plain fun _ hother => List.mem_singleton.mp hother ▸ h

end Run
end Stylesheet
