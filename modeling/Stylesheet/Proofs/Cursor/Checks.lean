import Mathlib.Data.List.TakeWhile
import Stylesheet.Node.OverRun
import Stylesheet.Proofs.Token.Brackets

/-!
# Runs by index

The parser may also be written with a cursor: an index into the tokens that each loop moves, and
slices from one index up to another.  Such a parser can go wrong in ways in which lists cannot,
so each of its steps is checked, and a check that fails ends it with a `Breach`.  Main statements:
trimming and cutting by index never fail and agree with the scanners of runs.
-/

namespace Stylesheet
namespace Cursor

/-- What a check of the parser finds. -/
inductive Breach where
  /-- An index that no token has. -/
  | index
  /-- A slice that does not lie within its run. -/
  | slice
  /-- An offset into a text that does not lie between two of its characters. -/
  | offset
  /-- An iteration behind which the cursor has not moved forward, or has left the tokens. -/
  | stall
  /-- A recursive call on a run that is not shorter, or at a cursor that is not further. -/
  | descent
  /-- A token of a kind that the caller of a function has ruled out. -/
  | kind
deriving DecidableEq, Repr

/-- A computation whose steps are checked. -/
abbrev Checked := Except Breach

section Bind

variable {α β : Type}

@[simp] theorem ok_bind (value : α) (next : α -> Checked β) :
    ((.ok value : Checked α) >>= next) = next value :=
  rfl

@[simp] theorem pure_eq_ok (value : α) : (pure value : Checked α) = .ok value :=
  rfl

end Bind

/-! ## Indices and slices -/

/-- The token at an index. -/
def tokenAt (run : List Token) (i : Nat) : Checked Token :=
  match run[i]? with
  | some token => .ok token
  | none => .error .index

/-- The tokens from one index up to another. -/
def slice (run : List Token) (start stop : Nat) : Checked (List Token) :=
  if start ≤ stop ∧ stop ≤ run.length then .ok ((run.drop start).take (stop - start))
  else .error .slice

section Append

variable (front run back : List Token)

@[simp] theorem tokenAt_append (token : Token) (rest : List Token) :
    tokenAt (front ++ token :: rest) front.length = .ok token := by
  simp [tokenAt]

@[simp] theorem tokenAt_cons (token : Token) (rest : List Token) :
    tokenAt (token :: rest) 0 = .ok token :=
  rfl

theorem getElem?_front (rest : List Token) : (front ++ rest)[front.length]? = rest.head? := by
  rw [List.getElem?_append_right (Nat.le_refl _), Nat.sub_self, List.head?_eq_getElem?]

theorem getElem?_behind (token : Token) (rest : List Token) :
    (front ++ token :: rest)[front.length + 1]? = rest.head? := by
  rw [List.getElem?_append_right (Nat.le_add_right _ 1), Nat.add_sub_cancel_left,
    List.getElem?_cons_succ, List.head?_eq_getElem?]

theorem slice_append :
    slice (front ++ run ++ back) front.length (front.length + run.length) = .ok run := by
  unfold slice
  rw [if_pos ⟨Nat.le_add_right .., by simp⟩, List.append_assoc, List.drop_left,
    Nat.add_sub_cancel_left, List.take_left]

theorem slice_start : slice (run ++ back) 0 run.length = .ok run := by
  have h := slice_append [] run back
  rwa [List.nil_append, List.length_nil, Nat.zero_add] at h

theorem slice_end : slice (front ++ run) front.length (front ++ run).length = .ok run := by
  have h := slice_append front run []
  rwa [List.append_nil, ← List.length_append] at h

end Append

/-! ## Trimmed runs -/

/-- The last index whose token passes a test. -/
def lastIndex? (test : Token -> Bool) (run : List Token) : Option Nat :=
  (run.reverse.findIdx? test).map fun i => run.length - 1 - i

/-- A run without the whitespace and comments at either end. -/
def trim (run : List Token) : Checked (List Token) :=
  let start := (run.findIdx? fun token => !token.isTrivia).getD run.length
  let stop := ((lastIndex? (fun token => !token.isTrivia) run).map (· + 1)).getD start
  slice run start stop

theorem findIdx?_trivia_append {front : List Token}
    (h : forall token, token ∈ front -> token.isTrivia = true) (back : List Token) :
    (front ++ back).findIdx? (fun token => !token.isTrivia) =
      (back.findIdx? fun token => !token.isTrivia).map (· + front.length) := by
  induction front with
  | nil => simp
  | cons token front ih =>
      have htrivia := h token List.mem_cons_self
      have hrest := ih fun other hother => h other (List.mem_cons_of_mem _ hother)
      rw [List.cons_append, List.findIdx?_cons, htrivia, hrest, Option.map_map]
      simp only [Bool.not_true, Bool.false_eq_true, if_false, List.length_cons]
      rfl

/-- A run that begins with no trivia has its first index behind the trivia in front of it. -/
theorem findIdx?_begins {front run : List Token}
    (h : forall token, token ∈ front -> token.isTrivia = true) (hbegins : Run.Begins run) :
    (front ++ run).findIdx? (fun token => !token.isTrivia) = some front.length := by
  rcases hbegins with ⟨token, rest, rfl, htoken⟩
  rw [findIdx?_trivia_append h, List.findIdx?_cons, htoken]
  simp

theorem lastIndex?_ends {run back : List Token} (hends : Run.Ends run)
    (h : forall token, token ∈ back -> token.isTrivia = true) (front : List Token) :
    lastIndex? (fun token => !token.isTrivia) (front ++ run ++ back) =
      some ((front ++ run).length - 1) := by
  have hbegins : Run.Begins (run.reverse ++ front.reverse) := hends.begins_reverse.append _
  have hback : forall token, token ∈ back.reverse -> token.isTrivia = true :=
    fun token htoken => h token (List.mem_reverse.mp htoken)
  rw [lastIndex?, List.reverse_append, List.reverse_append, findIdx?_begins hback hbegins,
    Option.map_some, List.length_reverse, List.length_append]
  congr 1
  omega

theorem findIdx?_of_trivia {run : List Token}
    (h : forall token, token ∈ run -> token.isTrivia = true) :
    run.findIdx? (fun token => !token.isTrivia) = none := by
  simpa using h

@[simp] theorem trim_eq (run : List Token) : trim run = .ok (Run.trim run) := by
  rcases Run.trim_eq_append run with ⟨front, back, hrun, hfront, hback⟩
  by_cases hne : Run.trim run = []
  · have htrivia : forall token, token ∈ run -> token.isTrivia = true := by
      rw [hne, List.append_nil] at hrun
      rw [hrun]
      exact List.forall_mem_append.mpr ⟨hfront, hback⟩
    have hreverse := findIdx?_of_trivia fun token htoken =>
      htrivia token (List.mem_reverse.mp htoken)
    rw [trim, lastIndex?, findIdx?_of_trivia htrivia, hreverse, hne]
    simp [slice]
  · rcases Run.begins_and_ends_of_trim_ne_nil hne with ⟨hbegins, hends⟩
    have hstart := findIdx?_begins hfront (hbegins.append back)
    have hstop := lastIndex?_ends hends hback front
    rw [← List.append_assoc, ← hrun] at hstart
    rw [← hrun] at hstop
    have hlength : (front ++ Run.trim run).length - 1 + 1 =
        front.length + (Run.trim run).length := by
      rw [List.length_append]
      have := List.length_pos_iff.mpr hne
      omega
    have hslice := slice_append front (Run.trim run) back
    rw [← hrun] at hslice
    rw [trim, hstart, hstop, Option.map_some, Option.getD_some, Option.getD_some, hlength, hslice]

/-! ## Groups -/

/-- The index of the closer of the outermost of `depth` groups, in a run that starts at an index. -/
def closeFrom? (depth i : Nat) : List Token -> Option Nat
  | [] => none
  | token :: rest =>
      if token.isOpener then
        closeFrom? (depth + 1) (i + 1) rest
      else if token.isCloser then
        match depth with
        | 0 => none
        | 1 => some i
        | depth + 2 => closeFrom? (depth + 1) (i + 1) rest
      else
        closeFrom? depth (i + 1) rest

/-- The index of the token that closes the group opened at an index. -/
def matchingClose? (run : List Token) (i : Nat) : Option Nat :=
  closeFrom? 0 i (run.drop i)

/-- What stands between the opener and the closer of a group. -/
def interior (group : List Token) : Checked (List Token) :=
  slice group 1 (group.length - 1)

theorem closeFrom?_succ (depth i : Nat) (run : List Token) :
    closeFrom? (depth + 1) i run =
      (Run.splitGroup? depth run).map fun group => i + group.content.length := by
  induction run generalizing depth i with
  | nil => rfl
  | cons token rest ih =>
      have hlength : (fun group : Run.Group => i + group.content.length) ∘
          (fun group : Run.Group => { group with content := token :: group.content }) =
            fun group => i + 1 + group.content.length := by
        funext group
        simp only [Function.comp_apply, List.length_cons]
        omega
      unfold closeFrom?
      by_cases hopener : token.isOpener = true
      · have hcloser : token.isCloser = false := TokenKind.isCloser_of_isOpener hopener
        rw [if_pos hopener, ih, Run.splitGroup?_inside (by simp [hcloser]),
          Run.depthAfter_opener hopener, Option.map_map, hlength]
      · rw [if_neg hopener]
        by_cases hcloser : token.isCloser = true
        · rw [if_pos hcloser]
          cases depth with
          | zero =>
              rw [Run.splitGroup?, hcloser]
              rfl
          | succ depth =>
              rw [Run.splitGroup?_inside fun _ => Nat.succ_ne_zero depth,
                Run.depthAfter_closer hcloser, Option.map_map, hlength]
              exact ih depth (i + 1)
        · rw [if_neg hcloser, ih, Run.splitGroup?_inside fun h => absurd h hcloser,
            Run.depthAfter_plain (Bool.not_eq_true _ ▸ hopener) (Bool.not_eq_true _ ▸ hcloser),
            Option.map_map, hlength]

theorem matchingClose?_append {opener : Token} (h : opener.isOpener = true)
    (front rest : List Token) :
    matchingClose? (front ++ opener :: rest) front.length =
      (Run.splitGroup? 0 rest).map fun group => front.length + 1 + group.content.length := by
  rw [matchingClose?, List.drop_left, closeFrom?, if_pos h, closeFrom?_succ]

section Group

variable {rest : List Token} {group : Run.Group}

/-- The run of a group that is cut off, with its opener and its closer. -/
def wholeGroup (opener : Token) (group : Run.Group) : List Token :=
  opener :: group.content ++ [group.closer]

theorem wholeGroup_append (h : Run.splitGroup? 0 rest = some group) (front : List Token)
    (opener : Token) :
    front ++ opener :: rest = front ++ wholeGroup opener group ++ group.rest := by
  rw [← Run.splitGroup?_append h, wholeGroup]
  simp

theorem length_wholeGroup (opener : Token) (group : Run.Group) :
    (wholeGroup opener group).length = group.content.length + 2 := by
  simp [wholeGroup]

/-- The closer of the group behind `front` is found, and what is sliced up to it is the group. -/
structure IsClose (front rest : List Token) (opener : Token) (group : Run.Group) (close : Nat) :
    Prop where
  found : matchingClose? (front ++ opener :: rest) front.length = some close
  whole : slice (front ++ opener :: rest) front.length (close + 1) = .ok (wholeGroup opener group)
  inner : slice (front ++ opener :: rest) (front.length + 1) close = .ok group.content
  behind : close + 1 = (front ++ wholeGroup opener group).length
  moves : front.length < close + 1

theorem exists_isClose {opener : Token} (hopener : opener.isOpener = true)
    (h : Run.splitGroup? 0 rest = some group) (front : List Token) :
    exists close, IsClose front rest opener group close := by
  have hwhole := slice_append front (wholeGroup opener group) group.rest
  rw [← wholeGroup_append h, ← List.length_append] at hwhole
  have hinner := slice_append (front ++ [opener]) group.content (group.closer :: group.rest)
  rw [List.append_assoc, Run.splitGroup?_append h, List.append_assoc, List.singleton_append,
    List.length_append, List.length_singleton] at hinner
  have hbehind : front.length + 1 + group.content.length + 1 =
      (front ++ wholeGroup opener group).length := by
    rw [List.length_append, length_wholeGroup]
    omega
  refine ⟨front.length + 1 + group.content.length, ?_, ?_, hinner, hbehind, by omega⟩
  · rw [matchingClose?_append hopener, h]
    rfl
  · rw [hbehind]
    exact hwhole

@[simp] theorem interior_wholeGroup (opener : Token) (group : Run.Group) :
    interior (wholeGroup opener group) = .ok group.content := by
  have hslice := slice_append [opener] group.content [group.closer]
  rw [interior, length_wholeGroup]
  rw [← hslice, wholeGroup]
  congr 1
  rw [List.length_singleton]
  omega

end Group

/-! ## Parts between separators -/

/--
The parts of a run between the separators outside every group, from the part on that begins at
`start`; the tokens at `i` and behind it have not been seen.
-/
def splitFrom (separates : TokenKind -> Bool) (run : List Token) (start depth i : Nat) :
    List Token -> Checked (List (List Token))
  | [] => do
      let part ← slice run start run.length
      return [part]
  | token :: rest =>
      if depth == 0 && separates token.kind && !token.isOpener && !token.isCloser then do
        let part ← slice run start i
        let parts ← splitFrom separates run (i + 1) 0 (i + 1) rest
        return part :: parts
      else
        splitFrom separates run start (Run.depthAfter depth token) (i + 1) rest

/-- The parts of a run between the separators that stand outside every group. -/
def splitTopLevel (separates : TokenKind -> Bool) (run : List Token) :
    Checked (List (List Token)) :=
  splitFrom separates run 0 0 0 run

theorem splitFrom_append {separates : TokenKind -> Bool} {depth : Nat} {rest first : List Token}
    {parts : List (List Token)} (h : Run.splitTopLevel separates depth rest = first :: parts)
    (front part : List Token) :
    splitFrom separates (front ++ part ++ rest) front.length depth (front ++ part).length rest =
      .ok ((part ++ first) :: parts) := by
  induction rest generalizing depth front part first parts with
  | nil =>
      cases h
      rw [splitFrom, List.append_nil, slice_end]
      simp
  | cons token rest ih =>
      unfold Run.splitTopLevel at h
      unfold splitFrom
      split at h
      · rename_i hseparates
        cases h
        cases hrest : Run.splitTopLevel separates 0 rest with
        | nil => exact absurd hrest (Run.splitTopLevel_ne_nil separates 0 rest)
        | cons inner others =>
            have hinner := ih hrest (front ++ part ++ [token]) []
            simp only [List.append_nil, List.append_assoc, List.cons_append, List.nil_append,
              List.length_append, List.length_cons, List.length_nil, Nat.zero_add] at hinner
            have hslice := slice_append front part (token :: rest)
            rw [if_pos hseparates, List.length_append, hslice, ok_bind]
            simp only [List.append_assoc, Nat.add_assoc, hinner, ok_bind, pure_eq_ok,
              List.append_nil]
      · rename_i hgoes
        rw [if_neg hgoes]
        -- The token is added to the part that has begun.
        have hgo : forall inner others,
            Run.splitTopLevel separates (Run.depthAfter depth token) rest = inner :: others ->
              splitFrom separates (front ++ part ++ token :: rest) front.length
                (Run.depthAfter depth token) ((front ++ part).length + 1) rest =
                  .ok ((part ++ token :: inner) :: others) := by
          intro inner others hrest
          have hinner := ih hrest front (part ++ [token])
          simpa only [List.append_assoc, List.cons_append, List.nil_append, List.length_append,
            List.length_cons, List.length_nil, Nat.add_assoc] using hinner
        split at h
        · rename_i hnil
          exact absurd hnil (Run.splitTopLevel_ne_nil separates _ rest)
        · rename_i hrest
          cases h
          exact hgo _ _ hrest

@[simp] theorem splitTopLevel_eq (separates : TokenKind -> Bool) (run : List Token) :
    splitTopLevel separates run = .ok (Run.splitTopLevel separates 0 run) := by
  cases h : Run.splitTopLevel separates 0 run with
  | nil => exact absurd h (Run.splitTopLevel_ne_nil separates 0 run)
  | cons first parts => exact splitFrom_append h [] []

/-- Reads the parts of a run one after another; no part may be empty. -/
def readParts (read : List Token -> Checked (Option Node)) :
    List (List Token) -> Checked (Option (List Node))
  | [] => return some []
  | part :: parts => do
      let part ← trim part
      if part.isEmpty then
        return none
      else
        match ← read part with
        | none => return none
        | some node =>
            match ← readParts read parts with
            | none => return none
            | some nodes => return some (node :: nodes)

theorem readParts_eq {read : List Token -> Checked (Option Node)}
    {read? : List Token -> Option Node} {parts : List (List Token)}
    (hempty : forall part, part ∈ parts -> Run.trim part = [] -> read? part = none)
    (hread : forall part, part ∈ parts -> Run.trim part ≠ [] ->
      read (Run.trim part) = .ok (read? part)) :
    readParts read parts = .ok (parts.mapM read?) := by
  induction parts with
  | nil => rfl
  | cons part parts ih =>
      have hrest := ih (fun other hother => hempty other (List.mem_cons_of_mem part hother))
        fun other hother => hread other (List.mem_cons_of_mem part hother)
      rw [readParts, trim_eq, ok_bind, List.mapM_cons]
      by_cases hnil : Run.trim part = []
      · rw [hnil, hempty part List.mem_cons_self hnil]
        rfl
      · rw [if_neg (by simpa using hnil), hread part List.mem_cons_self hnil, ok_bind]
        cases read? part with
        | none => rfl
        | some node =>
            rw [hrest]
            cases parts.mapM read? <;> rfl

end Cursor
end Stylesheet
