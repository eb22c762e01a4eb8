import Stylesheet.Proofs.Node.Written
import Stylesheet.Proofs.Token.Stops
import Stylesheet.Sheet

/-!
# Lists between commas

The parts of a list that is written with commas between them are cut at these commas, when no
part has a comma of its own outside of groups.
-/

namespace Stylesheet

open Token Run

/-- Tokens that end a part of a list in a prelude. -/
def endsPart (kind : TokenKind) : Bool :=
  kind == .comma || Sheet.endsPrelude kind

namespace Node

/-- A node that is written as one part of a list. -/
structure IsListed (node : Node) : Prop where
  closes : Closes 0 node.written
  uncut : Uncut endsPart 0 node.written
  begins : Begins node.written
  ends : Ends node.written

section Commas

variable {nodes : List Node}

theorem closes_writtenCommas (h : forall node, node ∈ nodes -> node.IsListed) :
    Closes 0 (writtenCommas nodes) := by
  induction nodes with
  | nil => exact closes_nil
  | cons node rest ih =>
      have hnode := (h node List.mem_cons_self).closes
      have hrest := ih fun other hother => h other (List.mem_cons_of_mem node hother)
      cases rest with
      | nil => exact hnode
      | cons next rest =>
          have hcomma : Closes 0 [ofKind .comma] := closes_token rfl
          rw [writtenCommas_cons_cons]
          exact hnode.append (hcomma.append hrest)

theorem uncut_writtenCommas (h : forall node, node ∈ nodes -> node.IsListed) :
    Uncut Sheet.endsPrelude 0 (writtenCommas nodes) := by
  have hmono : forall kind, endsPart kind = false -> Sheet.endsPrelude kind = false :=
    fun kind hkind => (Bool.or_eq_false_iff.mp hkind).2
  induction nodes with
  | nil => exact trivial
  | cons node rest ih =>
      have hnode := h node List.mem_cons_self
      have hrest := ih fun other hother => h other (List.mem_cons_of_mem node hother)
      cases rest with
      | nil => exact hnode.uncut.mono hmono
      | cons next rest =>
          rw [writtenCommas_cons_cons]
          refine uncut_append.mpr ⟨hnode.uncut.mono hmono, ?_⟩
          rw [hnode.closes.depthBehind]
          exact ⟨TokenKind.noConfusion, fun _ => rfl, hrest⟩

theorem begins_writtenCommas (h : forall node, node ∈ nodes -> node.IsListed)
    (hne : nodes ≠ []) : Begins (writtenCommas nodes) := by
  cases nodes with
  | nil => exact absurd rfl hne
  | cons node rest =>
      have hnode := (h node List.mem_cons_self).begins
      cases rest with
      | nil => exact hnode
      | cons next rest =>
          rw [writtenCommas_cons_cons]
          exact hnode.append _

theorem ends_writtenCommas (h : forall node, node ∈ nodes -> node.IsListed) (hne : nodes ≠ []) :
    Ends (writtenCommas nodes) := by
  induction nodes with
  | nil => exact absurd rfl hne
  | cons node rest ih =>
      cases rest with
      | nil => exact (h node List.mem_cons_self).ends
      | cons next rest =>
          have hrest := ih (fun other hother => h other (List.mem_cons_of_mem node hother))
            (List.cons_ne_nil next rest)
          rw [writtenCommas_cons_cons]
          exact (hrest.cons _).append _

theorem trim_writtenCommas (h : forall node, node ∈ nodes -> node.IsListed) (hne : nodes ≠ []) :
    trim (writtenCommas nodes) = writtenCommas nodes :=
  trim_eq_self (begins_writtenCommas h hne) (ends_writtenCommas h hne)

/-- A list is cut into the parts that it was written from. -/
theorem splitTopLevel_writtenCommas (h : forall node, node ∈ nodes -> node.IsListed)
    (hne : nodes ≠ []) :
    splitTopLevel (· == .comma) 0 (writtenCommas nodes) = nodes.map written := by
  have hmono : forall kind, endsPart kind = false -> (kind == .comma) = false :=
    fun kind hkind => (Bool.or_eq_false_iff.mp hkind).1
  induction nodes with
  | nil => exact absurd rfl hne
  | cons node rest ih =>
      have hnode := h node List.mem_cons_self
      have huncut := hnode.uncut.mono hmono
      cases rest with
      | nil => exact huncut.isWhole.splitTopLevel_last
      | cons next rest =>
          have hrest := ih (fun other hother => h other (List.mem_cons_of_mem node hother))
            (List.cons_ne_nil next rest)
          rw [writtenCommas_cons_cons, huncut.splitTopLevel_cons hnode.closes rfl rfl, hrest]
          rfl

end Commas

end Node
end Stylesheet
