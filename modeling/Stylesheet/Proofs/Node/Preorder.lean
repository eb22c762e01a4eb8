import Stylesheet.Node.Basic

/-!
# The nodes of a tree

A tree is read in document order: a node comes before the nodes within it, and these come
child after child.
-/

namespace Stylesheet
namespace Node

/-- A node and all nodes within it, in document order. -/
def preorder (node : Node) : List Node :=
  node :: node.construct.children.attach.flatMap fun ⟨child, _h⟩ => child.preorder
termination_by sizeOf node
decreasing_by
  have hlt := sizeOf_lt_of_mem_children _h
  cases node
  simp only [mk.sizeOf_spec] at hlt ⊢
  omega

theorem preorder_eq (node : Node) :
    node.preorder = node :: node.construct.children.flatMap preorder := by
  rw [preorder, List.flatMap_subtype, List.unattach_attach]
  intro child hchild
  rfl

theorem self_mem_preorder (node : Node) : node ∈ node.preorder := by
  rw [preorder_eq]
  exact List.mem_cons_self

theorem preorder_subset_of_mem_children {node child : Node}
    (h : child ∈ node.construct.children) : child.preorder ⊆ node.preorder := by
  intro inner hinner
  rw [preorder_eq]
  exact List.mem_cons_of_mem node (List.mem_flatMap.mpr ⟨child, h, hinner⟩)

theorem mem_preorder_of_mem_children {tree node child : Node} (h : node ∈ tree.preorder)
    (hchild : child ∈ node.construct.children) : child ∈ tree.preorder := by
  induction tree using Node.induction with
  | step tree ih =>
      rw [preorder_eq] at h
      rcases List.mem_cons.mp h with rfl | h
      · exact preorder_subset_of_mem_children hchild (self_mem_preorder child)
      · rcases List.mem_flatMap.mp h with ⟨inner, hinner, hnode⟩
        exact preorder_subset_of_mem_children hinner (ih inner hinner hnode)

/-- Every node of a tree but the first is a child of another. -/
theorem exists_parent_of_mem_preorder {tree node : Node} (h : node ∈ tree.preorder) :
    node = tree ∨ exists parent, parent ∈ tree.preorder ∧ node ∈ parent.construct.children := by
  induction tree using Node.induction with
  | step tree ih =>
      rw [preorder_eq] at h
      rcases List.mem_cons.mp h with rfl | h
      · exact Or.inl rfl
      · rcases List.mem_flatMap.mp h with ⟨child, hchild, hinner⟩
        rcases ih child hchild hinner with rfl | ⟨parent, hparent, hnode⟩
        · exact Or.inr ⟨tree, self_mem_preorder tree, hchild⟩
        · exact Or.inr ⟨parent, preorder_subset_of_mem_children hchild hparent, hnode⟩

end Node
end Stylesheet
