import Mathlib.Data.List.Forall2

/-!
# Lists of results
-/

namespace Stylesheet

theorem mapM_eq_some_iff {α β : Type} {f : α -> Option β} {inputs : List α}
    {outputs : List β} :
    inputs.mapM f = some outputs <->
      List.Forall₂ (fun input output => f input = some output) inputs outputs := by
  induction inputs generalizing outputs with
  | nil =>
      rw [List.mapM_nil, List.forall₂_nil_left_iff]
      exact Option.some_inj.trans eq_comm
  | cons first rest ih =>
      rw [List.mapM_cons, List.forall₂_cons_left_iff]
      cases hfirst : f first with
      | none =>
          constructor
          · intro h
            cases h
          · rintro ⟨output, outputs, h, _⟩
            cases h
      | some output =>
          constructor
          · intro h
            rcases Option.bind_eq_some_iff.mp h with ⟨output, houtput, h⟩
            rcases Option.bind_eq_some_iff.mp h with ⟨outputs, houtputs, h⟩
            cases h
            exact ⟨output, outputs, houtput, ih.mp houtputs, rfl⟩
          · rintro ⟨output', outputs, h, houtputs, rfl⟩
            cases h
            rw [ih.mpr houtputs]
            rfl

theorem mapM_congr {α β : Type} {f g : α -> Option β} {inputs : List α}
    (h : forall input, input ∈ inputs -> f input = g input) : inputs.mapM f = inputs.mapM g := by
  induction inputs with
  | nil => rfl
  | cons first rest ih =>
      rw [List.mapM_cons, List.mapM_cons, h first List.mem_cons_self,
        ih fun input hinput => h input (List.mem_cons_of_mem _ hinput)]

/-- Outputs that are all changed in the same way. -/
theorem mapM_option_map {α β γ : Type} (f : α -> Option β) (g : β -> γ) (inputs : List α) :
    (inputs.mapM fun input => (f input).map g) = (inputs.mapM f).map (List.map g) := by
  induction inputs with
  | nil => rfl
  | cons first rest ih =>
      rw [List.mapM_cons, List.mapM_cons, ih]
      cases f first with
      | none => rfl
      | some output => cases rest.mapM f <;> rfl

/-- Inputs that are related succeed alike. -/
theorem exists_mapM_of_forall₂ {α α' β β' : Type} {related : α -> α' -> Prop} {f : α -> Option β}
    {f' : α' -> Option β'} {inputs : List α} {inputs' : List α'} {outputs : List β}
    (hall : List.Forall₂ related inputs inputs')
    (h : forall input input' output, related input input' -> f input = some output ->
      exists output', f' input' = some output')
    (houtputs : inputs.mapM f = some outputs) :
    exists outputs', inputs'.mapM f' = some outputs' := by
  induction hall generalizing outputs with
  | nil => exact ⟨[], rfl⟩
  | cons hfirst hrest ih =>
      rcases List.forall₂_cons_left_iff.mp (mapM_eq_some_iff.mp houtputs) with
        ⟨output, rest, hone, hmore, rfl⟩
      rcases h _ _ _ hfirst hone with ⟨output', houtput'⟩
      rcases ih (mapM_eq_some_iff.mpr hmore) with ⟨outputs', houtputs'⟩
      refine ⟨output' :: outputs', ?_⟩
      rw [List.mapM_cons, houtput', houtputs']
      rfl

theorem exists_of_mem_mapM {α β : Type} {f : α -> Option β} {inputs : List α}
    {outputs : List β} (h : inputs.mapM f = some outputs) {output : β}
    (hmem : output ∈ outputs) : exists input, input ∈ inputs ∧ f input = some output := by
  have hall := mapM_eq_some_iff.mp h
  clear h
  induction hall with
  | nil => cases hmem
  | cons hfirst hrest ih =>
      rcases List.mem_cons.mp hmem with rfl | hmem
      · exact ⟨_, List.mem_cons_self, hfirst⟩
      · rcases ih hmem with ⟨input, hinput, houtput⟩
        exact ⟨input, List.mem_cons_of_mem _ hinput, houtput⟩

end Stylesheet
