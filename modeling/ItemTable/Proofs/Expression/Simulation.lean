import ItemTable.Proofs.Expression.Numbering

/-!
# Resolvers that write alike

What is written with a resolver is put together from names that stay as they are and from
placeholders. A relation that both of them respect (`Resolver.IsSimulation`) is kept by everything
that can be written, and what is written is the same: `Resolver.IsSimulation.write`. The two
resolvers may keep their names in different ways.
-/
namespace ItemTable.Expression.Resolver

variable {σ τ : Type} [NameStore σ] [NameStore τ]

/-- Related resolvers leave the same names as they are and have the same placeholder for a name, and
then they are related again. -/
structure IsSimulation (R : Resolver σ → Resolver τ → Prop) : Prop where
  isLeft : ∀ {r r'}, R r r' → ∀ name, isLeft r'.passthrough name = isLeft r.passthrough name
  placeholder : ∀ {r r'}, R r r' → ∀ name,
    (r'.placeholder name).1 = (r.placeholder name).1 ∧
      R (r.placeholder name).2 (r'.placeholder name).2

namespace IsSimulation

variable {R : Resolver σ → Resolver τ → Prop} {r : Resolver σ} {r' : Resolver τ}

theorem segment (hsim : IsSimulation R) (h : R r r') (s : List Char) :
    (r'.segment s).1 = (r.segment s).1 ∧ R (r.segment s).2 (r'.segment s).2 := by
  rw [segment_eq, segment_eq, hsim.isLeft h]
  split
  · exact ⟨rfl, h⟩
  · obtain ⟨htext, hnext⟩ := hsim.placeholder h (segmentName s)
    exact ⟨by rw [htext], hnext⟩

theorem segments (hsim : IsSimulation R) (h : R r r') (ss : List (List Char)) :
    (r'.segments ss).1 = (r.segments ss).1 ∧ R (r.segments ss).2 (r'.segments ss).2 := by
  induction ss generalizing r r' with
  | nil => exact ⟨rfl, h⟩
  | cons s rest ih =>
    obtain ⟨htext, hnext⟩ := hsim.segment h s
    obtain ⟨htexts, hlast⟩ := ih hnext
    exact ⟨congrArg₂ (fun text texts => String.ofList text :: texts) htext htexts, hlast⟩

theorem path (hsim : IsSimulation R) (h : R r r') (p : String) :
    (r'.path p).1 = (r.path p).1 ∧ R (r.path p).2 (r'.path p).2 := by
  obtain ⟨htexts, hnext⟩ := hsim.segments h (Text.splitAt '.' p.toList)
  exact ⟨congrArg (Text.joinWith ".") htexts, hnext⟩

theorem paths (hsim : IsSimulation R) (h : R r r') (ps : List String) :
    (r'.paths ps).1 = (r.paths ps).1 ∧ R (r.paths ps).2 (r'.paths ps).2 := by
  induction ps generalizing r r' with
  | nil => exact ⟨rfl, h⟩
  | cons p rest ih =>
    obtain ⟨htext, hnext⟩ := hsim.path h p
    obtain ⟨htexts, hlast⟩ := ih hnext
    exact ⟨congrArg₂ List.cons htext htexts, hlast⟩

theorem projection (hsim : IsSimulation R) (h : R r r') (fields : List String) :
    (r'.projection fields).1 = (r.projection fields).1 ∧
      R (r.projection fields).2 (r'.projection fields).2 := by
  obtain ⟨htexts, hnext⟩ := hsim.paths h fields
  exact ⟨congrArg (Text.joinWith ", ") htexts, hnext⟩

theorem tokenTexts (hsim : IsSimulation R) (h : R r r') (ts : List Token) :
    (r'.tokenTexts ts).1 = (r.tokenTexts ts).1 ∧ R (r.tokenTexts ts).2 (r'.tokenTexts ts).2 := by
  induction ts generalizing r r' with
  | nil => exact ⟨rfl, h⟩
  | cons t rest ih =>
    unfold Resolver.tokenTexts
    by_cases hkind : t.kind = .identifier
    · obtain ⟨htext, hnext⟩ := hsim.segment h t.text
      obtain ⟨htexts, hlast⟩ := ih hnext
      simp only [if_pos hkind]
      exact ⟨congrArg₂ List.cons htext htexts, hlast⟩
    · obtain ⟨htexts, hlast⟩ := ih h
      simp only [if_neg hkind]
      exact ⟨congrArg (List.cons t.text) htexts, hlast⟩

theorem expression (hsim : IsSimulation R) (h : R r r') (text : String) :
    (r'.expression text).1 = (r.expression text).1 ∧
      R (r.expression text).2 (r'.expression text).2 := by
  obtain ⟨htexts, hnext⟩ := hsim.tokenTexts h (tokensOf text)
  exact ⟨congrArg (fun texts : List (List Char) => String.ofList texts.flatten) htexts, hnext⟩

theorem literal (hsim : IsSimulation R) (h : R r r') (name : String) :
    (r'.literal name).1 = (r.literal name).1 ∧ R (r.literal name).2 (r'.literal name).2 := by
  rw [literal_eq, literal_eq, hsim.isLeft h]
  split
  · exact ⟨rfl, h⟩
  · obtain ⟨htext, hnext⟩ := hsim.placeholder h name
    exact ⟨congrArg String.toList htext, hnext⟩

/-- Related resolvers write the same, whatever they are called for. -/
theorem write (hsim : IsSimulation R) (h : R r r') (call : ResolverCall) :
    (call.write r').1 = (call.write r).1 ∧ R (call.write r).2 (call.write r').2 := by
  cases call with
  | path p => exact hsim.path h p
  | projection fields => exact hsim.projection h fields
  | expression text => exact hsim.expression h text
  | literal name =>
    obtain ⟨htext, hnext⟩ := hsim.literal h name
    exact ⟨congrArg String.ofList htext, hnext⟩
  | segment s =>
    obtain ⟨htext, hnext⟩ := hsim.segment h s.toList
    exact ⟨congrArg String.ofList htext, hnext⟩

/-- Related resolvers are related after the same calls. -/
theorem foldl_write (hsim : IsSimulation R) (h : R r r') (calls : List ResolverCall) :
    R (calls.foldl (fun r call => (call.write r).2) r)
      (calls.foldl (fun r call => (call.write r).2) r') := by
  induction calls generalizing r r' with
  | nil => exact h
  | cons call rest ih => exact ih (hsim.write h call).2

end IsSimulation

end ItemTable.Expression.Resolver
