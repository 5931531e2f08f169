/-!
# Steps that may be refused

A computation that succeeds has had all its steps succeed, and what every accepted step keeps holds
after all of them.
-/
namespace ItemTable

variable {ε α β : Type}

theorem bind_eq_ok {x : Except ε α} {f : α → Except ε β} {b : β} :
    x >>= f = .ok b ↔ ∃ a, x = .ok a ∧ f a = .ok b := by
  cases x with
  | error e =>
    constructor
    · intro h
      cases h
    · rintro ⟨a, h, -⟩
      cases h
  | ok a =>
    constructor
    · intro h
      exact ⟨a, rfl, h⟩
    · rintro ⟨a', h, hf⟩
      cases h
      exact hf

/-- A computation is refused by the first of its steps that is. -/
theorem bind_eq_error {x : Except ε α} {f : α → Except ε β} {e : ε} :
    x >>= f = .error e ↔ x = .error e ∨ ∃ a, x = .ok a ∧ f a = .error e := by
  cases x with
  | error e' =>
    constructor
    · intro h
      cases h
      exact .inl rfl
    · rintro (h | ⟨a, h, -⟩)
      · cases h
        rfl
      · cases h
  | ok a =>
    constructor
    · intro h
      exact .inr ⟨a, rfl, h⟩
    · rintro (h | ⟨a', h, hf⟩)
      · cases h
      · cases h
        exact hf

theorem map_eq_ok {x : Except ε α} {f : α → β} {b : β} :
    f <$> x = .ok b ↔ ∃ a, x = .ok a ∧ f a = b := by
  cases x with
  | error e =>
    constructor
    · intro h
      cases h
    · rintro ⟨a, h, -⟩
      cases h
  | ok a =>
    constructor
    · intro h
      exact ⟨a, rfl, Except.ok.inj h⟩
    · rintro ⟨a', h, rfl⟩
      cases h
      rfl

/-- A check that has let a result through. -/
theorem guard_eq_ok {p : Prop} [Decidable p] {e : ε} {a b : α} :
    (if p then .error e else .ok a : Except ε α) = .ok b ↔ ¬p ∧ b = a := by
  split
  · next hrefused =>
    exact iff_of_false (fun h => by cases h) fun h => h.1 hrefused
  · next hpassed =>
    constructor
    · intro h
      cases h
      exact ⟨hpassed, rfl⟩
    · rintro ⟨-, rfl⟩
      rfl

/-- A view of what has succeeded. -/
theorem toOption_map_eq_some {x : Except ε α} {view : α → β} {b : β} :
    x.toOption.map view = some b ↔ ∃ a, x = .ok a ∧ view a = b := by
  cases x with
  | error e =>
    constructor
    · intro h
      cases h
    · rintro ⟨a, h, -⟩
      cases h
  | ok a =>
    constructor
    · intro h
      exact ⟨a, rfl, Option.some.inj h⟩
    · rintro ⟨a', h, rfl⟩
      cases h
      rfl

/-- Computations with the same results agree, whatever they are refused for. -/
theorem toOption_congr {x y : Except ε α} (h : ∀ a, x = .ok a ↔ y = .ok a) :
    x.toOption = y.toOption := by
  cases x with
  | ok a => rw [(h a).1 rfl]
  | error e =>
    cases y with
    | ok a => exact absurd ((h a).2 rfl) (fun heq => by cases heq)
    | error e' => rfl

/-- What every accepted step keeps holds after all of them. -/
theorem foldlM_keeps {P : β → Prop} {step : β → α → Except ε β} {as : List α}
    (hstep : ∀ a ∈ as, ∀ b b', P b → step b a = .ok b' → P b') {b b' : β} (hstart : P b)
    (h : as.foldlM step b = .ok b') : P b' := by
  induction as generalizing b with
  | nil =>
    cases h
    exact hstart
  | cons a rest ih =>
    rw [List.foldlM_cons, bind_eq_ok] at h
    obtain ⟨next, hnext, hrest⟩ := h
    exact ih (fun a ha => hstep a (List.mem_cons_of_mem _ ha))
      (hstep a List.mem_cons_self b next hstart hnext) hrest

/-- Steps that add at most one thing each collect what they add, in their order. -/
theorem foldlM_collects {γ : Type} (view : β → List γ) (new? : α → Option γ)
    {step : β → α → Except ε β}
    (hstep : ∀ a b b', step b a = .ok b' → view b' = view b ++ (new? a).toList) {as : List α}
    {b b' : β} (h : as.foldlM step b = .ok b') : view b' = view b ++ as.filterMap new? := by
  induction as generalizing b with
  | nil =>
    cases h
    exact (List.append_nil _).symm
  | cons a rest ih =>
    rw [List.foldlM_cons, bind_eq_ok] at h
    obtain ⟨next, hnext, hrest⟩ := h
    rw [ih hrest, hstep a b next hnext, List.append_assoc, List.filterMap_cons]
    cases new? a <;> rfl

theorem forM_eq_ok {step : α → Except ε Unit} {as : List α} :
    as.forM step = .ok () ↔ ∀ a ∈ as, step a = .ok () := by
  induction as with
  | nil => exact ⟨fun _ a ha => absurd ha List.not_mem_nil, fun _ => rfl⟩
  | cons first rest ih =>
    have hcons : (first :: rest).forM step = step first >>= fun _ => rest.forM step := rfl
    rw [hcons, bind_eq_ok, List.forall_mem_cons, ← ih]
    constructor
    · rintro ⟨⟨⟩, hfirst, hrest⟩
      exact ⟨hfirst, hrest⟩
    · rintro ⟨hfirst, hrest⟩
      exact ⟨(), hfirst, hrest⟩

end ItemTable
