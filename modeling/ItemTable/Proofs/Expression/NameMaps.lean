import ItemTable.Proofs.Expression.Simulation

/-!
# Two maps for the names of a resolver

The names that have placeholders are kept in two maps, one for each direction, and a new name gets
the size of one of them as its number. `NameMaps.Holds` says which list of names two maps hold. It
is kept by every new name, so that a resolver over two maps mirrors the one over a list
(`Resolver.Mirrors`) in all that it writes. What is known of the list is thereby known of the maps:
`Resolver.after_numbers`.
-/
namespace ItemTable.Expression

/-- What one more name adds to the placeholders: the next one, for that name. -/
theorem exists_place_snoc {known : List String} {name key other : String} :
    (∃ number, key = namePlaceholder number ∧ (known ++ [name])[number]? = some other) ↔
      (∃ number, key = namePlaceholder number ∧ known[number]? = some other) ∨
        key = namePlaceholder known.length ∧ other = name := by
  constructor
  · rintro ⟨number, rfl, hplace⟩
    rcases Nat.lt_or_ge number known.length with hlt | hge
    · rw [List.getElem?_append_left hlt] at hplace
      exact .inl ⟨number, rfl, hplace⟩
    · rw [List.getElem?_append_right hge, List.getElem?_singleton] at hplace
      split at hplace
      · next hzero =>
        have hnumber : number = known.length := by omega
        exact .inr ⟨by rw [hnumber], (Option.some.inj hplace).symm⟩
      · cases hplace
  · rintro (⟨number, hkey, hplace⟩ | ⟨hkey, rfl⟩)
    · obtain ⟨hlt, -⟩ := List.getElem?_eq_some_iff.1 hplace
      exact ⟨number, hkey, by rw [List.getElem?_append_left hlt, hplace]⟩
    · exact ⟨known.length, hkey, List.getElem?_concat_length⟩

namespace NameMaps

/-- Two maps hold names in the order of a list: every name is bound to the placeholder of its place,
and that placeholder to the name. -/
structure Holds (maps : NameMaps) (known : List String) : Prop where
  distinct : known.Nodup
  size : maps.names.size = known.length
  names : ∀ key name, maps.names.get? key = some name ↔
    ∃ number, key = namePlaceholder number ∧ known[number]? = some name
  byName : ∀ name key, maps.byName.get? name = some key ↔
    ∃ number, key = namePlaceholder number ∧ known[number]? = some name

namespace Holds

variable {maps maps' : NameMaps} {known : List String}

theorem empty : Holds {} [] where
  distinct := List.nodup_nil
  size := rfl
  names := fun key name => by simp [Bindings.get?_empty]
  byName := fun name key => by simp [Bindings.get?_empty]

/-- The maps are determined by the names that they hold. -/
theorem unique (h : maps.Holds known) (h' : maps'.Holds known) : maps = maps' := by
  obtain ⟨byName, names⟩ := maps
  obtain ⟨byName', names'⟩ := maps'
  have hbyName : byName = byName' := Bindings.ext_get? fun name => by
    ext key
    exact (h.byName name key).trans (h'.byName name key).symm
  have hnames : names = names' := Bindings.ext_get? fun key => by
    ext name
    exact (h.names key name).trans (h'.names key name).symm
  rw [hbyName, hnames]

/-- The next placeholder is new. -/
theorem get?_fresh (h : maps.Holds known) :
    maps.names.get? (namePlaceholder maps.names.size) = none := by
  rw [Option.eq_none_iff_forall_ne_some]
  intro name hname
  obtain ⟨number, hkey, hplace⟩ := (h.names _ name).1 hname
  obtain ⟨hlt, -⟩ := List.getElem?_eq_some_iff.1 hplace
  rw [h.size, namePlaceholder_inj] at hkey
  omega

theorem get?_byName_of_not_mem (h : maps.Holds known) {name : String} (hnew : name ∉ known) :
    maps.byName.get? name = none := by
  rw [Option.eq_none_iff_forall_ne_some]
  intro key hkey
  obtain ⟨number, -, hplace⟩ := (h.byName name key).1 hkey
  exact hnew (List.mem_of_getElem? hplace)

/-- A new name is put into both maps under its number. -/
theorem snoc (h : maps.Holds known) {name : String} (hnew : name ∉ known) :
    Holds
      { byName := maps.byName.insert name (namePlaceholder maps.names.size)
        names := maps.names.insert (namePlaceholder maps.names.size) name }
      (known ++ [name]) where
  distinct := by
    rw [List.nodup_append]
    refine ⟨h.distinct, List.nodup_singleton name, fun other hother last hlast heq => ?_⟩
    rw [List.mem_singleton] at hlast
    exact hnew (hlast ▸ heq ▸ hother)
  size := by
    rw [Bindings.size_insert h.get?_fresh, h.size, List.length_append, List.length_singleton]
  names := fun key other => by
    rw [exists_place_snoc, ← h.names, ← h.size, Bindings.get?_insert]
    split
    · next heq =>
      rw [heq, h.get?_fresh]
      simp [eq_comm]
    · next hne => simp [hne]
  byName := fun other key => by
    rw [exists_place_snoc, ← h.byName, ← h.size, Bindings.get?_insert]
    split
    · next heq =>
      rw [heq, h.get?_byName_of_not_mem hnew]
      simp [eq_comm]
    · next hne => simp [hne]

/-- A name has the same placeholder in two maps as in the list that they hold, and they go on
holding what the list goes on to. -/
theorem placeholder (h : maps.Holds known) (name : String) :
    (NameStore.placeholder maps name).1 = (NameStore.placeholder known name).1 ∧
      (NameStore.placeholder maps name).2.Holds (NameStore.placeholder known name).2 := by
  cases hknown : known.idxOf? name with
  | some number =>
    obtain ⟨hlt, hplace, -⟩ := List.idxOf?_eq_some_iff.1 hknown
    have hkey : maps.byName.get? name = some (namePlaceholder number) :=
      (h.byName _ _).2 ⟨number, rfl, List.getElem?_eq_some_iff.2 ⟨hlt, hplace⟩⟩
    simp only [NameStore.placeholder, hknown, hkey]
    exact ⟨trivial, h⟩
  | none =>
    have hnew : name ∉ known := List.idxOf?_eq_none_iff.1 hknown
    simp only [NameStore.placeholder, hknown, h.get?_byName_of_not_mem hnew]
    exact ⟨by rw [h.size], h.snoc hnew⟩

end Holds

end NameMaps

namespace Resolver

/-- A resolver over two maps stands for one over a list. -/
structure Mirrors (r : Resolver) (m : Resolver NameMaps) : Prop where
  passthrough : m.passthrough = r.passthrough
  holds : m.assigned.Holds r.assigned

theorem isSimulation_mirrors : IsSimulation Mirrors where
  isLeft := fun h _ => by rw [h.passthrough]
  placeholder := fun h name => by
    obtain ⟨htext, hholds⟩ := h.holds.placeholder name
    exact ⟨htext, h.passthrough, hholds⟩

variable {r : Resolver} {m m' : Resolver NameMaps}

theorem Mirrors.unique (h : r.Mirrors m) (h' : r.Mirrors m') : m = m' := by
  obtain ⟨passthrough, assigned⟩ := m
  obtain ⟨passthrough', assigned'⟩ := m'
  rw [Resolver.mk.injEq]
  exact ⟨h.passthrough.trans h'.passthrough.symm, h.holds.unique h'.holds⟩

theorem Mirrors.names (h : r.Mirrors m) : m.assigned.names = r.names :=
  Bindings.ext_get? fun key => by
    ext name
    rw [h.holds.names, get?_names_eq_some_iff]

/-- What a mirrored resolver writes without adding a name, two maps write without changing. -/
theorem Mirrors.write_of_settled (h : r.Mirrors m) (call : ResolverCall) {text : String}
    (hsettled : call.write r = (text, r)) : call.write m = (text, m) := by
  obtain ⟨htext, hnext⟩ := isSimulation_mirrors.write h call
  rw [hsettled] at htext hnext
  exact Prod.ext htext (hnext.unique h)

/-- Whatever a resolver over two maps has been called for, it mirrors the one over a list. -/
theorem after_mirrors (passthrough : List String) (calls : List ResolverCall) :
    (after passthrough calls).Mirrors (after passthrough calls NameMaps) :=
  isSimulation_mirrors.foldl_write ⟨rfl, .empty⟩ calls

/-- What the maps of a resolver are after calls. Names are numbered in the order of their first use,
and the placeholders are just those of the numbers; a placeholder stands for a name exactly where
the name has it. No call changes what an earlier one has put into either map, and so every text is
written the same again, without another name, and every path is read back from its text. -/
structure Numbers (passthrough : List String) (calls : List ResolverCall) (m : Resolver NameMaps) :
    Prop where
  numbered : ∀ number,
    m.assigned.names.get? (namePlaceholder number) = (firstUses passthrough calls)[number]?
  keys : ∀ key, key ∈ m.assigned.names.keys ↔
    ∃ number < (firstUses passthrough calls).length, key = namePlaceholder number
  inverse : ∀ key name,
    m.assigned.names.get? key = some name ↔ m.assigned.byName.get? name = some key
  stays : ∀ earlier later, calls = earlier ++ later → ∀ key name,
    ((after passthrough earlier NameMaps).assigned.names.get? key = some name →
      m.assigned.names.get? key = some name) ∧
    ((after passthrough earlier NameMaps).assigned.byName.get? name = some key →
      m.assigned.byName.get? name = some key)
  again : ∀ earlier call later, calls = earlier ++ call :: later →
    call.write m = ((call.write (after passthrough earlier NameMaps)).1, m)
  paths : ∀ earlier call later fields, calls = earlier ++ call :: later →
    call.paths? = some fields →
    ∃ texts, (call.write (after passthrough earlier NameMaps)).1 = Text.joinWith ", " texts ∧
      List.Forall₂
        (fun p text => m.path p = (text, m) ∧
          ('#' ∉ p.toList → restore m.assigned.names text = p))
        fields texts

/-- **Names keep their numbers**, in both maps, whatever a resolver is called for. -/
theorem after_numbers (passthrough : List String) (calls : List ResolverCall) :
    Numbers passthrough calls (after passthrough calls NameMaps) := by
  have hmirrors := after_mirrors passthrough calls
  have hinverse (calls : List ResolverCall) (key name : String) :
      (after passthrough calls NameMaps).assigned.names.get? key = some name ↔
        (after passthrough calls NameMaps).assigned.byName.get? name = some key := by
    have hholds := (after_mirrors passthrough calls).holds
    rw [hholds.names, hholds.byName]
  constructor
  case numbered =>
    intro number
    ext name
    rw [hmirrors.holds.names, after_eq]
    constructor
    · rintro ⟨other, heq, hname⟩
      rwa [namePlaceholder_inj.1 heq]
    · intro hname
      exact ⟨number, rfl, hname⟩
  case keys =>
    intro key
    rw [hmirrors.names, mem_keys_names, after_eq]
  case inverse => exact hinverse calls
  case stays =>
    rintro earlier later rfl key name
    have hnames (key name : String)
        (hname : (after passthrough earlier NameMaps).assigned.names.get? key = some name) :
        (after passthrough (earlier ++ later) NameMaps).assigned.names.get? key = some name := by
      rw [(after_mirrors passthrough earlier).names] at hname
      rw [hmirrors.names]
      exact (after_extends passthrough earlier later).get?_names hname
    refine ⟨hnames key name, fun hkey => ?_⟩
    exact (hinverse _ _ _).1 (hnames key name ((hinverse _ _ _).2 hkey))
  case again =>
    rintro earlier call later rfl
    rw [(isSimulation_mirrors.write (after_mirrors passthrough earlier) call).1]
    exact hmirrors.write_of_settled call (write_again passthrough earlier call later)
  case paths =>
    rintro earlier call later fields rfl hpaths
    obtain ⟨texts, htexts, hall⟩ := paths_again passthrough earlier later hpaths
    rw [(isSimulation_mirrors.write (after_mirrors passthrough earlier) call).1]
    refine ⟨texts, htexts, hall.imp fun p text ⟨hpath, hrestored⟩ => ⟨?_, ?_⟩⟩
    · exact hmirrors.write_of_settled (.path p) hpath
    · rwa [hmirrors.names]

example :
    (Resolver.after ["name"]
      [.path "data.items[0]", .expression "name = :v AND date > #x", .projection ["age", "items"],
        .literal "a.b"] NameMaps).assigned.names.toList =
      [("#n0", "data"), ("#n1", "items"), ("#n2", "date"), ("#n3", "a.b")] := by decide +kernel

end Resolver

end ItemTable.Expression
