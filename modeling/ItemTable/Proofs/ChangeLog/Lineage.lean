import ItemTable.ChangeLog.Shard

/-!
# The order in which shards are read

Going up from a shard through its parents ends, whatever the shards say about their parents:
`Climbs` has no bound on its length, and the bound of `lineage` is never reached (`climbs_lineage`).
Every described shard is read, and read as often as it is described: `lineageOrder_perm`.
-/
namespace ItemTable.ChangeLog

variable {shards : List Shard}

theorem placeOf?_lt {id : String} {place : Nat} (h : placeOf? shards id = some place) :
    place < shards.length := by
  unfold placeOf? at h
  obtain ⟨entry, hlast, rfl⟩ := Option.map_eq_some_iff.1 h
  have hmem := (List.mem_filter.1 (List.mem_of_getLast? hlast)).1
  exact (List.mem_zipIdx' hmem).1

theorem parentPlace?_lt {place parent : Nat} (h : parentPlace? shards place = some parent) :
    parent < shards.length := by
  obtain ⟨id, -, hplace⟩ := Option.bind_eq_some_iff.1 h
  exact placeOf?_lt hplace

theorem lt_of_parentPlace? {place parent : Nat} (h : parentPlace? shards place = some parent) :
    place < shards.length := by
  obtain ⟨id, hid, -⟩ := Option.bind_eq_some_iff.1 h
  obtain ⟨shard, hshard, -⟩ := Option.bind_eq_some_iff.1 hid
  exact (List.getElem?_eq_some_iff.1 hshard).1

/-- The places that are met on the way up from a place, through parents, until one is placed already
or has no parent among the shards. The eldest comes first. -/
inductive Climbs (shards : List Shard) : List Nat → Nat → List Nat → Prop where
  | placed {placed : List Nat} {place : Nat} (hplaced : place ∈ placed) :
      Climbs shards placed place []
  | eldest {placed : List Nat} {place : Nat} (hnew : place ∉ placed)
      (hparent : parentPlace? shards place = none) : Climbs shards placed place [place]
  | child {placed path : List Nat} {place parent : Nat} (hnew : place ∉ placed)
      (hparent : parentPlace? shards place = some parent)
      (hpath : Climbs shards (place :: placed) parent path) :
      Climbs shards placed place (path ++ [place])

/-- The places of shards that are not placed yet. -/
def freePlaces (shards : List Shard) (placed : List Nat) : List Nat :=
  (List.range shards.length).filter (· ∉ placed)

theorem freePlaces_cons_lt {placed : List Nat} {place : Nat} (hlt : place < shards.length)
    (hnew : place ∉ placed) :
    (freePlaces shards (place :: placed)).length < (freePlaces shards placed).length := by
  have hfilter : freePlaces shards (place :: placed) =
      (freePlaces shards placed).filter (· ≠ place) := by
    rw [freePlaces, freePlaces, List.filter_filter]
    refine List.filter_congr fun p _ => ?_
    simp
  rw [hfilter, List.length_filter_lt_length_iff_exists]
  exact ⟨place, List.mem_filter.2 ⟨List.mem_range.2 hlt, by simpa using hnew⟩, by simp⟩

/-- A lineage is climbed to its end if its bound is above the number of free places. -/
theorem climbs_of_lt {fuel : Nat} {placed : List Nat} (place : Nat)
    (hfuel : (freePlaces shards placed).length < fuel) :
    Climbs shards placed place (lineage shards placed fuel place) := by
  induction fuel generalizing placed place with
  | zero => exact absurd hfuel (Nat.not_lt_zero _)
  | succ fuel ih =>
    by_cases hplaced : place ∈ placed
    · rw [lineage, if_pos hplaced]
      exact .placed hplaced
    · rw [lineage, if_neg hplaced]
      cases hparent : parentPlace? shards place with
      | none => exact .eldest hplaced hparent
      | some parent =>
        have hless := freePlaces_cons_lt (lt_of_parentPlace? hparent) hplaced
        exact .child hplaced hparent (ih parent (by omega))

/-- The bound of a lineage is never reached. -/
theorem climbs_lineage (placed : List Nat) (place : Nat) :
    Climbs shards placed place (lineage shards placed (shards.length + 1) place) := by
  have hfree : (freePlaces shards placed).length ≤ (List.range shards.length).length :=
    List.length_filter_le _ _
  rw [List.length_range] at hfree
  exact climbs_of_lt place (Nat.lt_succ_of_le hfree)

namespace Climbs

variable {placed path : List Nat} {place : Nat}

/-- A lineage is made of new places of shards, each of them once. -/
theorem new (h : Climbs shards placed place path) (hplace : place < shards.length) :
    path.Nodup ∧ ∀ p ∈ path, p ∉ placed ∧ p < shards.length := by
  induction h with
  | placed hplaced => exact ⟨List.nodup_nil, by simp⟩
  | eldest hnew hparent =>
    refine ⟨List.pairwise_singleton _ _, fun p hp => ?_⟩
    rw [List.mem_singleton.1 hp]
    exact ⟨hnew, hplace⟩
  | @child placed path place parent hnew hparent hpath ih =>
    obtain ⟨hnodup, hall⟩ := ih (parentPlace?_lt hparent)
    refine ⟨List.nodup_append.2 ⟨hnodup, List.pairwise_singleton _ _, ?_⟩, fun p hp => ?_⟩
    · intro p hp q hq heq
      rw [List.mem_singleton.1 hq] at heq
      exact (hall p hp).1 (heq ▸ List.mem_cons_self)
    · rcases List.mem_append.1 hp with hp | hp
      · exact ⟨fun hin => (hall p hp).1 (List.mem_cons_of_mem _ hin), (hall p hp).2⟩
      · rw [List.mem_singleton.1 hp]
        exact ⟨hnew, hplace⟩

/-- A start is placed by its lineage, unless it was placed before. -/
theorem mem (h : Climbs shards placed place path) : place ∈ placed ∨ place ∈ path := by
  cases h with
  | placed hplaced => exact .inl hplaced
  | eldest hnew hparent => exact .inr (List.mem_singleton.2 rfl)
  | child hnew hparent hpath => exact .inr (List.mem_append_right _ (List.mem_singleton.2 rfl))

end Climbs

/-- The places after the lineage of a start. -/
def placeLineage (shards : List Shard) (placed : List Nat) (start : Nat) : List Nat :=
  placed ++ lineage shards placed (shards.length + 1) start

theorem lineagePlaces_eq (shards : List Shard) :
    lineagePlaces shards = (List.range shards.length).foldl (placeLineage shards) [] := rfl

theorem prefix_foldl_placeLineage (starts placed : List Nat) :
    placed <+: starts.foldl (placeLineage shards) placed := by
  induction starts generalizing placed with
  | nil => exact List.prefix_rfl
  | cons start starts ih => exact (List.prefix_append _ _).trans (ih _)

/-- Placing the lineages of several starts places each start, and every place once. -/
theorem foldl_placeLineage (starts placed : List Nat) (hstarts : ∀ s ∈ starts, s < shards.length)
    (hnodup : placed.Nodup) (hplaced : ∀ p ∈ placed, p < shards.length) :
    let order := starts.foldl (placeLineage shards) placed
    order.Nodup ∧ (∀ p ∈ order, p < shards.length) ∧ ∀ p ∈ starts, p ∈ order := by
  induction starts generalizing placed with
  | nil => exact ⟨hnodup, hplaced, by simp⟩
  | cons start starts ih =>
    have hclimbs : Climbs shards placed start _ := climbs_lineage placed start
    obtain ⟨hlineage, hnew⟩ := hclimbs.new (hstarts start List.mem_cons_self)
    obtain ⟨hnodup', hlt, hmem⟩ := ih (placeLineage shards placed start)
      (fun s hs => hstarts s (List.mem_cons_of_mem _ hs))
      (List.nodup_append.2 ⟨hnodup, hlineage, fun p hp q hq heq => (hnew q hq).1 (heq ▸ hp)⟩)
      (fun p hp => (List.mem_append.1 hp).elim (hplaced p) fun h => (hnew p h).2)
    refine ⟨hnodup', hlt, fun p hp => ?_⟩
    rcases List.mem_cons.1 hp with rfl | hp
    · exact (prefix_foldl_placeLineage starts _).subset (List.mem_append.2 hclimbs.mem)
    · exact hmem p hp

theorem lineagePlaces_perm (shards : List Shard) :
    (lineagePlaces shards).Perm (List.range shards.length) := by
  obtain ⟨hnodup, hlt, hmem⟩ := foldl_placeLineage (List.range shards.length) []
    (fun s hs => List.mem_range.1 hs) List.nodup_nil (by simp)
  refine (List.perm_ext_iff_of_nodup hnodup List.nodup_range).2 fun p => ?_
  exact ⟨fun hp => List.mem_range.2 (hlt p hp), fun hp => hmem p hp⟩

theorem filterMap_range_getElem? {α : Type} (l : List α) :
    (List.range l.length).filterMap (l[·]?) = l := by
  induction l with
  | nil => rfl
  | cons a l ih =>
    rw [List.length_cons, List.range_succ_eq_map, List.filterMap_cons, List.filterMap_map]
    have hrest : ((a :: l)[·]?) ∘ Nat.succ = (l[·]?) := funext fun i => List.getElem?_cons_succ
    rw [hrest, ih]
    rfl

/-- The shards are read in an order of their own: none is lost and none is added. -/
theorem lineageOrder_perm (shards : List Shard) : (lineageOrder shards).Perm shards := by
  have hperm := (lineagePlaces_perm shards).filterMap (shards[·]?)
  rwa [filterMap_range_getElem?] at hperm

end ItemTable.ChangeLog
