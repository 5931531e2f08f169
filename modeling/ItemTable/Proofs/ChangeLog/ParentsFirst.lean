import ItemTable.Proofs.ChangeLog.Lineage
import Mathlib.Data.List.Nodup
import Mathlib.Logic.Relation

/-!
# Parents are read ahead of their children

If ids differ and no shard descends from itself, every shard comes behind its parent. Whatever the
links are, only ancestors of a shard, or of one described before it, are moved ahead of it, so that
shards that are described with their parents first keep their order: `lineageOrder_keeps_lineages`.
The places of the shards are treated first; `isParentPlace_iff` says what their links mean for the
shards.
-/
namespace ItemTable.ChangeLog

open Relation

variable {shards : List Shard}

/-- The shard at one place is the parent of the shard at another. -/
def IsParentPlace (shards : List Shard) (parent child : Nat) : Prop :=
  parentPlace? shards child = some parent

/-- A described shard is the parent of another one. -/
def IsParent (shards : List Shard) (parent child : Shard) : Prop :=
  parent ∈ shards ∧ child ∈ shards ∧ child.parent = some parent.id

/-- A shard is a parent, or a parent of a parent, and so on. -/
def IsAncestor (shards : List Shard) : Shard → Shard → Prop := TransGen (IsParent shards)

/-- No shard descends from itself. -/
def IsAcyclic (shards : List Shard) : Prop := ∀ shard, ¬IsAncestor shards shard shard

namespace Climbs

variable {placed path : List Nat} {place : Nat}

theorem eq_nil (h : Climbs shards placed place path) (hplaced : place ∈ placed) : path = [] := by
  cases h with
  | placed => rfl
  | eldest hnew hnone => exact absurd hplaced hnew
  | child hnew hparent hpath => exact absurd hplaced hnew

/-- Only ancestors are met on the way up. -/
theorem ancestors (h : Climbs shards placed place path) :
    ∀ p ∈ path, ReflTransGen (IsParentPlace shards) p place := by
  induction h with
  | placed hplaced => exact fun p hp => absurd hp List.not_mem_nil
  | eldest hnew hparent =>
    intro p hp
    rw [List.mem_singleton.1 hp]
  | child hnew hparent hpath ih =>
    intro p hp
    rcases List.mem_append.1 hp with hp | hp
    · exact (ih p hp).tail hparent
    · rw [List.mem_singleton.1 hp]

/-- A lineage has every parent ahead of its child, unless the parent was placed before. The places
that have been met below are descendants, and no parent is among them if there is no cycle. -/
theorem parents_first (hacyclic : ∀ p, ¬TransGen (IsParentPlace shards) p p) (below done : List Nat)
    (h : Climbs shards (below ++ done) place path)
    (hbelow : ∀ p ∈ below, TransGen (IsParentPlace shards) place p) :
    ∀ child ∈ path, ∀ parent, IsParentPlace shards parent child →
      parent ∈ done ∨ [parent, child].Sublist path := by
  generalize hplaced : below ++ done = placed at h
  induction h generalizing below with
  | placed hin => exact fun child hchild => absurd hchild List.not_mem_nil
  | eldest hnew hnone =>
    intro child hchild parent hparent
    rw [List.mem_singleton.1 hchild, IsParentPlace, hnone] at hparent
    cases hparent
  | @child placed path place next hnew hnext hpath ih =>
    subst hplaced
    have hbelow' : ∀ p ∈ place :: below, TransGen (IsParentPlace shards) next p := by
      intro p hp
      rcases List.mem_cons.1 hp with rfl | hp
      · exact .single hnext
      · exact .head hnext (hbelow p hp)
    intro child hchild parent hparent
    rcases List.mem_append.1 hchild with hchild | hchild
    · refine (ih (place :: below) hbelow' rfl child hchild parent hparent).imp_right fun hsub => ?_
      exact hsub.trans (List.sublist_append_left _ _)
    · obtain rfl := List.mem_singleton.1 hchild
      obtain rfl : next = parent := Option.some.inj (hnext.symm.trans hparent)
      rcases hpath.mem with hin | hin
      · -- a parent that was met below would be its own ancestor
        rcases List.mem_append.1 (show next ∈ (child :: below) ++ done from hin) with hin | hin
        · exact absurd (hbelow' next hin) (hacyclic next)
        · exact .inl hin
      · exact .inr ((List.singleton_sublist.2 hin).append (List.Sublist.refl [child]))

end Climbs

/-- Every place is behind that of its parent. -/
def ParentsPlacedFirst (shards : List Shard) (order : List Nat) : Prop :=
  ∀ child ∈ order, ∀ parent, IsParentPlace shards parent child → [parent, child].Sublist order

theorem ParentsPlacedFirst.placeLineage (hacyclic : ∀ p, ¬TransGen (IsParentPlace shards) p p)
    {placed : List Nat} (h : ParentsPlacedFirst shards placed) (start : Nat) :
    ParentsPlacedFirst shards (placeLineage shards placed start) := by
  intro child hchild parent hparent
  rcases List.mem_append.1 hchild with hchild | hchild
  · exact (h child hchild parent hparent).trans (List.sublist_append_left _ _)
  · have hfirst := Climbs.parents_first hacyclic [] placed (climbs_lineage placed start)
      fun p hp => absurd hp List.not_mem_nil
    rcases hfirst child hchild parent hparent with hin | hsub
    · exact (List.singleton_sublist.2 hin).append (List.singleton_sublist.2 hchild)
    · exact hsub.trans (List.sublist_append_right _ _)

theorem parentsPlacedFirst_lineagePlaces (hacyclic : ∀ p, ¬TransGen (IsParentPlace shards) p p) :
    ParentsPlacedFirst shards (lineagePlaces shards) := by
  rw [lineagePlaces_eq]
  refine List.foldlRecOn _ _ (motive := ParentsPlacedFirst shards) ?_
    fun placed hplaced start _ => ?_
  · exact fun child hchild => absurd hchild List.not_mem_nil
  · exact hplaced.placeLineage hacyclic start

/-- What is placed for some starts are these starts and their ancestors. -/
theorem ancestor_of_mem_foldl {starts placed : List Nat} {p : Nat}
    (h : p ∈ starts.foldl (placeLineage shards) placed) :
    p ∈ placed ∨ ∃ start ∈ starts, ReflTransGen (IsParentPlace shards) p start := by
  induction starts generalizing placed with
  | nil => exact .inl h
  | cons start starts ih =>
    rcases ih h with hp | ⟨other, hother, hancestor⟩
    · refine (List.mem_append.1 hp).imp_right fun hp => ?_
      exact ⟨start, List.mem_cons_self, (climbs_lineage placed start).ancestors p hp⟩
    · exact .inr ⟨other, List.mem_cons_of_mem _ hother, hancestor⟩

/-- What comes ahead of something in the first part of a list is in that part too. -/
theorem mem_of_pair_sublist_append {α : Type} {a b : α} {first rest : List α}
    (h : [a, b].Sublist (first ++ rest)) (hb : b ∉ rest) : a ∈ first := by
  obtain ⟨front, back, heq, hfront, hback⟩ := List.sublist_append_iff.1 h
  cases front with
  | nil =>
    rw [List.nil_append] at heq
    exact absurd (hback.subset (heq ▸ by simp)) hb
  | cons c front =>
    obtain ⟨rfl, -⟩ := List.cons.inj heq
    exact hfront.subset List.mem_cons_self

/-- A place is moved ahead of an earlier one only with a lineage of that place or of one before
it. -/
theorem ancestor_of_moved {moved place : Nat} (hlt : place < moved)
    (h : [moved, place].Sublist (lineagePlaces shards)) :
    ∃ start ≤ place, TransGen (IsParentPlace shards) moved start := by
  have hplace : place < shards.length :=
    List.mem_range.1 ((lineagePlaces_perm shards).mem_iff.1 (h.subset (by simp)))
  -- the places after all starts up to this one, and those that come behind them
  obtain ⟨later, hlater⟩ : List.range (place + 1) <+: List.range shards.length := by
    refine List.prefix_iff_eq_take.2 ?_
    rw [List.length_range, List.take_range, Nat.min_eq_left hplace]
  obtain ⟨rest, hrest⟩ : (List.range (place + 1)).foldl (placeLineage shards) [] <+: _ :=
    prefix_foldl_placeLineage later _
  rw [← List.foldl_append, hlater, ← lineagePlaces_eq] at hrest
  have hfirst : place ∈ (List.range (place + 1)).foldl (placeLineage shards) [] := by
    obtain ⟨-, -, hstarts⟩ := foldl_placeLineage (List.range (place + 1)) []
      (fun s hs => Nat.lt_of_lt_of_le (List.mem_range.1 hs) hplace) List.nodup_nil (by simp)
    exact hstarts place (List.mem_range.2 (Nat.lt_succ_self place))
  have hnodup : (lineagePlaces shards).Nodup :=
    (lineagePlaces_perm shards).nodup_iff.2 List.nodup_range
  rw [← hrest] at h hnodup
  have hmoved := mem_of_pair_sublist_append h fun hin =>
    (List.nodup_append.1 hnodup).2.2 place hfirst place hin rfl
  obtain ⟨start, hstart, hancestor⟩ := (ancestor_of_mem_foldl hmoved).resolve_left List.not_mem_nil
  have hle := List.mem_range.1 hstart
  rcases reflTransGen_iff_eq_or_transGen.1 hancestor with rfl | hancestor
  · omega
  · exact ⟨start, by omega, hancestor⟩

/-- Places with their parents first are left as they are. -/
theorem lineagePlaces_eq_range
    (h : ∀ parent child, IsParentPlace shards parent child → parent < child) :
    lineagePlaces shards = List.range shards.length := by
  rw [lineagePlaces_eq]
  generalize shards.length = count
  induction count with
  | zero => rfl
  | succ count ih =>
    have hlineage : lineage shards (List.range count) (shards.length + 1) count = [count] := by
      have hclimbs : Climbs shards (List.range count) count _ :=
        climbs_lineage (List.range count) count
      generalize lineage shards (List.range count) (shards.length + 1) count = path at hclimbs ⊢
      cases hclimbs with
      | placed hplaced => exact absurd hplaced List.not_mem_range_self
      | eldest hnew hnone => rfl
      | child hnew hparent hpath =>
        have hplaced := List.mem_cons_of_mem count (List.mem_range.2 (h _ _ hparent))
        rw [hpath.eq_nil hplaced, List.nil_append]
    rw [List.range_succ, List.foldl_append, ih, List.foldl_cons, List.foldl_nil, placeLineage,
      hlineage]

/-- Shards with one id are at one place if ids differ. -/
theorem place_inj (hids : (shards.map Shard.id).Nodup) {place other : Nat} {shard twin : Shard}
    (h : shards[place]? = some shard) (h' : shards[other]? = some twin) (hid : twin.id = shard.id) :
    place = other := by
  have hlt : place < (shards.map Shard.id).length := by
    rw [List.length_map]
    exact (List.getElem?_eq_some_iff.1 h).1
  refine (List.getElem?_inj hlt hids).1 ?_
  rw [List.getElem?_map, List.getElem?_map, h, h', Option.map_some, Option.map_some, hid]

/-- An id that is described once is found at its place. -/
theorem placeOf?_eq_some_iff (hids : (shards.map Shard.id).Nodup) {id : String} {place : Nat} :
    placeOf? shards id = some place ↔ ∃ shard, shards[place]? = some shard ∧ shard.id = id := by
  have hfound {place : Nat} (h : placeOf? shards id = some place) :
      ∃ shard, shards[place]? = some shard ∧ shard.id = id := by
    obtain ⟨entry, hlast, rfl⟩ := Option.map_eq_some_iff.1 h
    obtain ⟨hentry, hid⟩ := List.mem_filter.1 (List.mem_of_getLast? hlast)
    exact ⟨entry.1, List.mem_zipIdx_iff_getElem?.1 hentry, of_decide_eq_true hid⟩
  refine ⟨hfound, ?_⟩
  rintro ⟨shard, hshard, rfl⟩
  have hentry : (shard, place) ∈ shards.zipIdx.filter fun s => s.1.id = shard.id :=
    List.mem_filter.2 ⟨List.mem_zipIdx_iff_getElem?.2 hshard, decide_eq_true rfl⟩
  obtain ⟨last, hlast⟩ := Option.isSome_iff_exists.1
    (List.getLast?_isSome.2 (List.ne_nil_of_mem hentry))
  have hplace : placeOf? shards shard.id = some last.2 := by rw [placeOf?, hlast]; rfl
  obtain ⟨other, hother, hid⟩ := hfound hplace
  rw [hplace, place_inj hids hshard hother hid]

/-- If ids differ, places are linked as their shards are. -/
theorem isParentPlace_iff (hids : (shards.map Shard.id).Nodup) {place other : Nat} :
    IsParentPlace shards place other ↔
      ∃ parent child, shards[place]? = some parent ∧ shards[other]? = some child ∧
        child.parent = some parent.id := by
  rw [IsParentPlace, parentPlace?]
  constructor
  · intro h
    obtain ⟨id, hid, hplace⟩ := Option.bind_eq_some_iff.1 h
    obtain ⟨child, hchild, hparent⟩ := Option.bind_eq_some_iff.1 hid
    obtain ⟨parent, hshard, rfl⟩ := (placeOf?_eq_some_iff hids).1 hplace
    exact ⟨parent, child, hshard, hchild, hparent⟩
  · rintro ⟨parent, child, hshard, hchild, hparent⟩
    rw [hchild, Option.bind_some, hparent, Option.bind_some, placeOf?_eq_some_iff hids]
    exact ⟨parent, hshard, rfl⟩

theorem isAncestor_of_places (hids : (shards.map Shard.id).Nodup) {place other : Nat}
    (h : TransGen (IsParentPlace shards) place other) :
    ∃ elder younger, shards[place]? = some elder ∧ shards[other]? = some younger ∧
      IsAncestor shards elder younger := by
  have hlink {place other : Nat} (h : IsParentPlace shards place other) :
      ∃ parent child, shards[place]? = some parent ∧ shards[other]? = some child ∧
        IsParent shards parent child := by
    obtain ⟨parent, child, hparent, hchild, hlinked⟩ := (isParentPlace_iff hids).1 h
    exact ⟨parent, child, hparent, hchild, List.mem_of_getElem? hparent,
      List.mem_of_getElem? hchild, hlinked⟩
  induction h with
  | single h =>
    obtain ⟨parent, child, hparent, hchild, hlinked⟩ := hlink h
    exact ⟨parent, child, hparent, hchild, .single hlinked⟩
  | tail _ h ih =>
    obtain ⟨elder, younger, helder, hyounger, hancestor⟩ := ih
    obtain ⟨parent, child, hparent, hchild, hlinked⟩ := hlink h
    obtain rfl : younger = parent := Option.some.inj (hyounger.symm.trans hparent)
    exact ⟨elder, child, helder, hchild, hancestor.tail hlinked⟩

/-- Two elements of a filtered list come from two elements in the same order. -/
theorem pair_sublist_filterMap {α β : Type} {f : α → Option β} {l : List α} {b b' : β}
    (h : [b, b'].Sublist (l.filterMap f)) :
    ∃ a a', [a, a'].Sublist l ∧ f a = some b ∧ f a' = some b' := by
  obtain ⟨kept, hkept, heq⟩ := List.sublist_filterMap_iff.1 h
  obtain ⟨front, a, behind, rfl, -, ha, hrest⟩ := List.filterMap_eq_cons_iff.1 heq.symm
  obtain ⟨between, a', last, rfl, -, ha', -⟩ := List.filterMap_eq_cons_iff.1 hrest
  refine ⟨a, a', List.Sublist.trans ?_ hkept, ha, ha'⟩
  simp

theorem pair_sublist_iff_getElem? {α : Type} {l : List α} {a b : α} :
    [a, b].Sublist l ↔ ∃ i j : Nat, i < j ∧ l[i]? = some a ∧ l[j]? = some b := by
  constructor
  · intro h
    rw [← filterMap_range_getElem? l] at h
    obtain ⟨i, j, hsub, ha, hb⟩ := pair_sublist_filterMap h
    exact ⟨i, j, List.pairwise_iff_forall_sublist.1 List.pairwise_lt_range hsub, ha, hb⟩
  · rintro ⟨i, j, hlt, ha, hb⟩
    have hfirst : a ∈ l.take j := List.mem_of_getElem? (by rwa [List.getElem?_take_of_lt hlt])
    have hsecond : b ∈ l.drop j := List.mem_of_getElem? (i := 0) (by rwa [List.getElem?_drop])
    have hboth := (List.singleton_sublist.2 hfirst).append (List.singleton_sublist.2 hsecond)
    rwa [List.take_append_drop] at hboth

theorem pair_sublist_lineageOrder {place other : Nat}
    (h : [place, other].Sublist (lineagePlaces shards)) {shard next : Shard}
    (hshard : shards[place]? = some shard) (hnext : shards[other]? = some next) :
    [shard, next].Sublist (lineageOrder shards) := by
  have hsub := h.filterMap (shards[·]?)
  simpa [lineageOrder, hshard, hnext] using hsub

/-- Every shard is behind its parent. -/
theorem parent_ahead (hids : (shards.map Shard.id).Nodup) (hacyclic : IsAcyclic shards)
    {parent child : Shard} (h : IsParent shards parent child) :
    [parent, child].Sublist (lineageOrder shards) := by
  have hplaces (place : Nat) : ¬TransGen (IsParentPlace shards) place place := by
    intro hcycle
    obtain ⟨elder, younger, helder, hyounger, hancestor⟩ := isAncestor_of_places hids hcycle
    obtain rfl : elder = younger := Option.some.inj (helder.symm.trans hyounger)
    exact hacyclic elder hancestor
  obtain ⟨hparent, hchild, hlinked⟩ := h
  obtain ⟨place, hplace⟩ := List.mem_iff_getElem?.1 hparent
  obtain ⟨other, hother⟩ := List.mem_iff_getElem?.1 hchild
  have hin : other ∈ lineagePlaces shards :=
    (lineagePlaces_perm shards).mem_iff.2 (List.mem_range.2 (List.getElem?_eq_some_iff.1 hother).1)
  refine pair_sublist_lineageOrder ?_ hplace hother
  exact parentsPlacedFirst_lineagePlaces hplaces other hin place
    ((isParentPlace_iff hids).2 ⟨parent, child, hplace, hother, hlinked⟩)

/-- A shard is moved ahead of an earlier one only as an ancestor of that one or of one before it. -/
theorem moved_ahead (hids : (shards.map Shard.id).Nodup) {moved shard : Shard}
    (hbehind : [shard, moved].Sublist shards)
    (hahead : [moved, shard].Sublist (lineageOrder shards)) :
    ∃ start, (start = shard ∨ [start, shard].Sublist shards) ∧ IsAncestor shards moved start := by
  obtain ⟨place, other, hlt, hshard, hmoved⟩ := pair_sublist_iff_getElem?.1 hbehind
  obtain ⟨other', place', hsub, hmoved', hshard'⟩ := pair_sublist_filterMap hahead
  obtain rfl := place_inj hids hshard hshard' rfl
  obtain rfl := place_inj hids hmoved hmoved' rfl
  obtain ⟨start, hle, hancestor⟩ := ancestor_of_moved hlt hsub
  obtain ⟨elder, younger, helder, hyounger, hancestor⟩ := isAncestor_of_places hids hancestor
  obtain rfl : moved = elder := Option.some.inj (hmoved.symm.trans helder)
  refine ⟨younger, ?_, hancestor⟩
  rcases Nat.eq_or_lt_of_le hle with rfl | hlt
  · exact .inl (Option.some.inj (hyounger.symm.trans hshard))
  · exact .inr (pair_sublist_iff_getElem?.2 ⟨start, place, hlt, hyounger, hshard⟩)

theorem lineageOrder_of_parents_first (hids : (shards.map Shard.id).Nodup)
    (h : ∀ parent child, IsParent shards parent child → [parent, child].Sublist shards) :
    lineageOrder shards = shards := by
  have hplaces (place other : Nat) (hlink : IsParentPlace shards place other) : place < other := by
    obtain ⟨parent, child, hparent, hchild, hlinked⟩ := (isParentPlace_iff hids).1 hlink
    have hsub := h parent child
      ⟨List.mem_of_getElem? hparent, List.mem_of_getElem? hchild, hlinked⟩
    obtain ⟨place', other', hlt, hparent', hchild'⟩ := pair_sublist_iff_getElem?.1 hsub
    obtain rfl := place_inj hids hparent hparent' rfl
    obtain rfl := place_inj hids hchild hchild' rfl
    exact hlt
  rw [lineageOrder, lineagePlaces_eq_range hplaces, filterMap_range_getElem?]

/-- **Shards are read with their lineages ahead of them.** The way up from a start always ends, and
every shard is read once for each time that it is described. If ids differ and no shard descends
from itself, every shard is behind its parent. Only ancestors of a shard, or of one described before
it, are moved ahead of it, and a description with parents first is kept as it is. -/
theorem lineageOrder_keeps_lineages (shards : List Shard) :
    (∀ placed start, Climbs shards placed start (lineage shards placed (shards.length + 1) start)) ∧
    (lineageOrder shards).Perm shards ∧
    ((shards.map Shard.id).Nodup →
      (IsAcyclic shards → ∀ parent child, IsParent shards parent child →
        [parent, child].Sublist (lineageOrder shards)) ∧
      (∀ moved shard, [shard, moved].Sublist shards → [moved, shard].Sublist (lineageOrder shards) →
        ∃ start, (start = shard ∨ [start, shard].Sublist shards) ∧ IsAncestor shards moved start) ∧
      ((∀ parent child, IsParent shards parent child → [parent, child].Sublist shards) →
        lineageOrder shards = shards)) :=
  ⟨climbs_lineage, lineageOrder_perm shards, fun hids =>
    ⟨fun hacyclic _ _ => parent_ahead hids hacyclic, fun _ _ => moved_ahead hids,
      lineageOrder_of_parents_first hids⟩⟩

-- where shards are their own ancestors, the way up ends at the first one that it meets again
example : (lineageOrder [⟨"a", some "b"⟩, ⟨"b", some "a"⟩, ⟨"c", some "c"⟩]).map Shard.id =
    ["b", "a", "c"] := by decide

/-- Shards without cycle: there is a number that is larger for every child. -/
theorem isAcyclic_of_lt (rank : Shard → Nat)
    (h : ∀ parent ∈ shards, ∀ child ∈ shards, child.parent = some parent.id →
      rank parent < rank child) :
    IsAcyclic shards := by
  intro shard hcycle
  have hlt : TransGen (· < ·) (rank shard) (rank shard) :=
    hcycle.lift rank fun parent child hlink => h parent hlink.1 child hlink.2.1 hlink.2.2
  rw [transGen_eq_self] at hlt
  exact Nat.lt_irrefl _ hlt

/-- A fork and a shard whose parent is gone, described in no good order. -/
def forkedShards : List Shard :=
  [⟨"c", some "b"⟩, ⟨"x", some "gone"⟩, ⟨"b", some "a"⟩, ⟨"a", none⟩, ⟨"d", some "a"⟩]

def sortedShards : List Shard := [⟨"a", none⟩, ⟨"d", some "a"⟩, ⟨"b", some "a"⟩]

theorem forkedShards_lineages :
    (forkedShards.map Shard.id).Nodup ∧ IsAcyclic forkedShards ∧
      (lineageOrder forkedShards).map Shard.id = ["a", "b", "c", "x", "d"] ∧
      (∀ parent child, IsParent forkedShards parent child →
        [parent, child].Sublist (lineageOrder forkedShards)) ∧
      (∃ start, (start = ⟨"x", some "gone"⟩ ∨ [start, ⟨"x", some "gone"⟩].Sublist forkedShards) ∧
        IsAncestor forkedShards ⟨"a", none⟩ start) ∧
      lineageOrder sortedShards = sortedShards := by
  have hids : (forkedShards.map Shard.id).Nodup := by decide
  have hacyclic : IsAcyclic forkedShards :=
    isAcyclic_of_lt (fun shard => ["a", "b", "c", "d"].idxOf shard.id) (by decide)
  have hsorted : ∀ parent ∈ sortedShards, ∀ child ∈ sortedShards, child.parent = some parent.id →
      [parent, child].Sublist sortedShards := by
    decide
  obtain ⟨-, -, hlineages⟩ := lineageOrder_keeps_lineages forkedShards
  obtain ⟨hahead, hmoved, -⟩ := hlineages hids
  obtain ⟨-, -, hlineages⟩ := lineageOrder_keeps_lineages sortedShards
  obtain ⟨-, -, hkept⟩ := hlineages (by decide)
  exact ⟨hids, hacyclic, by decide, hahead hacyclic, hmoved _ _ (by decide) (by decide),
    hkept fun parent child hlink => hsorted parent hlink.1 child hlink.2.1 hlink.2.2⟩

end ItemTable.ChangeLog
