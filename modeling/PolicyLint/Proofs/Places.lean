import Mathlib.Data.List.Sort

/-!
# Lists in the order of places

`ListsAll stands found` says that a list holds everything that stands somewhere, with its place,
in the order of the places. There is only one such list (`ListsAll.unique`).

Where the items of a list have ascending keys and hold things at places of their own, each of
these places goes behind the key of its item (`StandsUnder`). What is listed item after item is
then in the lexicographic order of places (`exists_listsAll_standsUnder`). The positions of the
items are such keys (`StandsWithin`, `exists_listsAll_standsWithin`).
-/

namespace PolicyLint

/-- `found` holds everything that stands somewhere, in the order of the places. -/
structure ListsAll {π : Type} [LT π] {α : Type} (stands : π → α → Prop)
    (found : List (π × α)) : Prop where
  sorted : found.Pairwise fun a b => a.1 < b.1
  mem_iff : ∀ place x, (place, x) ∈ found ↔ stands place x

/-- There is only one list of everything in the order of places. -/
theorem ListsAll.unique {π : Type} [LT π] {α : Type} {stands : π → α → Prop}
    [Std.Irrefl (α := π) (· < ·)] [Std.Asymm (α := π) (· < ·)] {found found' : List (π × α)}
    (h : ListsAll stands found) (h' : ListsAll stands found') : found = found' := by
  have : Std.Irrefl fun a b : π × α => a.1 < b.1 := ⟨fun a => Std.Irrefl.irrefl a.1⟩
  have : Std.Asymm fun a b : π × α => a.1 < b.1 := ⟨fun a b => Std.Asymm.asymm a.1 b.1⟩
  refine h.sorted.eq_of_mem_iff h'.sorted fun ⟨place, x⟩ => ?_
  rw [h.mem_iff, h'.mem_iff]

/-! ## Places under keys -/

section Keys

variable {κ α β : Type} [LT κ] {key : α → κ} {stands : α → List κ → β → Prop}

/-- What stands within the items of a list, at places that begin with the key of the item. -/
def StandsUnder (key : α → κ) (stands : α → List κ → β → Prop) (items : List α)
    (place : List κ) (x : β) : Prop :=
  ∃ item ∈ items, ∃ rest, place = key item :: rest ∧ stands item rest x

/-- What is listed of an item, and what is listed behind it, make a list. -/
theorem listsAll_standsUnder_cons {item : α} {items : List α} {found rest : List (List κ × β)}
    (hkey : ∀ other ∈ items, key item < key other) (h : ListsAll (stands item) found)
    (hrest : ListsAll (StandsUnder key stands items) rest) :
    ListsAll (StandsUnder key stands (item :: items))
      (found.map (fun (place, x) => (key item :: place, x)) ++ rest) where
  sorted := by
    refine List.pairwise_append.2 ⟨?_, hrest.sorted, ?_⟩
    · refine List.pairwise_map.2 (h.sorted.imp fun hlt => ?_)
      exact List.cons_lt_cons_iff.2 (.inr ⟨rfl, hlt⟩)
    · intro a ha b hb
      obtain ⟨⟨place, x⟩, -, rfl⟩ := List.mem_map.1 ha
      obtain ⟨other, hother, place', hplace, -⟩ := (hrest.mem_iff b.1 b.2).1 hb
      rw [hplace]
      exact List.cons_lt_cons_iff.2 (.inl (hkey other hother))
  mem_iff place x := by
    rw [List.mem_append, hrest.mem_iff, List.mem_map]
    constructor
    · rintro (⟨⟨place', x'⟩, hmem, heq⟩ | ⟨other, hother, hstands⟩)
      · obtain ⟨rfl, rfl⟩ := Prod.mk.inj heq
        exact ⟨item, List.mem_cons_self, place', rfl, (h.mem_iff place' x').1 hmem⟩
      · exact ⟨other, List.mem_cons_of_mem _ hother, hstands⟩
    · rintro ⟨other, hother, place', rfl, hstands⟩
      rcases List.mem_cons.1 hother with rfl | hother
      · exact .inl ⟨(place', x), (h.mem_iff place' x).2 hstands, rfl⟩
      · exact .inr ⟨other, hother, place', rfl, hstands⟩

/-- If each item is listed in order, so are all of them, one after the other. -/
theorem exists_listsAll_standsUnder {listed : α → List β} {items : List α}
    (hsorted : items.Pairwise fun item other => key item < key other)
    (h : ∀ item ∈ items, ∃ found, ListsAll (stands item) found ∧
      found.map Prod.snd = listed item) :
    ∃ found, ListsAll (StandsUnder key stands items) found ∧
      found.map Prod.snd = items.flatMap listed := by
  induction items with
  | nil =>
    refine ⟨[], ⟨.nil, fun place x => iff_of_false List.not_mem_nil ?_⟩, rfl⟩
    rintro ⟨item, hitem, -⟩
    cases hitem
  | cons item items ih =>
    obtain ⟨hkey, hsorted⟩ := List.pairwise_cons.1 hsorted
    obtain ⟨found, hfound, hmap⟩ := h item List.mem_cons_self
    obtain ⟨rest, hrest, hmap'⟩ :=
      ih hsorted fun other hother => h other (List.mem_cons_of_mem _ hother)
    refine ⟨_, listsAll_standsUnder_cons hkey hfound hrest, ?_⟩
    rw [List.map_append, List.map_map, List.flatMap_cons, ← hmap, ← hmap']
    rfl

end Keys

/-! ## Places within items -/

variable {α β : Type} {stands : α → List Nat → β → Prop}

/-- What stands within the items of a list, the first of which has the position `k`. -/
def StandsWithin (stands : α → List Nat → β → Prop) (k : Nat) (items : List α)
    (place : List Nat) (x : β) : Prop :=
  ∃ i rest, place = (k + i) :: rest ∧ ∃ item, items[i]? = some item ∧ stands item rest x

/-- The positions of the items are their keys. -/
theorem standsUnder_zipIdx_iff {items : List α} {place : List Nat} {x : β} :
    StandsUnder Prod.snd (fun item => stands item.1) items.zipIdx place x ↔
      StandsWithin stands 0 items place x := by
  constructor
  · rintro ⟨⟨item, i⟩, hitem, rest, rfl, hstands⟩
    exact ⟨i, rest, by rw [Nat.zero_add], item, List.mem_zipIdx_iff_getElem?.1 hitem, hstands⟩
  · rintro ⟨i, rest, rfl, item, hitem, hstands⟩
    exact ⟨(item, i), List.mem_zipIdx_iff_getElem?.2 hitem, rest, by rw [Nat.zero_add], hstands⟩

/-- If each item is listed in order, so are all of them, one after the other. -/
theorem exists_listsAll_standsWithin {listed : α → List β} {items : List α}
    (h : ∀ item ∈ items, ∃ found, ListsAll (stands item) found ∧
      found.map Prod.snd = listed item) :
    ∃ found, ListsAll (StandsWithin stands 0 items) found ∧
      found.map Prod.snd = items.flatMap listed := by
  have hsorted : items.zipIdx.Pairwise fun item other => item.2 < other.2 := by
    rw [← List.pairwise_map (f := Prod.snd) (R := (· < ·)), List.zipIdx_map_snd]
    exact List.pairwise_lt_range' ..
  have hitems : ∀ item ∈ items.zipIdx, ∃ found, ListsAll (stands item.1) found ∧
      found.map Prod.snd = listed item.1 :=
    fun item hitem => h item.1 (List.fst_mem_of_mem_zipIdx hitem)
  obtain ⟨found, hfound, hmap⟩ := exists_listsAll_standsUnder hsorted hitems
  refine ⟨found, ⟨hfound.sorted, fun place x => ?_⟩, ?_⟩
  · rw [hfound.mem_iff, standsUnder_zipIdx_iff]
  · rw [hmap, ← List.flatMap_map, List.zipIdx_map_fst]

end PolicyLint
