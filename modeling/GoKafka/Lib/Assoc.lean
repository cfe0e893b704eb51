import Mathlib

/-!
# Maps and slices filled by a loop

Two ways a loop fills a map from a list: `index` stores one value per key, the last one written, and
`group` appends to the list under a key. Their lookups are the obvious filters of the list
(`lookup_index`, `lookup_group`). A loop over a map visits its keys in an order the language leaves
open: `MapOrder` is one such order, and results about such loops hold for every one; a program that
wants an order of its own keeps the keys as they first appear (`firstKeys`).

`store` is the loop that writes entries of a slice. Where the positions are distinct, a position
holds what was written to it (`getElem?_store`). `forall₂_exists_left` and
`filter_flatMap_of_nodup` are for loops that make one list from another.
-/

universe u v w

namespace Assoc

open List

variable {α : Type u} {κ : Type v} {ν : Type w} [DecidableEq κ]

/-- The loop `for x in xs { m[key x] = val x }`. -/
def index (key : α → κ) (val : α → ν) (xs : List α) : AList fun _ : κ => ν :=
  xs.foldl (fun m x => m.insert (key x) (val x)) ∅

/-- The loop `for x in xs { m[key x] = append(m[key x], x) }`. -/
def group (key : α → κ) (xs : List α) : AList fun _ : κ => List α :=
  xs.foldl (fun m x => m.insert (key x) (((m.lookup (key x)).getD []) ++ [x])) ∅

variable {key : α → κ} {val : α → ν}

/-- The next item's value takes the place of an earlier one. -/
theorem index_concat (xs : List α) (x : α) :
    index key val (xs ++ [x]) = (index key val xs).insert (key x) (val x) := by
  simp [index]

/-- The next item goes to the end of its key's list. -/
theorem group_concat : group key (xs ++ [x]) =
      (group key xs).insert (key x) ((((group key xs).lookup (key x)).getD []) ++ [x]) := by
  simp [group]

/-- Keys and values of items that are images of others. -/
theorem index_map {β : Type u} (f : β → α) (xs : List β) :
    index key val (xs.map f) = index (fun b => key (f b)) (fun b => val (f b)) xs :=
  List.foldl_map

/-- The last item of a key gives its value. -/
theorem lookup_index (xs : List α) (k : κ) :
    (index key val xs).lookup k = ((xs.filter (key · = k)).getLast?).map val := by
  induction xs using List.reverseRecOn with
  | nil => rfl
  | append_singleton xs x ih =>
    rw [index_concat]
    by_cases hk : key x = k
    · subst hk
      simp
    · rw [AList.lookup_insert_ne (Ne.symm hk), ih]
      simp [hk]

variable {xs : List α}

/-- A key without an item has no value. -/
theorem lookup_index_eq_none : (index key val xs).lookup k = none ↔ k ∉ xs.map key := by
  rw [lookup_index]
  simp

/-- Where keys are distinct, every item's value is there. -/
theorem lookup_index_of_nodup (hnodup : (xs.map key).Nodup) (hx : x ∈ xs) :
    (index key val xs).lookup (key x) = some (val x) := by
  have hmem : x ∈ xs.filter (key · = key x) := mem_filter.2 ⟨hx, decide_eq_true rfl⟩
  rw [lookup_index]
  cases hlast : (xs.filter (key · = key x)).getLast? with
  | none =>
    rw [List.getLast?_eq_none_iff.1 hlast] at hmem
    cases hmem
  | some y =>
    obtain ⟨hy, hkey⟩ := mem_filter.1 (mem_of_getLast? hlast)
    rw [inj_on_of_nodup_map hnodup hy hx (of_decide_eq_true hkey)]
    rfl

/-- A key whose items agree on a value. -/
theorem lookup_index_eq (h : ∀ v, (∃ x ∈ xs, key x = k ∧ val x = v) ↔ o = some v) :
    (index key val xs).lookup k = o := by
  rw [lookup_index]
  cases hlast : (xs.filter (key · = k)).getLast? with
  | none =>
    have hnil := filter_eq_nil_iff.1 (List.getLast?_eq_none_iff.1 hlast)
    cases o with
    | none => rfl
    | some v =>
      obtain ⟨x, hx, hkey, -⟩ := (h v).2 rfl
      exact (hnil x hx (decide_eq_true hkey)).elim
  | some y =>
    obtain ⟨hy, hkey⟩ := mem_filter.1 (mem_of_getLast? hlast)
    exact ((h (val y)).1 ⟨y, hy, of_decide_eq_true hkey, rfl⟩).symm

/-- The loop `for k in ks { m[k] = f k }`. -/
theorem lookup_foldl_insert (f : κ → ν) (ks : List κ) (m : AList fun _ : κ => ν) :
    (ks.foldl (fun m k => m.insert k (f k)) m).lookup k =
      if k ∈ ks then some (f k) else m.lookup k := by
  induction ks generalizing m with
  | nil => rw [if_neg not_mem_nil, foldl_nil]
  | cons k' ks ih =>
    rw [foldl_cons, ih]
    by_cases hk : k = k'
    · subst hk
      simp
    · simp [hk]

/-- The list of a key is its items in their order. -/
theorem lookup_group : (group key xs).lookup k =
      if k ∈ xs.map key then some (xs.filter (key · = k)) else none := by
  induction xs using List.reverseRecOn with
  | nil => rfl
  | append_singleton xs x ih =>
    rw [group_concat]
    by_cases hk : key x = k
    · subst hk
      have hlast : key x ∈ (xs ++ [x]).map key := by simp
      rw [ih]
      split_ifs with hmem
      · simp
      · have hnil : xs.filter (key · = key x) = [] := by
          rw [filter_eq_nil_iff]
          intro y hy hyx
          exact hmem (mem_map.2 ⟨y, hy, by simpa using hyx⟩)
        simp [hnil]
    · rw [AList.lookup_insert_ne (Ne.symm hk), ih]
      simp [hk, Ne.symm hk]

/-- The same with the empty list for a key that is not there. -/
theorem getD_lookup_group : ((group key xs).lookup k).getD [] = xs.filter (key · = k) := by
  rw [lookup_group]
  split_ifs with hmem
  · rfl
  · symm
    rw [Option.getD_none, filter_eq_nil_iff]
    intro y hy hyk
    exact hmem (mem_map.2 ⟨y, hy, by simpa using hyk⟩)

/-- The keys of the groups are those of the items. -/
theorem mem_keys_group : k ∈ (group key xs).keys ↔ k ∈ xs.map key := by
  rw [← AList.mem_keys, ← AList.lookup_isSome, lookup_group]
  split_ifs with hmem <;> simp [hmem]

/-- The loop that collects keys in the order in which they first appear. -/
def firstKeys (key : α → κ) (xs : List α) : List κ :=
  xs.foldl (fun ks x => if key x ∈ ks then ks else ks ++ [key x]) []

/-- A key is added when it is new. -/
theorem firstKeys_concat : firstKeys key (xs ++ [x]) =
      if key x ∈ firstKeys key xs then firstKeys key xs else firstKeys key xs ++ [key x] :=
  List.foldl_append

/-- The keys found are those of the items. -/
theorem mem_firstKeys : k ∈ firstKeys key xs ↔ k ∈ xs.map key := by
  induction xs using List.reverseRecOn with
  | nil => exact Iff.rfl
  | append_singleton xs x ih =>
    rw [firstKeys_concat, map_append, mem_append, map_singleton, mem_singleton]
    split_ifs with hmem
    · rw [ih]
      exact ⟨Or.inl, fun h => h.elim id fun hk => hk ▸ ih.1 (hk ▸ hmem)⟩
    · rw [mem_append, mem_singleton, ih]

/-- Each key is found once. -/
theorem nodup_firstKeys : (firstKeys key xs).Nodup := by
  induction xs using List.reverseRecOn with
  | nil => exact .nil
  | append_singleton xs x ih =>
    rw [firstKeys_concat]
    split_ifs with hmem
    · exact ih
    · exact nodup_append.2 ⟨ih, nodup_singleton _, fun a ha b hb hab =>
        hmem (mem_singleton.1 hb ▸ hab ▸ ha)⟩

/-- The groups of all keys have the items, each once. -/
theorem flatMap_filter_perm {ks : List κ} (hnodup : ks.Nodup) (hkeys : ∀ x ∈ xs, key x ∈ ks) :
    (ks.flatMap fun k => xs.filter (key · = k)).Perm xs := by
  induction ks generalizing xs with
  | nil =>
    cases xs with
    | nil => exact .refl _
    | cons x xs => cases hkeys x mem_cons_self
  | cons k ks ih =>
    obtain ⟨hk, hks⟩ := nodup_cons.1 hnodup
    have hrest : (ks.flatMap fun k' => xs.filter (key · = k')) =
        ks.flatMap fun k' => (xs.filter (¬ key · = k)).filter (key · = k') := by
      refine flatMap_congr fun k' hk' => ?_
      rw [filter_filter]
      refine filter_congr fun x _ => ?_
      rw [Bool.eq_iff_iff, Bool.and_eq_true, decide_eq_true_iff, decide_eq_true_iff]
      exact ⟨fun hx => ⟨hx, fun heq => hk (heq ▸ hx ▸ hk')⟩, And.left⟩
    have hothers : ∀ x ∈ xs.filter (¬ key · = k), key x ∈ ks := by
      intro x hx
      obtain ⟨hx, hne⟩ := mem_filter.1 hx
      exact (mem_cons.1 (hkeys x hx)).resolve_left (of_decide_eq_true hne)
    rw [flatMap_cons, hrest]
    exact ((ih hks hothers).append_left _).trans (by simpa using filter_append_perm (key · = k) xs)

/-- An order in which a loop may visit the keys of a map. -/
structure MapOrder (κ : Type v) where
  order : List κ → List κ
  perm : ∀ ks, (order ks).Perm ks

/-- The map's own order is one of its orders. -/
theorem perm_id {κ : Type v} (ks : List κ) : (id ks).Perm ks := .refl ks

namespace MapOrder

variable {κ : Type v} (o : MapOrder κ)

/-- The keys of a map, in the order a loop visits them. -/
def keys (m : AList fun _ : κ => ν) : List κ := o.order m.keys

/-- A loop visits the keys of the map. -/
theorem mem_keys : k ∈ o.keys m ↔ k ∈ m :=
  ((o.perm m.keys).mem_iff).trans AList.mem_keys.symm

/-- A loop visits each key once. -/
theorem nodup_keys (m : AList fun _ : κ => ν) : (o.keys m).Nodup :=
  (o.perm m.keys).nodup_iff.2 m.keys_nodup

/-- There is one order of a single key. -/
theorem keys_eq_singleton (h : ∀ k', k' ∈ m ↔ k' = k) : o.keys m = [k] := by
  refine perm_singleton.1 ((perm_ext_iff_of_nodup (o.nodup_keys m)
    (nodup_singleton k)).2 fun k' => ?_)
  rw [o.mem_keys, h, mem_singleton]

end MapOrder

/-- The loop `for (i, v) in ws { xs[i] = v }`. -/
def store (ws : List (Nat × ν)) (xs : List ν) : List ν :=
  ws.foldl (fun xs w => xs.set w.1 w.2) xs

/-- Writes leave the length as it is. -/
@[simp] theorem length_store (xs : List ν) : (store ws xs).length = xs.length := by
  induction ws generalizing xs with
  | nil => rfl
  | cons w ws ih => exact (ih _).trans length_set

/-- A place that is not written keeps its element. -/
theorem getElem?_store_of_not_mem (h : i ∉ ws.map Prod.fst) : (store ws xs)[i]? = xs[i]? := by
  induction ws generalizing xs with
  | nil => rfl
  | cons w ws ih =>
    have ⟨hw, hws⟩ := ne_and_not_mem_of_not_mem_cons h
    exact (ih hws).trans (List.getElem?_set_ne hw.symm)

/-- A position that is written once holds what was written. -/
theorem getElem?_store (hnodup : (ws.map Prod.fst).Nodup) (hmem : (i, v) ∈ ws)
    (hi : i < xs.length) : (store ws xs)[i]? = some v := by
  induction ws generalizing xs with
  | nil => cases hmem
  | cons w ws ih =>
    have ⟨hw, hws⟩ := nodup_cons.1 hnodup
    rcases mem_cons.1 hmem with rfl | hmem
    · exact (getElem?_store_of_not_mem hw).trans (List.getElem?_set_self hi)
    · exact ih hws hmem (by rwa [length_set])

/-- A right entry of related lists has a left one. -/
theorem forall₂_exists_left (h : List.Forall₂ R l m) (hb : b ∈ m) :
    ∃ a ∈ l, R a b := by
  induction h with
  | nil => cases hb
  | @cons a b' l m hab hrest ih =>
    rcases mem_cons.1 hb with rfl | hb
    · exact ⟨a, mem_cons_self, hab⟩
    · obtain ⟨a', ha', hR⟩ := ih hb
      exact ⟨a', mem_cons_of_mem _ ha', hR⟩

/-- What one of the items contributes, found by its key. -/
theorem filter_flatMap_of_nodup {β : Type w} {key' : β → κ} {f : α → List β}
    (hnodup : (xs.map key).Nodup) (hkeys : ∀ x ∈ xs, ∀ y ∈ f x, key' y = key x) (hx : x ∈ xs) :
    (xs.flatMap f).filter (key' · = key x) = f x := by
  induction xs with
  | nil => cases hx
  | cons x' xs ih =>
    have ⟨hx', hxs⟩ := nodup_cons.1 hnodup
    have ⟨hhead, htail⟩ := forall_mem_cons.1 hkeys
    rw [flatMap_cons, filter_append]
    rcases mem_cons.1 hx with rfl | hx
    · have hself : (f x).filter (key' · = key x) = f x :=
        filter_eq_self.2 fun y hy => decide_eq_true (hhead y hy)
      have hnone : (xs.flatMap f).filter (key' · = key x) = [] := by
        refine filter_eq_nil_iff.2 fun y hy heq => hx' ?_
        obtain ⟨x', hx', hy⟩ := mem_flatMap.1 hy
        exact of_decide_eq_true heq ▸ htail x' hx' y hy ▸ mem_map_of_mem hx'
      rw [hself, hnone, append_nil]
    · have hne : key x' ≠ key x := fun heq => hx' (heq ▸ mem_map_of_mem hx)
      have hnone : (f x').filter (key' · = key x) = [] :=
        filter_eq_nil_iff.2 fun y hy heq => hne ((hhead y hy).symm.trans (of_decide_eq_true heq))
      rw [hnone, nil_append, ih hxs htail hx]

end Assoc
