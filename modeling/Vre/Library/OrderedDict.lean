import Mathlib.Data.List.Nodup
import Mathlib.Order.Lattice

/-! # Insertion-ordered dictionaries

A dictionary that iterates in the order in which its keys were first inserted. The
distinctness of the keys is part of the value, so a lookup and a membership in the entries
say the same thing.
-/

/-- A finite map whose entries stand in the order of first insertion. -/
structure OrderedDict (κ β : Type*) where
  entries : List (κ × β)
  nodup_keys : (entries.map Prod.fst).Nodup

namespace OrderedDict

def empty {κ β : Type*} : OrderedDict κ β :=
  ⟨[], by simp⟩

def keys {κ β : Type*} (d : OrderedDict κ β) : List κ :=
  d.entries.map Prod.fst

def values {κ β : Type*} (d : OrderedDict κ β) : List β :=
  d.entries.map Prod.snd

/-- `d.get(k)`. -/
def get? {κ β : Type*} [DecidableEq κ] (d : OrderedDict κ β) (k : κ) : Option β :=
  (d.entries.find? (fun e => e.1 = k)).map Prod.snd

/-- Overwrite the entry at `k` in place, or append one. -/
def setEntry {κ β : Type*} [DecidableEq κ] (k : κ) (v : β) : List (κ × β) → List (κ × β)
  | [] => [(k, v)]
  | e :: rest => if e.1 = k then (k, v) :: rest else e :: setEntry k v rest

theorem keys_setEntry {κ β : Type*} [DecidableEq κ] (k : κ) (v : β) (l : List (κ × β)) :
    (setEntry k v l).map Prod.fst =
      if k ∈ l.map Prod.fst then l.map Prod.fst else l.map Prod.fst ++ [k] := by
  induction l with
  | nil => simp [setEntry]
  | cons e rest ih =>
      by_cases he : e.1 = k
      · simp [setEntry, he]
      · have hne : ¬ k = e.1 := fun h => he h.symm
        by_cases hk : k ∈ rest.map Prod.fst <;>
          simp_all [setEntry]

/-- `d[k] = v`. -/
def set {κ β : Type*} [DecidableEq κ] (d : OrderedDict κ β) (k : κ) (v : β) : OrderedDict κ β where
  entries := setEntry k v d.entries
  nodup_keys := by
    rw [keys_setEntry]
    split
    · exact d.nodup_keys
    · rename_i hk
      exact List.nodup_append.mpr ⟨d.nodup_keys, by simp, by
        intro a ha b hb
        rw [List.mem_singleton.mp hb]
        rintro rfl
        exact hk ha⟩

/-! ## Lookup -/

@[simp] theorem get?_empty {κ β : Type*} [DecidableEq κ] (k : κ) :
    (empty : OrderedDict κ β).get? k = none := rfl

@[simp] theorem keys_empty {κ β : Type*} : (empty : OrderedDict κ β).keys = [] := rfl

theorem find?_setEntry {κ β : Type*} [DecidableEq κ] (k k' : κ) (v : β) (l : List (κ × β)) :
    ((setEntry k v l).find? (fun e => e.1 = k')).map Prod.snd =
      if k' = k then some v else (l.find? (fun e => e.1 = k')).map Prod.snd := by
  induction l with
  | nil =>
      by_cases h : k' = k
      · simp [setEntry, h]
      · have hne : ¬ k = k' := fun h' => h h'.symm
        simp [setEntry, h, hne]
  | cons e rest ih =>
      by_cases he : e.1 = k
      · by_cases h : k' = k
        · simp [setEntry, he, h]
        · have hne : ¬ k = k' := fun h' => h h'.symm
          simp [setEntry, he, h, hne]
      · by_cases h : k' = k
        · subst h
          simpa [setEntry, he] using ih
        · by_cases he' : e.1 = k'
          · simp [setEntry, he', h]
          · simpa [setEntry, he, he', h] using ih

theorem get?_set {κ β : Type*} [DecidableEq κ] (d : OrderedDict κ β) (k k' : κ) (v : β) :
    (d.set k v).get? k' = if k' = k then some v else d.get? k' :=
  find?_setEntry k k' v d.entries

theorem mem_entries_iff {κ β : Type*} [DecidableEq κ] (d : OrderedDict κ β) (k : κ) (v : β) :
    (k, v) ∈ d.entries ↔ d.get? k = some v := by
  obtain ⟨l, hl⟩ := d
  simp only [get?]
  induction l with
  | nil => simp
  | cons e rest ih =>
      obtain ⟨hnot, hrest⟩ := List.nodup_cons.mp hl
      have ih := ih hrest
      by_cases he : e.1 = k
      · subst he
        have hnone : (e.1, v) ∉ rest := fun h => hnot (List.mem_map.mpr ⟨_, h, rfl⟩)
        simp [hnone, Prod.ext_iff, eq_comm]
      · have hne : (k, v) ≠ e := fun h => he (h ▸ rfl)
        simp [he, hne, ih]

theorem mem_keys_iff {κ β : Type*} [DecidableEq κ] (d : OrderedDict κ β) (k : κ) :
    k ∈ d.keys ↔ ∃ v, d.get? k = some v := by
  simp only [keys, List.mem_map, ← mem_entries_iff]
  constructor
  · rintro ⟨e, he, rfl⟩
    exact ⟨e.2, he⟩
  · rintro ⟨v, hv⟩
    exact ⟨(k, v), hv, rfl⟩

theorem mem_values_iff {κ β : Type*} [DecidableEq κ] (d : OrderedDict κ β) (v : β) :
    v ∈ d.values ↔ ∃ k, d.get? k = some v := by
  simp only [values, List.mem_map, ← mem_entries_iff]
  constructor
  · rintro ⟨e, he, rfl⟩
    exact ⟨e.1, he⟩
  · rintro ⟨k, hk⟩
    exact ⟨(k, v), hk, rfl⟩

theorem setEntry_of_absent {κ β : Type*} [DecidableEq κ] {k : κ} {l : List (κ × β)}
    (h : k ∉ l.map Prod.fst) (v : β) : setEntry k v l = l ++ [(k, v)] := by
  induction l with
  | nil => rfl
  | cons e rest ih =>
      obtain ⟨hne, hrest⟩ := not_or.mp (mt List.mem_cons.mpr h)
      rw [setEntry, if_neg fun heq => hne heq.symm, ih hrest, List.cons_append]

/-- An entry under a new key comes last. -/
theorem entries_set_of_absent {κ β : Type*} [DecidableEq κ] {d : OrderedDict κ β} {k : κ}
    (h : d.get? k = none) (v : β) : (d.set k v).entries = d.entries ++ [(k, v)] := by
  refine setEntry_of_absent (fun hk => ?_) v
  obtain ⟨w, hw⟩ := (mem_keys_iff d k).mp hk
  cases h.symm.trans hw

theorem keys_set {κ β : Type*} [DecidableEq κ] (d : OrderedDict κ β) (k : κ) (v : β) :
    (d.set k v).keys = if k ∈ d.keys then d.keys else d.keys ++ [k] :=
  keys_setEntry k v d.entries

theorem filterMap_filter_key {κ β γ : Type*} [DecidableEq κ] {f : κ × β → Option γ}
    {about : γ → Bool} {k : κ} {l : List (κ × β)} (hnodup : (l.map Prod.fst).Nodup)
    (habout : ∀ e y, f e = some y → (about y = true ↔ e.1 = k)) :
    (l.filterMap f).filter about = ((l.find? fun e => e.1 = k).bind f).toList := by
  induction l with
  | nil => rfl
  | cons e rest ih =>
      obtain ⟨hnew, hrest⟩ := List.nodup_cons.mp hnodup
      have ih := ih hrest
      by_cases hk : e.1 = k
      · have hnone : rest.find? (fun e => e.1 = k) = none := by
          refine List.find?_eq_none.mpr fun e' he' heq => hnew ?_
          rw [hk, ← of_decide_eq_true heq]
          exact List.mem_map_of_mem he'
        rw [hnone] at ih
        cases hf : f e with
        | none => simp [hf, hk, ih]
        | some y => simp [hf, hk, ih, (habout e y hf).mpr hk]
      · cases hf : f e with
        | none => simp [hf, hk, ih]
        | some y =>
            have hskip : about y = false := by
              rw [← Bool.not_eq_true, habout e y hf]
              exact hk
            simp [hf, hk, ih, hskip]

/-- Of what is read off the entries, what is about a key is what is read off its entry. -/
theorem filterMap_entries_key {κ β γ : Type*} [DecidableEq κ] {d : OrderedDict κ β}
    {f : κ × β → Option γ} {about : γ → Bool} {k : κ}
    (habout : ∀ e y, f e = some y → (about y = true ↔ e.1 = k)) :
    (d.entries.filterMap f).filter about = ((d.get? k).bind fun v => f (k, v)).toList := by
  rw [filterMap_filter_key d.nodup_keys habout, get?]
  cases hfind : d.entries.find? fun e => e.1 = k with
  | none => rfl
  | some e =>
      have hk : e.1 = k := by simpa using List.find?_some hfind
      simp [← hk]

/-- `{k: f(v) for k, v in d.items()}`. -/
def mapValues {κ β γ : Type*} (f : β → γ) (d : OrderedDict κ β) : OrderedDict κ γ where
  entries := d.entries.map fun e => (e.1, f e.2)
  nodup_keys := by
    rw [List.map_map]
    exact d.nodup_keys

@[simp] theorem get?_mapValues {κ β γ : Type*} [DecidableEq κ] (f : β → γ) (d : OrderedDict κ β)
    (k : κ) : (d.mapValues f).get? k = (d.get? k).map f := by
  simp [mapValues, get?, List.find?_map, Function.comp_def]

/-! ## Building a dictionary from items -/

/-- `{k: v for k, v in items}`: a later item overwrites an earlier one with its key. -/
def ofItems {κ β : Type*} [DecidableEq κ] (items : List (κ × β)) : OrderedDict κ β :=
  items.foldl (fun d e => d.set e.1 e.2) empty

theorem get?_foldl_set {κ β : Type*} [DecidableEq κ] (items : List (κ × β))
    (d : OrderedDict κ β) (k : κ) :
    (items.foldl (fun d e => d.set e.1 e.2) d).get? k =
      ((items.reverse.find? (fun e => e.1 = k)).map Prod.snd).or (d.get? k) := by
  induction items generalizing d with
  | nil => simp
  | cons e rest ih =>
      rw [List.foldl_cons, ih, get?_set, List.reverse_cons, List.find?_append]
      cases rest.reverse.find? (fun e => decide (e.1 = k)) with
      | some found => simp
      | none =>
          by_cases he : k = e.1
          · simp [he]
          · have hne : ¬ e.1 = k := fun h => he h.symm
            simp [he, hne]

/-- A lookup finds the last item with its key. -/
theorem get?_ofItems {κ β : Type*} [DecidableEq κ] (items : List (κ × β)) (k : κ) :
    (ofItems items).get? k = (items.reverse.find? (fun e => e.1 = k)).map Prod.snd := by
  simp [ofItems, get?_foldl_set]

theorem mem_of_get?_ofItems {κ β : Type*} [DecidableEq κ] {items : List (κ × β)} {k : κ} {v : β}
    (h : (ofItems items).get? k = some v) : (k, v) ∈ items := by
  rw [get?_ofItems, Option.map_eq_some_iff] at h
  obtain ⟨e, he, rfl⟩ := h
  have hk : e.1 = k := by simpa using List.find?_some he
  exact hk ▸ List.mem_reverse.mp (List.mem_of_find?_eq_some he)

theorem get?_ofItems_eq_none {κ β : Type*} [DecidableEq κ] {items : List (κ × β)} {k : κ} :
    (ofItems items).get? k = none ↔ ∀ v, (k, v) ∉ items := by
  rw [get?_ofItems, Option.map_eq_none_iff, List.find?_eq_none]
  constructor
  · intro h v hv
    simpa using h (k, v) (List.mem_reverse.mpr hv)
  · intro h e he hk
    have hk : e.1 = k := by simpa using hk
    exact h e.2 (hk ▸ List.mem_reverse.mp he)

/-- Items with distinct keys are all kept. -/
theorem get?_ofItems_of_nodup {κ β : Type*} [DecidableEq κ] {items : List (κ × β)}
    (hnodup : (items.map Prod.fst).Nodup) {k : κ} {v : β} (hmem : (k, v) ∈ items) :
    (ofItems items).get? k = some v := by
  cases hget : (ofItems items).get? k with
  | none => exact absurd hmem (get?_ofItems_eq_none.mp hget v)
  | some w =>
      have hw := mem_of_get?_ofItems hget
      have heq := List.inj_on_of_nodup_map hnodup hw hmem rfl
      exact congrArg some (congrArg Prod.snd heq)

/-- A lookup does not depend on the order of items with distinct keys. -/
theorem get?_ofItems_perm {κ β : Type*} [DecidableEq κ] {items items' : List (κ × β)}
    (h : items.Perm items') (hnodup : (items.map Prod.fst).Nodup) (k : κ) :
    (ofItems items).get? k = (ofItems items').get? k := by
  have hnodup' : (items'.map Prod.fst).Nodup := (h.map Prod.fst).nodup_iff.mp hnodup
  apply Option.ext
  intro v
  constructor
  · intro hv
    exact get?_ofItems_of_nodup hnodup' (h.mem_iff.mp (mem_of_get?_ofItems hv))
  · intro hv
    exact get?_ofItems_of_nodup hnodup (h.mem_iff.mpr (mem_of_get?_ofItems hv))

/-- `d.setdefault(k, v)`. -/
def setDefault {κ β : Type*} [DecidableEq κ] (d : OrderedDict κ β) (k : κ) (v : β) :
    OrderedDict κ β :=
  match d.get? k with
  | some _ => d
  | none => d.set k v

theorem mem_keys_setDefault {κ β : Type*} [DecidableEq κ] (d : OrderedDict κ β) (k k' : κ)
    (v : β) : k' ∈ (d.setDefault k v).keys ↔ k' ∈ d.keys ∨ k' = k := by
  unfold setDefault
  cases hget : d.get? k with
  | some w =>
      have hk : k ∈ d.keys := (mem_keys_iff d k).mpr ⟨w, hget⟩
      exact ⟨Or.inl, fun h => h.elim id fun h => h ▸ hk⟩
  | none =>
      simp only [keys_set]
      split
      · rename_i hk
        exact ⟨Or.inl, fun h => h.elim id fun h => h ▸ hk⟩
      · simp

/-! ## Grouping -/

/-- `d.setdefault(k, []).append(x)`. -/
def append {κ β : Type*} [DecidableEq κ] (d : OrderedDict κ (List β)) (k : κ) (x : β) :
    OrderedDict κ (List β) :=
  d.set k ((d.get? k).getD [] ++ [x])

theorem getD_append {κ β : Type*} [DecidableEq κ] (d : OrderedDict κ (List β)) (k k' : κ) (x : β) :
    ((d.append k x).get? k').getD [] =
      (d.get? k').getD [] ++ (if k' = k then [x] else []) := by
  by_cases h : k' = k
  · simp [append, get?_set, h]
  · simp [append, get?_set, h]

/-- Group a list by key, each group in the list's order. -/
def groupBy {κ β : Type*} [DecidableEq κ] (key : β → κ) (xs : List β) : OrderedDict κ (List β) :=
  xs.foldl (fun d x => d.append (key x) x) empty

theorem getD_foldl_append {κ β : Type*} [DecidableEq κ] (key : β → κ) (xs : List β)
    (d : OrderedDict κ (List β)) (k : κ) :
    ((xs.foldl (fun d x => d.append (key x) x) d).get? k).getD [] =
      (d.get? k).getD [] ++ xs.filter (fun x => key x = k) := by
  induction xs generalizing d with
  | nil => simp
  | cons x rest ih =>
      rw [List.foldl_cons, ih, getD_append]
      by_cases h : k = key x
      · simp [h]
      · have hne : ¬ key x = k := fun h' => h h'.symm
        simp [h, hne]

theorem getD_groupBy {κ β : Type*} [DecidableEq κ] (key : β → κ) (xs : List β) (k : κ) :
    ((groupBy key xs).get? k).getD [] = xs.filter (fun x => key x = k) := by
  simp [groupBy, getD_foldl_append]

/-- The groups of a list, over distinct keys that cover it, are together the list. -/
theorem perm_flatMap_filter {κ β : Type*} [DecidableEq κ] (key : β → κ) {keys : List κ}
    (hkeys : keys.Nodup) {xs : List β} (hcover : ∀ x ∈ xs, key x ∈ keys) :
    (keys.flatMap fun k => xs.filter fun x => key x = k).Perm xs := by
  induction keys generalizing xs with
  | nil =>
      cases xs with
      | nil => simp
      | cons x rest => exact absurd (hcover x (by simp)) (by simp)
  | cons k rest ih =>
      obtain ⟨hk, hrest⟩ := List.nodup_cons.mp hkeys
      have hothers : ∀ x ∈ xs.filter fun x => ¬ key x = k, key x ∈ rest := by
        intro x hx
        obtain ⟨hmem, hne⟩ := List.mem_filter.mp hx
        exact (List.mem_cons.mp (hcover x hmem)).resolve_left (by simpa using hne)
      have hsame : (rest.flatMap fun k' => xs.filter fun x => key x = k') =
          rest.flatMap fun k' => (xs.filter fun x => ¬ key x = k).filter fun x => key x = k' := by
        apply List.flatMap_congr
        intro k' hk'
        rw [List.filter_filter]
        apply List.filter_congr
        intro x _
        have hne : k' ≠ k := fun heq => hk (heq ▸ hk')
        by_cases hx : key x = k'
        · simp [hx, hne]
        · simp [hx]
      rw [List.flatMap_cons, hsame]
      apply ((ih hrest hothers).append_left _).trans
      simpa using List.filter_append_perm (fun x => decide (key x = k)) xs

/-! ## Keeping the best value for each key -/

/-- Keep `v` at `k` unless a value of at least its rank is there. -/
def setMax {κ β γ : Type*} [DecidableEq κ] [LinearOrder γ] (rank : β → γ)
    (d : OrderedDict κ β) (k : κ) (v : β) : OrderedDict κ β :=
  match d.get? k with
  | none => d.set k v
  | some old => if rank old < rank v then d.set k v else d

/-- Merge a list of items, the best value for each key. -/
def mergeMax {κ β γ : Type*} [DecidableEq κ] [LinearOrder γ] (rank : β → γ)
    (items : List (κ × β)) (d : OrderedDict κ β) : OrderedDict κ β :=
  items.foldl (fun d e => d.setMax rank e.1 e.2) d

theorem get?_setMax_of_ne {κ β γ : Type*} [DecidableEq κ] [LinearOrder γ] (rank : β → γ)
    (d : OrderedDict κ β) {k k' : κ} (v : β) (h : k' ≠ k) :
    (d.setMax rank k v).get? k' = d.get? k' := by
  unfold setMax
  cases d.get? k with
  | none => simp [get?_set, h]
  | some old =>
      by_cases hlt : rank old < rank v
      · simp [hlt, get?_set, h]
      · simp [hlt]

/-- After `setMax` the key holds a value at least as good as the one offered. -/
theorem get?_setMax_self {κ β γ : Type*} [DecidableEq κ] [LinearOrder γ] (rank : β → γ)
    (d : OrderedDict κ β) (k : κ) (v : β) :
    ∃ w, (d.setMax rank k v).get? k = some w ∧ rank v ≤ rank w ∧
      (w = v ∨ d.get? k = some w) ∧ ∀ old, d.get? k = some old → rank old ≤ rank w := by
  unfold setMax
  cases hget : d.get? k with
  | none => exact ⟨v, by simp [get?_set], le_rfl, Or.inl rfl, by simp⟩
  | some old =>
      by_cases hlt : rank old < rank v
      · refine ⟨v, by simp [hlt, get?_set], le_rfl, Or.inl rfl, ?_⟩
        intro old' hold
        cases hold
        exact hlt.le
      · refine ⟨old, by simp [hlt, hget], le_of_not_gt hlt, Or.inr rfl, ?_⟩
        intro old' hold
        cases hold
        exact le_rfl

/-- A merged value was offered or was there before. -/
theorem get?_mergeMax_origin {κ β γ : Type*} [DecidableEq κ] [LinearOrder γ] {rank : β → γ}
    {items : List (κ × β)} {d : OrderedDict κ β} {k : κ} {w : β}
    (h : (d.mergeMax rank items).get? k = some w) : (k, w) ∈ items ∨ d.get? k = some w := by
  induction items generalizing d with
  | nil => exact Or.inr h
  | cons e rest ih =>
      rcases ih h with hrest | hd
      · exact Or.inl (List.mem_cons_of_mem e hrest)
      · by_cases hk : k = e.1
        · subst hk
          obtain ⟨w', hw', -, horigin, -⟩ := get?_setMax_self rank d e.1 e.2
          rw [hw'] at hd
          cases hd
          rcases horigin with rfl | hold
          · exact Or.inl List.mem_cons_self
          · exact Or.inr hold
        · rw [get?_setMax_of_ne rank d e.2 hk] at hd
          exact Or.inr hd

/-- What was there before is still there, or something better is. -/
theorem get?_mergeMax_of_get? {κ β γ : Type*} [DecidableEq κ] [LinearOrder γ] (rank : β → γ)
    (items : List (κ × β)) {d : OrderedDict κ β} {k : κ} {v : β} (h : d.get? k = some v) :
    ∃ w, (d.mergeMax rank items).get? k = some w ∧ rank v ≤ rank w := by
  induction items generalizing d v with
  | nil => exact ⟨v, h, le_rfl⟩
  | cons e rest ih =>
      by_cases hk : k = e.1
      · subst hk
        obtain ⟨w, hw, -, -, hold⟩ := get?_setMax_self rank d e.1 e.2
        obtain ⟨w', hw', hle⟩ := ih hw
        exact ⟨w', hw', (hold v h).trans hle⟩
      · exact ih (by rw [get?_setMax_of_ne rank d e.2 hk]; exact h)

/-- Every offered item is matched by an entry of at least its rank. -/
theorem get?_mergeMax_of_mem {κ β γ : Type*} [DecidableEq κ] [LinearOrder γ] (rank : β → γ)
    (d : OrderedDict κ β) {items : List (κ × β)} {k : κ} {v : β} (h : (k, v) ∈ items) :
    ∃ w, (d.mergeMax rank items).get? k = some w ∧ rank v ≤ rank w := by
  induction items generalizing d with
  | nil => cases h
  | cons e rest ih =>
      rcases List.mem_cons.mp h with rfl | hrest
      · obtain ⟨w, hw, hle, -, -⟩ := get?_setMax_self rank d k v
        obtain ⟨w', hw', hle'⟩ := get?_mergeMax_of_get? rank rest hw
        exact ⟨w', hw', hle.trans hle'⟩
      · exact ih _ hrest

/-- Merged from nothing, a key holds a best value among those offered for it. -/
theorem best_of_mergeMax {κ β γ : Type*} [DecidableEq κ] [LinearOrder γ] {rank : β → γ}
    {items : List (κ × β)} {k : κ} {w : β} (h : (empty.mergeMax rank items).get? k = some w) :
    (k, w) ∈ items ∧ ∀ v, (k, v) ∈ items → rank v ≤ rank w := by
  refine ⟨(get?_mergeMax_origin h).resolve_right (by simp), fun v hv => ?_⟩
  obtain ⟨w', hw', hle⟩ := get?_mergeMax_of_mem rank empty hv
  cases h.symm.trans hw'
  exact hle

/-- No key that was offered is lost. -/
theorem exists_mem_mergeMax {κ β γ : Type*} [DecidableEq κ] [LinearOrder γ] (rank : β → γ)
    (d : OrderedDict κ β) {items : List (κ × β)} {k : κ} {v : β} (h : (k, v) ∈ items) :
    ∃ w, (k, w) ∈ (d.mergeMax rank items).entries := by
  obtain ⟨w, hw, -⟩ := get?_mergeMax_of_mem rank d h
  exact ⟨w, (mem_entries_iff _ _ _).mpr hw⟩

end OrderedDict
