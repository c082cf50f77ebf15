import Mathlib.Data.List.AList
import Mathlib.Data.List.Induction
import Mathlib.Data.List.Sort

/-! Keeping the best element per key: one pass over a list with a dictionary, then the survivors
in the order of their keys. -/
namespace BestPerKey

variable {α κ ρ : Type} [LinearOrder κ] [LinearOrder ρ]

/-- A dictionary from keys to elements. -/
abbrev Dict (κ α : Type) : Type := AList fun _ : κ => α

/-- The element of a key, if any. -/
def find (best : Dict κ α) (k : κ) : Option α := best.lookup k

theorem find_insert (best : Dict κ α) (k : κ) (a : α) : find (best.insert k a) k = some a :=
  AList.lookup_insert best

theorem find_insert_ne (best : Dict κ α) {k k' : κ} (a : α) (h : k' ≠ k) :
    find (best.insert k a) k' = find best k' :=
  AList.lookup_insert_ne h

theorem find_empty (k : κ) : find (∅ : Dict κ α) k = none := AList.lookup_empty k

/-- One pass of the loop: a first element of its key is kept, a better one replaces the current. -/
def keep (better : α → α → Bool) (key : α → κ) (best : Dict κ α) (a : α) : Dict κ α :=
  match find best (key a) with
  | none => best.insert (key a) a
  | some current => if better a current then best.insert (key a) a else best

def bestOf (better : α → α → Bool) (key : α → κ) (as : List α) : Dict κ α :=
  as.foldl (keep better key) ∅

/-- The survivors, sorted by key. -/
def survivors (better : α → α → Bool) (key : α → κ) (as : List α) : List α :=
  ((bestOf better key as).keys.insertionSort (· ≤ ·)).filterMap (find (bestOf better key as))

/-- The dictionary holds, for exactly the keys of `as`, an element of `as` no other one beats. -/
structure Holds (key : α → κ) (rank : α → ρ) (as : List α) (best : Dict κ α) : Prop where
  mem : ∀ k a, find best k = some a → a ∈ as ∧ key a = k
  optimal : ∀ k a, find best k = some a → ∀ b ∈ as, key b = k → rank a ≤ rank b
  complete : ∀ a ∈ as, (find best (key a)).isSome = true

variable {better : α → α → Bool} {key : α → κ} {rank : α → ρ} {as bs : List α} {best : Dict κ α}
  {a : α}

theorem keep_holds (hb : ∀ a b, better a b = true ↔ rank a < rank b)
    (h : Holds key rank as best) : Holds key rank (as ++ [a]) (keep better key best a) := by
  have hinsert (hbest : ∀ b ∈ as, key b = key a → rank a ≤ rank b) :
      Holds key rank (as ++ [a]) (best.insert (key a) a) := by
    refine ⟨?_, ?_, ?_⟩
    · intro k c hc
      by_cases hk : k = key a
      · subst hk
        obtain rfl : a = c := by simpa [find_insert] using hc
        simp
      · rw [find_insert_ne best a hk] at hc
        obtain ⟨hm, hkey⟩ := h.mem k c hc
        exact ⟨by simp [hm], hkey⟩
    · intro k c hc b hbm hbk
      by_cases hk : k = key a
      · subst hk
        obtain rfl : a = c := by simpa [find_insert] using hc
        rcases List.mem_append.mp hbm with hbm | hbm
        · exact hbest b hbm hbk
        · exact le_of_eq (by rw [List.mem_singleton.mp hbm])
      · rw [find_insert_ne best a hk] at hc
        rcases List.mem_append.mp hbm with hbm | hbm
        · exact h.optimal k c hc b hbm hbk
        · exact absurd ((List.mem_singleton.mp hbm) ▸ hbk).symm hk
    · intro b hbm
      by_cases hk : key b = key a
      · simp [hk, find_insert]
      · rw [find_insert_ne best a hk]
        rcases List.mem_append.mp hbm with hbm | hbm
        · exact h.complete b hbm
        · exact absurd (by rw [List.mem_singleton.mp hbm]) hk
  unfold keep
  split
  · rename_i hnone
    apply hinsert
    intro b hbm hbk
    have := h.complete b hbm
    simp [hbk, hnone] at this
  · rename_i current hcur
    split
    · rename_i hbetter
      apply hinsert
      intro b hbm hbk
      exact ((hb _ _).mp hbetter).le.trans (h.optimal _ _ hcur b hbm hbk)
    · rename_i hbetter
      have hle : rank current ≤ rank a := not_lt.mp fun hlt => hbetter ((hb _ _).mpr hlt)
      refine ⟨?_, ?_, ?_⟩
      · intro k c hc
        obtain ⟨hm, hkey⟩ := h.mem k c hc
        exact ⟨by simp [hm], hkey⟩
      · intro k c hc b hbm hbk
        rcases List.mem_append.mp hbm with hbm | hbm
        · exact h.optimal k c hc b hbm hbk
        · obtain rfl := List.mem_singleton.mp hbm
          obtain rfl : current = c := Option.some.inj (hcur.symm.trans (hbk ▸ hc))
          exact hle
      · intro b hbm
        rcases List.mem_append.mp hbm with hbm | hbm
        · exact h.complete b hbm
        · simp [List.mem_singleton.mp hbm, hcur]

theorem bestOf_holds (key : α → κ) (hb : ∀ a b, better a b = true ↔ rank a < rank b)
    (as : List α) :
    Holds key rank as (bestOf better key as) := by
  induction as using List.reverseRecOn with
  | nil => constructor <;> simp [bestOf, find_empty]
  | append_singleton as a ih =>
    unfold bestOf
    rw [List.foldl_append]
    exact keep_holds hb ih

/-- A survivor is an element that no element of its key beats. -/
theorem mem_survivors (hb : ∀ a b, better a b = true ↔ rank a < rank b)
    (ha : a ∈ survivors better key as) :
    a ∈ as ∧ ∀ b ∈ as, key b = key a → rank a ≤ rank b := by
  obtain ⟨k, -, hk⟩ := List.mem_filterMap.mp ha
  have h := bestOf_holds key hb as
  obtain ⟨hm, rfl⟩ := h.mem k a hk
  exact ⟨hm, h.optimal _ a hk⟩

/-- Every key keeps a survivor. -/
theorem exists_survivor (hb : ∀ a b, better a b = true ↔ rank a < rank b) (ha : a ∈ as) :
    ∃ b ∈ survivors better key as, key b = key a := by
  have h := bestOf_holds key hb as
  obtain ⟨b, hbest⟩ := Option.isSome_iff_exists.mp (h.complete a ha)
  refine ⟨b, List.mem_filterMap.mpr ⟨key a, ?_, hbest⟩, (h.mem _ b hbest).2⟩
  rw [List.mem_insertionSort]
  exact AList.lookup_isSome.mp (h.complete a ha)

theorem mem_keys_iff (hb : ∀ a b, better a b = true ↔ rank a < rank b) {k : κ} :
    k ∈ (bestOf better key as).keys ↔ ∃ a ∈ as, key a = k := by
  have h := bestOf_holds key hb as
  rw [← AList.mem_keys, ← AList.lookup_isSome]
  constructor
  · intro hs
    obtain ⟨a, ha⟩ := Option.isSome_iff_exists.mp hs
    exact ⟨a, h.mem k a ha⟩
  · rintro ⟨a, ha, rfl⟩
    exact h.complete a ha

theorem length_survivors_le (hb : ∀ a b, better a b = true ↔ rank a < rank b) :
    (survivors better key as).length ≤ as.length := by
  calc (survivors better key as).length
      ≤ (bestOf better key as).keys.length := by
        simpa [survivors] using List.length_filterMap_le (find (bestOf better key as))
          ((bestOf better key as).keys.insertionSort (· ≤ ·))
    _ ≤ (as.map key).length := by
        apply (List.subperm_of_subset (AList.keys_nodup _) _).length_le
        intro k hk
        simpa using (mem_keys_iff hb).mp hk
    _ = as.length := List.length_map key

/-- The winner of a key ranks the same whatever the order of the list. -/
theorem map_rank_find_perm (hb : ∀ a b, better a b = true ↔ rank a < rank b) (hp : as.Perm bs)
    (k : κ) : (find (bestOf better key as) k).map rank =
      (find (bestOf better key bs) k).map rank := by
  have has := bestOf_holds key hb as
  have hbs := bestOf_holds key hb bs
  cases ha : find (bestOf better key as) k with
  | none =>
    cases hb' : find (bestOf better key bs) k with
    | none => rfl
    | some b =>
      obtain ⟨hm, rfl⟩ := hbs.mem k b hb'
      simpa [ha] using has.complete b (hp.mem_iff.mpr hm)
  | some a =>
    obtain ⟨hm, rfl⟩ := has.mem k a ha
    obtain ⟨b, hb'⟩ := Option.isSome_iff_exists.mp (hbs.complete a (hp.mem_iff.mp hm))
    obtain ⟨hm', hk⟩ := hbs.mem _ b hb'
    have hab := has.optimal _ a ha b (hp.mem_iff.mpr hm') hk
    have hba := hbs.optimal _ b hb' a (hp.mem_iff.mp hm) rfl
    simp [hb', le_antisymm hab hba]

/-- Dictionaries of the same keys list them in the same order. -/
theorem sorted_keys_congr {best best' : Dict κ α} (h : ∀ k, k ∈ best.keys ↔ k ∈ best'.keys) :
    best.keys.insertionSort (· ≤ ·) = best'.keys.insertionSort (· ≤ ·) := by
  apply List.Perm.eq_of_sortedLE List.sortedLE_insertionSort List.sortedLE_insertionSort
  apply (List.perm_insertionSort _ _).trans
  apply List.Perm.trans _ (List.perm_insertionSort _ _).symm
  exact (List.perm_ext_iff_of_nodup (AList.keys_nodup _) (AList.keys_nodup _)).mpr h

/-- The ranks of the survivors, in order, do not depend on the order of the list. -/
theorem map_rank_survivors_perm (hb : ∀ a b, better a b = true ↔ rank a < rank b)
    (hp : as.Perm bs) :
    (survivors better key as).map rank = (survivors better key bs).map rank := by
  have hkeys : (bestOf better key as).keys.insertionSort (· ≤ ·) =
      (bestOf better key bs).keys.insertionSort (· ≤ ·) := by
    apply sorted_keys_congr
    intro k
    rw [mem_keys_iff hb, mem_keys_iff hb]
    simp only [hp.mem_iff]
  unfold survivors
  rw [hkeys, List.map_filterMap, List.map_filterMap]
  simp only [map_rank_find_perm hb hp]

/-- The winner of two lists, one after the other. -/
def winner (better : α → α → Bool) : Option α → Option α → Option α
  | none, second => second
  | some a, none => some a
  | some a, some b => if better b a then some b else some a

theorem find_keep (best : Dict κ α) (a : α) (k : κ) : find (keep better key best a) k =
    if k = key a then winner better (find best k) (some a) else find best k := by
  unfold keep
  by_cases hk : k = key a
  · subst hk
    rw [if_pos rfl]
    cases hbest : find best (key a) with
    | none => simp [winner, find_insert]
    | some current =>
      by_cases hb : better a current = true
      · simp [winner, hb, find_insert]
      · simp [winner, hb, hbest]
  · rw [if_neg hk]
    split
    · exact find_insert_ne best a hk
    · split
      · exact find_insert_ne best a hk
      · rfl

theorem winner_assoc (hb : ∀ a b, better a b = true ↔ rank a < rank b) (x y : Option α) :
    winner better (winner better x y) (some a) = winner better x (winner better y (some a)) := by
  cases x with
  | none => rfl
  | some b =>
    cases y with
    | none => rfl
    | some c =>
      simp only [winner]
      by_cases hac : better a c = true
      · by_cases hcb : better c b = true
        · have hab : better a b = true := (hb a b).mpr (((hb a c).mp hac).trans ((hb c b).mp hcb))
          simp [hac, hcb, hab]
        · simp [hac, hcb]
      · by_cases hcb : better c b = true
        · simp [hac, hcb]
        · have hab : ¬ better a b = true := by
            rw [hb, not_lt] at hac hcb ⊢
            exact hcb.trans hac
          simp [hac, hcb, hab]

/-- Over two lists, one after the other, their winners compete. -/
theorem find_append (hb : ∀ a b, better a b = true ↔ rank a < rank b) (k : κ) :
    find (bestOf better key (as ++ bs)) k =
      winner better (find (bestOf better key as) k) (find (bestOf better key bs) k) := by
  have hfold : ∀ (cs : List α) (a : α),
      bestOf better key (cs ++ [a]) = keep better key (bestOf better key cs) a :=
    fun cs a => by simp [bestOf, List.foldl_append]
  induction bs using List.reverseRecOn with
  | nil =>
    rw [List.append_nil, show bestOf better key ([] : List α) = ∅ from rfl, find_empty]
    cases find (bestOf better key as) k <;> rfl
  | append_singleton bs a ih =>
    rw [← List.append_assoc, hfold, hfold, find_keep, find_keep, ih]
    split
    · exact winner_assoc hb _ _
    · rfl

/-- The survivor of a key is its winner. -/
theorem find_eq_some_iff (hb : ∀ a b, better a b = true ↔ rank a < rank b) {k : κ} :
    find (bestOf better key as) k = some a ↔ a ∈ survivors better key as ∧ key a = k := by
  have h := bestOf_holds key hb as
  constructor
  · intro hk
    obtain ⟨hm, rfl⟩ := h.mem k a hk
    refine ⟨List.mem_filterMap.mpr ⟨key a, ?_, hk⟩, rfl⟩
    rw [List.mem_insertionSort]
    exact (mem_keys_iff hb).mpr ⟨a, hm, rfl⟩
  · rintro ⟨hm, rfl⟩
    obtain ⟨k, -, hk⟩ := List.mem_filterMap.mp hm
    obtain ⟨-, rfl⟩ := h.mem k a hk
    exact hk

/-- A key has one survivor. -/
theorem survivor_unique (hb : ∀ a b, better a b = true ↔ rank a < rank b) {b : α}
    (ha : a ∈ survivors better key as) (hbm : b ∈ survivors better key as) (hkey : key a = key b) :
    a = b := by
  have hfa := (find_eq_some_iff hb).mpr ⟨ha, hkey⟩
  exact Option.some.inj (hfa.symm.trans ((find_eq_some_iff hb).mpr ⟨hbm, rfl⟩))

/-- Equal winners of every key make equal survivors. -/
theorem survivors_eq_iff (hb : ∀ a b, better a b = true ↔ rank a < rank b) :
    survivors better key as = survivors better key bs ↔
      ∀ k, find (bestOf better key as) k = find (bestOf better key bs) k := by
  constructor
  · intro h k
    ext a
    rw [find_eq_some_iff hb, find_eq_some_iff hb, h]
  · intro h
    have hkeys : (bestOf better key as).keys.insertionSort (· ≤ ·) =
        (bestOf better key bs).keys.insertionSort (· ≤ ·) := by
      apply sorted_keys_congr
      intro k
      rw [← AList.mem_keys, ← AList.mem_keys, ← AList.lookup_isSome, ← AList.lookup_isSome]
      exact iff_of_eq (congrArg (fun x => Option.isSome x = true) (h k))
    unfold survivors
    rw [hkeys]
    exact congrArg (fun f => List.filterMap f _) (funext h)

/-- What comes first leaves no trace among the survivors exactly if each of its survivors meets one
of its key that is better, or the same. -/
theorem survivors_append_eq_iff (hb : ∀ a b, better a b = true ↔ rank a < rank b) :
    survivors better key (as ++ bs) = survivors better key bs ↔
      ∀ a ∈ survivors better key as, ∃ b ∈ survivors better key bs,
        key b = key a ∧ (better b a = true ∨ b = a) := by
  rw [survivors_eq_iff hb]
  simp only [find_append hb]
  constructor
  · intro h a ha
    have hfind := (find_eq_some_iff hb).mpr ⟨ha, rfl⟩
    have hk := h (key a)
    rw [hfind] at hk
    cases hbs : find (bestOf better key bs) (key a) with
    | none =>
      rw [hbs] at hk
      cases hk
    | some b =>
      obtain ⟨hm, hkey⟩ := (find_eq_some_iff hb).mp hbs
      refine ⟨b, hm, hkey, ?_⟩
      rw [hbs] at hk
      by_cases hbetter : better b a = true
      · exact Or.inl hbetter
      · rw [winner, if_neg hbetter] at hk
        exact Or.inr (Option.some.inj hk).symm
  · intro h k
    cases has : find (bestOf better key as) k with
    | none => rfl
    | some a =>
      obtain ⟨hm, rfl⟩ := (find_eq_some_iff hb).mp has
      obtain ⟨b, hbm, hkey, hwins⟩ := h a hm
      rw [(find_eq_some_iff hb).mpr ⟨hbm, hkey⟩]
      rcases hwins with hbetter | rfl
      · rw [winner, if_pos hbetter]
      · simp [winner]

/-- Elements of one key that rank alike are the same, unless one of their key ranks before them. -/
def TiesSettled (key : α → κ) (rank : α → ρ) (as : List α) : Prop :=
  ∀ a ∈ as, ∀ b ∈ as, key b = key a → rank b = rank a →
    b = a ∨ ∃ c ∈ as, key c = key a ∧ rank c < rank a

/-- What comes first survives, if no element of its key beats it. -/
theorem find_cons (hb : ∀ a b, better a b = true ↔ rank a < rank b)
    (hfirst : ∀ b ∈ bs, key b = key a → rank a ≤ rank b) :
    find (bestOf better key (a :: bs)) (key a) = some a := by
  have halone : find (bestOf better key [a]) (key a) = some a := find_insert ∅ (key a) a
  rw [← List.singleton_append, find_append hb, halone]
  cases hrest : find (bestOf better key bs) (key a) with
  | none => rfl
  | some b =>
    obtain ⟨hmem, hkey⟩ := (bestOf_holds key hb bs).mem _ b hrest
    have hworse : ¬ better b a = true := by
      rw [hb, not_lt]
      exact hfirst b hmem hkey
    rw [winner, if_neg hworse]

/-- The survivors do not depend on the order of the list exactly if its ties are settled. -/
theorem survivors_perm_iff (hb : ∀ a b, better a b = true ↔ rank a < rank b) :
    (∀ bs, as.Perm bs → survivors better key bs = survivors better key as) ↔
      TiesSettled key rank as := by
  classical
  constructor
  · intro h a ha b hbm hkey hrank
    by_cases hbeaten : ∃ c ∈ as, key c = key a ∧ rank c < rank a
    · exact Or.inr hbeaten
    · left
      have hbest : ∀ c ∈ as, key c = key a → rank a ≤ rank c := by
        intro c hc hck
        exact not_lt.mp fun hlt => hbeaten ⟨c, hc, hck, hlt⟩
      -- each of the two survives in the order in which it comes first
      have hfirst : ∀ x ∈ as, key x = key a → rank x = rank a →
          find (bestOf better key as) (key a) = some x := by
        intro x hx hxk hxr
        have hsame := (survivors_eq_iff hb).mp (h _ (List.perm_cons_erase hx)) (key a)
        rw [← hsame, ← hxk]
        apply find_cons hb
        intro c hc hck
        rw [hxr]
        exact hbest c (List.mem_of_mem_erase hc) (hck.trans hxk)
      exact Option.some.inj ((hfirst b hbm hkey hrank).symm.trans (hfirst a ha rfl rfl))
  · intro h bs hp
    rw [survivors_eq_iff hb]
    intro k
    have has := bestOf_holds key hb as
    have hbs := bestOf_holds key hb bs
    have hranks : (find (bestOf better key as) k).map rank =
        (find (bestOf better key bs) k).map rank := map_rank_find_perm hb hp k
    cases ha : find (bestOf better key as) k with
    | none =>
      rw [ha, Option.map_none] at hranks
      exact Option.map_eq_none_iff.mp hranks.symm
    | some a =>
      rw [ha, Option.map_some] at hranks
      obtain ⟨b, hfind, hrank⟩ := Option.map_eq_some_iff.mp hranks.symm
      obtain ⟨ham, rfl⟩ := has.mem k a ha
      obtain ⟨hbm, hkey⟩ := hbs.mem _ b hfind
      rcases h a ham b (hp.mem_iff.mpr hbm) hkey hrank with rfl | ⟨c, hc, hck, hlt⟩
      · exact hfind
      · exact absurd hlt (not_lt.mpr (has.optimal _ a ha c hc hck))

/-- The keys of the survivors are those of the list, each once and in order. -/
theorem map_key_survivors (hb : ∀ a b, better a b = true ↔ rank a < rank b) :
    (survivors better key as).map key =
      (bestOf better key as).keys.insertionSort (· ≤ ·) := by
  have h := bestOf_holds key hb as
  have hkept : ∀ ks : List κ, (∀ k ∈ ks, ∃ a ∈ as, key a = k) →
      (ks.filterMap (find (bestOf better key as))).map key = ks := by
    intro ks
    induction ks with
    | nil => exact fun _ => rfl
    | cons k ks ih =>
      intro hks
      obtain ⟨a, ha, rfl⟩ := hks k (by simp)
      obtain ⟨b, hfind⟩ := Option.isSome_iff_exists.mp (h.complete a ha)
      rw [List.filterMap_cons_some hfind, List.map_cons, (h.mem _ b hfind).2,
        ih (fun k hk => hks k (by simp [hk]))]
  apply hkept
  intro k hk
  rw [List.mem_insertionSort] at hk
  exact (mem_keys_iff hb).mp hk

theorem survivors_pairwise (hb : ∀ a b, better a b = true ↔ rank a < rank b) :
    (survivors better key as).Pairwise fun a b => key a < key b := by
  rw [← List.pairwise_map, map_key_survivors hb]
  have hle : ((bestOf better key as).keys.insertionSort (· ≤ ·)).Pairwise (· ≤ ·) :=
    List.pairwise_insertionSort _ _
  have hne : ((bestOf better key as).keys.insertionSort (· ≤ ·)).Pairwise (· ≠ ·) :=
    (List.perm_insertionSort _ _).nodup_iff.mpr (AList.keys_nodup _)
  exact (hle.and hne).imp fun h => lt_of_le_of_ne h.1 h.2

theorem mem_map_key_survivors (hb : ∀ a b, better a b = true ↔ rank a < rank b) {k : κ} :
    k ∈ (survivors better key as).map key ↔ k ∈ as.map key := by
  rw [map_key_survivors hb, List.mem_insertionSort, mem_keys_iff hb, List.mem_map]

/-- Among the survivors, each is the winner of its key. -/
theorem find_survivors (hb : ∀ a b, better a b = true ↔ rank a < rank b) (k : κ) :
    find (bestOf better key (survivors better key as)) k = find (bestOf better key as) k := by
  have h := bestOf_holds key hb (survivors better key as)
  ext a
  constructor
  · intro hfind
    obtain ⟨hmem, hkey⟩ := h.mem k a hfind
    exact (find_eq_some_iff hb).mpr ⟨hmem, hkey⟩
  · intro hfind
    obtain ⟨hmem, rfl⟩ := (find_eq_some_iff hb).mp hfind
    obtain ⟨b, hb'⟩ := Option.isSome_iff_exists.mp (h.complete a hmem)
    obtain ⟨hbm, hkey⟩ := h.mem _ b hb'
    rw [hb', survivor_unique hb hmem hbm hkey.symm]

/-- What comes first may be replaced by its survivors. -/
theorem survivors_append_survivors (hb : ∀ a b, better a b = true ↔ rank a < rank b) :
    survivors better key (survivors better key as ++ bs) = survivors better key (as ++ bs) := by
  rw [survivors_eq_iff hb]
  intro k
  rw [find_append hb, find_append hb, find_survivors hb]

end BestPerKey
