import LinkState.Library.KeyedList
import Mathlib.Order.Defs.LinearOrder

/-!
# Tables where the latest version wins

A table that is offered versioned elements: the first element of a key is taken, a later
version updates the stored one in place, an older or equal one changes nothing (`Installs`).

If every update makes the stored element the same as the new one, then after any list of offers
the table tracks it: it has each key's element with the greatest version (`Tracks`,
`Tracks.installs`). So lists of offers with the same members leave the same table, whatever
their order and repetitions (`Tracks.rel`).

"The same" is a relation `same` on elements, so what an element is worth may be less than what
is stored.
-/

namespace LinkState

variable {α κ ν : Type*} [DecidableEq κ] [LinearOrder ν] {key : α → κ} {version : α → ν}

/-- The table `db'` is the table `db` after the offer `l`. -/
def Installs (version : α → ν) (l : α) (update : α → α) (db db' : KeyedList key) : Prop :=
  ∀ k, db'.find? k =
    if k = key l then
      match db.find? k with
      | none => some l
      | some chk => if version chk < version l then some (update chk) else some chk
    else db.find? k

theorem installs_insert {db : KeyedList key} {l : α} {update : α → α}
    (h : db.find? (key l) = none) : Installs version l update db (db.insert l) := by
  intro k
  rw [KeyedList.find?_insert]
  by_cases hk : k = key l
  · subst hk; simp [h]
  · simp [hk]

theorem installs_replace {db : KeyedList key} {l chk : α} {u : α → α}
    (h : db.find? (key l) = some chk) (hlt : version chk < version l)
    (hkey : key (u chk) = key chk) : Installs version l u db (db.replace (u chk)) := by
  intro k
  have hchk := KeyedList.key_of_find? h
  rw [KeyedList.find?_replace, hkey, hchk]
  by_cases hk : k = key l
  · subst hk; simp [h, hlt]
  · simp [hk]

theorem installs_self {db : KeyedList key} {l chk : α} {update : α → α}
    (h : db.find? (key l) = some chk) (hlt : ¬ version chk < version l) :
    Installs version l update db db := by
  intro k
  by_cases hk : k = key l
  · subst hk; simp [h, hlt]
  · simp [hk]

/-- The versions after an offer: the greater one for its key. -/
theorem Installs.find?_version {db db' : KeyedList key} {l : α} {update : α → α}
    (h : Installs version l update db db') (hupdate : ∀ chk, version (update chk) = version l)
    (k : κ) :
    (db'.find? k).map version =
      if k = key l then
        some (((db.find? k).map version).elim (version l) fun v => max v (version l))
      else (db.find? k).map version := by
  rw [h k]
  by_cases hk : k = key l
  · rw [if_pos hk, if_pos hk]
    cases db.find? k with
    | none => rfl
    | some chk =>
      by_cases hlt : version chk < version l
      · simp [hlt, hupdate, max_eq_right hlt.le]
      · simp [hlt, max_eq_left (not_lt.1 hlt)]
  · rw [if_neg hk, if_neg hk]

/-- What is stored for a key after an offer for it. -/
def afterOffer (version : α → ν) (update : α → α) (l : α) : Option α → α
  | none => l
  | some chk => if version chk < version l then update chk else chk

/-- An offer seen through a map into a larger type. -/
theorem Installs.find?_map {β : Type*} {db db' : KeyedList key} {l : α} {update : α → α}
    (h : Installs version l update db db') (f : α → β) (update' : β → β) (version' : β → ν)
    (hversion : ∀ a, version' (f a) = version a) (hupdate : ∀ a, update' (f a) = f (update a))
    (k : κ) :
    (db'.find? k).map f =
      if k = key l then some (afterOffer version' update' (f l) ((db.find? k).map f))
      else (db.find? k).map f := by
  rw [h k]
  by_cases hk : k = key l
  · rw [if_pos hk, if_pos hk]
    cases db.find? k with
    | none => rfl
    | some chk =>
      by_cases hlt : version chk < version l
      · simp [afterOffer, hlt, hversion, hupdate]
      · simp [afterOffer, hlt, hversion]
  · rw [if_neg hk, if_neg hk]

/-- An element of the list with this key and no smaller version than any other. -/
def IsLatest (version : α → ν) (key : α → κ) (ls : List α) (k : κ) (m : α) : Prop :=
  m ∈ ls ∧ key m = k ∧ ∀ l ∈ ls, key l = k → version l ≤ version m

/-- The table has for each key offered the same as a latest offer, for other keys nothing. -/
def Tracks (version : α → ν) (same : α → α → Prop) (ls : List α) (db : KeyedList key) : Prop :=
  ∀ k, match db.find? k with
    | none => ∀ l ∈ ls, key l ≠ k
    | some st => ∃ m, IsLatest version key ls k m ∧ same st m

theorem tracks_nil {same : α → α → Prop} {db : KeyedList key} (h : ∀ k, db.find? k = none) :
    Tracks version same [] db := by
  intro k
  rw [h k]
  exact fun l hl => absurd hl List.not_mem_nil

omit [DecidableEq κ] in
theorem isLatest_append_of_ne {ls : List α} {l m : α} {k : κ} (hk : k ≠ key l)
    (h : IsLatest version key ls k m) : IsLatest version key (ls ++ [l]) k m := by
  refine ⟨List.mem_append_left _ h.1, h.2.1, fun x hx hxk => ?_⟩
  rcases List.mem_append.1 hx with hx | hx
  · exact h.2.2 x hx hxk
  · exact absurd (List.mem_singleton.1 hx ▸ hxk).symm hk

/-- **One more offer.** The table keeps track if an update makes the stored element the same as
the new one. -/
theorem Tracks.installs {same : α → α → Prop} {ls : List α} {db db' : KeyedList key} {l : α}
    {update : α → α} (h : Tracks version same ls db) (hinst : Installs version l update db db')
    (hversion : ∀ st m, same st m → version st = version m)
    (hself : same l l)
    (hupdate : ∀ st m, m ∈ ls → same st m → key m = key l → version st < version l →
      same (update st) l) :
    Tracks version same (ls ++ [l]) db' := by
  intro k
  have hk := h k
  rw [hinst k]
  by_cases hkey : k = key l
  · subst hkey
    rw [if_pos rfl]
    cases hfind : db.find? (key l) with
    | none =>
      rw [hfind] at hk
      refine ⟨l, ⟨List.mem_append_right _ List.mem_cons_self, rfl, fun x hx hxk => ?_⟩, hself⟩
      rcases List.mem_append.1 hx with hx | hx
      · exact absurd hxk (hk x hx)
      · rw [List.mem_singleton.1 hx]
    | some st =>
      rw [hfind] at hk
      obtain ⟨m, ⟨hm, hmk, hmax⟩, hsame⟩ := hk
      have hv := hversion st m hsame
      dsimp only
      split_ifs with hlt
      · refine ⟨l, ⟨List.mem_append_right _ List.mem_cons_self, rfl, fun x hx hxk => ?_⟩,
          hupdate st m hm hsame hmk hlt⟩
        rcases List.mem_append.1 hx with hx | hx
        · exact (hmax x hx hxk).trans (hv ▸ hlt.le)
        · rw [List.mem_singleton.1 hx]
      · refine ⟨m, ⟨List.mem_append_left _ hm, hmk, fun x hx hxk => ?_⟩, hsame⟩
        rcases List.mem_append.1 hx with hx | hx
        · exact hmax x hx hxk
        · rw [List.mem_singleton.1 hx]
          exact hv ▸ not_lt.1 hlt
  · rw [if_neg hkey]
    cases hfind : db.find? k with
    | none =>
      rw [hfind] at hk
      intro x hx
      rcases List.mem_append.1 hx with hx | hx
      · exact hk x hx
      · rw [List.mem_singleton.1 hx]
        exact Ne.symm hkey
    | some st =>
      rw [hfind] at hk
      obtain ⟨m, hm, hsame⟩ := hk
      exact ⟨m, isLatest_append_of_ne hkey hm, hsame⟩

/-- Every latest offer of a key is the same as the stored element, if offers of one version
are. -/
theorem Tracks.find?_of_isLatest {same : α → α → Prop} {ls : List α} {db : KeyedList key}
    (h : Tracks version same ls db) (htrans : ∀ a b c, same a b → same b c → same a c)
    (hcons : ∀ a ∈ ls, ∀ b ∈ ls, key a = key b → version a = version b → same a b)
    {k : κ} {m : α} (hm : IsLatest version key ls k m) :
    ∃ st, db.find? k = some st ∧ same st m := by
  have hk := h k
  cases hfind : db.find? k with
  | none =>
    rw [hfind] at hk
    exact absurd hm.2.1 (hk m hm.1)
  | some st =>
    rw [hfind] at hk
    obtain ⟨m', hm', hsame⟩ := hk
    have hv : version m' = version m :=
      le_antisymm (hm.2.2 m' hm'.1 hm'.2.1) (hm'.2.2 m hm.1 hm.2.1)
    exact ⟨st, rfl, htrans st m' m hsame
      (hcons m' hm'.1 m hm.1 (hm'.2.1.trans hm.2.1.symm) hv)⟩

theorem Tracks.find?_eq_none {same : α → α → Prop} {ls : List α} {db : KeyedList key}
    (h : Tracks version same ls db) {k : κ} : db.find? k = none ↔ ∀ l ∈ ls, key l ≠ k := by
  have hk := h k
  cases hfind : db.find? k with
  | none => rw [hfind] at hk; exact iff_of_true rfl hk
  | some st =>
    rw [hfind] at hk
    obtain ⟨m, hm, -⟩ := hk
    exact iff_of_false (Option.some_ne_none st) fun hc => hc m hm.1 hm.2.1

/-- What is stored for a key: nothing if nothing was offered for it, else the same as every
latest offer, of which there is one. -/
def LatestContent (same : α → α → Prop) (version : α → ν) (key : α → κ) (ls : List α)
    (k : κ) : Option α → Prop
  | none => ∀ l ∈ ls, key l ≠ k
  | some st => (∃ m, IsLatest version key ls k m) ∧ ∀ m, IsLatest version key ls k m → same st m

theorem Tracks.latestContent {same : α → α → Prop} {ls : List α} {db : KeyedList key}
    (h : Tracks version same ls db)
    (htrans : ∀ a b c, same a b → same b c → same a c)
    (hcons : ∀ a ∈ ls, ∀ b ∈ ls, key a = key b → version a = version b → same a b) (k : κ) :
    LatestContent same version key ls k (db.find? k) := by
  have hk := h k
  cases hfind : db.find? k with
  | none => rw [hfind] at hk; exact hk
  | some st =>
    rw [hfind] at hk
    refine ⟨hk.imp fun m hm => hm.1, fun m hm => ?_⟩
    obtain ⟨st', hst', hsame⟩ := h.find?_of_isLatest htrans hcons hm
    rw [hfind] at hst'
    exact Option.some.inj hst' ▸ hsame

/-- Tables that track lists with the same members have the same elements. -/
theorem Tracks.rel {same : α → α → Prop} {ls ls' : List α} {db db' : KeyedList key}
    (h : Tracks version same ls db) (h' : Tracks version same ls' db')
    (hmem : ∀ l, l ∈ ls' ↔ l ∈ ls)
    (hsymm : ∀ a b, same a b → same b a) (htrans : ∀ a b c, same a b → same b c → same a c)
    (hcons : ∀ a ∈ ls, ∀ b ∈ ls, key a = key b → version a = version b → same a b) (k : κ) :
    Option.Rel same (db.find? k) (db'.find? k) := by
  have hk' := h' k
  cases hfind' : db'.find? k with
  | none =>
    rw [hfind'] at hk'
    rw [h.find?_eq_none.2 fun l hl => hk' l ((hmem l).2 hl)]
    exact Option.Rel.none
  | some st' =>
    rw [hfind'] at hk'
    obtain ⟨m, ⟨hm, hmk, hmax⟩, hsame'⟩ := hk'
    have hm' : IsLatest version key ls k m :=
      ⟨(hmem m).1 hm, hmk, fun l hl => hmax l ((hmem l).2 hl)⟩
    obtain ⟨st, hst, hsame⟩ := h.find?_of_isLatest htrans hcons hm'
    rw [hst]
    exact Option.Rel.some (htrans st m st' hsame (hsymm st' m hsame'))

end LinkState
