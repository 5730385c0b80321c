/- module: HftGrading/Lib/RobinHoodTable
   scope: library
   digest: Robin Hood open addressing on a ring of slots: shape, update rule, and displacement bound. -/

import Mathlib.Order.Interval.Finset.Nat

set_option autoImplicit false
set_option relaxedAutoImplicit false

namespace HftGrading.Lib.RobinHoodTable

universe u v

/-- The slot after `s` on a ring of `N` slots. -/
def step (N s : Nat) : Nat := if s + 1 < N then s + 1 else 0

/-- How many steps lead from slot `a` to slot `s`. -/
def offset (N a s : Nat) : Nat := if a ≤ s then s - a else s + N - a

section Ring

variable {N a s x : Nat}

theorem step_lt (hs : s < N) : step N s < N := by
  unfold step
  split_ifs <;> omega

theorem step_ne (large : 1 < N) (hs : s < N) : step N s ≠ s := by
  unfold step
  split_ifs <;> omega

theorem offset_lt (ha : a < N) (hs : s < N) : offset N a s < N := by
  unfold offset
  split_ifs <;> omega

@[simp] theorem offset_self : offset N a a = 0 := by simp [offset]

theorem offset_eq_zero (ha : a < N) : offset N a s = 0 ↔ a = s := by
  unfold offset
  split_ifs <;> omega

theorem offset_step (ha : a < N) (hs : s < N) (h : offset N a s + 1 < N) :
    offset N a (step N s) = offset N a s + 1 := by
  unfold offset step at *
  split_ifs at * <;> omega

theorem offset_add_mod {j : Nat} (ha : a < N) (hs : s < N) (h : offset N a s + j < N) :
    offset N a ((s + j) % N) = offset N a s + j := by
  have wrapped : (s + j) % N = if s + j < N then s + j else s + j - N := by
    split_ifs with inside
    · exact Nat.mod_eq_of_lt inside
    · have room : j < N := by omega
      rw [Nat.mod_eq_sub_mod (by omega), Nat.mod_eq_of_lt (by omega)]
  rw [wrapped]
  unfold offset at *
  split_ifs at * <;> omega

theorem offset_add {j : Nat} (ha : a < N) (hs : s + j < N) (h : offset N a s + j < N) :
    offset N a (s + j) = offset N a s + j := by
  have wrapped := offset_add_mod ha (by omega) h
  rwa [Nat.mod_eq_of_lt hs] at wrapped

theorem offset_add_offset (ha : a < N) (hs : s < N) (hx : x < N)
    (le : offset N a s ≤ offset N a x) : offset N a s + offset N s x = offset N a x := by
  unfold offset at *
  split_ifs at * <;> omega

theorem offset_between (ha : a < N) (hs : s < N)
    (le : offset N s x ≤ offset N a x) : offset N a s + offset N s x = offset N a x := by
  unfold offset at *
  split_ifs at * <;> omega

theorem offset_step_left (hx : x < N) (hs : s < N) (h : x ≠ s) :
    offset N (step N x) s + 1 = offset N x s := by
  unfold offset step
  split_ifs <;> omega

theorem offset_inj (ha : a < N) (hs : s < N) (hx : x < N)
    (h : offset N a s = offset N a x) : s = x := by
  unfold offset at h
  split_ifs at h <;> omega

theorem offset_toward (ha : a < N) (hx : x < N) (hs : s < N) (apart : x ≠ s)
    (within : offset N a x ≤ offset N a s) :
    offset N a (step N x) = offset N a x + 1 ∧ offset N a (step N x) ≤ offset N a s ∧
      offset N (step N x) s < offset N x s := by
  have strict : offset N a x ≠ offset N a s := fun same => apart (offset_inj ha hx hs same)
  have ring := offset_lt ha hs
  have further := offset_step ha hx (by omega)
  have closer := offset_step_left hx hs apart
  exact ⟨further, by omega, by omega⟩

def before (N s j : Nat) : Nat := if j ≤ s then s - j else s + N - j

theorem before_lt (hs : s < N) {j : Nat} (hj : j < N) : before N s j < N := by
  unfold before
  split_ifs <;> omega

theorem offset_before (hs : s < N) {j : Nat} (hj : j < N) : offset N (before N s j) s = j := by
  unfold offset before
  split_ifs <;> omega

theorem offset_before_before (hs : s < N) {i j : Nat} (le : i ≤ j) (hj : j < N) :
    offset N (before N s j) (before N s i) = j - i := by
  have hi := before_lt hs (le.trans_lt hj)
  have whole := offset_before hs hj
  have part := offset_before hs (le.trans_lt hj)
  have sum : offset N (before N s j) (before N s i) + offset N (before N s i) s =
      offset N (before N s j) s := offset_between (before_lt hs hj) hi (by omega)
  omega

theorem before_offset (ha : a < N) : before N s (offset N a s) = a := by
  unfold before offset
  split_ifs <;> omega

theorem step_before (hs : s < N) : step N (before N s 1) = s := by
  unfold step before
  split_ifs <;> omega

end Ring

structure Table (K : Type u) (V : Type v) where
  keys : Nat → K
  values : Nat → V
  distances : Nat → Nat

variable {K : Type u} {V : Type v}

def Table.put (t : Table K V) (slot : Nat) (k : K) (v : V) (d : Nat) : Table K V where
  keys := Function.update t.keys slot k
  values := Function.update t.values slot v
  distances := Function.update t.distances slot d

section Put

variable (t : Table K V) {slot s : Nat} (k : K) (v : V) (d : Nat)

@[simp] theorem put_keys_self : (t.put slot k v d).keys slot = k := by simp [Table.put]
@[simp] theorem put_values_self : (t.put slot k v d).values slot = v := by simp [Table.put]
@[simp] theorem put_distances_self : (t.put slot k v d).distances slot = d := by simp [Table.put]

theorem put_keys_ne (h : s ≠ slot) : (t.put slot k v d).keys s = t.keys s := by
  simp [Table.put, h]

theorem put_values_ne (h : s ≠ slot) : (t.put slot k v d).values s = t.values s := by
  simp [Table.put, h]

theorem put_distances_ne (h : s ≠ slot) : (t.put slot k v d).distances s = t.distances s := by
  simp [Table.put, h]

theorem put_distances_le {N bound : Nat} (le : ∀ x < N, t.distances x ≤ bound)
    (small : d ≤ bound) :
    ∀ x < N, (t.put slot k v d).distances x ≤ bound := by
  intro x hx
  by_cases same : x = slot
  · rw [same, put_distances_self]
    exact small
  · rw [put_distances_ne t k v d same]
    exact le x hx

theorem put_distances_free {e : Nat} (used : t.distances slot ≠ 0) (free : t.distances e = 0) :
    (t.put slot k v d).distances e = 0 := by
  have apart : e ≠ slot := by
    rintro rfl
    exact used free
  rw [put_distances_ne t k v d apart, free]

private theorem update_next {α : Type u} (f : Nat → α) (z : α) (n : Nat) :
    Function.update (fun s => if s < n then f s else z) n (f n) =
      fun s => if s < n + 1 then f s else z := by
  funext s
  by_cases same : s = n
  · subst same
    simp
  · have within : s < n ↔ s < n + 1 := by omega
    simp [same, within]

theorem put_next (key : Nat → K) (value : Nat → V) (distance : Nat → Nat) (k₀ : K) (v₀ : V)
    (n : Nat) :
    Table.put ⟨fun s => if s < n then key s else k₀, fun s => if s < n then value s else v₀,
        fun s => if s < n then distance s else 0⟩ n (key n) (value n) (distance n) =
      ⟨fun s => if s < n + 1 then key s else k₀, fun s => if s < n + 1 then value s else v₀,
        fun s => if s < n + 1 then distance s else 0⟩ := by
  unfold Table.put
  rw [update_next key, update_next value, update_next distance]

end Put

structure Shape (N : Nat) (home : K → Nat) (k₀ : K) (v₀ : V) (t : Table K V) : Prop where
  blank : ∀ s < N, t.distances s = 0 → t.keys s = k₀ ∧ t.values s = v₀
  placed : ∀ s < N, t.distances s ≠ 0 → offset N (home (t.keys s)) s + 1 = t.distances s
  ordered : ∀ s < N, t.distances (step N s) ≤ t.distances s + 1

def Distinct (N : Nat) (t : Table K V) : Prop :=
  ∀ s < N, ∀ s' < N, t.distances s ≠ 0 → t.distances s' ≠ 0 → t.keys s = t.keys s' → s = s'

def Holds (N : Nat) (t : Table K V) (k : K) (v : V) : Prop :=
  ∃ s < N, t.distances s ≠ 0 ∧ t.keys s = k ∧ t.values s = v

section Shape

variable {N : Nat} {home : K → Nat} {k₀ : K} {v₀ : V} {t : Table K V}

theorem Shape.put (shape : Shape N home k₀ v₀ t) (large : 1 < N) {slot : Nat} (hslot : slot < N)
    {k : K} {v : V} {d : Nat} (unused : d = 0 → k = k₀ ∧ v = v₀)
    (place : d ≠ 0 → offset N (home k) slot + 1 = d)
    (left : ∀ s < N, step N s = slot → d ≤ t.distances s + 1)
    (right : t.distances (step N slot) ≤ d + 1) : Shape N home k₀ v₀ (t.put slot k v d) where
  blank s hs zero := by
    by_cases same : s = slot
    · subst same
      simpa using unused (by simpa using zero)
    · rw [put_distances_ne t k v d same] at zero
      rw [put_keys_ne t k v d same, put_values_ne t k v d same]
      exact shape.blank s hs zero
  placed s hs used := by
    by_cases same : s = slot
    · subst same
      simpa using place (by simpa using used)
    · rw [put_distances_ne t k v d same] at used ⊢
      rw [put_keys_ne t k v d same]
      exact shape.placed s hs used
  ordered s hs := by
    by_cases same : s = slot
    · subst same
      rw [put_distances_ne t k v d (step_ne large hs), put_distances_self]
      exact right
    · rw [put_distances_ne t k v d same]
      by_cases target : step N s = slot
      · rw [target, put_distances_self]
        exact left s hs target
      · rw [put_distances_ne t k v d target]
        exact shape.ordered s hs

theorem Shape.le_back (shape : Shape N home k₀ v₀ t) {s : Nat} (hs : s < N) :
    ∀ (j x : Nat), x < N → offset N x s = j → t.distances s ≤ t.distances x + j
  | 0, x, hx, hj => by
      obtain rfl := (offset_eq_zero hx).mp hj
      omega
  | j + 1, x, hx, hj => by
      have apart : x ≠ s := by
        rintro rfl
        simp at hj
      have closer := offset_step_left hx hs apart
      have rest := shape.le_back hs j (step N x) (step_lt hx) (by omega)
      have slope := shape.ordered x hx
      omega

theorem Shape.between (shape : Shape N home k₀ v₀ t) (homes : ∀ k, home k < N) {s x : Nat}
    (hs : s < N) (hx : x < N) (used : t.distances s ≠ 0)
    (within : offset N (home (t.keys s)) x ≤ offset N (home (t.keys s)) s) :
    offset N (home (t.keys s)) x + 1 ≤ t.distances x := by
  have place := shape.placed s hs used
  have back := shape.le_back hs (offset N x s) x hx rfl
  have split : offset N x s = offset N (home (t.keys s)) s - offset N (home (t.keys s)) x := by
    have := homes (t.keys s)
    unfold offset at within ⊢
    split_ifs at within ⊢ <;> omega
  omega

end Shape

section Blanks

/-- The table with its unused slots overwritten. What a slot holds while it is unused has no
meaning, and a table that does not clear such slots has a shape only up to this. -/
def Table.blanked (t : Table K V) (k₀ : K) (v₀ : V) : Table K V where
  keys s := if t.distances s = 0 then k₀ else t.keys s
  values s := if t.distances s = 0 then v₀ else t.values s
  distances := t.distances

variable {N : Nat} {k₀ : K} {v₀ : V} {t : Table K V} {s : Nat}

@[simp] theorem blanked_distances : (t.blanked k₀ v₀).distances = t.distances := rfl

theorem blanked_blank (free : t.distances s = 0) :
    (t.blanked k₀ v₀).keys s = k₀ ∧ (t.blanked k₀ v₀).values s = v₀ :=
  ⟨if_pos free, if_pos free⟩

theorem blanked_keys (used : t.distances s ≠ 0) : (t.blanked k₀ v₀).keys s = t.keys s :=
  if_neg used

theorem blanked_values (used : t.distances s ≠ 0) : (t.blanked k₀ v₀).values s = t.values s :=
  if_neg used

theorem blanked_put {slot d : Nat} {k : K} {v : V} (positive : d ≠ 0) :
    (t.put slot k v d).blanked k₀ v₀ = (t.blanked k₀ v₀).put slot k v d := by
  unfold Table.blanked Table.put
  congr 1 <;> funext s <;> by_cases same : s = slot <;> simp [same, positive]

theorem distinct_blanked : Distinct N (t.blanked k₀ v₀) ↔ Distinct N t := by
  constructor
  · intro distinct s hs s' hs' used used' same
    refine distinct s hs s' hs' used used' ?_
    rw [blanked_keys used, blanked_keys used', same]
  · intro distinct s hs s' hs' used used' same
    rw [blanked_distances] at used used'
    rw [blanked_keys used, blanked_keys used'] at same
    exact distinct s hs s' hs' used used' same

theorem holds_blanked {k : K} {v : V} : Holds N (t.blanked k₀ v₀) k v ↔ Holds N t k v := by
  refine exists_congr fun s => and_congr_right fun _ => and_congr_right fun used => ?_
  rw [blanked_distances] at used
  rw [blanked_keys used, blanked_values used]

end Blanks

section Carry

variable {N : Nat} {home : K → Nat} {k₀ : K} {v₀ : V} {t : Table K V}

/-- An insertion in flight: the entry `(k, v)` stands at `slot` with distance
`D`, outside a table that does not hold its key. -/
structure Carrying (N : Nat) (home : K → Nat) (k₀ : K) (v₀ : V) (t : Table K V)
    (slot : Nat) (k : K) (D : Nat) : Prop where
  shape : Shape N home k₀ v₀ t
  distinct : Distinct N t
  slot_lt : slot < N
  place : offset N (home k) slot + 1 = D
  behind : ∀ s < N, step N s = slot → D ≤ t.distances s + 1
  fresh : ∀ s < N, t.distances s ≠ 0 → t.keys s ≠ k

private theorem step_left_unique {s s' : Nat} (hs : s < N) (hs' : s' < N)
    (h : step N s = step N s') : s = s' := by
  unfold step at h
  split_ifs at h <;> omega

theorem Carrying.start (shape : Shape N home k₀ v₀ t) (distinct : Distinct N t)
    {k : K} (homes : home k < N) (fresh : ∀ s < N, t.distances s ≠ 0 → t.keys s ≠ k) :
    Carrying N home k₀ v₀ t (home k) k 1 where
  shape := shape
  distinct := distinct
  slot_lt := homes
  place := by simp
  behind _ _ _ := by omega
  fresh := fresh

theorem Carrying.advance {slot D : Nat} {k : K} (c : Carrying N home k₀ v₀ t slot k D)
    (homes : home k < N) (room : D < N) (rich : D ≤ t.distances slot) :
    Carrying N home k₀ v₀ t (step N slot) k (D + 1) where
  shape := c.shape
  distinct := c.distinct
  slot_lt := step_lt c.slot_lt
  place := by
    have place := c.place
    rw [offset_step homes c.slot_lt (by omega)]
    omega
  behind s hs h := by
    obtain rfl := step_left_unique hs c.slot_lt h
    omega
  fresh := c.fresh

private theorem put_distinct (distinct : Distinct N t) {slot d : Nat} {k : K} {v : V}
    (fresh : ∀ s < N, t.distances s ≠ 0 → t.keys s ≠ k) : Distinct N (t.put slot k v d) := by
  intro s hs s' hs' used used' same
  by_cases e : s = slot <;> by_cases e' : s' = slot
  · rw [e, e']
  · subst e
    rw [put_distances_ne t k v d e'] at used'
    rw [put_keys_self, put_keys_ne t k v d e'] at same
    exact absurd same.symm (fresh s' hs' used')
  · subst e'
    rw [put_distances_ne t k v d e] at used
    rw [put_keys_self, put_keys_ne t k v d e] at same
    exact absurd same (fresh s hs used)
  · rw [put_distances_ne t k v d e] at used
    rw [put_distances_ne t k v d e'] at used'
    rw [put_keys_ne t k v d e, put_keys_ne t k v d e'] at same
    exact distinct s hs s' hs' used used' same

theorem Carrying.displace {slot D : Nat} {k : K} {v : V}
    (c : Carrying N home k₀ v₀ t slot k D) (large : 1 < N)
    (homes : home (t.keys slot) < N) (used : t.distances slot ≠ 0)
    (room : t.distances slot < N) (poor : t.distances slot < D) :
    Carrying N home k₀ v₀ (t.put slot k v D) (step N slot) (t.keys slot)
      (t.distances slot + 1) where
  shape := by
    apply c.shape.put large c.slot_lt (fun h => by omega) (fun _ => c.place) c.behind
    have slope := c.shape.ordered slot c.slot_lt
    omega
  distinct := put_distinct c.distinct c.fresh
  slot_lt := step_lt c.slot_lt
  place := by
    have place := c.shape.placed slot c.slot_lt used
    rw [offset_step homes c.slot_lt (by omega)]
    omega
  behind s hs h := by
    obtain rfl := step_left_unique hs c.slot_lt h
    rw [put_distances_self]
    omega
  fresh s hs used' := by
    by_cases e : s = slot
    · subst e
      rw [put_keys_self]
      exact fun h => c.fresh s hs used h.symm
    · rw [put_distances_ne t k v D e] at used'
      rw [put_keys_ne t k v D e]
      exact fun h => e (c.distinct s hs slot c.slot_lt used' used h)

theorem Carrying.settle {slot D : Nat} {k : K} {v : V}
    (c : Carrying N home k₀ v₀ t slot k D) (large : 1 < N) (free : t.distances slot = 0) :
    Shape N home k₀ v₀ (t.put slot k v D) ∧ Distinct N (t.put slot k v D) := by
  have place := c.place
  have slope := c.shape.ordered slot c.slot_lt
  refine ⟨c.shape.put large c.slot_lt (fun h => by omega) (fun _ => place) c.behind (by omega),
    put_distinct c.distinct c.fresh⟩

theorem holds_put {slot d : Nat} {k q : K} {v w : V} (hslot : slot < N) (hd : d ≠ 0) :
    (Holds N (t.put slot k v d) q w ∨
        (t.distances slot ≠ 0 ∧ q = t.keys slot ∧ w = t.values slot)) ↔
      Holds N t q w ∨ (q = k ∧ w = v) := by
  constructor
  · rintro (⟨s, hs, used, key, value⟩ | ⟨used, rfl, rfl⟩)
    · by_cases e : s = slot
      · subst e
        rw [put_keys_self] at key
        rw [put_values_self] at value
        exact Or.inr ⟨key.symm, value.symm⟩
      · rw [put_distances_ne t k v d e] at used
        rw [put_keys_ne t k v d e] at key
        rw [put_values_ne t k v d e] at value
        exact Or.inl ⟨s, hs, used, key, value⟩
    · exact Or.inl ⟨slot, hslot, used, rfl, rfl⟩
  · rintro (⟨s, hs, used, key, value⟩ | ⟨rfl, rfl⟩)
    · by_cases e : s = slot
      · subst e
        exact Or.inr ⟨used, key.symm, value.symm⟩
      · refine Or.inl ⟨s, hs, ?_, ?_, ?_⟩
        · rwa [put_distances_ne t k v d e]
        · rwa [put_keys_ne t k v d e]
        · rwa [put_values_ne t k v d e]
    · exact Or.inl ⟨slot, hslot, by simpa using hd, by simp, by simp⟩

theorem holds_put_used {slot d : Nat} {k q : K} {v w : V} (hslot : slot < N) (hd : d ≠ 0)
    (used : t.distances slot ≠ 0) :
    (Holds N (t.put slot k v d) q w ∨ (q = t.keys slot ∧ w = t.values slot)) ↔
      Holds N t q w ∨ (q = k ∧ w = v) := by
  have trade : _ ↔ Holds N t q w ∨ (q = k ∧ w = v) := holds_put hslot hd
  rwa [and_iff_right used] at trade

theorem holds_put_free {slot d : Nat} {k q : K} {v w : V} (hslot : slot < N) (hd : d ≠ 0)
    (free : t.distances slot = 0) :
    Holds N (t.put slot k v d) q w ↔ Holds N t q w ∨ (q = k ∧ w = v) := by
  have trade : _ ↔ Holds N t q w ∨ (q = k ∧ w = v) := holds_put hslot hd
  rwa [or_iff_left fun old => old.1 free] at trade

end Carry

section Gap

variable {N : Nat} {home : K → Nat} {k₀ : K} {v₀ : V} {t : Table K V}

def HoldsOff (N : Nat) (t : Table K V) (gap : Nat) (k : K) (v : V) : Prop :=
  ∃ s < N, s ≠ gap ∧ t.distances s ≠ 0 ∧ t.keys s = k ∧ t.values s = v

/-- A removal in flight: the content of slot `gap` no longer counts. -/
structure Gap (N : Nat) (home : K → Nat) (k₀ : K) (v₀ : V) (t : Table K V) (gap : Nat) :
    Prop where
  shape : Shape N home k₀ v₀ t
  gap_lt : gap < N
  distinct : ∀ s < N, ∀ s' < N, s ≠ gap → s' ≠ gap → t.distances s ≠ 0 →
    t.distances s' ≠ 0 → t.keys s = t.keys s' → s = s'

theorem Gap.shift {gap : Nat} (g : Gap N home k₀ v₀ t gap) (large : 1 < N)
    (homes : ∀ k, home k < N) (far : 2 ≤ t.distances (step N gap)) :
    Gap N home k₀ v₀
      (t.put gap (t.keys (step N gap)) (t.values (step N gap)) (t.distances (step N gap) - 1))
      (step N gap) where
  shape := by
    have hnext := step_lt g.gap_lt
    apply g.shape.put large g.gap_lt
    · omega
    · intro _
      have place := g.shape.placed _ hnext (by omega)
      have one := offset_step g.gap_lt g.gap_lt (by simpa using large)
      rw [offset_self] at one
      have sum : offset N (home (t.keys (step N gap))) gap + offset N gap (step N gap) =
          offset N (home (t.keys (step N gap))) (step N gap) :=
        offset_between (homes _) g.gap_lt (by omega)
      omega
    · intro s hs h
      have first := g.shape.ordered s hs
      have second := g.shape.ordered gap g.gap_lt
      rw [h] at first
      omega
    · omega
  gap_lt := step_lt g.gap_lt
  distinct s hs s' hs' apart apart' used used' same := by
    have hnext := step_lt g.gap_lt
    have skip : step N gap ≠ gap := step_ne large g.gap_lt
    by_cases e : s = gap <;> by_cases e' : s' = gap
    · rw [e, e']
    · subst e
      rw [put_distances_ne _ _ _ _ e'] at used'
      rw [put_keys_self, put_keys_ne _ _ _ _ e'] at same
      exact absurd (g.distinct _ hnext s' hs' skip e' (by omega) used' same).symm apart'
    · subst e'
      rw [put_distances_ne _ _ _ _ e] at used
      rw [put_keys_self, put_keys_ne _ _ _ _ e] at same
      exact absurd (g.distinct s hs _ hnext e skip used (by omega) same) apart
    · rw [put_distances_ne _ _ _ _ e] at used
      rw [put_distances_ne _ _ _ _ e'] at used'
      rw [put_keys_ne _ _ _ _ e, put_keys_ne _ _ _ _ e'] at same
      exact g.distinct s hs s' hs' e e' used used' same

theorem holdsOff_shift {gap : Nat} {q : K} {w : V} (hgap : gap < N) (large : 1 < N)
    (far : 2 ≤ t.distances (step N gap)) :
    HoldsOff N (t.put gap (t.keys (step N gap)) (t.values (step N gap))
        (t.distances (step N gap) - 1)) (step N gap) q w ↔ HoldsOff N t gap q w := by
  have skip : step N gap ≠ gap := step_ne large hgap
  constructor
  · rintro ⟨s, hs, apart, used, key, value⟩
    by_cases e : s = gap
    · subst e
      rw [put_keys_self] at key
      rw [put_values_self] at value
      exact ⟨step N s, step_lt hs, skip, by omega, key, value⟩
    · rw [put_distances_ne _ _ _ _ e] at used
      rw [put_keys_ne _ _ _ _ e] at key
      rw [put_values_ne _ _ _ _ e] at value
      exact ⟨s, hs, e, used, key, value⟩
  · rintro ⟨s, hs, apart, used, key, value⟩
    by_cases e : s = step N gap
    · subst e
      refine ⟨gap, hgap, skip.symm, ?_, ?_, ?_⟩
      · rw [put_distances_self]
        omega
      · rwa [put_keys_self]
      · rwa [put_values_self]
    · refine ⟨s, hs, e, ?_, ?_, ?_⟩
      · rwa [put_distances_ne _ _ _ _ apart]
      · rwa [put_keys_ne _ _ _ _ apart]
      · rwa [put_values_ne _ _ _ _ apart]

theorem Gap.close {gap : Nat} (g : Gap N home k₀ v₀ t gap) (large : 1 < N)
    (near : t.distances (step N gap) ≤ 1) :
    Shape N home k₀ v₀ (t.put gap k₀ v₀ 0) ∧ Distinct N (t.put gap k₀ v₀ 0) := by
  refine ⟨g.shape.put large g.gap_lt (fun _ => ⟨rfl, rfl⟩) (fun h => absurd rfl h)
    (fun _ _ _ => Nat.zero_le _) (by omega), ?_⟩
  intro s hs s' hs' used used' same
  have e : s ≠ gap := by
    rintro rfl
    simp at used
  have e' : s' ≠ gap := by
    rintro rfl
    simp at used'
  rw [put_distances_ne _ _ _ _ e] at used
  rw [put_distances_ne _ _ _ _ e'] at used'
  rw [put_keys_ne _ _ _ _ e, put_keys_ne _ _ _ _ e'] at same
  exact g.distinct s hs s' hs' e e' used used' same

theorem holds_clear {gap : Nat} {q : K} {w : V} :
    Holds N (t.put gap k₀ v₀ 0) q w ↔ HoldsOff N t gap q w := by
  constructor
  · rintro ⟨s, hs, used, key, value⟩
    have e : s ≠ gap := by
      rintro rfl
      simp at used
    rw [put_distances_ne _ _ _ _ e] at used
    rw [put_keys_ne _ _ _ _ e] at key
    rw [put_values_ne _ _ _ _ e] at value
    exact ⟨s, hs, e, used, key, value⟩
  · rintro ⟨s, hs, e, used, key, value⟩
    refine ⟨s, hs, ?_, ?_, ?_⟩
    · rwa [put_distances_ne _ _ _ _ e]
    · rwa [put_keys_ne _ _ _ _ e]
    · rwa [put_values_ne _ _ _ _ e]

end Gap

section Arcs

/-- At most `L + slack` of the keys have their home slot in any arc of `L`
consecutive slots. -/
def ArcBounded (N slack : Nat) (home : K → Nat) (S : Finset K) : Prop :=
  ∀ a < N, ∀ L ≤ N, (S.filter (fun k => offset N a (home k) < L)).card ≤ L + slack

theorem ArcBounded.mono {N slack : Nat} {home : K → Nat} {R S : Finset K}
    (arcs : ArcBounded N slack home S) (fewer : R ⊆ S) : ArcBounded N slack home R :=
  fun a ha L hL => (Finset.card_le_card (Finset.filter_subset_filter _ fewer)).trans (arcs a ha L hL)

theorem arcBounded_of_card {N slack : Nat} {home : K → Nat} {S : Finset K}
    (few : S.card ≤ slack + 1) : ArcBounded N slack home S := by
  intro a _ L _
  cases L with
  | zero => simp
  | succ L =>
    have part := Finset.card_filter_le S (fun k => offset N a (home k) < L + 1)
    omega

variable {N : Nat} {home : K → Nat} {k₀ : K} {v₀ : V} {t : Table K V}

private theorem block_before (slot e : Nat) (hslot : slot < N) (he : e < N) (apart : e ≠ slot)
    (free : t.distances e = 0) :
    ∃ m, m + 1 < N ∧ t.distances (before N slot (m + 1)) = 0 ∧
      ∀ j, 1 ≤ j → j ≤ m → t.distances (before N slot j) ≠ 0 := by
  have some_free : ∃ j, j + 1 < N ∧ t.distances (before N slot (j + 1)) = 0 := by
    have far : offset N e slot ≠ 0 := fun h => apart ((offset_eq_zero he).mp h)
    have near := offset_lt he hslot
    refine ⟨offset N e slot - 1, by omega, ?_⟩
    rwa [Nat.sub_add_cancel (by omega), before_offset he]
  classical
  refine ⟨Nat.find some_free, (Nat.find_spec some_free).1, (Nat.find_spec some_free).2, ?_⟩
  intro j lower upper used
  have earlier := Nat.find_min some_free (m := j - 1) (by omega)
  have inside := (Nat.find_spec some_free).1
  exact earlier ⟨by omega, by rwa [Nat.sub_add_cancel lower]⟩

private theorem Shape.le_behind (shape : Shape N home k₀ v₀ t) {slot D j : Nat}
    (hslot : slot < N) (behind : ∀ s < N, step N s = slot → D ≤ t.distances s + 1)
    (lower : 1 ≤ j) (upper : j < N) : D ≤ t.distances (before N slot j) + j := by
  have hprev := before_lt hslot (show 1 < N by omega)
  have first := behind _ hprev (step_before hslot)
  have rest := shape.le_back hprev (j - 1) _ (before_lt hslot upper)
    (offset_before_before hslot lower upper)
  omega

theorem Carrying.le_offset {slot D e : Nat} {k : K} (c : Carrying N home k₀ v₀ t slot k D)
    (he : e < N) (apart : e ≠ slot) (free : t.distances e = 0) : D ≤ offset N e slot := by
  have far : offset N e slot ≠ 0 := fun zero => apart ((offset_eq_zero he).mp zero)
  have back := c.shape.le_behind c.slot_lt c.behind (Nat.one_le_iff_ne_zero.mpr far)
    (offset_lt he c.slot_lt)
  rwa [before_offset he, free, Nat.zero_add] at back

private theorem Shape.home_in_block (shape : Shape N home k₀ v₀ t) (homes : ∀ k, home k < N)
    {slot m j D : Nat} (hslot : slot < N) (room : m + 1 < N)
    (stop : t.distances (before N slot (m + 1)) = 0) (upper : j ≤ m)
    (used : t.distances (before N slot j) ≠ 0)
    (above : D ≤ t.distances (before N slot j) + j) :
    offset N (before N slot m) (home (t.keys (before N slot j))) < m + 2 - D := by
  have hj := before_lt hslot (show j < N by omega)
  have place := shape.placed _ hj used
  have wall := shape.le_back hj (m + 1 - j) _ (before_lt hslot room)
    (offset_before_before hslot (by omega) room)
  have span := offset_before_before hslot upper (by omega)
  have sum := offset_between (before_lt hslot (show m < N by omega)) (homes _)
    (show offset N (home (t.keys (before N slot j))) (before N slot j) ≤ _ by omega)
  omega

private def blockKey (N : Nat) (t : Table K V) (slot : Nat) (k : K) (j : Nat) : K :=
  if j = 0 then k else t.keys (before N slot j)

private theorem blockKey_injOn (distinct : Distinct N t) {slot m : Nat} {k : K}
    (hslot : slot < N) (room : m + 1 < N)
    (full : ∀ j, 1 ≤ j → j ≤ m → t.distances (before N slot j) ≠ 0)
    (fresh : ∀ s < N, t.distances s ≠ 0 → t.keys s ≠ k) :
    Set.InjOn (blockKey N t slot k) (Finset.range (m + 1)) := by
  intro i hi j hj same
  have hi' : i < m + 1 := by simpa using hi
  have hj' : j < m + 1 := by simpa using hj
  simp only [blockKey] at same
  split_ifs at same with zi zj zj
  · omega
  · exact absurd same.symm
      (fresh _ (before_lt hslot (by omega)) (full j (by omega) (by omega)))
  · exact absurd same
      (fresh _ (before_lt hslot (by omega)) (full i (by omega) (by omega)))
  · have slots := distinct _ (before_lt hslot (by omega)) _ (before_lt hslot (by omega))
      (full i (by omega) (by omega)) (full j (by omega) (by omega)) same
    have oi := offset_before hslot (show i < N by omega)
    have oj := offset_before hslot (show j < N by omega)
    rw [slots] at oi
    omega

theorem Shape.carried_le (shape : Shape N home k₀ v₀ t) (distinct : Distinct N t)
    (homes : ∀ k, home k < N) {slack slot e D : Nat} {k : K} {S : Finset K}
    (arcs : ArcBounded N slack home S) (hslot : slot < N) (he : e < N) (apart : e ≠ slot)
    (free : t.distances e = 0) (place : offset N (home k) slot + 1 = D)
    (behind : ∀ s < N, step N s = slot → D ≤ t.distances s + 1)
    (stored : ∀ s < N, t.distances s ≠ 0 → t.keys s ∈ S ∧ t.keys s ≠ k) (carried : k ∈ S) :
    D ≤ slack + 1 := by
  obtain ⟨m, room, stop, full⟩ := block_before slot e hslot he apart free
  -- The block holds the home slot of the carried key, so the arc below is nonempty.
  have reach : D ≤ m + 1 := by
    have := shape.le_behind hslot behind (show 1 ≤ m + 1 by omega) room
    omega
  have hstart : before N slot m < N := before_lt hslot (by omega)
  have own : offset N (before N slot m) (home k) < m + 2 - D := by
    have span := offset_before hslot (show m < N by omega)
    have sum : offset N (before N slot m) (home k) + offset N (home k) slot =
        offset N (before N slot m) slot := offset_between hstart (homes k) (by omega)
    omega
  have inside : ∀ j ∈ Finset.range (m + 1), blockKey N t slot k j ∈
      S.filter (fun k => offset N (before N slot m) (home k) < m + 2 - D) := by
    intro j hj
    have upper := Finset.mem_range.mp hj
    simp only [blockKey, Finset.mem_filter]
    split_ifs with zero
    · exact ⟨carried, own⟩
    · have used := full j (by omega) (by omega)
      exact ⟨(stored _ (before_lt hslot (by omega)) used).1,
        shape.home_in_block homes hslot room stop (by omega) used
          (shape.le_behind hslot behind (by omega) (by omega))⟩
  have injective := blockKey_injOn distinct hslot room full (fun s hs used => (stored s hs used).2)
  have count := Finset.card_le_card_of_injOn _ inside injective
  have bound := arcs _ hstart (m + 2 - D) (by omega)
  rw [Finset.card_range] at count
  omega

theorem Carrying.le_of_arcs {slack slot D e₁ e₂ : Nat} {k : K} {v : V} {S : Finset K}
    (c : Carrying N home k₀ v₀ t slot k D) (homes : ∀ k, home k < N)
    (arcs : ArcBounded N slack home S) (he₁ : e₁ < N) (he₂ : e₂ < N) (apart : e₁ ≠ e₂)
    (free₁ : t.distances e₁ = 0) (free₂ : t.distances e₂ = 0)
    (keys : ∀ q w, (Holds N t q w ∨ (q = k ∧ w = v)) → q ∈ S) : D ≤ slack + 1 := by
  have inside : k ∈ S := keys k v (Or.inr ⟨rfl, rfl⟩)
  have stored : ∀ s < N, t.distances s ≠ 0 → t.keys s ∈ S ∧ t.keys s ≠ k :=
    fun s hs used => ⟨keys _ _ (Or.inl ⟨s, hs, used, rfl, rfl⟩), c.fresh s hs used⟩
  by_cases here : e₁ = slot
  · exact c.shape.carried_le c.distinct homes arcs c.slot_lt he₂
      (fun same => apart (here.trans same.symm)) free₂ c.place c.behind stored inside
  · exact c.shape.carried_le c.distinct homes arcs c.slot_lt he₁ here free₁ c.place c.behind
      stored inside

end Arcs

end HftGrading.Lib.RobinHoodTable
