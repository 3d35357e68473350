import Mathlib.Data.List.Basic

/-!
# Registries

Objects that are held under keys, as long as the key is not erased. An object is known by its place in
the heap, where it stays when the registry lets go of it. The registry keeps account of the objects it
has handed out under a key since the key was erased last.
-/

namespace Energiminer.Misc

structure Registry (α : Type) where
  heap : List α := []
  /-- the keys and the places of the objects that are held -/
  entries : List (Nat × Nat) := []
  handed : List (Nat × Nat) := []

namespace Registry
variable {α : Type}

def find (r : Registry α) (key : Nat) : Option Nat := r.entries.lookup key

/-- A new object, which is not held yet. -/
def allocate (r : Registry α) (x : α) : Registry α := { r with heap := r.heap ++ [x] }

def hand (r : Registry α) (key id : Nat) : Registry α := { r with handed := (key, id) :: r.handed }

/-- The object that is held under the key after the call: the new one only if there was none. -/
def insert (r : Registry α) (key id : Nat) : Registry α × Nat :=
  match r.find key with
  | some held => (r, held)
  | none => ({ r with entries := (key, id) :: r.entries }, id)

def erase (r : Registry α) (key : Nat) : Registry α :=
  { r with
    entries := r.entries.filter fun entry => entry.1 ≠ key
    handed := r.handed.filter fun entry => entry.1 ≠ key }

variable {r : Registry α} {P : Nat → α → Prop} {key key' id : Nat}

theorem find_insert (r : Registry α) (key id : Nat) :
    (r.insert key id).1.find key = some (r.insert key id).2 := by
  rw [insert]
  split
  next held hheld => exact hheld
  next =>
    rw [find, List.lookup_cons, beq_self_eq_true]

theorem find_insert_of_ne (r : Registry α) (id : Nat) (h : key' ≠ key) :
    (r.insert key id).1.find key' = r.find key' := by
  rw [insert]
  split
  next => rfl
  next => rw [find, find, List.lookup_cons, beq_false_of_ne h]

theorem lookup_filter_ne {β : Type} {entries : List (Nat × β)} (h : key' ≠ key) :
    (entries.filter fun entry => entry.1 ≠ key).lookup key' = entries.lookup key' := by
  induction entries with
  | nil => rfl
  | cons entry entries ih =>
    rw [List.filter_cons]
    split
    next => rw [List.lookup_cons, List.lookup_cons, ih]
    next hkey =>
      rw [decide_eq_true_eq, not_not] at hkey
      rw [ih, List.lookup_cons, hkey, beq_false_of_ne h]

theorem find_erase_of_ne (r : Registry α) (h : key' ≠ key) : (r.erase key).find key' = r.find key' :=
  lookup_filter_ne h

theorem lookup_filter_self {β : Type} (entries : List (Nat × β)) (key : Nat) :
    (entries.filter fun entry => entry.1 ≠ key).lookup key = none := by
  rw [List.lookup_eq_none_iff]
  intro entry hentry
  have hne := (List.mem_filter.mp hentry).2
  rw [decide_eq_true_eq] at hne
  exact bne_iff_ne.mpr fun heq => hne heq.symm

theorem find_erase (r : Registry α) (key : Nat) : (r.erase key).find key = none :=
  lookup_filter_self _ _

/-- There is an object with the property at the place. -/
def Has (r : Registry α) (P : α → Prop) (id : Nat) : Prop := ∃ x, r.heap[id]? = some x ∧ P x

theorem Has.allocate {Q : α → Prop} (h : r.Has Q id) (x : α) : (r.allocate x).Has Q id := by
  obtain ⟨y, hy, hQ⟩ := h
  refine ⟨y, ?_, hQ⟩
  rw [Registry.allocate, List.getElem?_append_left (List.getElem?_eq_some_iff.mp hy).1]
  exact hy

theorem has_allocate {Q : α → Prop} {x : α} (h : Q x) : (r.allocate x).Has Q r.heap.length := by
  refine ⟨x, ?_, h⟩
  rw [Registry.allocate, List.getElem?_append_right (Nat.le_refl _), Nat.sub_self]
  rfl

theorem Has.mono {Q R : α → Prop} (h : r.Has Q id) (himp : ∀ x, Q x → R x) : r.Has R id := by
  obtain ⟨x, hx, hQ⟩ := h
  exact ⟨x, hx, himp x hQ⟩

@[simp] theorem heap_insert (r : Registry α) (key id : Nat) : (r.insert key id).1.heap = r.heap := by
  rw [insert]
  split
  · rfl
  · rfl

/-- Every object that is held has the property of its key, and what was handed out under a key since it
was erased is still held there. -/
structure Holds (P : Nat → α → Prop) (r : Registry α) : Prop where
  held : ∀ key id, r.find key = some id → r.Has (P key) id
  handed : ∀ entry ∈ r.handed, r.find entry.1 = some entry.2

theorem holds_empty (P : Nat → α → Prop) : Holds P ({} : Registry α) := ⟨nofun, nofun⟩

theorem Holds.unique (h : r.Holds P) {id' : Nat} (hid : (key, id) ∈ r.handed)
    (hid' : (key, id') ∈ r.handed) : id = id' :=
  Option.some.inj ((h.handed _ hid).symm.trans (h.handed _ hid'))

theorem Holds.allocate (h : r.Holds P) (x : α) : (r.allocate x).Holds P :=
  ⟨fun key id hfind => (h.held key id hfind).allocate x, h.handed⟩

theorem Holds.hand (h : r.Holds P) (hfind : r.find key = some id) : (r.hand key id).Holds P := by
  refine ⟨h.held, fun entry hentry => ?_⟩
  rcases List.mem_cons.mp hentry with rfl | hold
  · exact hfind
  · exact h.handed entry hold

theorem Holds.insert (h : r.Holds P) (hid : r.Has (P key) id) : (r.insert key id).1.Holds P := by
  constructor
  · intro key' id' hfind
    have hold : r.Has (P key') id' := by
      by_cases hkey : key' = key
      · subst hkey
        rw [find_insert, Option.some.injEq] at hfind
        rw [← hfind, Registry.insert]
        split
        next held hheld => exact h.held key' held hheld
        next => exact hid
      · rw [find_insert_of_ne r id hkey] at hfind
        exact h.held key' id' hfind
    obtain ⟨x, hx, hP⟩ := hold
    exact ⟨x, by rw [heap_insert]; exact hx, hP⟩
  · intro entry hentry
    have hhanded : (r.insert key id).1.handed = r.handed := by
      rw [Registry.insert]
      split
      · rfl
      · rfl
    rw [hhanded] at hentry
    have hfind := h.handed entry hentry
    by_cases hkey : entry.1 = key
    · -- the key was held, and the insertion has changed nothing
      rw [hkey] at hfind
      rw [hkey, Registry.insert, hfind]
      exact hfind
    · rw [find_insert_of_ne r id hkey]
      exact hfind

theorem Holds.erase (h : r.Holds P) (key : Nat) : (r.erase key).Holds P := by
  constructor
  · intro key' id hfind
    by_cases hkey : key' = key
    · rw [hkey, find_erase] at hfind
      cases hfind
    · rw [find_erase_of_ne r hkey] at hfind
      exact h.held key' id hfind
  · intro entry hentry
    obtain ⟨hold, hne⟩ := List.mem_filter.mp hentry
    rw [decide_eq_true_eq] at hne
    rw [find_erase_of_ne r hne]
    exact h.handed entry hold

/-! ## Registries as lists of their objects -/

/-- The objects that are held, by their keys. -/
def Shows (r : Registry α) (held : List (Nat × α)) : Prop :=
  ∀ key, (r.find key).map (r.heap[·]?) = (held.lookup key).map some

variable {held : List (Nat × α)}

theorem Shows.of_find (h : r.Shows held) (hfind : r.find key = some id) :
    ∃ x, r.heap[id]? = some x ∧ held.lookup key = some x := by
  have hkey := h key
  rw [hfind] at hkey
  obtain ⟨x, hx, hsome⟩ := Option.map_eq_some_iff.mp hkey.symm
  exact ⟨x, hsome.symm, hx⟩

theorem Shows.of_find_none (h : r.Shows held) (hfind : r.find key = none) : held.lookup key = none := by
  have hkey := h key
  rw [hfind] at hkey
  exact Option.map_eq_none_iff.mp hkey.symm

theorem Shows.insert_allocate (h : r.Shows held) (hfind : r.find key = none) (x : α) :
    ((r.allocate x).insert key r.heap.length).2 = r.heap.length ∧
      ((r.allocate x).insert key r.heap.length).1.heap[r.heap.length]? = some x ∧
      ((r.allocate x).insert key r.heap.length).1.Shows ((key, x) :: held) := by
  have hnew : (r.heap ++ [x])[r.heap.length]? = some x := List.getElem?_concat_length
  have hinsert : (r.allocate x).insert key r.heap.length =
      (⟨r.heap ++ [x], (key, r.heap.length) :: r.entries, r.handed⟩, r.heap.length) := by
    rw [insert, show (r.allocate x).find key = none from hfind]
    rfl
  rw [hinsert]
  refine ⟨rfl, hnew, fun key' => ?_⟩
  dsimp only [find]
  rw [List.lookup_cons, List.lookup_cons]
  cases hkey : key' == key with
  | true => exact congrArg some hnew
  | false =>
    -- the other objects stay where they are
    cases hold : r.entries.lookup key' with
    | none => exact congrArg (Option.map some) (h.of_find_none hold).symm
    | some id =>
      obtain ⟨y, hy, hlookup⟩ := h.of_find hold
      have hlt := (List.getElem?_eq_some_iff.mp hy).1
      dsimp only [Option.map_some]
      rw [List.getElem?_append_left hlt, hy, hlookup]
      rfl

theorem Shows.erase (h : r.Shows held) (key : Nat) :
    (r.erase key).Shows (held.filter fun entry => entry.1 ≠ key) := by
  intro key'
  by_cases hkey : key' = key
  · rw [hkey, find_erase, lookup_filter_self]
    rfl
  · rw [find_erase_of_ne r hkey, lookup_filter_ne hkey]
    exact h key'

end Registry

end Energiminer.Misc
