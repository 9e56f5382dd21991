import BackupVault.Proofs.Storage.Files
import Mathlib.Data.List.Pairwise

/-!
# Parts of a tree

What stands at a location or below it is a part of the tree, from which everything that is looked
up or listed there can be told.  A change to entries elsewhere leaves the part as it is, entry by
entry and in the same order; the same change to two trees with the same part leaves the same part
in both.

## Overview

- `FileTree.below`: the part of a tree at a location
- `FileTree.lookup_of_below`, `FileTree.children_of_below`: what the part tells
- `FileTree.Changes`: entries changed at some places only
- `FileTree.Once`: no location occurs twice in a part
-/

set_option autoImplicit false

namespace BackupVault.FileTree

/-! ## §1 Parts -/

/-- The entries at a location and below it, in the order of the tree. -/
def below (t : FileTree) (l : Location) : List (Location × Entry) :=
  t.entries.filter fun e => l.isPrefixOf e.1

variable {t t' t₁ t₂ : FileTree} {l l' : Location}

theorem lookup_of_below (h : t.below l = t'.below l) (hl : l <+: l') :
    t.lookup l' = t'.lookup l' := by
  have hfind (u : FileTree) :
      u.entries.find? (·.1 == l') = (u.below l).find? (·.1 == l') := by
    refine (find_filter _ _ _ fun e he => ?_).symm
    rw [beq_iff_eq] at he
    rw [he, List.isPrefixOf_iff_prefix]
    exact hl
  rw [lookup, lookup, hfind t, hfind t', h]

/-- The name of an entry in a directory, if it lies right below it. -/
def childOf (l : Location) (e : Location × Entry) : Option (Bytes × Entry) :=
  match e.1.getLast? with
  | some name => if e.1.dropLast = l then some (name, e.2) else none
  | none => none

theorem children_eq (t : FileTree) (l : Location) : t.children l = t.entries.filterMap (childOf l) :=
  rfl

theorem eq_of_childOf {e : Location × Entry} {child : Bytes × Entry}
    (h : childOf l e = some child) : e = (l ++ [child.1], child.2) := by
  obtain ⟨location, entry⟩ := e
  unfold childOf at h
  split at h
  · rename_i name hname
    split at h
    · rename_i hdrop
      cases h
      obtain ⟨front, rfl⟩ := List.getLast?_eq_some_iff.mp hname
      rw [List.dropLast_concat] at hdrop
      rw [hdrop]
    · cases h
  · cases h

theorem childOf_child (l : Location) (name : Bytes) (e : Entry) :
    childOf l (l ++ [name], e) = some (name, e) := by
  simp [childOf]

theorem mem_children {name : Bytes} {e : Entry} :
    (name, e) ∈ t.children l ↔ (l ++ [name], e) ∈ t.entries := by
  rw [children_eq, List.mem_filterMap]
  constructor
  · rintro ⟨x, hx, hchild⟩
    rwa [eq_of_childOf hchild] at hx
  · intro h
    exact ⟨_, h, childOf_child l name e⟩

/-- The names in a directory are those of entries below it. -/
theorem children_eq_below (t : FileTree) (l : Location) :
    t.children l = (t.below l).filterMap (childOf l) := by
  rw [children_eq, below, List.filterMap_filter]
  congr 1
  funext e
  cases hchild : childOf l e with
  | none => simp
  | some child =>
    have hprefix : l.isPrefixOf e.1 = true := by
      rw [eq_of_childOf hchild, List.isPrefixOf_iff_prefix]
      exact List.prefix_append l _
    rw [if_pos hprefix]

theorem children_of_below (h : t.below l = t'.below l) : t.children l = t'.children l := by
  rw [children_eq_below, children_eq_below, h]

theorem below_erase (t : FileTree) (l l' : Location) :
    (t.erase l').below l = (t.below l).filter (·.1 != l') := by
  rw [below, below, erase, List.filter_filter, List.filter_filter]
  congr 1
  funext e
  exact Bool.and_comm _ _

theorem below_insert (t : FileTree) (l l' : Location) (e : Entry) :
    (t.insert l' e).below l =
      (t.below l).filter (·.1 != l') ++ [(l', e)].filter fun e => l.isPrefixOf e.1 := by
  rw [← below_erase, below, insert, List.filter_append]
  rfl

/-- The same change to the same part. -/
theorem below_insert_congr (h : t.below l = t'.below l) (e : Entry) :
    (t.insert l' e).below l = (t'.insert l' e).below l := by
  rw [below_insert, below_insert, h]

theorem below_erase_congr (h : t.below l = t'.below l) :
    (t.erase l').below l = (t'.erase l').below l := by
  rw [below_erase, below_erase, h]

/-! ## §2 Changes at some places -/

/-- From the first tree to the second, entries changed at the given places only; all others are as
they were, and in the same order. -/
structure Changes (places : Location → Prop) (t t' : FileTree) : Prop where
  elsewhere : ∀ p : Location → Bool, (∀ l, places l → p l = false) →
    t'.entries.filter (fun e => p e.1) = t.entries.filter fun e => p e.1
  workingDirectory : t'.workingDirectory = t.workingDirectory
  sizeLimit : t'.sizeLimit = t.sizeLimit

variable {places : Location → Prop}

theorem Changes.refl (places : Location → Prop) (t : FileTree) : Changes places t t :=
  ⟨fun _ _ => rfl, rfl, rfl⟩

theorem Changes.trans (h : Changes places t t₁) (h' : Changes places t₁ t₂) :
    Changes places t t₂ where
  elsewhere p hp := (h'.elsewhere p hp).trans (h.elsewhere p hp)
  workingDirectory := h'.workingDirectory.trans h.workingDirectory
  sizeLimit := h'.sizeLimit.trans h.sizeLimit

theorem Changes.mono {more : Location → Prop} (h : Changes places t t')
    (hmore : ∀ l, places l → more l) : Changes more t t' where
  elsewhere p hp := h.elsewhere p fun l hl => hp l (hmore l hl)
  workingDirectory := h.workingDirectory
  sizeLimit := h.sizeLimit

theorem changes_erase (t : FileTree) (hl : places l) : Changes places t (t.erase l) where
  elsewhere p hp := by
    rw [erase, List.filter_filter]
    congr 1
    funext e
    -- What was at the place is not among the entries that are looked at.
    cases he : p e.1 with
    | false => rfl
    | true =>
      have hne : e.1 ≠ l := by
        intro heq
        rw [heq, hp l hl] at he
        cases he
      simp [hne]
  workingDirectory := rfl
  sizeLimit := rfl

theorem changes_insert (t : FileTree) (hl : places l) (e : Entry) :
    Changes places t (t.insert l e) where
  elsewhere p hp := by
    rw [insert, List.filter_append, (changes_erase t hl).elsewhere p hp]
    simp [hp l hl]
  workingDirectory := rfl
  sizeLimit := rfl

theorem Changes.lookup (h : Changes places t t') (hl : ¬ places l) :
    t'.lookup l = t.lookup l := by
  -- The entries at one location, looked at alone.
  have hp : ∀ l', places l' → (l' == l) = false := by
    intro l' hl'
    exact beq_false_of_ne fun heq => hl (heq ▸ hl')
  have hfind (u : FileTree) :
      u.entries.find? (·.1 == l) = (u.entries.filter fun e => e.1 == l).find? (·.1 == l) :=
    (find_filter _ _ _ fun e he => he).symm
  rw [FileTree.lookup, FileTree.lookup, hfind t, hfind t', h.elsewhere (· == l) hp]

theorem Changes.below (h : Changes places t t') (hl : ∀ l', places l' → ¬ l <+: l') :
    t'.below l = t.below l := by
  refine h.elsewhere (fun l' => l.isPrefixOf l') fun l' hl' => ?_
  rw [Bool.eq_false_iff, ne_eq, List.isPrefixOf_iff_prefix]
  exact hl l' hl'

/-! ## §3 Locations that occur once -/

/-- No location at the given one or below it occurs twice in the tree. -/
def Once (t : FileTree) (l : Location) : Prop :=
  (t.below l).Pairwise fun e e' => e.1 ≠ e'.1

theorem mem_of_lookup {e : Entry} (hl : l ≠ []) (h : t.lookup l = some e) :
    (l, e) ∈ t.entries := by
  cases l with
  | nil => exact absurd rfl hl
  | cons x l =>
    rw [lookup_cons, Option.map_eq_some_iff] at h
    obtain ⟨⟨l', e'⟩, hfind, rfl⟩ := h
    have heq := List.find?_some hfind
    rw [beq_iff_eq] at heq
    exact heq ▸ List.mem_of_find?_eq_some hfind

theorem lookup_ne_none_of_mem {e : Entry} (h : (l, e) ∈ t.entries) : t.lookup l ≠ none := by
  cases l with
  | nil => simp [lookup_nil]
  | cons x l =>
    rw [lookup_cons, ne_eq, Option.map_eq_none_iff, List.find?_eq_none]
    intro hnone
    exact hnone _ h (beq_self_eq_true _)

/-- Where nothing is found there are no entries. -/
theorem once_of_lookup (h : ∀ l', l <+: l' → t.lookup l' = none) : t.Once l := by
  have hnil : t.below l = [] := by
    rw [below, List.filter_eq_nil_iff]
    rintro ⟨l', e⟩ he hprefix
    exact lookup_ne_none_of_mem he (h l' (List.isPrefixOf_iff_prefix.mp hprefix))
  rw [Once, hnil]
  exact .nil

namespace Once

theorem erase (h : t.Once l) (l' : Location) : (t.erase l').Once l := by
  rw [Once, below_erase]
  exact h.filter _

theorem insert (h : t.Once l) (l' : Location) (e : Entry) : (t.insert l' e).Once l := by
  rw [Once, below_insert, List.pairwise_append]
  refine ⟨h.filter _, (List.pairwise_singleton _ _).filter _, ?_⟩
  -- What was at the location before is gone.
  intro x hx y hy
  have hne := (List.mem_filter.mp hx).2
  rw [List.mem_singleton.mp (List.mem_filter.mp hy).1]
  exact bne_iff_ne.mp hne

/-- What is in the tree is what is found. -/
theorem lookup_of_mem (h : t.Once l) (hl : l <+: l') (hl' : l' ≠ []) {e : Entry}
    (hmem : (l', e) ∈ t.entries) : t.lookup l' = some e := by
  cases hlookup : t.lookup l' with
  | none => exact absurd hlookup (lookup_ne_none_of_mem hmem)
  | some e' =>
    have hbelow : ∀ e, (l', e) ∈ t.entries → (l', e) ∈ t.below l := fun e he =>
      List.mem_filter.mpr ⟨he, List.isPrefixOf_iff_prefix.mpr hl⟩
    have : Std.Symm fun e e' : Location × Entry => e.1 ≠ e'.1 := ⟨fun _ _ hne => hne.symm⟩
    -- Two entries at one location are the same one.
    have hsame : (l', e') = (l', e) := by
      refine Decidable.of_not_not fun hne => ?_
      exact h.forall (hbelow _ (mem_of_lookup hl' hlookup))
        (hbelow _ hmem) hne rfl
    injection hsame with _ he
    rw [he]

/-- The names in a directory are different. -/
theorem children (h : t.Once l) : (t.children l).Pairwise fun x y => x.1 ≠ y.1 := by
  rw [children_eq_below]
  refine List.Pairwise.filterMap _ ?_ h
  intro e e' hne x hx y hy heq
  rw [eq_of_childOf hx, eq_of_childOf hy, heq] at hne
  exact hne rfl

end Once

end BackupVault.FileTree
