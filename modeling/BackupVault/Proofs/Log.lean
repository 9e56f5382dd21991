/-!
# Logs

A log lists what happened, in order.  It is orderly if each event in it may happen after those
before it.

## Overview

- `Orderly`: each event was allowed when it happened
- `Orderly.concat`: one more event
- `eq_of_only`: where the only event of its kind stands
-/

set_option autoImplicit false

namespace BackupVault

variable {ε : Type} {Allowed : List ε → ε → Prop} {L M : List ε} {e : ε}

/-- Each event of a log was allowed after those before it. -/
def Orderly (Allowed : List ε → ε → Prop) (L : List ε) : Prop :=
  ∀ before e after, L = before ++ e :: after → Allowed before e

theorem Orderly.nil : Orderly Allowed [] := by
  intro before e after h
  simp at h

theorem Orderly.concat (h : Orderly Allowed L) (he : Allowed L e) : Orderly Allowed (L ++ [e]) := by
  intro before e' after heq
  -- Either the event is the one at the end, or it stands in the log so far.
  rcases List.eq_nil_or_concat after with rfl | ⟨after, last, rfl⟩
  · obtain ⟨rfl, hlast⟩ := List.append_inj' heq rfl
    obtain rfl := (List.cons.inj hlast).1
    exact he
  · rw [List.concat_eq_append, ← List.cons_append, ← List.append_assoc] at heq
    exact h before e' after (List.append_inj' heq rfl).1

/-- The only event of its kind stands at one place of a log. -/
theorem eq_of_only {P : ε → Prop} {x y : ε} {xs before after : List ε} (hL : ∀ e ∈ L, ¬ P e)
    (hxs : ∀ e ∈ xs, ¬ P e) (hy : P y) (h : L ++ x :: xs = before ++ y :: after) :
    before = L ∧ y = x ∧ after = xs := by
  -- If the two places differed, `y` would be among the events on one side of `x`.
  rcases List.append_eq_append_iff.mp h with ⟨mid, hbefore, hmid⟩ | ⟨mid, hmid, hafter⟩
  · cases mid with
    | nil =>
      obtain ⟨rfl, rfl⟩ := List.cons.inj hmid
      exact ⟨by rw [hbefore, List.append_nil], rfl, rfl⟩
    | cons z mid =>
      have hmem : y ∈ xs := by
        rw [(List.cons.inj hmid).2]
        exact List.mem_append_right _ List.mem_cons_self
      exact absurd hy (hxs y hmem)
  · cases mid with
    | nil =>
      obtain ⟨rfl, rfl⟩ := List.cons.inj hafter
      exact ⟨by rw [hmid, List.append_nil], rfl, rfl⟩
    | cons z mid =>
      obtain ⟨rfl, -⟩ := List.cons.inj hafter
      have hmem : y ∈ L := by
        rw [hmid]
        exact List.mem_append_right _ List.mem_cons_self
      exact absurd hy (hL y hmem)

end BackupVault
