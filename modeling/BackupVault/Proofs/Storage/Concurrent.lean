import BackupVault.Proofs.Storage.Serial
import Mathlib.Data.List.Induction

/-!
# Calls at the same time

Any number of callers use one registry at the same time.  A call gets its directory while it alone
may use what is remembered, and does its task while it alone may use the directory; between the two
other calls go on as they like.  Whatever comes of this comes of a run in which one thing happens
after another: users become known, and calls are performed at once, in an order that agrees with
which call had returned before which other one was made.

What keeps two tasks on one directory apart is the object that stands for the directory, since the
lock is part of it.  Objects are made when a user becomes known, and all calls of a user get the
same one.

## Overview

- `Registry.object`: the object that stands for a user's directory

- `Registry.Crowd`: a registry and the calls that were made on it; `Registry.Crowd.run`: moves
- `Registry.Precedes`: a call had returned before another one was made
- `Registry.Tracks`: a serial run that tells what became of the calls so far
- `Registry.Crowd.serialisable`: there is one for all moves
-/

set_option autoImplicit false

namespace BackupVault.Registry

open FileTree

/-! ## §1 Objects -/

/-- The object that stands for the directory of a user among those that were met, the last one
first.  Objects are told apart by their numbers, in the order in which they were made, from one on.
A user who was met again would get another one. -/
def object (user : UserId) : (known : List UserId) → Nat
  | [] => 0
  | met :: earlier => if met = user then earlier.length + 1 else object user earlier

section Object

variable {user user' : UserId} {known known' : List UserId}

theorem object_le : object user known ≤ known.length := by
  induction known with
  | nil => exact Nat.le_refl 0
  | cons met earlier ih =>
    rw [object, List.length_cons]
    split
    · exact Nat.le_refl _
    · exact Nat.le_succ_of_le ih

/-- Different users have different objects. -/
theorem object_inj (h : user ∈ known) :
    object user known = object user' known ↔ user = user' := by
  refine ⟨fun heq => ?_, fun heq => heq ▸ rfl⟩
  induction known with
  | nil => cases h
  | cons met earlier ih =>
    have hle : object user earlier ≤ earlier.length := object_le
    have hle' : object user' earlier ≤ earlier.length := object_le
    rw [object, object] at heq
    by_cases hmet : met = user
    · by_cases hmet' : met = user'
      · exact hmet.symm.trans hmet'
      · rw [if_pos hmet, if_neg hmet'] at heq
        omega
    · by_cases hmet' : met = user'
      · rw [if_neg hmet, if_pos hmet'] at heq
        omega
      · rw [if_neg hmet, if_neg hmet'] at heq
        exact ih ((List.mem_cons.mp h).resolve_left (Ne.symm hmet)) heq

/-- The object of a user stays the same while others are met. -/
theorem object_of_suffix (hsuffix : known <:+ known') (hnodup : known'.Nodup) (h : user ∈ known) :
    object user known' = object user known := by
  obtain ⟨later, rfl⟩ := hsuffix
  induction later with
  | nil => rfl
  | cons met later ih =>
    obtain ⟨hnot, hnodup⟩ := List.nodup_cons.mp hnodup
    have hne : met ≠ user := by
      rintro rfl
      exact hnot (List.mem_append_right _ h)
    rw [List.cons_append, object, if_neg hne, ih hnodup]

end Object

/-! ## §2 Crowds -/

/-- How far a call has come.  While it is at work it holds the object of the directory. -/
inductive Stage where
  | made
  | entered (d : UserDirectory) (object : Nat)
  | returned (told : Told)

def Stage.isOver : Stage → Bool
  | .returned _ => true
  | _ => false

/-- A registry, and the calls that were made on it. -/
structure Crowd where
  storage : Storage
  calls : List (Call × Stage) := []

/-- What happens next: a call is made, or the call of a number goes on. -/
inductive Move where
  | make (c : Call)
  | proceed (number : Nat)

/-- The next part of a call. -/
def Call.advance (c : Call) : Stage → Storage → Stage × Storage
  | .made, s =>
    match c.enter s with
    | .ok d s => (.entered d (object c.user s.registry.known), s)
    | .error e s => (.returned (.error e), s)
  | .entered d _, s => (.returned (outcome (onFiles (c.task d) s)), after (onFiles (c.task d) s))
  | .returned told, s => (.returned told, s)

namespace Crowd

def move (w : Crowd) : Move → Crowd
  | .make c => { w with calls := w.calls ++ [(c, .made)] }
  | .proceed number =>
    match w.calls[number]? with
    | none => w
    | some (c, stage) =>
      { storage := (c.advance stage w.storage).2
        calls := w.calls.set number (c, (c.advance stage w.storage).1) }

def run (w : Crowd) (moves : List Move) : Crowd := moves.foldl move w

/-- The call of this number is at work in a directory, and holds an object. -/
def Holds (w : Crowd) (i : Nat) (c : Call) (d : UserDirectory) (o : Nat) : Prop :=
  w.calls[i]? = some (c, .entered d o)

/-- The call of this number is over. -/
def HasReturned (w : Crowd) (i : Nat) : Prop := ∃ c told, w.calls[i]? = some (c, .returned told)

theorem run_append (w : Crowd) (moves moves' : List Move) :
    w.run (moves ++ moves') = (w.run moves).run moves' := List.foldl_append

theorem length_move (w : Crowd) (m : Move) : w.calls.length ≤ (w.move m).calls.length := by
  cases m with
  | make c => simp [move]
  | proceed number =>
    unfold move
    simp only
    split
    · exact Nat.le_refl _
    · simp

/-- A call that is over stays as it is. -/
theorem call_move {w : Crowd} {i : Nat} {c : Call} {told : Told}
    (h : w.calls[i]? = some (c, .returned told)) (m : Move) :
    (w.move m).calls[i]? = some (c, .returned told) := by
  cases m with
  | make c' =>
    obtain ⟨hlt, -⟩ := List.getElem?_eq_some_iff.mp h
    rw [move, List.getElem?_append_left hlt, h]
  | proceed number =>
    unfold move
    simp only
    split
    · exact h
    · rename_i c' stage hcall
      by_cases heq : number = i
      · subst heq
        rw [h] at hcall
        cases hcall
        obtain ⟨hlt, -⟩ := List.getElem?_eq_some_iff.mp h
        rw [List.getElem?_set_self hlt, Call.advance]
      · rw [List.getElem?_set_ne heq, h]

theorem HasReturned.move {w : Crowd} {i : Nat} (h : w.HasReturned i) (m : Move) :
    (w.move m).HasReturned i := by
  obtain ⟨c, told, hcall⟩ := h
  exact ⟨c, told, call_move hcall m⟩

theorem HasReturned.run {w : Crowd} {i : Nat} (h : w.HasReturned i) (moves : List Move) :
    (w.run moves).HasReturned i := by
  induction moves generalizing w with
  | nil => exact h
  | cons m moves ih => exact ih (h.move m)

end Crowd

/-- The crowd that these moves make of a storage that nobody uses. -/
abbrev crowd (s₀ : Storage) (moves : List Move) : Crowd := Crowd.run ⟨s₀, []⟩ moves

/-- At some time in these moves the first call had returned, and the second one was not yet made. -/
def Precedes (s₀ : Storage) (moves : List Move) (i j : Nat) : Prop :=
  ∃ earlier later, moves = earlier ++ later ∧ (crowd s₀ earlier).HasReturned i ∧
    (crowd s₀ earlier).calls.length ≤ j

theorem Precedes.hasReturned {s₀ : Storage} {moves : List Move} {i j : Nat}
    (h : Precedes s₀ moves i j) : (crowd s₀ moves).HasReturned i := by
  obtain ⟨earlier, later, rfl, hreturned, -⟩ := h
  rw [crowd, Crowd.run_append]
  exact hreturned.run later

/-- Of calls that were made already, the last move does not change which one precedes which. -/
theorem Precedes.of_append {s₀ : Storage} {moves : List Move} {m : Move} {i j : Nat}
    (h : Precedes s₀ (moves ++ [m]) i j) (hj : j < (crowd s₀ (moves ++ [m])).calls.length) :
    Precedes s₀ moves i j := by
  obtain ⟨earlier, later, hmoves, hreturned, hlength⟩ := h
  rcases List.eq_nil_or_concat later with rfl | ⟨later, m', rfl⟩
  · rw [List.append_nil] at hmoves
    rw [← hmoves] at hlength
    omega
  · rw [List.concat_eq_append, ← List.append_assoc] at hmoves
    exact ⟨earlier, later, List.append_inj_left' hmoves rfl, hreturned, hlength⟩

/-! ## §3 Serial runs of crowds -/

namespace Call

/-- What makes its user known, if the call does so at all. -/
def introduction : Call → List Atom
  | store user filename _ => if isPlainFilename filename then [.introduce user] else []
  | _ => []

/-- What has happened for a call that has come so far.  Storing is two things: the user becomes
known, and the file is made, with all of its content, or refused. -/
def atoms (c : Call) : Stage → List Atom
  | .made => []
  | .entered _ _ => c.introduction
  | .returned _ => c.introduction ++ [.call c]

theorem call_not_mem_introduction (c c' : Call) : Atom.call c' ∉ c.introduction := by
  cases c with
  | store user filename content =>
    unfold introduction
    split <;> simp
  | _ => exact List.not_mem_nil

/-- A call that makes its user known does nothing else on entering; other calls only look, unless
they are refused. -/
theorem introduction_cases (c : Call) :
    c.introduction = [.introduce c.user] ∧ (∀ s, c.enter s = getOrCreate c.user s) ∨
      c.introduction = [] ∧ (c.enter = get c.user ∨ ∀ s, ∃ e, c.enter s = .error e s) := by
  cases c with
  | store user filename content =>
    by_cases hplain : isPlainFilename filename = true
    · exact .inl ⟨if_pos hplain, fun s => bind_run_ok (check_plain hplain s)⟩
    · exact .inr ⟨if_neg hplain, .inr fun s => ⟨_, bind_run_error (check_not_plain hplain s)⟩⟩
  | read user filename => exact .inr ⟨rfl, .inl rfl⟩
  | list user => exact .inr ⟨rfl, .inl rfl⟩
  | delete user filename => exact .inr ⟨rfl, .inl rfl⟩

theorem not_refused_of_enter {c : Call} {s s' : Storage} {d : UserDirectory}
    (h : c.enter s = .ok d s') : c.isRefused = false := by
  cases c with
  | store user filename content =>
    by_cases hplain : isPlainFilename filename = true
    · rw [isRefused, hplain]
      rfl
    · rw [enter_store, bind_run_error (check_not_plain hplain s)] at h
      cases h
  | _ => rfl

/-- Only a call that is over was performed. -/
theorem returned_of_mem {c c' : Call} {stage : Stage} (h : Atom.call c' ∈ c.atoms stage) :
    c' = c ∧ ∃ told, stage = .returned told := by
  cases stage with
  | made => cases h
  | entered d object => exact absurd h (call_not_mem_introduction c c')
  | returned told =>
    rcases List.mem_append.mp h with h | h
    · exact absurd h (call_not_mem_introduction c c')
    · cases List.mem_singleton.mp h
      exact ⟨rfl, told, rfl⟩

end Call

/-- Where a call is refused its directory its user does not become known, and nothing changes. -/
theorem Sound.introduction_fails {R : Location} {s : Storage} (h : Sound R s) {c : Call}
    {e : StorageError} (hfail : outcome (c.enter s) = .error e) (i : Nat) :
    Serial s (c.introduction.map fun a => ⟨i, a, outcome (a.perform s)⟩) s := by
  rcases c.introduction_cases with ⟨hatoms, hsame⟩ | ⟨hatoms, -⟩
  · have hstays : after ((Atom.introduce c.user).perform s) = s := by
      rw [Atom.perform, after_map]
      exact h.getOrCreate_fails (hsame s ▸ hfail)
    rw [hatoms]
    exact ⟨rfl, hstays.symm⟩
  · rw [hatoms]
    rfl

/-- What happened for the call of a number, in order. -/
def atomsOf (K : List Event) (i : Nat) : List Atom :=
  (K.filter fun e => e.number = i).map (·.atom)

/-- The serial run tells what became of each call: it has the same files at its end, the same things
happened, and a call that is over was answered the same. -/
structure Tracks (R : Location) (s₀ : Storage) (w : Crowd) (K : List Event) : Prop where
  serial : ∃ s, Serial s₀ K s ∧ Twins R w.storage s
  numbered : ∀ e ∈ K, e.number < w.calls.length
  atoms : ∀ i c stage, w.calls[i]? = some (c, stage) → atomsOf K i = c.atoms stage
  told : ∀ i c told, w.calls[i]? = some (c, .returned told) →
    ∀ e ∈ K, e.number = i → e.atom = .call c → e.told = told
  entered : ∀ i c d o, w.Holds i c d o →
    c.isRefused = false ∧ c.user ∈ w.storage.registry.known ∧
      d = { user := c.user, path := userPath w.storage.registry.root c.user } ∧
      o = object c.user w.storage.registry.known

namespace Tracks

variable {R : Location} {s₀ : Storage} {w : Crowd} {K : List Event}

theorem mem_atomsOf {a : Atom} {i : Nat} :
    a ∈ atomsOf K i ↔ ∃ e ∈ K, e.number = i ∧ e.atom = a := by
  simp [atomsOf, and_assoc]

/-- A call that is over was performed, and answered so. -/
theorem event_of_call (h : Tracks R s₀ w K) {i : Nat} {c : Call} {told : Told}
    (hcall : w.calls[i]? = some (c, .returned told)) :
    ∃ e ∈ K, e.number = i ∧ e.atom = .call c ∧ e.told = told := by
  have hmem : Atom.call c ∈ atomsOf K i := by
    rw [h.atoms i c _ hcall]
    exact List.mem_append_right _ List.mem_cons_self
  obtain ⟨e, he, hnumber, hatom⟩ := mem_atomsOf.mp hmem
  exact ⟨e, he, hnumber, hatom, h.told i c told hcall e he hnumber hatom⟩

/-- A call that was performed is over. -/
theorem call_of_event (h : Tracks R s₀ w K) {e : Event} (he : e ∈ K) {c : Call}
    (hatom : e.atom = .call c) : w.calls[e.number]? = some (c, .returned e.told) := by
  obtain ⟨⟨c', stage⟩, hcall⟩ : ∃ x, w.calls[e.number]? = some x :=
    ⟨_, List.getElem?_eq_getElem (h.numbered e he)⟩
  have hmem : Atom.call c ∈ c'.atoms stage := by
    rw [← h.atoms _ _ _ hcall]
    exact mem_atomsOf.mpr ⟨e, he, rfl, hatom⟩
  obtain ⟨rfl, told, rfl⟩ := Call.returned_of_mem hmem
  rw [hcall, h.told _ _ _ hcall e he rfl hatom]

/-! ## §4 One move -/

theorem start (h : Sound R s₀) : Tracks R s₀ ⟨s₀, []⟩ [] where
  serial := ⟨s₀, rfl, .refl h⟩
  numbered e he := by cases he
  atoms i c stage hcall := by cases hcall
  told i c told hcall := by cases hcall
  entered i c d o hcall := by cases hcall

theorem atomsOf_append (K more : List Event) (i : Nat) :
    atomsOf (K ++ more) i = atomsOf K i ++ atomsOf more i := by
  simp [atomsOf]

theorem atomsOf_of_ne {more : List Event} {i j : Nat} (h : ∀ e ∈ more, e.number = i)
    (hne : j ≠ i) : atomsOf more j = [] := by
  rw [atomsOf, List.map_eq_nil_iff, List.filter_eq_nil_iff]
  intro e he
  rw [decide_eq_true_eq, h e he]
  exact hne.symm

theorem atomsOf_of_all {more : List Event} {i : Nat} (h : ∀ e ∈ more, e.number = i) :
    atomsOf more i = more.map (·.atom) := by
  rw [atomsOf, List.filter_eq_self.mpr fun e he => decide_eq_true (h e he)]

/-- A call is made. -/
theorem make (h : Tracks R s₀ w K) (c : Call) : Tracks R s₀ (w.move (.make c)) K := by
  have hcalls {i : Nat} {x : Call × Stage} (hi : (w.calls ++ [(c, .made)])[i]? = some x) :
      w.calls[i]? = some x ∨ i = w.calls.length ∧ x = (c, .made) := by
    rcases Nat.lt_or_ge i w.calls.length with hlt | hge
    · rw [List.getElem?_append_left hlt] at hi
      exact .inl hi
    · rw [List.getElem?_append_right hge] at hi
      obtain ⟨hlt, hx⟩ := List.getElem?_eq_some_iff.mp hi
      simp only [List.length_cons, List.length_nil] at hlt
      simp only [List.getElem_singleton] at hx
      exact .inr ⟨by omega, hx.symm⟩
  refine ⟨h.serial, fun e he => ?_, ?_, ?_, ?_⟩
  · exact Nat.lt_of_lt_of_le (h.numbered e he) (w.length_move _)
  · intro i c' stage hi
    rcases hcalls hi with hi | ⟨rfl, hx⟩
    · exact h.atoms i c' stage hi
    -- Nothing has happened for the new call.
    · cases hx
      rw [atomsOf, List.filter_eq_nil_iff.mpr fun e he => ?_]
      · rfl
      · rw [decide_eq_true_eq]
        exact Nat.ne_of_lt (h.numbered e he)
  · intro i c' told hi
    rcases hcalls hi with hi | ⟨-, hx⟩
    · exact h.told i c' told hi
    · cases hx
  · intro i c' d o hi
    rcases hcalls hi with hi | ⟨-, hx⟩
    · exact h.entered i c' d o hi
    · cases hx

/-- A call that was not over has gone on, and some more has happened for it. -/
theorem advance (h : Tracks R s₀ w K) {i : Nat} {c : Call} {stage stage' : Stage}
    (hcall : w.calls[i]? = some (c, stage)) (hopen : stage.isOver = false)
    {s s' : Storage} {more : List Event} (hgoes : Goes R w.storage s)
    (hserial : Serial s₀ (K ++ more) s') (htwins : Twins R s s')
    (hnumber : ∀ e ∈ more, e.number = i)
    (hatoms : c.atoms stage' = c.atoms stage ++ more.map (·.atom))
    (htold : ∀ told, stage' = .returned told → ∀ e ∈ more, e.atom = .call c → e.told = told)
    (hentered : ∀ d o, stage' = .entered d o → c.isRefused = false ∧ c.user ∈ s.registry.known ∧
      d = { user := c.user, path := userPath w.storage.registry.root c.user } ∧
      o = object c.user s.registry.known) :
    Tracks R s₀ { storage := s, calls := w.calls.set i (c, stage') } (K ++ more) := by
  obtain ⟨hlt, -⟩ := List.getElem?_eq_some_iff.mp hcall
  have hset {j : Nat} {x : Call × Stage} (hj : (w.calls.set i (c, stage'))[j]? = some x) :
      j = i ∧ x = (c, stage') ∨ j ≠ i ∧ w.calls[j]? = some x := by
    by_cases heq : i = j
    · subst heq
      rw [List.getElem?_set_self hlt] at hj
      exact .inl ⟨rfl, (Option.some.inj hj).symm⟩
    · rw [List.getElem?_set_ne heq] at hj
      exact .inr ⟨Ne.symm heq, hj⟩
  refine ⟨⟨s', hserial, htwins⟩, ?_, ?_, ?_, ?_⟩
  · intro e he
    rw [List.length_set]
    rcases List.mem_append.mp he with he | he
    · exact h.numbered e he
    · exact hnumber e he ▸ hlt
  · intro j c' stage₁ hj
    rw [atomsOf_append]
    rcases hset hj with ⟨rfl, hx⟩ | ⟨hne, hj⟩
    · cases hx
      rw [h.atoms _ _ _ hcall, atomsOf_of_all hnumber, hatoms]
    · rw [h.atoms _ _ _ hj, atomsOf_of_ne hnumber hne, List.append_nil]
  · intro j c' told hj e he hej hatom
    rcases hset hj with ⟨rfl, hx⟩ | ⟨hne, hj⟩
    · cases hx
      rcases List.mem_append.mp he with he | he
      -- It was not performed before.
      · have hbefore := h.call_of_event he hatom
        rw [hej, hcall] at hbefore
        cases hbefore
        cases hopen
      · exact htold told rfl e he hatom
    · rcases List.mem_append.mp he with he | he
      · exact h.told j c' told hj e he hej hatom
      · exact absurd (hej.symm.trans (hnumber e he)) hne
  · intro j c' d o hj
    rcases hset hj with ⟨rfl, hx⟩ | ⟨hne, hj⟩
    · cases hx
      obtain ⟨hrefused, hknown, hd, ho⟩ := hentered d o rfl
      exact ⟨hrefused, hknown, hgoes.root ▸ hd, ho⟩
    · obtain ⟨hrefused, hknown, hd, ho⟩ := h.entered j c' d o hj
      exact ⟨hrefused, hgoes.known.mem hknown, hgoes.root ▸ hd,
        ho.trans (object_of_suffix hgoes.known hgoes.sound.once hknown).symm⟩

/-- A call gets its directory.  In the serial run its user becomes known, or nothing happens yet. -/
theorem enter_ok (h : Tracks R s₀ w K) {i : Nat} {c : Call}
    (hcall : w.calls[i]? = some (c, .made)) {d : UserDirectory} {s₁ : Storage}
    (henter : c.enter w.storage = .ok d s₁) :
    ∃ more, Tracks R s₀ (w.move (.proceed i)) (K ++ more) ∧ ∀ e ∈ more, e.number = i := by
  obtain ⟨s, hserial, htwins⟩ := h.serial
  obtain ⟨hgoes, hd⟩ := htwins.left.enter_goes c
  have htwins' := (enter_agrees c w.storage s htwins).2
  rw [henter] at hgoes hd htwins'
  have hentered : ∀ d' o, Stage.entered d (object c.user s₁.registry.known) = .entered d' o →
      c.isRefused = false ∧ c.user ∈ s₁.registry.known ∧
        d' = { user := c.user, path := userPath w.storage.registry.root c.user } ∧
        o = object c.user s₁.registry.known := by
    rintro d' o ⟨⟩
    obtain ⟨hdirectory, hknown⟩ := hd d rfl
    exact ⟨Call.not_refused_of_enter henter, hknown, hdirectory, rfl⟩
  have hmove : w.move (.proceed i) =
      { storage := s₁,
        calls := w.calls.set i (c, .entered d (object c.user s₁.registry.known)) } := by
    simp only [Crowd.move, hcall, Call.advance, henter]
  rw [hmove]
  rcases c.introduction_cases with ⟨hatoms, hsame⟩ | ⟨hatoms, hget | herror⟩
  · have hafter : after ((Atom.introduce c.user).perform s) = after (c.enter s) := by
      rw [Atom.perform, after_map, hsame]
    refine ⟨[⟨i, .introduce c.user, outcome ((Atom.introduce c.user).perform s)⟩],
      h.advance hcall rfl hgoes (serial_append.mpr ⟨s, hserial, .single _ _ s⟩)
        (hafter ▸ htwins') ?_ ?_ (by rintro told ⟨⟩) hentered, ?_⟩
    · exact List.forall_mem_singleton.mpr rfl
    · exact hatoms
    · exact List.forall_mem_singleton.mpr rfl
  · have hfiles : s.files = s₁.files := by
      have hget' := files_get c.user w.storage
      rw [← hget, henter] at hget'
      exact htwins.files.trans hget'.symm
    refine ⟨[], h.advance hcall rfl hgoes ?_ (htwins.goes hgoes (.refl htwins.right) hfiles)
      (by simp) ?_ (by rintro told ⟨⟩) hentered, by simp⟩
    · rw [List.append_nil]
      exact hserial
    · exact hatoms
  · obtain ⟨e, he⟩ := herror w.storage
    rw [he] at henter
    cases henter

/-- A call that is refused its directory is over.  In the serial run it fails in the same way, after
its user has failed to become known. -/
theorem enter_error (h : Tracks R s₀ w K) {i : Nat} {c : Call}
    (hcall : w.calls[i]? = some (c, .made)) {e : StorageError} {s₁ : Storage}
    (henter : c.enter w.storage = .error e s₁) :
    ∃ more, Tracks R s₀ (w.move (.proceed i)) (K ++ more) ∧ ∀ e ∈ more, e.number = i := by
  obtain ⟨s, hserial, htwins⟩ := h.serial
  obtain ⟨hgoes, -⟩ := htwins.left.enter_goes c
  obtain ⟨htold, htwins'⟩ := enter_agrees c w.storage s htwins
  rw [henter] at hgoes htold htwins'
  have hmove : w.move (.proceed i) =
      { storage := s₁, calls := w.calls.set i (c, .returned (.error e)) } := by
    simp only [Crowd.move, hcall, Call.advance, henter]
  have hcalled : Serial s [⟨i, .call c, .error e⟩] (after (c.enter s)) := by
    have hperform : (Atom.call c).perform s = .error e (after (c.enter s)) :=
      Call.perform_error htold.symm
    refine ⟨?_, ?_⟩ <;> simp only [hperform] <;> rfl
  have hrun := serial_append.mpr ⟨s, htwins.right.introduction_fails htold.symm i, hcalled⟩
  have hevents : ∀ ev ∈ (c.introduction.map fun a => (⟨i, a, outcome (a.perform s)⟩ : Event)) ++
      [⟨i, .call c, .error e⟩], ev.number = i ∧ (ev.atom = .call c → ev.told = .error e) := by
    intro ev hev
    rcases List.mem_append.mp hev with hev | hev
    · obtain ⟨a, ha, rfl⟩ := List.mem_map.mp hev
      exact ⟨rfl, fun hatom => absurd (hatom ▸ ha) (c.call_not_mem_introduction c)⟩
    · cases List.mem_singleton.mp hev
      exact ⟨rfl, fun _ => rfl⟩
  rw [hmove]
  refine ⟨_, h.advance hcall rfl hgoes (serial_append.mpr ⟨s, hserial, hrun⟩) htwins'
    (fun ev hev => (hevents ev hev).1) ?_ ?_ (by rintro d o ⟨⟩), fun ev hev => (hevents ev hev).1⟩
  · simp [Call.atoms, Function.comp_def]
  · rintro told ⟨⟩ ev hev hatom
    exact (hevents ev hev).2 hatom

/-- A call gets its directory, or is over. -/
theorem enter (h : Tracks R s₀ w K) {i : Nat} {c : Call} (hcall : w.calls[i]? = some (c, .made)) :
    ∃ more, Tracks R s₀ (w.move (.proceed i)) (K ++ more) ∧ ∀ e ∈ more, e.number = i := by
  cases henter : c.enter w.storage with
  | ok d s₁ => exact h.enter_ok hcall henter
  | error e s₁ => exact h.enter_error hcall henter

/-- A call does its task, and is over. -/
theorem finish (h : Tracks R s₀ w K) {i : Nat} {c : Call} {d : UserDirectory} {o : Nat}
    (hcall : w.calls[i]? = some (c, .entered d o)) :
    ∃ more, Tracks R s₀ (w.move (.proceed i)) (K ++ more) ∧ ∀ e ∈ more, e.number = i := by
  obtain ⟨s, hserial, htwins⟩ := h.serial
  obtain ⟨hrefused, hknown, hd, -⟩ := h.entered i c d o hcall
  have hleads := htwins.left.met c.user hknown
  have hleads' : s.files.Leads (userPath s.registry.root c.user) (userAt R c.user) := by
    rw [htwins.files, htwins.root]
    exact hleads
  -- In the serial run the directory is found once more, where it was found before.
  have hperform := htwins.right.perform_leads c.user rfl hrefused hleads'
  rw [htwins.root, ← hd] at hperform
  have hmet : Twins R w.storage (meet c.user s) :=
    htwins.goes (.refl htwins.left) (htwins.right.goes_meet hleads')
      ((files_meet c.user s).trans htwins.files)
  obtain ⟨htold, htwins'⟩ := hmet.task hd
  have hmove : w.move (.proceed i) =
      { storage := after (onFiles (c.task d) w.storage)
        calls := w.calls.set i (c, .returned (outcome (onFiles (c.task d) w.storage))) } := by
    simp only [Crowd.move, hcall, Call.advance]
  have hrun : Serial s [⟨i, .call c, outcome ((Atom.call c).perform s)⟩]
      (after (onFiles (c.task d) (meet c.user s))) := by
    refine ⟨rfl, ?_⟩
    simp only [Atom.perform, hperform]
    rfl
  rw [hmove]
  refine ⟨_, h.advance hcall rfl (htwins.left.task_goes hd)
    (serial_append.mpr ⟨s, hserial, hrun⟩) htwins' ?_ ?_ ?_ (by rintro d' o' ⟨⟩), ?_⟩
  · simp
  · rfl
  · rintro told ⟨⟩ ev hev hatom
    cases List.mem_singleton.mp hev
    rw [Atom.perform, hperform]
    exact htold.symm
  · simp

/-- Whatever happens next, the serial run goes on with things that happen for calls that were made
and are not over. -/
theorem move (h : Tracks R s₀ w K) (m : Move) :
    ∃ more, Tracks R s₀ (w.move m) (K ++ more) ∧
      ∀ e ∈ more, e.number < w.calls.length ∧ ¬ w.HasReturned e.number := by
  have hstill : w.move m = w → ∃ more, Tracks R s₀ (w.move m) (K ++ more) ∧
      ∀ e ∈ more, e.number < w.calls.length ∧ ¬ w.HasReturned e.number := by
    intro hsame
    refine ⟨[], ?_, by simp⟩
    rw [hsame, List.append_nil]
    exact h
  cases m with
  | make c =>
    refine ⟨[], ?_, by simp⟩
    rw [List.append_nil]
    exact h.make c
  | proceed i =>
    cases hcall : w.calls[i]? with
    | none => exact hstill (by simp only [Crowd.move, hcall])
    | some x =>
      obtain ⟨c, stage⟩ := x
      obtain ⟨hlt, hget⟩ := List.getElem?_eq_some_iff.mp hcall
      have hopen : stage.isOver = false → ¬ w.HasReturned i := by
        rintro hstage ⟨c', told, hreturned⟩
        rw [hcall] at hreturned
        cases hreturned
        cases hstage
      cases stage with
      | made =>
        obtain ⟨more, htracks, hnumber⟩ := h.enter hcall
        exact ⟨more, htracks, fun e he => hnumber e he ▸ ⟨hlt, hopen rfl⟩⟩
      | entered d o =>
        obtain ⟨more, htracks, hnumber⟩ := h.finish hcall
        exact ⟨more, htracks, fun e he => hnumber e he ▸ ⟨hlt, hopen rfl⟩⟩
      | returned told =>
        refine hstill ?_
        simp only [Crowd.move, hcall, Call.advance]
        rw [← hget, List.set_getElem_self]

end Tracks

/-! ## §5 All moves -/

section Moves

variable {R : Location} {s₀ : Storage} {moves : List Move}

/-- There is a serial run for all moves, by induction on them, the last one taken off.  It grows at
its end by things that happen for calls that are not over, so that its order agrees with which call
precedes which. -/
theorem tracked (h : Sound R s₀) (moves : List Move) :
    ∃ K, Tracks R s₀ (crowd s₀ moves) K ∧
      K.Pairwise fun e e' => ¬ Precedes s₀ moves e'.number e.number := by
  induction moves using List.reverseRecOn with
  | nil => exact ⟨[], .start h, .nil⟩
  | append_singleton moves m ih =>
    obtain ⟨K, htracks, horder⟩ := ih
    obtain ⟨more, htracks', hmore⟩ := htracks.move m
    have hrun : crowd s₀ (moves ++ [m]) = (crowd s₀ moves).move m := Crowd.run_append _ _ _
    rw [← hrun] at htracks'
    refine ⟨K ++ more, htracks', List.pairwise_append.mpr ⟨?_, ?_, ?_⟩⟩
    · refine horder.imp_of_mem fun {e e'} he _ hnot hprecedes => ?_
      exact hnot (hprecedes.of_append (htracks'.numbered e (List.mem_append_left _ he)))
    · refine List.pairwise_of_forall_mem_list fun e he e' he' hprecedes => ?_
      have hbefore := hprecedes.of_append (htracks'.numbered e (List.mem_append_right _ he))
      exact (hmore e' he').2 hbefore.hasReturned
    · intro e he e' he' hprecedes
      have hbefore := hprecedes.of_append (htracks'.numbered e (List.mem_append_left _ he))
      exact (hmore e' he').2 hbefore.hasReturned

/-- The call of this number was answered so. -/
def Returned (s₀ : Storage) (moves : List Move) (i : Nat) (c : Call) (told : Told) : Prop :=
  (crowd s₀ moves).calls[i]? = some (c, .returned told)

/-- The serial run ends with the same files on the same root.  For each call the same things happen
in it as far as the call has come, a call that is over is answered the same, and calls are in the
order in which they returned and were made. -/
structure Serialises (s₀ : Storage) (moves : List Move) (K : List Event) : Prop where
  serial : ∃ s, Serial s₀ K s ∧ s.files = (crowd s₀ moves).storage.files ∧
    s.registry.root = (crowd s₀ moves).storage.registry.root
  numbered : ∀ e ∈ K, e.number < (crowd s₀ moves).calls.length
  atoms : ∀ i c stage, (crowd s₀ moves).calls[i]? = some (c, stage) → atomsOf K i = c.atoms stage
  told : ∀ i c told, Returned s₀ moves i c told →
    ∀ e ∈ K, e.number = i → e.atom = .call c → e.told = told
  order : K.Pairwise fun e e' => ¬ Precedes s₀ moves e'.number e.number

/-- No directory is remembered twice.  A call at work holds the remembered directory of its user,
and the one object that stands for it: calls of the same user hold the same object, and calls of
different users different ones. -/
structure OneDirectory (s₀ : Storage) (moves : List Move) : Prop where
  once : (crowd s₀ moves).storage.registry.known.Nodup
  held : ∀ i c d o, (crowd s₀ moves).Holds i c d o →
    c.user ∈ (crowd s₀ moves).storage.registry.known ∧
      d = (crowd s₀ moves).storage.registry.userDirectory c.user ∧
      o = object c.user (crowd s₀ moves).storage.registry.known
  same : ∀ i j c c' d d' o o', (crowd s₀ moves).Holds i c d o →
    (crowd s₀ moves).Holds j c' d' o' → (o = o' ↔ c.user = c'.user)

/-- Of the calls that stored under a free name, while nothing was deleted and nothing else was in the
way, one did so, and all others found the name taken. -/
def OneWinner (R : Location) (s₀ : Storage) (moves : List Move) : Prop :=
  ∀ user filename, isPlainFilename filename = true →
    s₀.files.lookup (fileAt R user (Bytes.ofText filename)) = none →
    (∀ i a, ¬ Returned s₀ moves i (.delete user filename) (.ok a)) →
    (∀ i content path cause,
      ¬ Returned s₀ moves i (.store user filename content) (.error (.io path cause))) →
    (∃ i content told, Returned s₀ moves i (.store user filename content) told) →
    ∃ i content,
      Returned s₀ moves i (.store user filename content)
        (.ok (.stored (filePath s₀.registry.root user filename))) ∧
      ∀ j content' told, j ≠ i → Returned s₀ moves j (.store user filename content') told →
        told = .error (.alreadyExists (filePath s₀.registry.root user filename))

/-- What is read is the whole content of the file that was there at the start, or of one that was
stored by a call that the reading call does not precede. -/
def WholeReads (R : Location) (s₀ : Storage) (moves : List Move) : Prop :=
  ∀ i user filename a, Returned s₀ moves i (.read user filename) (.ok a) →
    ∃ content, a = .content content ∧
      (s₀.files.lookup (fileAt R user (Bytes.ofText filename)) = some (.file content) ∨
        ∃ j b, Returned s₀ moves j (.store user filename content) (.ok b) ∧
          ¬ Precedes s₀ moves i j)

/-- A call that reads after a file was stored, and before it is deleted, reads it. -/
def StoredReads (s₀ : Storage) (moves : List Move) : Prop :=
  ∀ i j user filename content a told,
    Returned s₀ moves i (.store user filename content) (.ok a) →
    Returned s₀ moves j (.read user filename) told → Precedes s₀ moves i j →
    (∀ k b, Returned s₀ moves k (.delete user filename) (.ok b) →
      Precedes s₀ moves k i ∨ Precedes s₀ moves j k) →
    told = .ok (.content content)

theorem oneWinner {K : List Event} (h : Sound R s₀) (htracks : Tracks R s₀ (crowd s₀ moves) K) :
    OneWinner R s₀ moves := by
  intro user filename hplain hfree hnot hio hsome
  obtain ⟨s, hserial, -⟩ := htracks.serial
  have hcalls {e : Event} (he : e ∈ K) {c : Call} (hatom : e.atom = .call c) :
      Returned s₀ moves e.number c e.told := htracks.call_of_event he hatom
  have hdeleted : ∀ e ∈ K, ¬ e.isDeleted user filename := by
    rintro e he ⟨hatom, a, ha⟩
    exact hnot _ a (ha ▸ hcalls he hatom)
  have hundisturbed : Undisturbed user filename K := by
    rintro e he ⟨content, hatom⟩ path cause htold
    exact hio _ content path cause (htold ▸ hcalls he hatom)
  rcases hserial.winner h hplain hfree hdeleted hundisturbed with
    hnone | ⟨K₁, e, K₂, rfl, ⟨content, hatom⟩, hwon, hothers⟩
  · -- Some call did store.
    obtain ⟨i, content, told, hreturned⟩ := hsome
    obtain ⟨e, he, -, hatom, -⟩ := htracks.event_of_call hreturned
    exact absurd ⟨content, hatom⟩ (hnone e he)
  · refine ⟨e.number, content, hwon ▸ hcalls (by simp) hatom, ?_⟩
    intro j content' told hne hreturned
    obtain ⟨e', he', hnumber, hatom', htold⟩ := htracks.event_of_call hreturned
    rw [← htold]
    refine hothers e' ?_ ⟨content', hatom'⟩
    -- It is another event, since it belongs to another call.
    have hne' : e' ≠ e := by
      rintro rfl
      exact hne hnumber.symm
    simp only [List.mem_append, List.mem_cons, hne', false_or] at he' ⊢
    exact he'

theorem wholeReads {K : List Event} (h : Sound R s₀) (htracks : Tracks R s₀ (crowd s₀ moves) K)
    (horder : K.Pairwise fun e e' => ¬ Precedes s₀ moves e'.number e.number) :
    WholeReads R s₀ moves := by
  intro i user filename a hreturned
  obtain ⟨s, hserial, -⟩ := htracks.serial
  obtain ⟨e, he, rfl, hatom, htold⟩ := htracks.event_of_call hreturned
  obtain ⟨K₁, K₂, rfl⟩ := List.append_of_mem he
  obtain ⟨s₁, hearlier, hread, -⟩ := serial_append.mp hserial
  rw [hatom] at hread
  -- What was read is there, and has been since the start or since it was stored.
  have hgoes := hearlier.goes h
  obtain ⟨-, content, rfl, hfile⟩ := hgoes.sound.held_of_read (hread.symm.trans htold)
  refine ⟨content, rfl, ?_⟩
  rcases hearlier.source h hfile with hstart | ⟨e', he', hatom', b, hstored⟩
  · exact .inl hstart
  · refine .inr ⟨e'.number, b, ?_, ?_⟩
    · exact hstored ▸ htracks.call_of_event (List.mem_append_left _ he') hatom'
    · exact (List.pairwise_append.mp horder).2.2 e' he' e List.mem_cons_self

theorem storedReads {K : List Event} (h : Sound R s₀) (htracks : Tracks R s₀ (crowd s₀ moves) K)
    (horder : K.Pairwise fun e e' => ¬ Precedes s₀ moves e'.number e.number) :
    StoredReads s₀ moves := by
  intro i j user filename content a told hstore hread hprecedes hdeletes
  obtain ⟨s, hserial, -⟩ := htracks.serial
  obtain ⟨e, he, rfl, hatom, htold⟩ := htracks.event_of_call hstore
  obtain ⟨e', he', rfl, hatom', htold'⟩ := htracks.event_of_call hread
  -- The file was stored earlier in the run than it was read.
  obtain ⟨K', K₃, rfl⟩ := List.append_of_mem he'
  obtain ⟨-, hafter, hbefore⟩ := List.pairwise_append.mp horder
  have hmem : e ∈ K' := by
    rcases List.mem_append.mp he with he | he
    · exact he
    · rcases List.mem_cons.mp he with rfl | he
      · rw [hatom] at hatom'
        cases hatom'
      · exact absurd hprecedes ((List.pairwise_cons.mp hafter).1 e he)
  obtain ⟨K₁, K₂, rfl⟩ := List.append_of_mem hmem
  have hdeleted : ∀ ev ∈ K₂, ¬ ev.isDeleted user filename := by
    rintro ev hev ⟨hatomv, b, hb⟩
    have hmemv : ev ∈ K₁ ++ e :: K₂ := by simp [hev]
    have hcall := htracks.call_of_event (List.mem_append_left _ hmemv) hatomv
    rcases hdeletes ev.number b (hb ▸ hcall) with hearly | hlate
    · have horder₁ := (List.pairwise_append.mp (List.pairwise_append.mp horder).1).2.1
      exact (List.pairwise_cons.mp horder₁).1 ev hev hearly
    · exact hbefore ev hmemv e' List.mem_cons_self hlate
  obtain ⟨s₂, hfirst, hlast⟩ := serial_append.mp hserial
  obtain ⟨s₁, hstart, hstored, hmiddle⟩ := serial_append.mp hfirst
  have hsound := (hstart.goes h).sound
  obtain ⟨hplain, -, -, hheld⟩ := hsound.stored_event hstored ⟨hatom, a, htold⟩
  have hsound₁ := (hsound.atom_goes e.atom).sound
  have hheld₂ := hmiddle.held hsound₁ hplain hheld hdeleted
  have hanswer := hlast.1
  rw [hatom'] at hanswer
  rw [← htold', hanswer]
  exact (hmiddle.goes hsound₁).sound.read_held hplain hheld₂

theorem oneDirectory {K : List Event} (htracks : Tracks R s₀ (crowd s₀ moves) K) :
    OneDirectory s₀ moves := by
  obtain ⟨s, -, htwins⟩ := htracks.serial
  refine ⟨htwins.left.once, fun i c d o hcall => ?_, fun i j c c' d d' o o' hcall hcall' => ?_⟩
  · obtain ⟨-, hknown, hd, ho⟩ := htracks.entered i c d o hcall
    exact ⟨hknown, hd, ho⟩
  · obtain ⟨-, hknown, -, rfl⟩ := htracks.entered i c d o hcall
    obtain ⟨-, -, -, rfl⟩ := htracks.entered j c' d' o' hcall'
    exact object_inj hknown

/-- Whatever any number of callers do at the same time comes of a serial run.  No directory is
remembered twice, of several calls that store under one name one does, and what is read is a file
that was stored and not yet deleted, all of it. -/
theorem Crowd.serialisable (h : Sound R s₀) (moves : List Move) :
    (∃ K, Serialises s₀ moves K) ∧ OneDirectory s₀ moves ∧ OneWinner R s₀ moves ∧
      WholeReads R s₀ moves ∧ StoredReads s₀ moves := by
  obtain ⟨K, htracks, horder⟩ := tracked h moves
  obtain ⟨s, hserial, htwins⟩ := htracks.serial
  exact ⟨⟨K, ⟨s, hserial, htwins.files, htwins.root⟩, htracks.numbered, htracks.atoms,
    htracks.told, horder⟩, oneDirectory htracks, oneWinner h htracks,
    wholeReads h htracks horder, storedReads h htracks horder⟩

end Moves

/-- Two callers store under the same name, and a third one reads what they store. -/
def race : List Move :=
  [.make (.store 7 "diary" (Bytes.ofText "first")), .make (.store 7 "diary" (Bytes.ofText "second")),
    .proceed 0, .proceed 1, .make (.read 7 "diary"), .proceed 1, .proceed 2, .proceed 0, .proceed 2]

theorem serialisable_race :
    Sound [] vacant ∧ (∃ K, Serialises vacant race K) ∧ OneDirectory vacant race ∧
      OneWinner [] vacant race ∧ WholeReads [] vacant race ∧ StoredReads vacant race :=
  ⟨vacant_sound, Crowd.serialisable vacant_sound race⟩

end BackupVault.Registry
