import BackupVault.Proofs.Upload.SessionStages

/-!
# The conduct of sessions

Any number of sessions share one vault and take their steps in any order, while their clients send
whatever they like and others change the vault as they like.  Each of them stores at most one
file, as the log of its own events justifies, and confirms exactly that.

## Overview

- `Site`: sessions that share a vault; `Site.run`: what a schedule makes of it
- `Session.Lawful`: what holds of a session with its log
- `sessions_conduct`: it holds of every session under every schedule
-/

set_option autoImplicit false

namespace BackupVault

namespace Session

/-! ## §1 The law -/

/-- How a session ends after storing a file, and what else it does until then: it confirms the
file if it was stored, and fails with the error of storing otherwise. -/
def EndsAfter (c : Conversation) : Except StorageError Path → List Event → Prop
  | .ok _, after => after = [.said .success] ∧ c.outcome? = some (.ok ())
  | .error e, after => after = [] ∧ c.outcome? = some (.error (.storage e))

/-- What holds of a session with the log of its events. -/
structure Lawful (c : Conversation) (L : List Event) : Prop where
  /-- The bytes written are those of the answers in the log. -/
  wrote : Format.serverMessages.Wrote c.version (Conversation.messages c.version L)
    ByteArray.empty c.outgoing.written
  /-- Each event was allowed by those before it. -/
  orderly : Orderly Allowed L
  /-- No second key is issued. -/
  oneKey : (keys L).length ≤ 1
  /-- No second file is stored. -/
  oneStore : (stores L).length ≤ 1
  /-- Exactly a stored file is confirmed. -/
  success : .said .success ∈ L ↔
    ∃ user filename content path, .stored user filename content (.ok path) ∈ L
  /-- Storing a file ends the session. -/
  last : ∀ before user filename content outcome after,
    L = before ++ .stored user filename content outcome :: after → EndsAfter c outcome after

section Law

variable {L : List Event} {phase : Phase}

/-- The event stores a file. -/
def Event.Stores (e : Event) : Prop :=
  ∃ user filename content outcome, e = .stored user filename content outcome

theorem Idle.not_stores (h : Idle L) : ∀ e ∈ L, ¬ e.Stores := by
  rintro e he ⟨user, filename, content, outcome, rfl⟩
  have hmem : outcome ∈ stores L := List.mem_filterMap.mpr ⟨_, he, rfl⟩
  rw [h.1] at hmem
  cases hmem

theorem Stage.store_cases (h : Stage L phase) :
    Idle L ∨
    (∃ L' user filename content path, Idle L' ∧ phase = .ended (.ok ()) ∧
      L = L' ++ [.stored user filename content (.ok path), .said .success]) ∨
    ∃ L' user filename content e, Idle L' ∧ phase = .ended (.error (.storage e)) ∧
      L = L' ++ [.stored user filename content (.error e)] := by
  -- A session that goes on has stored nothing; one that is over tells how it ended.
  by_cases hopen : ∀ o, phase ≠ .ended o
  · exact .inl (h.idle hopen)
  · cases phase with
    | ended o =>
      obtain ⟨-, hclosed⟩ := h
      cases hclosed with
      | without hidle => exact .inl hidle
      | confirmed hidle hL => exact .inr (.inl ⟨_, _, _, _, _, hidle, rfl, hL⟩)
      | failed hidle hL => exact .inr (.inr ⟨_, _, _, _, _, hidle, rfl, hL⟩)
    | _ => exact absurd (fun _ => nofun) hopen

theorem Stage.oneStore (h : Stage L phase) : (stores L).length ≤ 1 := by
  rcases h.store_cases with
    hidle | ⟨L', _, _, _, _, hidle, -, rfl⟩ | ⟨L', _, _, _, _, hidle, -, rfl⟩
  · rw [hidle.1]
    exact Nat.zero_le 1
  · rw [stores_append, hidle.1]
    exact Nat.le_refl 1
  · rw [stores_append, hidle.1]
    exact Nat.le_refl 1

theorem Stage.success_iff (h : Stage L phase) : .said .success ∈ L ↔
    ∃ user filename content path, .stored user filename content (.ok path) ∈ L := by
  rcases h.store_cases with
    hidle | ⟨L', _, _, _, _, hidle, -, rfl⟩ | ⟨L', _, _, _, _, hidle, -, rfl⟩
  · refine ⟨fun hmem => absurd hmem hidle.2, ?_⟩
    rintro ⟨user, filename, content, path, hmem⟩
    exact absurd ⟨_, _, _, _, rfl⟩ (hidle.not_stores _ hmem)
  · refine ⟨fun _ => ⟨_, _, _, _, List.mem_append_right _ List.mem_cons_self⟩, fun _ => ?_⟩
    exact List.mem_append_right _ (List.mem_cons_of_mem _ List.mem_cons_self)
  · constructor
    · intro hmem
      rcases List.mem_append.mp hmem with hmem | hmem
      · exact absurd hmem hidle.2
      · cases List.mem_singleton.mp hmem
    · rintro ⟨user, filename, content, path, hmem⟩
      rcases List.mem_append.mp hmem with hmem | hmem
      · exact absurd ⟨_, _, _, _, rfl⟩ (hidle.not_stores _ hmem)
      · cases List.mem_singleton.mp hmem

theorem Stage.last {c : Conversation} (h : Stage L c.phase) {before after : List Event}
    {user : UserId} {filename : String} {content : Bytes} {outcome : Except StorageError Path}
    (hL : L = before ++ .stored user filename content outcome :: after) :
    EndsAfter c outcome after := by
  -- In each of the three endings a file was stored at one place at most.
  have hstores : (Event.stored user filename content outcome).Stores := ⟨_, _, _, _, rfl⟩
  rcases h.store_cases with
    hidle | ⟨L', _, _, _, _, hidle, hphase, rfl⟩ | ⟨L', _, _, _, _, hidle, hphase, rfl⟩
  · have hmem : .stored user filename content outcome ∈ L := by
      rw [hL]
      exact List.mem_append_right _ List.mem_cons_self
    exact absurd hstores (hidle.not_stores _ hmem)
  -- The confirmation stores nothing, so that the file is the one before it.
  · have hsaid : ∀ e ∈ [Event.said .success], ¬ e.Stores := by
      rintro e he ⟨_, _, _, _, rfl⟩
      cases List.mem_singleton.mp he
    obtain ⟨-, heq, rfl⟩ := eq_of_only hidle.not_stores hsaid hstores hL
    cases heq
    exact ⟨rfl, by rw [Conversation.outcome?, hphase]⟩
  · obtain ⟨-, heq, rfl⟩ := eq_of_only hidle.not_stores (by simp) hstores hL
    cases heq
    exact ⟨rfl, by rw [Conversation.outcome?, hphase]⟩

theorem Reached.lawful {c : Conversation} (h : Reached L c.phase)
    (hconnected : Conversation.Connected c L) : Lawful c L where
  wrote := hconnected.wrote
  orderly := h.2
  oneKey := h.1.keys_le
  oneStore := h.1.oneStore
  success := h.1.success_iff
  last _ _ _ _ _ _ hL := h.1.last hL

end Law

end Session

open Session

/-! ## §2 Many sessions -/

/-- Sessions that share a vault, each with the log of its events. -/
structure Site where
  vault : Vault
  sessions : List (Conversation × List Event) := []

namespace Site

/-- Something that happens at a site. -/
inductive Act where
  /-- A client connects. -/
  | opens (version : UInt8) (incoming : Reader)
  /-- Bytes of a client arrive, or its stream ends. -/
  | arrives (i : Nat) (a : Arrival)
  /-- A session takes a step. -/
  | moves (i : Nat)
  /-- Someone else changes the vault. -/
  | changes (vault : Vault)

def arrive (c : Conversation) (a : Arrival) : Conversation :=
  { c with incoming := { c.incoming with source := c.incoming.source.arrive a } }

/-- The site after something happened. -/
def act (s : Site) : Act → Site
  | .opens version incoming =>
    { s with sessions := s.sessions ++ [({ version, incoming }, [])] }
  | .arrives i a =>
    match s.sessions[i]? with
    | none => s
    | some (c, L) => { s with sessions := s.sessions.set i (arrive c a, L) }
  | .moves i =>
    match s.sessions[i]? with
    | none => s
    | some (c, L) =>
      { vault := (c.step s.vault).2
        sessions := s.sessions.set i ((c.step s.vault).1, L ++ c.events s.vault) }
  | .changes vault => { s with vault }

def run (vault : Vault) (schedule : List Act) : Site := schedule.foldl act { vault }

/-- What is kept of each session. -/
def Kept (s : Site) : Prop :=
  ∀ c L, (c, L) ∈ s.sessions → Conversation.Connected c L ∧ Reached L c.phase

theorem Kept.set {s : Site} (h : Kept s) {i : Nat} {c : Conversation} {L : List Event}
    {vault : Vault} (hc : Conversation.Connected c L ∧ Reached L c.phase) :
    Kept { vault, sessions := s.sessions.set i (c, L) } := by
  intro c' L' hmem
  rcases List.mem_or_eq_of_mem_set hmem with hmem | heq
  · exact h c' L' hmem
  · cases heq
    exact hc

theorem Kept.act {s : Site} (h : Kept s) (a : Act) : Kept (s.act a) := by
  cases a with
  | opens version incoming =>
    intro c L hmem
    rcases List.mem_append.mp hmem with hmem | hmem
    · exact h c L hmem
    · cases List.mem_singleton.mp hmem
      -- A new session has written nothing, and its log is empty.
      exact ⟨⟨rfl, .nil _⟩, ⟨⟨rfl, nofun⟩, rfl, rfl⟩, .nil⟩
  | arrives i a =>
    cases hi : s.sessions[i]? with
    | none =>
      simp only [Site.act, hi]
      exact h
    | some x =>
      obtain ⟨c, L⟩ := x
      obtain ⟨hconnected, hreached⟩ := h c L (List.mem_of_getElem? hi)
      simp only [Site.act, hi]
      -- What arrives is no event; only the bytes at hand change.
      exact h.set ⟨⟨hconnected.limit, hconnected.wrote⟩, hreached⟩
  | moves i =>
    cases hi : s.sessions[i]? with
    | none =>
      simp only [Site.act, hi]
      exact h
    | some x =>
      obtain ⟨c, L⟩ := x
      obtain ⟨hconnected, hreached⟩ := h c L (List.mem_of_getElem? hi)
      simp only [Site.act, hi]
      exact h.set ⟨Conversation.step_connected hconnected s.vault,
        Conversation.step_reached hconnected.limit hreached s.vault⟩
  -- The law is about the log, so that the vault may change in any way.
  | changes vault => exact h

/-- A schedule keeps it, by induction on the schedule. -/
theorem kept_run (vault : Vault) (schedule : List Act) : Kept (run vault schedule) := by
  suffices h : ∀ s, Kept s → Kept (schedule.foldl Site.act s) from
    h { vault } (by simp [Kept])
  induction schedule with
  | nil => exact fun _ h => h
  | cons a schedule ih => exact fun s h => ih _ (h.act a)

end Site

/-- **The conduct of sessions.**  The events that are logged account for all that a session does
to the vault, and under every schedule the log of every session keeps the law. -/
theorem sessions_conduct :
    (∀ (c : Conversation) (v : Vault), (c.step v).2 = effects (c.events v) v) ∧
      ∀ (vault : Vault) (schedule : List Site.Act) (c : Conversation) (L : List Event),
        (c, L) ∈ (Site.run vault schedule).sessions → Lawful c L := by
  refine ⟨Conversation.step_effects, fun vault schedule c L hmem => ?_⟩
  obtain ⟨hconnected, hreached⟩ := Site.kept_run vault schedule c L hmem
  exact hreached.lawful hconnected

end BackupVault
