import BackupVault.Proofs.Log
import BackupVault.Proofs.Upload.EngineRun

/-!
# The script of an upload

What the upload engine has to say, in order, and where in this order it is while it waits for a
message of the server.

## Overview

- `Engine.script`: everything that an upload may say
- `Engine.Justified`: when a verdict may be given
- `Engine.Stage`: how far the script got, for each message that is waited for
-/

set_option autoImplicit false

namespace BackupVault.Engine

/-! ## §1 The script -/

section Script

variable (job : Job) (v : UInt8) (id : Option ClientId) (client : ClientId) (content : Bytes)

/-- Asking for an identity, if there is none yet. -/
def asking : List ClientMessage :=
  match id with
  | none => [{ sender := ClientId.unregistered, version := v, body := .registration job.name }]
  | some _ => []

def presenting : ClientMessage :=
  { sender := client, version := v, body := .publicKey job.name job.keys.publicDer }

def sending : ClientMessage :=
  { sender := client, version := v, body := .upload job.filename content }

def retrying : ClientMessage :=
  { sender := client, version := v, body := .retry job.filename }

/-- Some uploads, each followed by the announcement of another. -/
def retries (k : Nat) : List ClientMessage :=
  (List.replicate k [sending job v client content, retrying job v client]).flatten

/-- Everything before the last upload, if the file is sent again `k` times. -/
def leading (k : Nat) : List ClientMessage :=
  asking job v id ++ presenting job v client :: retries job v client content k

/-- An upload from its beginning to its verdict, with the file sent once and then `k` times more,
each time after a retry. -/
def script (k : Nat) (verdict : ClientBody) : List ClientMessage :=
  leading job v id client content k ++
    [sending job v client content, { sender := client, version := v, body := verdict }]

end Script

/-! ## §2 The messages of a script -/

section Messages

variable {job : Job} {v : UInt8} {id : Option ClientId} {client : ClientId} {content : Bytes}
  {k : Nat} {verdict : ClientBody} {m : ClientMessage}

theorem retries_succ (k : Nat) : retries job v client content (k + 1) =
    retries job v client content k ++ [sending job v client content, retrying job v client] := by
  rw [retries, List.replicate_succ', List.flatten_append, List.flatten_singleton, retries]

theorem leading_succ (k : Nat) : leading job v id client content (k + 1) =
    leading job v id client content k ++
      [sending job v client content, retrying job v client] := by
  rw [leading, retries_succ, leading, List.append_assoc, List.cons_append]

theorem countP_retries (k : Nat) : (retries job v client content k).countP
    (fun m => decide (m.body.code = .upload)) = k := by
  induction k with
  | zero => rfl
  | succ k ih => rw [retries_succ, List.countP_append, ih]; rfl

theorem countP_leading (k : Nat) : (leading job v id client content k).countP
    (fun m => decide (m.body.code = .upload)) = k := by
  -- Neither the registration nor the public key is an upload.
  have hask : (asking job v id).countP (fun m => decide (m.body.code = .upload)) = 0 := by
    cases id <;> rfl
  have hkey : [presenting job v client].countP (fun m => decide (m.body.code = .upload)) = 0 := rfl
  rw [leading, ← List.singleton_append, List.countP_append, List.countP_append, hask, hkey,
    countP_retries, Nat.zero_add, Nat.zero_add]

theorem leading_prefix_script (k : Nat) (verdict : ClientBody) :
    leading job v id client content k ++ [sending job v client content] <+:
      script job v id client content k verdict :=
  ⟨[{ sender := client, version := v, body := verdict }], by
    rw [script, List.append_assoc, List.singleton_append]⟩

theorem asking_prefix_script (k : Nat) (verdict : ClientBody) :
    asking job v id ++ [presenting job v client] <+: script job v id client content k verdict := by
  refine List.IsPrefix.trans ?_ (List.prefix_append _ _)
  exact (List.prefix_append_right_inj _).mpr ⟨_, List.singleton_append⟩

theorem mem_retries (h : m ∈ retries job v client content k) :
    m = sending job v client content ∨ m = retrying job v client := by
  obtain ⟨pair, hpair, hm⟩ := List.mem_flatten.mp h
  rw [(List.mem_replicate.mp hpair).2] at hm
  simpa using hm

theorem mem_script (h : m ∈ script job v id client content k verdict) :
    (id = none ∧ m.body = .registration job.name) ∨ m = presenting job v client ∨
      m = sending job v client content ∨ m = retrying job v client ∨
        m = { sender := client, version := v, body := verdict } := by
  rw [script, leading, List.append_assoc, List.mem_append, List.cons_append, List.mem_cons,
    List.mem_append] at h
  -- The parts of a script: a registration, the public key, the retries, and the last upload with
  -- its verdict.
  rcases h with h | h | h | h
  · cases id with
    | none => exact .inl ⟨rfl, by rw [List.mem_singleton.mp h]⟩
    | some id => cases h
  · exact .inr (.inl h)
  · rcases mem_retries h with h | h
    · exact .inr (.inr (.inl h))
    · exact .inr (.inr (.inr (.inl h)))
  · rcases List.mem_cons.mp h with h | h
    · exact .inr (.inr (.inl h))
    · exact .inr (.inr (.inr (.inr (List.mem_singleton.mp h))))

theorem eq_sending_of_mem_script (h : m ∈ script job v id client content k verdict)
    (hverdict : verdict.code ≠ .upload) (hm : m.body.code = .upload) :
    m = sending job v client content := by
  -- The code tells the upload from all other messages.
  rcases mem_script h with ⟨-, h⟩ | rfl | h | rfl | rfl
  · rw [h] at hm
    cases hm
  · cases hm
  · exact h
  · cases hm
  · exact absurd hm hverdict

theorem not_giveUp_of_mem_script
    (h : m ∈ script job v id client content k (.accept job.filename)) :
    m.body.code ≠ .giveUp := by
  rcases mem_script h with ⟨-, h⟩ | rfl | rfl | rfl | rfl
  · rw [h]
    exact fun hm => nomatch hm
  all_goals exact fun hm => nomatch hm

end Messages

/-! ## §3 Verdicts -/

/-- The checksum in an acknowledgement. -/
def Event.checksum? : Event → Option UInt32
  | heard (.uploaded _ _ _ checksum) => some checksum
  | _ => none

/-- The checksums that the server acknowledged, in order. -/
def acknowledged (T : List Event) : List UInt32 := T.filterMap Event.checksum?

/-- How often the file was sent. -/
def uploads (T : List Event) : Nat := (said T).countP fun m => decide (m.body.code = .upload)

/-- The last event was an acknowledgement with this checksum. -/
def Acknowledges (T : List Event) (checksum : UInt32) : Prop :=
  ∃ T' e, T = T' ++ [e] ∧ e.checksum? = some checksum

/-- The last two events were that the checksum was accepted, and that the server confirmed it. -/
def Confirmed (T : List Event) : Prop :=
  ∃ T' m, T = T' ++ [.said m, .heard .success] ∧ m.body.code = .accept

/-- After these events the message may be said. -/
def Justified (job : Job) (T : List Event) (m : ClientMessage) : Prop :=
  match m.body.code with
  | .accept => Acknowledges T (cksum job.plain)
  | .retry => (∃ c, c ≠ cksum job.plain ∧ Acknowledges T c) ∧ uploads T < job.bound
  | .giveUp => (∃ c, c ≠ cksum job.plain ∧ Acknowledges T c) ∧ uploads T = job.bound ∧
      (acknowledged T).length = job.bound ∧ ∀ c ∈ acknowledged T, c ≠ cksum job.plain
  | _ => True

/-- After these events the event may happen; the server may say anything at any time. -/
def Allowed (job : Job) (T : List Event) : Event → Prop
  | .said m => Justified job T m
  | .heard _ => True

theorem acknowledged_map (ms : List ClientMessage) : acknowledged (ms.map .said) = [] := by
  induction ms with
  | nil => rfl
  | cons m ms ih => exact ih

/-- What is said after a message changes nothing about the acknowledgements. -/
theorem acknowledged_heard (T : List Event) (body : ServerBody) (ms : List ClientMessage) :
    acknowledged (T ++ .heard body :: ms.map .said) =
      acknowledged T ++ (Event.heard body).checksum?.toList := by
  rw [acknowledged, List.filterMap_append, List.filterMap_cons, ← acknowledged, ← acknowledged,
    acknowledged_map]
  cases (Event.heard body).checksum? <;> rfl

/-! ## §4 Stages -/

/-- The last event was that the engine said `m`, after it had said `ms`. -/
def Paused (T : List Event) (ms : List ClientMessage) (m : ClientMessage) : Prop :=
  ∃ T', said T' = ms ∧ T = T' ++ [.said m]

theorem Paused.said_eq {T : List Event} {ms : List ClientMessage} {m : ClientMessage}
    (h : Paused T ms m) : said T = ms ++ [m] := by
  obtain ⟨T', rfl, rfl⟩ := h
  rw [said_append, said_said, said_nil]

theorem Paused.not_confirmed {T : List Event} {ms : List ClientMessage} {m : ClientMessage}
    (h : Paused T ms m) : ¬ Confirmed T := by
  obtain ⟨T', -, rfl⟩ := h
  rintro ⟨T'', m', heq, -⟩
  -- A confirmed log ends with something heard.
  rw [List.append_cons T'' (.said m')] at heq
  cases (List.append_inj' heq rfl).2

/-- After a pause, only the confirmation of an accepted checksum confirms an upload. -/
theorem Paused.not_confirmed_heard {T : List Event} {ms : List ClientMessage} {m : ClientMessage}
    (h : Paused T ms m) {body : ServerBody} (hm : m.body.code = .accept → body ≠ .success) :
    ¬ Confirmed (T ++ [.heard body]) := by
  obtain ⟨T', -, rfl⟩ := h
  rintro ⟨T'', m', heq, hcode⟩
  rw [List.append_assoc] at heq
  obtain ⟨hm', hbody⟩ := List.cons.inj (List.append_inj' heq rfl).2
  cases hm'
  cases hbody
  exact hm hcode rfl

section Stages

variable (job : Job) (v : UInt8) (id : Option ClientId)

/-- The engine follows the script of an upload that is accepted. -/
def OnCourse (T : List Event) : Prop :=
  ∃ client content k, id.getD client = client ∧ k < job.bound ∧
    said T <+: script job v id client content k (.accept job.filename)

/-- The acknowledgements so far were `k` in number, and all wrong. -/
def Mismatched (T : List Event) (k : Nat) : Prop :=
  (acknowledged T).length = k ∧ ∀ c ∈ acknowledged T, c ≠ cksum job.plain

/-- How far the script got, for each message that is waited for. -/
def Stage (T : List Event) : Wait → Prop
  | .identity => id = none ∧ acknowledged T = [] ∧
      Paused T [] { sender := ClientId.unregistered, version := v, body := .registration job.name }
  | .sessionKey client => id.getD client = client ∧ acknowledged T = [] ∧
      Paused T (asking job v id) (presenting job v client)
  | .acknowledgement client upload number => ∃ content k,
      upload = .upload job.filename content ∧ number = k + 1 ∧ k < job.bound ∧
      id.getD client = client ∧ Mismatched job T k ∧
      Paused T (leading job v id client content k) (sending job v client content)
  | .confirmation number => ∃ client content k,
      number = k + 1 ∧ k < job.bound ∧ id.getD client = client ∧
      Paused T (leading job v id client content k ++ [sending job v client content])
        { sender := client, version := v, body := .accept job.filename }
  | .nothing (.ok (.verified number checksum)) => checksum = cksum job.plain ∧ Confirmed T ∧
      ∃ client content k, number = k + 1 ∧ k < job.bound ∧ id.getD client = client ∧
        said T = script job v id client content k (.accept job.filename)
  | .nothing (.ok (.gaveUp number)) => ∃ client content k,
      number = job.bound ∧ job.bound = k + 1 ∧ id.getD client = client ∧
      Paused T (leading job v id client content k ++ [sending job v client content])
        { sender := client, version := v, body := .giveUp job.filename }
  | .nothing (.error _) => OnCourse job v id T ∧ ¬ Confirmed T

end Stages

end BackupVault.Engine
