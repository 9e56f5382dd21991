import BackupVault.Proofs.Upload.EngineStages

/-!
# The conduct of the upload engine

What an engine says to a server, whatever the server sends: a prefix of one script, in which the
file is sent at most as often as the job allows, each verdict is justified by the acknowledgement
before it, and the outcome of the upload tells which verdict was given and confirmed.

## Overview

- `Engine.Lawful`: what holds of a run with what was said and heard in it
- `Engine.Observed.lawful`: every run keeps the law
- `Engine.conduct`: every upload keeps the law and ends
-/

set_option autoImplicit false

namespace BackupVault.Engine

/-! ## §1 The law -/

/-- The attempts that an outcome speaks of. -/
def attempts : UploadOutcome → Nat
  | .verified number _ => number
  | .gaveUp number => number

/-- The messages said are a prefix of the script of an upload of at most as many attempts as the
job allows, with one verdict at its end. -/
def Follows (job : Job) (v : UInt8) (id : Option ClientId) (T : List Event) : Prop :=
  ∃ client content k verdict, id.getD client = client ∧ k < job.bound ∧
    (verdict = .accept job.filename ∨ verdict = .giveUp job.filename) ∧
    said T <+: script job v id client content k verdict

/-- What holds of a run with what was said and heard in it. -/
structure Lawful (job : Job) (id : Option ClientId) (channel : Channel) (T : List Event)
    (r : Run) : Prop where
  /-- The bytes written are those of the messages said. -/
  wrote : Wrote channel (said T) r.channel
  /-- These messages follow the script. -/
  follows : Follows job channel.version id T
  /-- Every upload is the same, byte for byte. -/
  identical : ∀ m ∈ said T, ∀ n ∈ said T, m.body.code = .upload → n.body.code = .upload →
    m.encode = n.encode
  /-- Each verdict is justified by what was heard and said before it. -/
  orderly : Orderly (Allowed job) T
  /-- The upload is verified exactly if its checksum was accepted and this was confirmed. -/
  verified : ∀ number checksum, r.outcome? = some (.ok (.verified number checksum)) ↔
    number = uploads T ∧ checksum = cksum job.plain ∧ Confirmed T
  /-- It was given up exactly if the engine said so. -/
  gaveUp : ∀ number, r.outcome? = some (.ok (.gaveUp number)) ↔
    number = job.bound ∧ ∃ m ∈ said T, m.body.code = .giveUp
  /-- The outcome counts the uploads that were sent. -/
  counted : ∀ outcome, r.outcome? = some (.ok outcome) → attempts outcome = uploads T

section Law

variable {job : Job} {v : UInt8} {id : Option ClientId} {client : ClientId} {content : Bytes}
  {k : Nat} {T : List Event} {verdict : ClientBody} {m : ClientMessage}

theorem OnCourse.not_giveUp (h : OnCourse job v id T) :
    ¬ ∃ m ∈ said T, m.body.code = .giveUp := by
  rintro ⟨m, hm, hcode⟩
  obtain ⟨client, content, k, -, -, hpre⟩ := h
  exact not_giveUp_of_mem_script (hpre.subset hm) hcode

theorem uploads_of_script (h : said T = script job v id client content k verdict)
    (hverdict : verdict.code ≠ .upload) : uploads T = k + 1 := by
  rw [uploads, h, script, List.countP_append, countP_leading, List.countP_cons_of_pos (by rfl),
    List.countP_singleton]
  simp [hverdict]

theorem OnCourse.follows (h : OnCourse job v id T) : Follows job v id T := by
  obtain ⟨client, content, k, hclient, hk, hpre⟩ := h
  exact ⟨client, content, k, _, hclient, hk, .inl rfl, hpre⟩

theorem Stage.follows {wait : Wait} (h : Stage job v id T wait) : Follows job v id T := by
  match wait with
  -- As long as something is waited for, an acceptance may still come at the end.
  | .identity | .sessionKey _ | .acknowledgement .. | .confirmation _ =>
    exact (h.onCourse (by simp)).follows
  | .nothing (.error _) => exact h.1.follows
  | .nothing (.ok (.verified ..)) =>
    obtain ⟨-, -, client, content, k, -, hk, hclient, hsaid⟩ := h
    exact ⟨client, content, k, _, hclient, hk, .inl rfl, hsaid ▸ List.prefix_rfl⟩
  | .nothing (.ok (.gaveUp number)) =>
    obtain ⟨client, content, k, -, hbound, hclient, hpaused⟩ := h
    refine ⟨client, content, k, _, hclient, by omega, .inr rfl, ?_⟩
    rw [hpaused.said_eq, List.append_assoc]
    exact List.prefix_rfl

theorem Follows.identical (h : Follows job v id T) : ∀ m ∈ said T, ∀ n ∈ said T,
    m.body.code = .upload → n.body.code = .upload → m = n := by
  obtain ⟨client, content, k, verdict, -, -, hverdict, hpre⟩ := h
  have hcode : verdict.code ≠ .upload := by
    rcases hverdict with rfl | rfl <;> exact fun h => nomatch h
  intro m hm n hn hm' hn'
  rw [eq_sending_of_mem_script (hpre.subset hm) hcode hm',
    eq_sending_of_mem_script (hpre.subset hn) hcode hn']

/-- An upload that was neither verified nor given up shows no sign of it. -/
theorem Stage.open_or_failed {wait : Wait} (h : Stage job v id T wait)
    (hw : ∀ o, wait ≠ .nothing (.ok o)) :
    ¬ Confirmed T ∧ ¬ ∃ m ∈ said T, m.body.code = .giveUp := by
  -- Either a message is still waited for, or the upload has failed.
  by_cases hopen : ∀ o, wait ≠ .nothing o
  · obtain ⟨ms, m, hpaused, -⟩ := h.paused hopen
    exact ⟨hpaused.not_confirmed, (h.onCourse hopen).not_giveUp⟩
  · match wait with
    | .identity | .sessionKey _ | .acknowledgement .. | .confirmation _ =>
      exact absurd (fun o => by simp) hopen
    | .nothing (.ok o) => exact absurd rfl (hw o)
    | .nothing (.error _) => exact ⟨h.2, h.1.not_giveUp⟩

/-- The outcome of a stage, as far as the upload was verified. -/
theorem Stage.verified_iff {wait : Wait} (h : Stage job v id T wait) (number : Nat)
    (checksum : UInt32) : wait = .nothing (.ok (.verified number checksum)) ↔
      number = uploads T ∧ checksum = cksum job.plain ∧ Confirmed T := by
  match wait with
  | .nothing (.ok (.verified number' checksum')) =>
    obtain ⟨rfl, hconfirmed, client, content, k, rfl, -, -, hsaid⟩ := h
    have huploads := uploads_of_script hsaid (by simp [ClientBody.code])
    constructor
    · intro heq
      cases heq
      exact ⟨huploads.symm, rfl, hconfirmed⟩
    · rintro ⟨rfl, rfl, -⟩
      rw [huploads]
  | .nothing (.ok (.gaveUp _)) =>
    obtain ⟨client, content, k, -, -, -, hpaused⟩ := h
    exact ⟨fun heq => by simp at heq, fun heq => absurd heq.2.2 hpaused.not_confirmed⟩
  -- In all other stages there was no confirmation.
  | .identity | .sessionKey _ | .acknowledgement .. | .confirmation _ | .nothing (.error _) =>
    exact ⟨fun heq => by simp at heq, fun heq => absurd heq.2.2 (h.open_or_failed (by simp)).1⟩

/-- The outcome of a stage, as far as the upload was given up. -/
theorem Stage.gaveUp_iff {wait : Wait} (h : Stage job v id T wait) (number : Nat) :
    wait = .nothing (.ok (.gaveUp number)) ↔
      number = job.bound ∧ ∃ m ∈ said T, m.body.code = .giveUp := by
  match wait with
  | .nothing (.ok (.gaveUp number')) =>
    obtain ⟨client, content, k, rfl, -, -, hpaused⟩ := h
    have hmem : ∃ m ∈ said T, m.body.code = .giveUp :=
      ⟨_, by rw [hpaused.said_eq]; exact List.mem_append_right _ List.mem_cons_self, rfl⟩
    constructor
    · intro heq
      cases heq
      exact ⟨rfl, hmem⟩
    · rintro ⟨rfl, -⟩
      rfl
  | .nothing (.ok (.verified ..)) =>
    obtain ⟨-, -, client, content, k, -, hk, hclient, hsaid⟩ := h
    have hcourse : OnCourse job v id T :=
      ⟨client, content, k, hclient, hk, hsaid ▸ List.prefix_rfl⟩
    exact ⟨fun heq => by simp at heq, fun heq => absurd heq.2 hcourse.not_giveUp⟩
  -- In all other stages the engine has not given up.
  | .identity | .sessionKey _ | .acknowledgement .. | .confirmation _ | .nothing (.error _) =>
    exact ⟨fun heq => by simp at heq, fun heq => absurd heq.2 (h.open_or_failed (by simp)).2⟩

theorem Stage.counted {outcome : UploadOutcome}
    (h : Stage job v id T (.nothing (.ok outcome))) : attempts outcome = uploads T := by
  cases outcome with
  | verified number checksum => exact ((h.verified_iff number checksum).mp rfl).1
  | gaveUp number =>
    obtain ⟨client, content, k, rfl, hbound, -, hpaused⟩ := h
    have hscript : said T = script job v id client content k (.giveUp job.filename) := by
      rw [hpaused.said_eq, List.append_assoc]
      rfl
    rw [uploads_of_script hscript (by simp [ClientBody.code])]
    exact hbound

theorem outcome_eq_some {r : Run} {o : Except ClientError UploadOutcome} :
    r.outcome? = some o ↔ r.wait = .nothing o := by
  unfold Run.outcome?
  cases r.wait <;> simp

/-- Whatever the server sends and whenever, a run keeps the law. -/
theorem Observed.lawful {channel : Channel} {r : Run} (hlimit : channel.outgoing.limit = none)
    (h : Observed job id channel T r) : Lawful job id channel T r := by
  -- All of it follows from the stage that was reached.
  obtain ⟨hsteady, hstage, hord⟩ := h.kept (kept_reached job id channel.version) hlimit
  refine ⟨hsteady.wrote, hstage.follows, ?_, hord, ?_, ?_, ?_⟩
  · intro m hm n hn hm' hn'
    rw [hstage.follows.identical m hm n hn hm' hn']
  · intro number checksum
    rw [outcome_eq_some]
    exact hstage.verified_iff number checksum
  · intro number
    rw [outcome_eq_some]
    exact hstage.gaveUp_iff number
  · intro outcome houtcome
    rw [outcome_eq_some] at houtcome
    exact (houtcome ▸ hstage).counted

end Law

/-! ## §2 Every upload -/

/-- What holds of all uploads of a job by a client with or without an identity. -/
structure Conduct (job : Job) (id : Option ClientId) : Prop where
  /-- Every observed run keeps the law, whatever arrives and whenever. -/
  lawful : ∀ channel T r, channel.outgoing.limit = none → Observed job id channel T r →
    Lawful job id channel T r
  /-- With any stream of bytes of the server at hand, cut and ended in any way, the run ends. -/
  finishes : ∀ version incoming, ∃ T,
    Observed job id { version, incoming } T (Run.begin job id { version, incoming }).finish ∧
      (Run.begin job id { version, incoming }).finish.outcome?.isSome
  /-- With a server that answers what it has been sent as it likes, the run ends as well. -/
  converses : ∀ (κ : Type) (peer : Peer κ Id) (version : UInt8) (identity : Identity) (line : κ),
    identity.id = id → ∃ T r,
      Observed job id { version, incoming := Reader.ofBytes ByteArray.empty } T r ∧
        upload peer version identity (.ok job) line = r.result identity ∧
        r.outcome? = some (r.result identity).outcome

theorem conduct_of_job (job : Job) (id : Option ClientId) : Conduct job id where
  lawful _ _ _ hlimit h := h.lawful hlimit
  finishes _ _ := finish_observed rfl
  converses κ peer version identity line hid := by
    subst hid
    obtain ⟨T, hT, hsteady, hrank⟩ := begin_observed job identity.id
      { version, incoming := Reader.ofBytes ByteArray.empty } rfl
    obtain ⟨T', hT', hsome⟩ := converse_observed peer 0 line hT hsteady hrank
    refine ⟨T', _, hT', ?_, ?_⟩
    · have hfuel : (Run.begin job identity.id
          { version, incoming := Reader.ofBytes ByteArray.empty }).enough = job.bound + 3 := by
        rw [Run.enough, hsteady.job]
        rfl
      rw [← hfuel]
      rfl
    · obtain ⟨outcome, houtcome⟩ := Option.isSome_iff_exists.mp hsome
      rw [Run.result, houtcome]
      rfl

/-- A job is made from the arguments as they are, with the names put into their fields. -/
theorem jobFor_eq_ok {identity : Identity} {filename : String} {plain : Bytes} {maxAttempts : Nat}
    {job : Job} (h : jobFor identity filename plain maxAttempts = .ok job) :
    Name.ofText identity.name = .ok job.name ∧ Name.ofText filename = .ok job.filename ∧
      job.keys = identity.keys ∧ job.plain = plain ∧ job.maxAttempts = maxAttempts := by
  unfold jobFor at h
  split at h
  · cases h
  · rename_i name hname
    split at h
    · cases h
    · rename_i file hfile
      cases h
      exact ⟨hname, hfile, rfl, rfl, rfl⟩

/-- **The conduct of the engine.**  For every identity, filename, plain content and number of
attempts: if a name does not fit its field, the upload fails without a byte being sent; otherwise
the job is about these arguments, and every upload of it keeps the law and ends. -/
theorem conduct (identity : Identity) (filename : String) (plain : Bytes) (maxAttempts : Nat) :
    match jobFor identity filename plain maxAttempts with
    | .error e => ∀ (κ : Type) (peer : Peer κ Id) (version : UInt8) (line : κ),
        upload peer version identity (jobFor identity filename plain maxAttempts) line =
          { outcome := .error e, identity }
    | .ok job => Name.ofText identity.name = .ok job.name ∧
        Name.ofText filename = .ok job.filename ∧ job.keys = identity.keys ∧ job.plain = plain ∧
        job.maxAttempts = maxAttempts ∧ Conduct job identity.id := by
  cases hjob : jobFor identity filename plain maxAttempts with
  | error e => exact fun _ _ _ _ => rfl
  | ok job =>
    obtain ⟨hname, hfile, hkeys, hplain, hattempts⟩ := jobFor_eq_ok hjob
    exact ⟨hname, hfile, hkeys, hplain, hattempts, conduct_of_job job identity.id⟩

end BackupVault.Engine
