import BackupVault.Proofs.Upload.EngineScript

/-!
# What each message leads to

Whatever the server sends, the engine goes on to the next stage of the script of its upload, gives
up in the end, or fails where it stands.

## Overview

- `Engine.Stage.onCourse`, `Engine.Stage.paused`: what all open stages have in common
- `Engine.Judging`: an acknowledgement that is to be judged
- `Engine.kept_reached`: every stage is reached in good order
-/

set_option autoImplicit false

namespace BackupVault.Engine

section Steps

variable {job : Job} {v : UInt8} {id : Option ClientId} {client : ClientId} {content : Bytes}
  {T : List Event} {wait w : Wait} {ms : List ClientMessage} {body : ServerBody}

/-! ## §1 Open stages -/

/-- While a message is waited for, the engine is on course. -/
theorem Stage.onCourse (h : Stage job v id T wait) (hw : ∀ o, wait ≠ .nothing o) :
    OnCourse job v id T := by
  cases wait with
  | identity =>
    obtain ⟨rfl, -, hpaused⟩ := h
    -- No client is known yet, so that any will do for the script.
    refine ⟨ClientId.unregistered, ByteArray.empty, 0, rfl, bound_pos job, ?_⟩
    rw [hpaused.said_eq]
    exact ⟨_, rfl⟩
  | sessionKey client =>
    obtain ⟨hclient, -, hpaused⟩ := h
    refine ⟨client, ByteArray.empty, 0, hclient, bound_pos job, ?_⟩
    rw [hpaused.said_eq]
    exact asking_prefix_script ..
  | acknowledgement client upload number =>
    obtain ⟨content, k, -, -, hk, hclient, -, hpaused⟩ := h
    refine ⟨client, content, k, hclient, hk, ?_⟩
    rw [hpaused.said_eq]
    exact leading_prefix_script ..
  | confirmation number =>
    obtain ⟨client, content, k, -, hk, hclient, hpaused⟩ := h
    refine ⟨client, content, k, hclient, hk, ?_⟩
    rw [hpaused.said_eq, List.append_assoc]
    exact List.prefix_rfl
  | nothing outcome => exact absurd rfl (hw outcome)

/-- While a message is waited for, the last event was that the engine said something, and it is an
acceptance only if its confirmation is waited for. -/
theorem Stage.paused (h : Stage job v id T wait) (hw : ∀ o, wait ≠ .nothing o) :
    ∃ ms m, Paused T ms m ∧ (m.body.code = .accept → ∃ number, wait = .confirmation number) := by
  cases wait with
  | identity => exact ⟨_, _, h.2.2, fun hm => nomatch hm⟩
  | sessionKey client => exact ⟨_, _, h.2.2, fun hm => nomatch hm⟩
  | acknowledgement client upload number =>
    obtain ⟨content, k, -, -, -, -, -, hpaused⟩ := h
    exact ⟨_, _, hpaused, fun hm => nomatch hm⟩
  | confirmation number =>
    obtain ⟨client, content, k, -, -, -, hpaused⟩ := h
    exact ⟨_, _, hpaused, fun _ => ⟨number, rfl⟩⟩
  | nothing outcome => exact absurd rfl (hw outcome)

/-- An upload may fail for want of a message. -/
theorem Stage.fail (h : Stage job v id T wait) (hw : ∀ o, wait ≠ .nothing o) (e : ClientError) :
    Stage job v id T (.nothing (.error e)) := by
  obtain ⟨ms, m, hpaused, -⟩ := h.paused hw
  exact ⟨h.onCourse hw, hpaused.not_confirmed⟩

/-- It may fail once a message was heard, unless this message is the confirmation. -/
theorem Stage.fail_heard (h : Stage job v id T wait) (hw : ∀ o, wait ≠ .nothing o)
    (hbody : ∀ number, wait = .confirmation number → body ≠ .success) (e : ClientError) :
    Stage job v id (T ++ [.heard body]) (.nothing (.error e)) := by
  obtain ⟨ms, m, hpaused, hm⟩ := h.paused hw
  refine ⟨?_, hpaused.not_confirmed_heard fun hcode => ?_⟩
  -- A message that is heard adds nothing to what was said.
  · obtain ⟨client, content, k, hclient, hk, hpre⟩ := h.onCourse hw
    refine ⟨client, content, k, hclient, hk, ?_⟩
    rw [said_append, said_heard, said_nil, List.append_nil]
    exact hpre
  · obtain ⟨number, hnumber⟩ := hm hcode
    exact hbody number hnumber

/-! ## §2 Messages -/

/-- A stage that was reached in good order. -/
def Reached (job : Job) (v : UInt8) (id : Option ClientId) (T : List Event) (wait : Wait) : Prop :=
  Stage job v id T wait ∧ Orderly (Allowed job) T

theorem Reached.fail_heard (h : Reached job v id T wait) (hw : ∀ o, wait ≠ .nothing o)
    (hbody : ∀ number, wait = .confirmation number → body ≠ .success) (e : ClientError) :
    Reached job v id (T ++ [.heard body]) (.nothing (.error e)) :=
  ⟨h.1.fail_heard hw hbody e, h.2.concat trivial⟩

theorem Reached.failed {e : ClientError} (h : Reached job v id T wait)
    (hw : ∀ o, wait ≠ .nothing o) (hbody : ∀ number, wait = .confirmation number → body ≠ .success)
    (hs : Spoken v (Engine.fail e).moves (Engine.fail e).wait ms w) :
    Reached job v id (T ++ .heard body :: ms.map .said) w := by
  obtain ⟨rfl, rfl⟩ := hs.silent rfl
  exact h.fail_heard hw hbody e

theorem reached_start (hs : Spoken v (start job id).moves (start job id).wait ms w) :
    Reached job v id (ms.map .said) w := by
  -- If the first message cannot be sent, nothing was said at all.
  have hnil : ∀ e, Reached job v id [] (.nothing (.error e)) := by
    refine fun e => ⟨⟨⟨id.getD ClientId.unregistered, ByteArray.empty, 0, ?_, bound_pos job,
      List.nil_prefix⟩, ?_⟩, Orderly.nil⟩
    · cases id <;> rfl
    · rintro ⟨T, m, h, -⟩
      simp at h
  cases id with
  | none =>
    rcases hs.single rfl with ⟨rfl, rfl⟩ | ⟨rfl, e, rfl⟩
    · exact ⟨⟨rfl, rfl, [], rfl, rfl⟩, Orderly.nil.concat trivial⟩
    · exact hnil e
  | some client =>
    rcases hs.single rfl with ⟨rfl, rfl⟩ | ⟨rfl, e, rfl⟩
    · exact ⟨⟨rfl, rfl, [], rfl, rfl⟩, Orderly.nil.concat trivial⟩
    · exact hnil e

theorem Reached.identity (h : Reached job v id T .identity)
    (hs : Spoken v (hear job .identity body).moves (hear job .identity body).wait ms w) :
    Reached job v id (T ++ .heard body :: ms.map .said) w := by
  simp only [hear] at hs
  cases hid : Channel.identityIn job.name body with
  | error e =>
    rw [hid] at hs
    exact h.failed (by simp) (by simp) hs
  | ok client =>
    rw [hid] at hs
    rcases hs.single rfl with ⟨rfl, rfl⟩ | ⟨rfl, e, rfl⟩
    · obtain ⟨⟨rfl, hacks, hpaused⟩, hord⟩ := h
      -- An answer with an identity acknowledges nothing.
      have hbody : (Event.heard body).checksum? = none := by
        cases body <;> first | rfl | cases hid
      refine ⟨⟨rfl, ?_, T ++ [.heard body], ?_, List.append_cons ..⟩, ?_⟩
      · rw [acknowledged_heard, hacks, hbody]; rfl
      · rw [said_append, hpaused.said_eq]; rfl
      · rw [List.map_singleton, List.append_cons]
        exact (hord.concat (e := Event.heard body) trivial).concat trivial
    · exact h.fail_heard (by simp) (by simp) e

theorem Reached.sessionKey {client : ClientId} (h : Reached job v id T (.sessionKey client))
    (hs : Spoken v (hear job (.sessionKey client) body).moves
      (hear job (.sessionKey client) body).wait ms w) :
    Reached job v id (T ++ .heard body :: ms.map .said) w := by
  simp only [hear] at hs
  cases hkey : Channel.sessionKeyIn client job.keys body with
  | error e =>
    rw [hkey] at hs
    exact h.failed (by simp) (by simp) hs
  | ok key =>
    rw [hkey] at hs
    rcases hs.single rfl with ⟨rfl, rfl⟩ | ⟨rfl, e, rfl⟩
    · obtain ⟨⟨hclient, hacks, hpaused⟩, hord⟩ := h
      -- An answer with a key acknowledges nothing either,
      have hbody : (Event.heard body).checksum? = none := by
        cases body <;> first | rfl | cases hkey
      -- so that the first attempt starts without wrong checksums.
      have hacks' : acknowledged (T ++ .heard body :: List.map .said
          [{ sender := client, version := v, body := sealedFile job key }]) = [] := by
        rw [acknowledged_heard, hacks, hbody]; rfl
      refine ⟨⟨key.encrypt job.plain, 0, rfl, rfl, bound_pos job, hclient, ⟨?_, ?_⟩,
        T ++ [.heard body], ?_, List.append_cons ..⟩, ?_⟩
      · rw [hacks']; rfl
      · rw [hacks']; simp
      · rw [said_append, hpaused.said_eq]
        simp [leading, retries]
      · rw [List.map_singleton, List.append_cons]
        exact (hord.concat (e := Event.heard body) trivial).concat trivial
    · exact h.fail_heard (by simp) (by simp) e

/-- An acknowledgement was heard after `k` wrong ones, and is to be judged. -/
structure Judging (job : Job) (v : UInt8) (id : Option ClientId) (client : ClientId)
    (content : Bytes) (k : Nat) (checksum : UInt32) (T : List Event) : Prop where
  bound : k < job.bound
  known : id.getD client = client
  said : said T = leading job v id client content k ++ [sending job v client content]
  last : Acknowledges T checksum
  wrong : checksum ≠ cksum job.plain → Mismatched job T (k + 1)
  orderly : Orderly (Allowed job) T

theorem Stage.judging {k : Nat} {checksum : UInt32} (hk : k < job.bound)
    (hclient : id.getD client = client) (hwrong : Mismatched job T k)
    (hpaused : Paused T (leading job v id client content k) (sending job v client content))
    (hord : Orderly (Allowed job) T) (hbody : (Event.heard body).checksum? = some checksum) :
    Judging job v id client content k checksum (T ++ [.heard body]) := by
  -- The message that was heard is the last acknowledgement.
  have hacks : acknowledged (T ++ [.heard body]) = acknowledged T ++ [checksum] := by
    have h := acknowledged_heard T body []
    rwa [hbody] at h
  refine ⟨hk, hclient, ?_, ⟨T, _, rfl, hbody⟩, fun hne => ⟨?_, ?_⟩, hord.concat trivial⟩
  · rw [said_append, hpaused.said_eq, said_heard, said_nil, List.append_nil]
  · rw [hacks, List.length_append, hwrong.1]
    rfl
  · intro c hc
    rw [hacks] at hc
    rcases List.mem_append.mp hc with hc | hc
    · exact hwrong.2 c hc
    · rwa [List.mem_singleton.mp hc]

section Judging

variable {k : Nat} {checksum : UInt32}

theorem Judging.uploads (h : Judging job v id client content k checksum T) :
    uploads T = k + 1 := by
  rw [Engine.uploads, h.said, List.countP_append, countP_leading]
  rfl

/-- A right checksum is accepted. -/
theorem Judging.accept (h : Judging job v id client content k checksum T)
    (hright : checksum = cksum job.plain) :
    Reached job v id
      (T ++ [.said { sender := client, version := v, body := .accept job.filename }])
      (.confirmation (k + 1)) :=
  ⟨⟨client, content, k, rfl, h.bound, h.known, T, h.said, rfl⟩,
    h.orderly.concat (show Acknowledges T (cksum job.plain) from hright ▸ h.last)⟩

/-- At the last wrong checksum the engine gives up. -/
theorem Judging.giveUp (h : Judging job v id client content k checksum T)
    (hne : checksum ≠ cksum job.plain) (hlast : job.bound ≤ k + 1) :
    Reached job v id
      (T ++ [.said { sender := client, version := v, body := .giveUp job.filename }])
      (.nothing (.ok (.gaveUp (k + 1)))) := by
  -- As many files were sent as the job allows, and all were acknowledged wrongly.
  have hbound : job.bound = k + 1 := Nat.le_antisymm hlast h.bound
  refine ⟨⟨client, content, k, hbound.symm, hbound, h.known, T, h.said, rfl⟩, h.orderly.concat ?_⟩
  obtain ⟨hlen, hall⟩ := h.wrong hne
  exact ⟨⟨checksum, hne, h.last⟩, h.uploads.trans hbound.symm, hlen.trans hbound.symm, hall⟩

/-- At any other wrong checksum it announces that the file will be sent again. -/
theorem Judging.retry (h : Judging job v id client content k checksum T)
    (hne : checksum ≠ cksum job.plain) (hmore : k + 1 < job.bound) :
    Orderly (Allowed job) (T ++ [.said (retrying job v client)]) ∧
      Paused (T ++ [.said (retrying job v client)])
        (leading job v id client content k ++ [sending job v client content])
        (retrying job v client) :=
  ⟨h.orderly.concat ⟨⟨checksum, hne, h.last⟩, h.uploads ▸ hmore⟩, T, h.said, rfl⟩

theorem Judging.again (h : Judging job v id client content k checksum T)
    (hne : checksum ≠ cksum job.plain) (hmore : k + 1 < job.bound) :
    Reached job v id
      (T ++ [.said (retrying job v client)] ++ [.said (sending job v client content)])
      (.acknowledgement client (.upload job.filename content) (k + 2)) := by
  obtain ⟨hord, hpaused⟩ := h.retry hne hmore
  -- What the engine says acknowledges nothing, so that the count of wrong checksums stays.
  have hacks : acknowledged (T ++ [.said (retrying job v client)] ++
      [.said (sending job v client content)]) = acknowledged T := by
    simp [acknowledged, Event.checksum?]
  -- With the retry, the file just sent is part of what leads up to the next one.
  have hsaid : Engine.said (T ++ [.said (retrying job v client)]) =
      leading job v id client content (k + 1) := by
    rw [hpaused.said_eq, leading_succ, List.append_assoc]
    rfl
  refine ⟨⟨content, k + 1, rfl, rfl, hmore, h.known, ?_, _, hsaid, rfl⟩, hord.concat trivial⟩
  rw [Mismatched, hacks]
  exact h.wrong hne

theorem Judging.cut (h : Judging job v id client content k checksum T)
    (hne : checksum ≠ cksum job.plain) (hmore : k + 1 < job.bound) (e : ClientError) :
    Reached job v id (T ++ [.said (retrying job v client)]) (.nothing (.error e)) := by
  obtain ⟨hord, hpaused⟩ := h.retry hne hmore
  refine ⟨⟨⟨client, content, k + 1, h.known, hmore, ?_⟩, hpaused.not_confirmed⟩, hord⟩
  -- The retry was announced, but the file not sent; both are in the script of one attempt more.
  rw [hpaused.said_eq, script, leading_succ, List.append_assoc, List.append_assoc]
  exact ⟨_, List.append_assoc ..⟩

end Judging

theorem Reached.judged {upload : ClientBody} {number : Nat} {checksum : UInt32}
    (h : Reached job v id T (.acknowledgement client upload number))
    (hbody : (Event.heard body).checksum? = some checksum)
    (hs : Spoken v (judge job client upload number checksum).moves
      (judge job client upload number checksum).wait ms w) :
    Reached job v id (T ++ .heard body :: ms.map .said) w := by
  -- Nothing was said after the acknowledgement if the first message cannot be sent.
  have hbroken (e : ClientError) : Reached job v id (T ++ [.heard body]) (.nothing (.error e)) :=
    h.fail_heard (by simp) (by simp) e
  obtain ⟨⟨content, k, rfl, rfl, hk, hclient, hwrong, hpaused⟩, hord⟩ := h
  have hjudging := Stage.judging hk hclient hwrong hpaused hord hbody
  unfold judge at hs
  split at hs
  -- The checksum is right,
  · rename_i hright
    rcases hs.single rfl with ⟨rfl, rfl⟩ | ⟨rfl, e, rfl⟩
    · rw [List.map_singleton, List.append_cons]
      exact hjudging.accept hright
    · exact hbroken e
  · rename_i hne
    split at hs
    -- or it is wrong for the last time,
    · rename_i hlast
      rcases hs.single rfl with ⟨rfl, rfl⟩ | ⟨rfl, e, rfl⟩
      · rw [List.map_singleton, List.append_cons]
        exact hjudging.giveUp hne hlast
      · exact hbroken e
    -- or there are attempts left: a retry and the file are to be sent.
    · rename_i hmore
      rcases hs.double rfl with ⟨rfl, rfl⟩ | ⟨rfl | rfl, e, rfl⟩
      · rw [List.map_cons, List.map_singleton, List.append_cons, List.append_cons]
        exact hjudging.again hne (Nat.lt_of_not_le hmore)
      · rw [List.map_singleton, List.append_cons]
        exact hjudging.cut hne (Nat.lt_of_not_le hmore) e
      · exact hbroken e

theorem Reached.acknowledgement {upload : ClientBody} {number : Nat}
    (h : Reached job v id T (.acknowledgement client upload number))
    (hs : Spoken v (hear job (.acknowledgement client upload number) body).moves
      (hear job (.acknowledgement client upload number) body).wait ms w) :
    Reached job v id (T ++ .heard body :: ms.map .said) w := by
  cases body with
  | uploaded origin size filename checksum => exact h.judged rfl hs
  | _ => exact h.failed (by simp) (by simp) hs

theorem Reached.confirmation {number : Nat} (h : Reached job v id T (.confirmation number))
    (hs : Spoken v (hear job (.confirmation number) body).moves
      (hear job (.confirmation number) body).wait ms w) :
    Reached job v id (T ++ .heard body :: ms.map .said) w := by
  cases body with
  | success =>
    obtain ⟨rfl, rfl⟩ := hs.silent rfl
    -- The last thing said was the acceptance, so that this message confirms it.
    obtain ⟨⟨client, content, k, rfl, hk, hclient, hpaused⟩, hord⟩ := h
    refine ⟨⟨rfl, ?_, client, content, k, rfl, hk, hclient, ?_⟩, hord.concat trivial⟩
    · obtain ⟨T', -, rfl⟩ := hpaused
      exact ⟨T', _, by rw [List.append_assoc]; rfl, rfl⟩
    · rw [List.map_nil, said_append, hpaused.said_eq]
      simp [script]
  | _ => exact h.failed (by simp) (by simp) hs

end Steps

/-- Every stage is reached in good order, whatever is heard. -/
theorem kept_reached (job : Job) (id : Option ClientId) (v : UInt8) :
    Kept job id v (Reached job v id) where
  start _ _ hs := reached_start hs
  hear T wait body ms w h hw hs := by
    cases wait with
    | identity => exact h.identity hs
    | sessionKey client => exact h.sessionKey hs
    | acknowledgement client upload number => exact h.acknowledgement hs
    | confirmation number => exact h.confirmation hs
    | nothing outcome => exact absurd rfl (hw outcome)
  fail T wait e h hw := ⟨h.1.fail hw e, h.2⟩

end BackupVault.Engine
